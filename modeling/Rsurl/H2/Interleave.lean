/-
# `Rsurl.H2.Interleave` — a batch, one thing at a time

`Does` lists what a batch does with the events it makes: a start, a write of
the pump, a frame handled or refused, a request charged with an error.  The
list says nothing about order, and the loop is one run of it
(`reaches_final`); what holds of every run of `Does` holds of the loop.
-/
import Rsurl.H2.TraceBatch

namespace Rsurl.H2

open Http (Request Response)
open Relation (ReflTransGen)

namespace Batch

/-! ## What a batch does -/

/-- What a turn of `start_queued` puts on the wire. -/
def startEvents (reqs : List Request) (b : Batch) : List Event :=
  match b.queue, b.conn.openStream with
  | idx :: _, (.ok id, conn) =>
      match reqs[idx]? with
      | none => []
      | some req =>
          match (conn.stageRequestOn id req).1 with
          | .error _ => []
          | .ok () => .request id req :: (conn.headerFrames id req).map .outbound
  | _, _ => []

/-- The stream that is done is handed out and its slot is filled. -/
def deliver (codec : Codec) (b : Batch) (outcome : DispatchOutcome) : Batch :=
  match outcome with
  | .cont => b
  | .done id =>
      match b.idToIdx.lookup id, b.conn.streams.lookup id with
      | some idx, some stream =>
          let conn := { b.conn with streams := b.conn.streams.erase id }
          { b with conn, idToIdx := b.idToIdx.erase id }.setResult idx
            (buildResponseFromStream codec stream)
      | _, _ => b

/-- One thing a batch does, with its events. -/
inductive Does (codec : Codec) (reqs : List Request) (b : Batch) : List Event → Batch → Prop
  | starts {b' : Batch} (h : Starts reqs b b') : Does codec reqs b (b.startEvents reqs) b'
  | sends {new : List Event} {conn : Connection} (h : Acts .multi false b.conn new conn)
      (hids : SameIds b.conn conn) (hdata : ∀ e ∈ new, ∃ f, e = .outbound f ∧ f.typ = fData) :
      Does codec reqs b new { b with conn }
  | refused {source : Source} {f : Frame} {e : Error} {conn : Connection}
      (h : (b.conn.receive source f).processFrame f = (.error e, conn)) :
      Does codec reqs b [.inbound f false] { b with conn }
  | charged {idx : Nat} {b' : Batch} {e : Error}
      (h : takeStreamError b = some (idx, b')) : Does codec reqs b [] (b'.setResult idx (.error e))
  | handled {source : Source} {f : Frame} {o : DispatchOutcome} {conn : Connection}
      (h : (b.conn.receive source f).processFrame f = (.ok o, conn)) :
      Does codec reqs b (.inbound f true :: (b.conn.answers f).map .outbound)
        ((failGoawayDoomed { b with conn }).deliver codec o)
  /-- Slots are failed, and the queue changes. -/
  | notes {results : List (Option (Result Response))} {queue : List Nat}
      (h : ∀ (i : Nat) (r : Response), results[i]? = some (some (.ok r)) →
        b.results[i]? = some (some (.ok r))) :
      Does codec reqs b [] { b with results, queue }

/-- `b'` comes out of `b` by what a batch does. -/
def Reaches (codec : Codec) (reqs : List Request) (b b' : Batch) : Prop :=
  ∃ evs, Base.Trace (Does codec reqs) b evs b'

section

variable {codec : Codec} {reqs : List Request} {b b' b'' : Batch}

theorem Reaches.refl (b : Batch) : Reaches codec reqs b b := ⟨[], .nil⟩

theorem Reaches.single {new : List Event} (h : Does codec reqs b new b') :
    Reaches codec reqs b b' := ⟨new, .single h⟩

theorem Reaches.trans (h : Reaches codec reqs b b') (h' : Reaches codec reqs b' b'') :
    Reaches codec reqs b b'' := by
  obtain ⟨evs, hpath⟩ := h
  obtain ⟨evs', hpath'⟩ := h'
  exact ⟨_, hpath.trans hpath'⟩

/-! ## The loop -/

theorem reaches_startQueued (b : Batch) : Reaches codec reqs b (b.startQueued reqs) :=
  startQueued_induct reqs (P := Reaches codec reqs b)
    (fun hstart hb => hb.trans (.single (.starts hstart))) (.refl b)

theorem reaches_conn {conn : Connection} (h : Acts .multi false b.conn [] conn)
    (hids : SameIds b.conn conn) : Reaches codec reqs b { b with conn } := by
  refine .single (.sends h hids ?_)
  intro e he
  cases he

theorem sameIds_of_setStream {c : Connection} {id : Nat} {s : Stream}
    (hs : c.streams.lookup id = some s) (s' : Stream) : SameIds c (c.setStream id s') where
  ids j := by
    by_cases hj : j = id
    · subst hj
      rw [hs]
      exact ⟨fun _ => ⟨s, rfl⟩, fun _ => ⟨s', AList.lookup_insert _⟩⟩
    · rw [Connection.setStream, AList.lookup_insert_ne hj]
  next := rfl

theorem sameIds_of_pumps {ok : Bool} {maxFrameSize : Nat} {c c' : Connection}
    (h : Pumps ok maxFrameSize c c') : SameIds c c' := by
  have hsent : ∀ {id s chunk isLast c₁ s₁} (s' : Stream), c.streams.lookup id = some s →
      c.sendChunk id s chunk isLast = (.ok s₁, c₁) → SameIds c (c₁.setStream id s') := by
    intro id s chunk isLast c₁ s₁ s' hs hsend
    have hmoves := sendChunk_moves hs chunk isLast
    rw [hsend] at hmoves
    exact hmoves.1.sameIds.trans (sameIds_of_setStream (hmoves.2 s₁ rfl) s')
  cases h with
  | cleared hs => exact sameIds_of_setStream hs _
  | advanced hs _ _ _ _ hsend | finished hs _ _ _ _ hsend => exact hsent _ hs hsend
  | failed _ hs _ _ _ hsend => exact (moves_of_sendChunk hs hsend).sameIds

theorem reaches_pumps {maxFrameSize : Nat} {conn : Connection}
    (h : ReflTransGen (Pumps false maxFrameSize) b.conn conn)
    (hmax : maxFrameSize = b.conn.peer.maxFrameSize) :
    Reaches codec reqs b { b with conn } := by
  induction h with
  | refl => exact .refl b
  | @tail c₁ c₂ hpumps hpump ih =>
      have hids := sameIds_of_pumps hpump
      rw [hmax, ← (keepsPeer_of_pumps hpumps).peer] at hpump
      obtain ⟨new, hact, hdata⟩ := hpump.acts (p := .multi) (by decide)
      have hsend : Does codec reqs { b with conn := c₁ } new { b with conn := c₂ } :=
        .sends hact hids hdata
      exact ih.trans (.single hsend)

/-- Flushing, whether all goes out or a write fails. -/
theorem reaches_flushPending {res : Result Unit} {conn : Connection}
    (h : b.conn.flushPending = (res, conn)) : Reaches codec reqs b { b with conn } := by
  have hpumps := flushPending_pumps false b.conn nofun
  rw [h] at hpumps
  exact reaches_pumps hpumps rfl

/-- A slot that is set to an error held no response that is there now. -/
theorem ok_of_setError {e : Error} {r : Response} {idx i : Nat}
    {results : List (Option (Result Response))}
    (h : (results.set idx (some (.error e)))[i]? = some (some (.ok r))) :
    results[i]? = some (some (.ok r)) := by
  by_cases hi : idx = i
  · subst hi
    rw [List.getElem?_set_self'] at h
    obtain ⟨_, -, heq⟩ := Option.map_eq_some_iff.mp h
    cases heq
  · rwa [List.getElem?_set_ne hi] at h

/-- Failing slots brings no response. -/
theorem ok_of_failSlots {e : Error} {r : Response} {i : Nat} (idxs : List Nat)
    {results : List (Option (Result Response))}
    (h : (idxs.foldl (failSlot e) results)[i]? = some (some (.ok r))) :
    results[i]? = some (some (.ok r)) := by
  induction idxs generalizing results with
  | nil => exact h
  | cons idx idxs ih =>
      have hmem := ih h
      unfold failSlot at hmem
      split at hmem
      · exact ok_of_setError hmem
      · exact hmem

theorem reaches_failSlots (b : Batch) (e : Error) (idxs queue : List Nat) :
    Reaches codec reqs b { b with results := idxs.foldl (failSlot e) b.results, queue } :=
  .single (.notes fun _ _ hr => ok_of_failSlots idxs hr)

theorem reaches_refill {goes : Bool} (h : b.refill reqs = (b', goes)) :
    Reaches codec reqs b b' := by
  unfold refill at h
  split at h
  · obtain ⟨rfl, -⟩ := Prod.mk.inj h
    exact .refl b
  split at h
  · obtain ⟨rfl, -⟩ := Prod.mk.inj h
    exact .refl b
  have hstart : Reaches codec reqs b (b.startQueued reqs) := reaches_startQueued b
  simp only at h
  split at h
  · obtain ⟨rfl, -⟩ := Prod.mk.inj h
    exact hstart.trans (reaches_failSlots ..)
  split at h
  · next hflush =>
      obtain ⟨rfl, -⟩ := Prod.mk.inj h
      exact hstart.trans (reaches_flushPending hflush)
  · next hflush =>
      obtain ⟨rfl, -⟩ := Prod.mk.inj h
      exact hstart.trans (reaches_flushPending hflush)

/-- A read that fails, or a frame that is refused. -/
theorem reaches_error {e : Error} {conn : Connection}
    (h : b.conn.readAndDispatch = (.error e, conn)) : Reaches codec reqs b { b with conn } := by
  rcases readAndDispatch_cases b.conn with ⟨e', source, hfail, -⟩ | ⟨f, source, -, hframe, -⟩
  · obtain ⟨-, rfl⟩ := Prod.mk.inj (hfail.symm.trans h)
    exact reaches_conn (.drops id) ⟨fun _ => Iff.rfl, rfl⟩
  · exact .single (.refused (hframe.symm.trans h))

theorem finishStream_cases (codec : Codec) (reqs : List Request) (b : Batch)
    (o : DispatchOutcome) : b.finishStream codec reqs o = b.deliver codec o ∨
      b.finishStream codec reqs o = (b.deliver codec o).startQueued reqs := by
  cases o with
  | cont => exact .inl rfl
  | done id =>
      simp only [finishStream, deliver]
      generalize b.idToIdx.lookup id = slot
      generalize b.conn.streams.lookup id = stream
      cases slot with
      | none => exact .inl rfl
      | some idx =>
          cases stream with
          | none => exact .inl rfl
          | some s => exact .inr rfl

theorem reaches_ok {o : DispatchOutcome} {conn : Connection}
    (h : b.conn.readAndDispatch = (.ok o, conn)) :
    Reaches codec reqs b (finishStream codec reqs (failGoawayDoomed { b with conn }) o) := by
  rcases readAndDispatch_cases b.conn with ⟨e, source, hfail, -⟩ | ⟨f, source, -, hframe, -⟩
  · cases hfail.symm.trans h
  have hhandled : Reaches codec reqs b ((failGoawayDoomed { b with conn }).deliver codec o) :=
    .single (.handled (hframe.symm.trans h))
  rcases finishStream_cases codec reqs (failGoawayDoomed { b with conn }) o with heq | heq
  · rwa [heq]
  · rw [heq]
    exact hhandled.trans (reaches_startQueued _)

theorem reaches_failAllOutstanding (b : Batch) (e : Error) :
    Reaches codec reqs b (failAllOutstanding b e) := reaches_failSlots ..

theorem reaches_charged {b₁ b₂ : Batch} {conn : Connection} {e : Error} {idx : Nat}
    (hrefill : b.refill reqs = (b₁, true)) (hread : b₁.conn.readAndDispatch = (.error e, conn))
    (htake : takeStreamError { b₁ with conn } = some (idx, b₂)) :
    Reaches codec reqs b ((b₂.setResult idx (.error e)).startQueued reqs) :=
  (reaches_refill hrefill).trans <| (reaches_error hread).trans <|
    (Reaches.single (.charged htake)).trans (reaches_startQueued _)

theorem Again.reaches (h : Again codec reqs b b') : Reaches codec reqs b b' := by
  cases h with
  | charged _ hrefill hread htake hflush =>
      exact (reaches_charged hrefill hread htake).trans (reaches_flushPending hflush)
  | handled _ hrefill hread hflush =>
      exact (reaches_refill hrefill).trans ((reaches_ok hread).trans (reaches_flushPending hflush))

theorem Leaves.reaches (h : Leaves codec reqs b b') : Reaches codec reqs b b' := by
  cases h with
  | full => exact .refl b
  | stuck _ hrefill => exact reaches_refill hrefill
  | fatal _ hrefill hread _ =>
      exact (reaches_refill hrefill).trans
        ((reaches_error hread).trans (reaches_failAllOutstanding _ _))
  | chargedBroken _ hrefill hread htake hflush =>
      exact (reaches_charged hrefill hread htake).trans
        ((reaches_flushPending hflush).trans (reaches_failAllOutstanding _ _))
  | handledBroken _ hrefill hread hflush =>
      exact (reaches_refill hrefill).trans ((reaches_ok hread).trans
        ((reaches_flushPending hflush).trans (reaches_failAllOutstanding _ _)))

theorem reaches_loop (codec : Codec) (reqs : List Request) (fuel : Nat) (b : Batch) :
    Reaches codec reqs b (loop codec reqs fuel b) := by
  obtain ⟨b', hpasses, hout⟩ := loop_leaves codec reqs fuel b
  have hreach : Reaches codec reqs b b' := by
    clear hout
    induction hpasses with
    | refl => exact .refl b
    | tail _ hagain ih => exact ih.trans hagain.reaches
  rcases hout with hleaves | heq
  · exact hreach.trans hleaves.reaches
  · rwa [heq]

/-- The state in which `run_multiplexed` collects its results is one the batch has come to. -/
theorem reaches_final (codec : Codec) (c : Connection) (reqs : List Request) :
    Reaches codec reqs (init c reqs) (final codec c reqs) := by
  have hstart : Reaches codec reqs (init c reqs) ((init c reqs).startQueued reqs) :=
    reaches_startQueued (init c reqs)
  unfold final
  simp only
  split
  · next hflush =>
      exact hstart.trans ((reaches_flushPending hflush).trans (reaches_failAllOutstanding _ _))
  · next hflush => exact hstart.trans ((reaches_flushPending hflush).trans (reaches_loop ..))

end

end Batch
end Rsurl.H2
