/-
# `Rsurl.H2.Sending` — request bodies, chunk by chunk

What the two send loops do to a connection, one DATA frame at a time: `Chunk`
is a frame that goes out within both windows, `Pumps` a turn of
`pump_pending_sends`.
-/
import Mathlib.Logic.Relation
import Rsurl.H2.Driver
import Rsurl.H2.Step

namespace Rsurl.H2

open Http (Request)
open Relation (ReflTransGen)

/-! ## Chunk sizes -/

theorem nextDataChunkSize_le_budget {max : Nat} {budget : Int} {remaining : Nat}
    (h : nextDataChunkSize max budget remaining ≠ 0) :
    (nextDataChunkSize max budget remaining : Int) ≤ budget := by
  unfold nextDataChunkSize at h ⊢
  split at h
  · exact absurd rfl h
  · next hpos =>
      rw [if_neg hpos]
      omega

theorem nextDataChunkSize_le_remaining (max : Nat) (budget : Int) (remaining : Nat) :
    nextDataChunkSize max budget remaining ≤ remaining := by
  unfold nextDataChunkSize
  split
  · exact Nat.zero_le _
  · omega

theorem nextDataChunkSize_pos {max : Nat} {budget : Int} {remaining : Nat} (hmax : 0 < max)
    (hbudget : 0 < budget) (hrem : 0 < remaining) :
    0 < nextDataChunkSize max budget remaining := by
  unfold nextDataChunkSize
  rw [if_neg (by omega)]
  omega

/-! ## A turn of the pump -/

/-- One turn of `pump_pending_sends` on one stream; with `ok`, one that does not fail. -/
inductive Pumps (ok : Bool) (maxFrameSize : Nat) (c : Connection) : Connection → Prop
  | cleared {id : Nat} {s : Stream} {pb : PendingBody} (hs : c.streams.lookup id = some s)
      (hpending : s.pendingBody = some pb) (hsent : pb.bytes.length - pb.sent = 0) :
      Pumps ok maxFrameSize c (c.setStream id { s with pendingBody := none })
  | advanced {id n : Nat} {s s' : Stream} {pb : PendingBody} {c' : Connection}
      (hs : c.streams.lookup id = some s) (hpending : s.pendingBody = some pb)
      (hsize : n = nextDataChunkSize maxFrameSize (s.sendBudget c.connSendWindow)
        (pb.bytes.length - pb.sent))
      (hpos : n ≠ 0) (hmore : n ≠ pb.bytes.length - pb.sent)
      (hsend : c.sendChunk id s ((pb.bytes.drop pb.sent).take n) false = (.ok s', c')) :
      Pumps ok maxFrameSize c
        (c'.setStream id { s' with pendingBody := some { pb with sent := pb.sent + n } })
  | finished {id n : Nat} {s s' : Stream} {pb : PendingBody} {c' : Connection}
      (hs : c.streams.lookup id = some s) (hpending : s.pendingBody = some pb)
      (hsize : n = nextDataChunkSize maxFrameSize (s.sendBudget c.connSendWindow)
        (pb.bytes.length - pb.sent))
      (hpos : n ≠ 0) (hlast : n = pb.bytes.length - pb.sent)
      (hsend : c.sendChunk id s ((pb.bytes.drop pb.sent).take n) true = (.ok s', c')) :
      Pumps ok maxFrameSize c (c'.setStream id { s' with pendingBody := none })
  | failed {id n : Nat} {s : Stream} {pb : PendingBody} {c' : Connection} {e : Error}
      (hok : ok = false) (hs : c.streams.lookup id = some s) (hpending : s.pendingBody = some pb)
      (hsize : n = nextDataChunkSize maxFrameSize (s.sendBudget c.connSendWindow)
        (pb.bytes.length - pb.sent))
      (hpos : n ≠ 0)
      (hsend : c.sendChunk id s ((pb.bytes.drop pb.sent).take n)
        (decide (n = pb.bytes.length - pb.sent)) = (.error e, c')) :
      Pumps ok maxFrameSize c c'

section

variable {ok : Bool}

/-- A result that is an error only in a run where errors are let through. -/
def Allowed (ok : Bool) {α : Type} (res : Result α) : Prop := ok = true → ∃ a, res = .ok a

theorem Allowed.of_error {α : Type} {e : Error} (h : Allowed ok (.error e : Result α)) :
    ok = false := by
  cases ok with
  | false => rfl
  | true =>
      obtain ⟨a, ha⟩ := h rfl
      cases ha

theorem Allowed.error {α β : Type} {e e' : Error} (h : Allowed ok (.error e : Result α)) :
    Allowed ok (.error e' : Result β) := by
  rw [h.of_error]
  exact nofun

theorem Pumps.weaken {maxFrameSize : Nat} {c c' : Connection} (h : Pumps true maxFrameSize c c') :
    Pumps ok maxFrameSize c c' := by
  cases h with
  | cleared hs hpending hsent => exact .cleared hs hpending hsent
  | advanced hs hpending hsize hpos hmore hsend =>
      exact .advanced hs hpending hsize hpos hmore hsend
  | finished hs hpending hsize hpos hlast hsend =>
      exact .finished hs hpending hsize hpos hlast hsend
  | failed hok => cases hok

/-- A turn of the pump that fails with `e`. -/
def PumpFails (maxFrameSize : Nat) (c : Connection) (e : Error) (c' : Connection) : Prop :=
  ∃ id n s pb, c.streams.lookup id = some s ∧ s.pendingBody = some pb ∧
    n = nextDataChunkSize maxFrameSize (s.sendBudget c.connSendWindow)
      (pb.bytes.length - pb.sent) ∧ n ≠ 0 ∧
    c.sendChunk id s ((pb.bytes.drop pb.sent).take n)
      (decide (n = pb.bytes.length - pb.sent)) = (.error e, c')

theorem PumpFails.pumps {maxFrameSize : Nat} {c c' : Connection} {e : Error}
    (h : PumpFails maxFrameSize c e c') : Pumps false maxFrameSize c c' := by
  obtain ⟨id, n, s, pb, hs, hpending, hsize, hpos, hsend⟩ := h
  exact .failed rfl hs hpending hsize hpos hsend

/-- Turns of the pump, to the end or up to the one that fails. -/
def PumpsTo (maxFrameSize : Nat) (c : Connection) (out : Result Unit × Connection) : Prop :=
  ∃ c₁, ReflTransGen (Pumps true maxFrameSize) c c₁ ∧
    (out = (.ok (), c₁) ∨ ∃ e, out.1 = .error e ∧ PumpFails maxFrameSize c₁ e out.2)

theorem PumpsTo.head {maxFrameSize : Nat} {c c' : Connection} {out : Result Unit × Connection}
    (h : Pumps true maxFrameSize c c') (hrest : PumpsTo maxFrameSize c' out) :
    PumpsTo maxFrameSize c out := by
  obtain ⟨c₁, hpumps, hout⟩ := hrest
  exact ⟨c₁, .head h hpumps, hout⟩

theorem pumpStream_pumpsTo (fuel maxFrameSize id : Nat) (c : Connection) :
    PumpsTo maxFrameSize c (Connection.pumpStream fuel c maxFrameSize id) := by
  induction fuel generalizing c with
  | zero => exact ⟨c, .refl, .inl rfl⟩
  | succ fuel ih =>
      unfold Connection.pumpStream
      split
      · exact ⟨c, .refl, .inl rfl⟩
      next s hs =>
      split
      · exact ⟨c, .refl, .inl rfl⟩
      next pb hpending =>
      simp only
      split
      · next hsent => exact ⟨_, .single (.cleared hs hpending hsent), .inl rfl⟩
      generalize hn : nextDataChunkSize maxFrameSize (s.sendBudget c.connSendWindow)
        (pb.bytes.length - pb.sent) = n
      split
      · exact ⟨c, .refl, .inl rfl⟩
      next hpos =>
      obtain ⟨res, c', hsend⟩ : ∃ res c', c.sendChunk id s ((pb.bytes.drop pb.sent).take n)
        (decide (n = pb.bytes.length - pb.sent)) = (res, c') := ⟨_, _, rfl⟩
      rw [hsend]
      cases res with
      | error e =>
          exact ⟨c, .refl, .inr ⟨e, rfl, id, n, s, pb, hs, hpending, hn.symm, hpos, hsend⟩⟩
      | ok s' =>
          simp only [Connection.andThen]
          by_cases hlast : n = pb.bytes.length - pb.sent
          · rw [decide_eq_true hlast] at hsend ⊢
            exact ⟨_, .single (.finished hs hpending hn.symm hpos hlast hsend), .inl rfl⟩
          · rw [decide_eq_false hlast] at hsend ⊢
            exact (ih _).head (.advanced hs hpending hn.symm hpos hlast hsend)

theorem pumpAll_pumpsTo (maxFrameSize : Nat) (ids : List Nat) (c : Connection) :
    PumpsTo maxFrameSize c (c.pumpAll maxFrameSize ids) := by
  induction ids generalizing c with
  | nil => exact ⟨c, .refl, .inl rfl⟩
  | cons id ids ih =>
      unfold Connection.pumpAll
      obtain ⟨c₁, hpumps, hout⟩ := pumpStream_pumpsTo (c.pendingLength id) maxFrameSize id c
      generalize Connection.pumpStream (c.pendingLength id) c maxFrameSize id = out at *
      rcases hout with rfl | ⟨e, hres, hfails⟩
      · obtain ⟨c₂, hpumps', hout'⟩ := ih c₁
        exact ⟨c₂, hpumps.trans hpumps', hout'⟩
      · obtain ⟨res, c'⟩ := out
        obtain rfl : res = .error e := hres
        exact ⟨c₁, hpumps, .inr ⟨e, rfl, hfails⟩⟩

theorem pumpPendingSends_pumpsTo (c : Connection) :
    PumpsTo c.peer.maxFrameSize c c.pumpPendingSends := pumpAll_pumpsTo _ _ c

theorem PumpsTo.pumps {maxFrameSize : Nat} {c : Connection} {out : Result Unit × Connection}
    (h : PumpsTo maxFrameSize c out) (hok : Allowed ok out.1) :
    ReflTransGen (Pumps ok maxFrameSize) c out.2 := by
  obtain ⟨c₁, hpumps, hout⟩ := h
  have hall : ReflTransGen (Pumps ok maxFrameSize) c c₁ :=
    hpumps.lift id fun _ _ => Pumps.weaken
  rcases hout with rfl | ⟨e, hres, hfails⟩
  · exact hall
  · rw [hres] at hok
    rw [hok.of_error] at hall ⊢
    exact hall.tail hfails.pumps

theorem pumpPendingSends_pumps (ok : Bool) (c : Connection)
    (hok : Allowed ok c.pumpPendingSends.1) :
    ReflTransGen (Pumps ok c.peer.maxFrameSize) c c.pumpPendingSends.2 :=
  (pumpPendingSends_pumpsTo c).pumps hok

theorem flush_snd (c : Connection) : c.flush.2 = c := by
  have hsink : c.tls.sink.flush.2 = c.tls.sink := by
    unfold Sink.flush
    split <;> rfl
  rw [Connection.flush, hsink]
  rfl

/-- `flush_pending` is a sequence of turns of the pump. -/
theorem flushPending_pumps (ok : Bool) (c : Connection) (hok : Allowed ok c.flushPending.1) :
    ReflTransGen (Pumps ok c.peer.maxFrameSize) c c.flushPending.2 := by
  unfold Connection.flushPending at hok ⊢
  have hpump := pumpPendingSends_pumps ok c
  generalize c.pumpPendingSends = out at *
  obtain ⟨res, c'⟩ := out
  cases res with
  | error e => exact hpump fun h => absurd (hok h) nofun
  | ok u =>
      show ReflTransGen _ c c'.flush.2
      rw [flush_snd]
      exact hpump fun _ => ⟨u, rfl⟩

end

/-! ## One spec lemma for each sender -/

/-- The HEADERS and CONTINUATION frames of a request. -/
def Connection.headerFrames (c : Connection) (id : Nat) (req : Request) : List Frame :=
  fragmentHeaderBlock id (buildHeaderBlock c.encoder req).1 c.peer.maxFrameSize req.body.isEmpty

theorem sendHeadersOn_eq_ok {c c' : Connection} {id : Nat} {req : Request} {s' : Stream}
    (h : c.sendHeadersOn id req = (.ok s', c')) :
    ∃ s state sink, c.streams.lookup id = some s ∧
      s.state.sendData req.body.isEmpty = .ok state ∧ s' = { s with state } ∧
      writeFrames c.tls.sink (c.headerFrames id req) = (.ok (), sink) ∧
      c' = { c with
        encoder := (buildHeaderBlock c.encoder req).2
        tls := { c.tls with sink }
        streams := c.streams.insert id s' } := by
  unfold Connection.sendHeadersOn at h
  simp only [Bool.not_not] at h
  split at h
  · cases h
  next sink hwrite =>
  split at h
  · cases h
  next s hs =>
  split at h
  · cases h
  next state hstate =>
  obtain ⟨hs', rfl⟩ := Prod.mk.inj h
  obtain rfl := Except.ok.inj hs'
  exact ⟨s, state, sink, hs, hstate, rfl, hwrite, rfl⟩

theorem stageRequestOn_eq_ok {c c' : Connection} {id : Nat} {req : Request}
    (h : c.stageRequestOn id req = (.ok (), c')) :
    ∃ s state sink pending, c.streams.lookup id = some s ∧
      s.state.sendData req.body.isEmpty = .ok state ∧
      writeFrames c.tls.sink (c.headerFrames id req) = (.ok (), sink) ∧
      pending = (if req.body.isEmpty then s.pendingBody
        else some { bytes := req.body, sent := 0 }) ∧
      c' = { c with
        encoder := (buildHeaderBlock c.encoder req).2
        tls := { c.tls with sink }
        streams := c.streams.insert id { s with state, pendingBody := pending } } := by
  unfold Connection.stageRequestOn at h
  obtain ⟨res, c₁, hsend⟩ : ∃ res c₁, c.sendHeadersOn id req = (res, c₁) := ⟨_, _, rfl⟩
  rw [hsend] at h
  cases res with
  | error e => cases h
  | ok s' =>
  obtain ⟨s, state, sink, hs, hstate, rfl, hwrite, rfl⟩ := sendHeadersOn_eq_ok hsend
  refine ⟨s, state, sink, _, hs, hstate, hwrite, rfl, ?_⟩
  simp only [Connection.andThen] at h
  split at h
  · next hempty =>
      obtain ⟨-, rfl⟩ := Prod.mk.inj h
      rw [if_pos hempty]
  · next hbody =>
      obtain ⟨-, rfl⟩ := Prod.mk.inj h
      rw [if_neg hbody]
      simp only [Connection.setStream, AList.insert_insert]

/-- A chunk that went out takes from both windows. -/
theorem sendChunk_spec {c c' : Connection} {id : Nat} {s : Stream} {chunk : Bytes} {isLast : Bool}
    {res : Result Stream} (hwrite : (writeFrame c.tls.sink (dataFrame id chunk isLast)).1 = .ok ())
    (h : c.sendChunk id s chunk isLast = (res, c')) :
    ∃ state sink, writeFrame c.tls.sink (dataFrame id chunk isLast) = (.ok (), sink) ∧
      c' = { c with
        tls := { c.tls with sink }
        connSendWindow := c.connSendWindow.consume chunk.length
        streams := c.streams.insert id
          { s with sendWindow := s.sendWindow.consume chunk.length, state } } ∧
      ((s.state.sendData isLast = .ok state ∧
          res = .ok { s with sendWindow := s.sendWindow.consume chunk.length, state }) ∨
        state = s.state ∧ ∃ e, s.state.sendData isLast = .error e ∧ res = .error e) := by
  unfold Connection.sendChunk at h
  split at h
  · next e sink hfail =>
      rw [hfail] at hwrite
      cases hwrite
  next sink hsink =>
  simp only at h
  split at h
  · next e he =>
      obtain ⟨rfl, rfl⟩ := Prod.mk.inj h
      exact ⟨s.state, sink, hsink, rfl, .inr ⟨rfl, e, he, rfl⟩⟩
  · next state hstate =>
      obtain ⟨rfl, rfl⟩ := Prod.mk.inj h
      exact ⟨state, sink, hsink, rfl, .inl ⟨hstate, rfl⟩⟩

theorem continuationFrames_shape {id : Nat} {chunks : List Bytes} {g : Frame}
    (h : g ∈ continuationFrames id chunks) :
    g.typ = fContinuation ∧ g.streamId = id ∧ g.has flagEndStream = false := by
  induction chunks using continuationFrames.induct with
  | case1 => cases h
  | case2 chunk =>
      rw [continuationFrames, List.mem_singleton] at h
      rw [h]
      exact ⟨rfl, rfl, by
        show (flagEndHeaders &&& flagEndStream != 0) = false
        decide⟩
  | case3 chunk chunks hne ih =>
      rw [continuationFrames] at h
      · rcases List.mem_cons.mp h with rfl | h
        · refine ⟨rfl, rfl, ?_⟩
          show ((0 : UInt8) &&& flagEndStream != 0) = false
          decide
        · exact ih h
      · exact hne

/-- The frames of a header block: HEADERS, which says whether the stream ends, then
CONTINUATION. -/
theorem fragmentHeaderBlock_shape {id max : Nat} {block : Bytes} {endStream : Bool} {g : Frame}
    (h : g ∈ fragmentHeaderBlock id block max endStream) :
    g.streamId = id ∧ ((g.typ = fHeaders ∧ g.has flagEndStream = endStream) ∨
      g.typ = fContinuation ∧ g.has flagEndStream = false) := by
  unfold fragmentHeaderBlock at h
  simp only at h
  split at h
  · rw [List.mem_singleton.mp h]
    refine ⟨rfl, .inl ⟨rfl, ?_⟩⟩
    show ((flagEndHeaders ||| if endStream then flagEndStream else 0) &&& flagEndStream != 0) = _
    cases endStream <;> decide
  · rw [List.mem_singleton.mp h]
    refine ⟨rfl, .inl ⟨rfl, ?_⟩⟩
    show (((if endStream then flagEndStream else 0) ||| flagEndHeaders) &&& flagEndStream != 0) = _
    cases endStream <;> decide
  · rcases List.mem_cons.mp h with rfl | h
    · refine ⟨rfl, .inl ⟨rfl, ?_⟩⟩
      show ((if endStream then flagEndStream else 0) &&& flagEndStream != 0) = _
      cases endStream <;> decide
    · obtain ⟨htyp, hid, hend⟩ := continuationFrames_shape h
      exact ⟨hid, .inr ⟨htyp, hend⟩⟩

/-! ## What sending keeps -/

/-- Everything of a connection that sending a body cannot change. -/
structure KeepsPeer (c c' : Connection) : Prop where
  peer : c'.peer = c.peer
  goaway : c'.goawayReceived = c.goawayReceived
  source : c'.tls.source = c.tls.source

theorem KeepsPeer.refl (c : Connection) : KeepsPeer c c := ⟨rfl, rfl, rfl⟩

theorem KeepsPeer.trans {c c' c'' : Connection} (h : KeepsPeer c c') (h' : KeepsPeer c' c'') :
    KeepsPeer c c'' :=
  ⟨h'.peer.trans h.peer, h'.goaway.trans h.goaway, h'.source.trans h.source⟩

theorem sendHeadersOn_keepsPeer (c : Connection) (id : Nat) (req : Request) :
    KeepsPeer c (c.sendHeadersOn id req).2 := by
  unfold Connection.sendHeadersOn
  simp only
  split
  · exact ⟨rfl, rfl, rfl⟩
  split
  · exact ⟨rfl, rfl, rfl⟩
  split <;> exact ⟨rfl, rfl, rfl⟩

theorem stageRequestOn_keepsPeer (c : Connection) (id : Nat) (req : Request) :
    KeepsPeer c (c.stageRequestOn id req).2 := by
  have hheaders := sendHeadersOn_keepsPeer c id req
  unfold Connection.stageRequestOn
  generalize c.sendHeadersOn id req = out at *
  obtain ⟨res, c₁⟩ := out
  cases res with
  | error e => exact hheaders
  | ok s =>
      show KeepsPeer c (if req.body.isEmpty then _ else _ : Result Unit × Connection).2
      split
      · exact hheaders
      · exact ⟨hheaders.peer, hheaders.goaway, hheaders.source⟩

theorem sendChunk_keepsPeer {c c' : Connection} {id : Nat} {s : Stream} {chunk : Bytes}
    {isLast : Bool} {res : Result Stream} (h : c.sendChunk id s chunk isLast = (res, c')) :
    KeepsPeer c c' := by
  obtain rfl := congrArg Prod.snd h
  unfold Connection.sendChunk
  split
  · exact ⟨rfl, rfl, rfl⟩
  simp only
  split <;> exact ⟨rfl, rfl, rfl⟩

theorem Pumps.keepsPeer {ok : Bool} {maxFrameSize : Nat} {c c' : Connection}
    (h : Pumps ok maxFrameSize c c') : KeepsPeer c c' := by
  cases h with
  | cleared => exact ⟨rfl, rfl, rfl⟩
  | advanced _ _ _ _ _ hsend | finished _ _ _ _ _ hsend | failed _ _ _ _ _ hsend =>
      have hkeeps := sendChunk_keepsPeer hsend
      exact ⟨hkeeps.peer, hkeeps.goaway, hkeeps.source⟩

theorem keepsPeer_of_pumps {ok : Bool} {maxFrameSize : Nat} {c c' : Connection}
    (h : ReflTransGen (Pumps ok maxFrameSize) c c') : KeepsPeer c c' := by
  induction h with
  | refl => exact .refl c
  | tail _ hpump ih => exact ih.trans hpump.keepsPeer

theorem flushPending_keepsPeer (c : Connection) : KeepsPeer c c.flushPending.2 :=
  keepsPeer_of_pumps (flushPending_pumps false c nofun)

end Rsurl.H2
