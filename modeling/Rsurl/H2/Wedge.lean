/-
# `Rsurl.H2.Wedge` — waiting for nothing

A stream that is closed without a complete response is waited for until the
peer hangs up.  Without frames that end a stream too early, GOAWAYs that
exclude the stream of `drive_until_stream_done`, and GOAWAYs taken back while
requests are queued, neither driver waits for such a stream (`unwedged_runs`).
-/
import Rsurl.H2.Strand

namespace Rsurl.H2

open Http (Request Response)
open Relation (ReflTransGen)
open Base (Keeps)

/-! ## Many streams: sending -/

/-- Every registered stream can still complete. -/
def Connection.AwaitsAll (c : Connection) : Prop :=
  ∀ ⦃id s⦄, c.streams.lookup id = some s → c.Awaits id s

section

variable {c c' : Connection} {id : Nat} {s : Stream}

/-- A stream with the same inbound side, a state that is the same or follows by a send, and no more
budget. -/
theorem Connection.Awaits.sent {s' : Stream} (h : c.Awaits id s)
    (hexp : c'.expectingContinuation = c.expectingContinuation)
    (hended : s'.endStreamRecv = s.endStreamRecv)
    (hheaders : s'.responseHeaders = s.responseHeaders)
    (hstate : s'.state = s.state ∨
      0 < s.sendBudget c.connSendWindow ∧ ∃ isLast, s.state.sendData isLast = .ok s'.state)
    (hbudget : s'.sendBudget c'.connSendWindow ≤ s.sendBudget c.connSendWindow) :
    c'.Awaits id s' := by
  cases h with
  | live hlive hwas =>
      refine .live (hended.trans hlive) ?_
      rcases hstate with heq | ⟨-, isLast, hsend⟩
      · rwa [heq]
      · rcases hwas with hwas | hwas
        · rw [hwas] at hsend
          cases isLast with
          | true => exact .inr (Except.ok.inj hsend).symm
          | false => exact .inl (Except.ok.inj hsend).symm
        · rw [hwas] at hsend
          cases hsend
  | inBlock hwas hremote hnone hexpecting hspent =>
      rcases hstate with heq | ⟨hpos, -⟩
      · exact .inBlock (hended.trans hwas) (heq.trans hremote) (hheaders.trans hnone)
          (hexp.trans hexpecting) (hbudget.trans hspent)
      · exact absurd hpos (Int.not_lt.mpr hspent)

/-- A chunk that goes out uses up budget. -/
theorem Connection.AwaitsAll.chunk (h : c.AwaitsAll) {s' : Stream} {chunk : Bytes} {isLast : Bool}
    (hs : c.streams.lookup id = some s) (hpos : 0 < s.sendBudget c.connSendWindow)
    (hsend : c.sendChunk id s chunk isLast = (.ok s', c')) (pending : Option PendingBody) :
    (c'.setStream id { s' with pendingBody := pending }).AwaitsAll := by
  have hwrite : (writeFrame c.tls.sink (dataFrame id chunk isLast)).1 = .ok () := by
    cases hres : writeFrame c.tls.sink (dataFrame id chunk isLast) with
    | mk res sink =>
        cases res with
        | ok u => rfl
        | error e =>
            rw [Connection.sendChunk, hres] at hsend
            cases hsend
  obtain ⟨state, sink, -, rfl, ⟨hstate, heq⟩ | ⟨-, e, -, heq⟩⟩ := sendChunk_spec hwrite hsend
  · obtain rfl := Except.ok.inj heq
    intro j t ht
    rw [Connection.setStream, AList.insert_insert] at ht
    rcases Base.Table.lookup_insert_cases ht with ⟨rfl, rfl⟩ | ⟨-, ht⟩
    · refine (h hs).sent rfl rfl rfl (.inr ⟨hpos, isLast, hstate⟩) ?_
      show min (s.sendWindow.available - chunk.length) (c.connSendWindow.available - chunk.length) ≤
        min s.sendWindow.available c.connSendWindow.available
      omega
    · refine (h ht).sent rfl rfl rfl (.inl rfl) ?_
      show min t.sendWindow.available (c.connSendWindow.available - chunk.length) ≤
        min t.sendWindow.available c.connSendWindow.available
      omega
  · cases heq

theorem Pumps.awaitsAll {maxFrameSize : Nat} (hpump : Pumps true maxFrameSize c c')
    (h : c.AwaitsAll) : c'.AwaitsAll := by
  have hpos : ∀ {n : Nat} {budget : Int} {remaining : Nat},
      n = nextDataChunkSize maxFrameSize budget remaining → n ≠ 0 → 0 < budget := by
    intro n budget remaining hsize hne
    subst hsize
    have hle := nextDataChunkSize_le_budget hne
    omega
  cases hpump with
  | @cleared id s pb hs =>
      intro j t ht
      rcases Base.Table.lookup_insert_cases ht with ⟨rfl, rfl⟩ | ⟨-, ht⟩
      · exact (h hs).sent rfl rfl rfl (.inl rfl) (Int.le_refl _)
      · exact (h ht).congr rfl rfl
  | advanced hs _ hsize hne _ hsend => exact h.chunk hs (hpos hsize hne) hsend _
  | finished hs _ hsize hne _ hsend => exact h.chunk hs (hpos hsize hne) hsend _
  | failed hok => cases hok

theorem Connection.AwaitsAll.flushPending (h : c.AwaitsAll) (hok : c.flushPending = (.ok (), c')) :
    c'.AwaitsAll := by
  have hpumps := flushPending_pumps true c fun _ => ⟨(), by rw [hok]⟩
  rw [hok] at hpumps
  simp only at hpumps
  clear hok
  induction hpumps with
  | refl => exact h
  | tail _ hpump ih => exact hpump.awaitsAll ih

end

namespace Batch

variable {codec : Codec} {reqs : List Request}

/-- What a run keeps in which no frame misleads the loop, with the frames read so far. -/
structure Hopeful (frames : List Frame) (b : Batch) : Prop where
  awaits : b.conn.AwaitsAll
  within : ∀ f ∈ frames, f.isGoaway → ∀ ⦃id s⦄, b.conn.streams.lookup id = some s →
    id ≤ f.lastStreamId
  barred : ∀ f ∈ frames, f.isGoaway → b.queue = [] ∨ ∃ last, b.conn.goawayReceived = some last ∧
    (last ≤ f.lastStreamId ∨ last < b.conn.nextStreamId)

section

variable {frames : List Frame} {b b' : Batch}

/-- Streams go, or stay as they are. -/
theorem Hopeful.shrink (h : Hopeful frames b)
    (hstays : ∀ ⦃id s⦄, b'.conn.streams.lookup id = some s → b.conn.streams.lookup id = some s)
    (hexp : b'.conn.expectingContinuation = b.conn.expectingContinuation)
    (hwindow : b'.conn.connSendWindow = b.conn.connSendWindow)
    (hgoaway : b'.conn.goawayReceived = b.conn.goawayReceived)
    (hnext : b.conn.nextStreamId ≤ b'.conn.nextStreamId) (hqueue : b.queue = [] → b'.queue = []) :
    Hopeful frames b' where
  awaits _ _ hs := (h.awaits (hstays hs)).congr hexp hwindow
  within f hf hgo _ _ hs := h.within f hf hgo (hstays hs)
  barred f hf hgo := by
    rcases h.barred f hf hgo with hempty | ⟨last, hlast, hle⟩
    · exact .inl (hqueue hempty)
    · exact .inr ⟨last, hgoaway.trans hlast, hle.imp_right fun hlt => by omega⟩

theorem Hopeful.starts (h : Hopeful frames b) (hacc : Accounted reqs b)
    (hstart : Starts reqs b b') : Hopeful frames b' := by
  have hnone : ∀ {idx queue} {queue' : List Nat}, b.queue = idx :: queue → b.queue = [] →
      queue' = [] := by
    intro idx queue queue' hqueue hempty
    rw [hqueue] at hempty
    cases hempty
  cases hstart with
  | @refused idx queue e hqueue hopen =>
      obtain ⟨res, c', heq⟩ : ∃ res c', b.conn.openStream = (res, c') := ⟨_, _, rfl⟩
      rw [heq] at hopen ⊢
      obtain rfl : res = .error e := hopen
      obtain rfl := openStream_eq_error heq
      exact h.shrink (fun _ _ hs => hs) rfl rfl rfl (Nat.le_refl _) (hnone hqueue)
  | @lost idx id queue conn hqueue hopen hreq =>
      have hout : idx ∈ b.out := by
        rw [out, hqueue]
        exact List.mem_cons_self
      exact absurd hreq (List.getElem?_eq_getElem (hacc.lt_length hout) ▸ Option.some_ne_none _)
  | @failed idx id queue conn conn' req e hqueue hopen hreq hstage =>
      obtain ⟨encoder, sink, -, rfl⟩ := stageRequestOn_error hstage
      obtain ⟨rfl, rfl⟩ := openStream_eq_ok hopen
      refine h.shrink (fun j s hs => ?_) rfl rfl rfl (Nat.le_add_right _ _) (hnone hqueue)
      obtain ⟨hne, hs⟩ := Base.Table.lookup_of_erase hs
      rcases Base.Table.lookup_insert_cases hs with ⟨heq, -⟩ | ⟨-, hs⟩
      · exact absurd heq hne
      · exact hs
  | @started idx id queue conn conn' req hqueue hopen hreq hstage =>
      obtain ⟨rfl, hconn⟩ := openStream_eq_ok hopen
      obtain ⟨s, state, sink, pending, hs, hstate, -, hpending, rfl⟩ := stageRequestOn_eq_ok hstage
      rw [hconn] at hs
      obtain rfl := Option.some.inj ((AList.lookup_insert _).symm.trans hs)
      have hold : ∀ ⦃j t⦄, (AList.insert b.conn.nextStreamId
          { Stream.new b.conn.nextStreamId b.conn.peer.initialWindowSize with
            state, pendingBody := pending } conn.streams).lookup j = some t →
          j = b.conn.nextStreamId ∧ t.endStreamRecv = false ∧
              (t.state = .open ∨ t.state = .halfClosedLocal) ∨
            b.conn.streams.lookup j = some t := by
        intro j t ht
        rcases Base.Table.lookup_insert_cases ht with ⟨rfl, rfl⟩ | ⟨hne, ht⟩
        · refine .inl ⟨rfl, rfl, ?_⟩
          cases hbody : req.body.isEmpty with
          | true => rw [hbody] at hstate; exact .inr (Except.ok.inj hstate).symm
          | false => rw [hbody] at hstate; exact .inl (Except.ok.inj hstate).symm
        · rw [hconn] at ht
          rcases Base.Table.lookup_insert_cases ht with ⟨heq, -⟩ | ⟨-, ht⟩
          · exact absurd heq hne
          · exact .inr ht
      refine ⟨fun j t ht => ?_, fun f hf hgo j t ht => ?_, fun f hf hgo => ?_⟩
      · rcases hold ht with ⟨-, hended, hlive⟩ | ht
        · exact .live hended hlive
        · exact (h.awaits ht).congr (by rw [hconn]) (by rw [hconn])
      · rcases hold ht with ⟨rfl, -⟩ | ht
        · -- the stream was opened within the latest GOAWAY
          rcases h.barred f hf hgo with hempty | ⟨last, hlast, hle⟩
          · rw [hqueue] at hempty
            cases hempty
          · have hwithin := openStream_within hopen hlast
            omega
        · exact h.within f hf hgo ht
      · rcases h.barred f hf hgo with hempty | ⟨last, hlast, hle⟩
        · rw [hqueue] at hempty
          cases hempty
        · refine .inr ⟨last, by rw [hconn]; exact hlast, hle.imp_right fun hlt => ?_⟩
          rw [hconn]
          exact Nat.lt_add_right 2 hlt

theorem Hopeful.startQueued (h : Hopeful frames b) (hacc : Accounted reqs b) :
    Hopeful frames (b.startQueued reqs) := by
  have hinv := startQueued_induct reqs (P := fun b => Accounted reqs b ∧ Hopeful frames b)
    (fun hstart hb => ⟨(hb.1.starts hstart).1, hb.2.starts hb.1 hstart⟩) ⟨hacc, h⟩
  exact hinv.2

theorem Hopeful.flushPending {conn : Connection} (h : Hopeful frames b)
    (hflush : b.conn.flushPending = (.ok (), conn)) : Hopeful frames { b with conn } := by
  have hmoves := flushPending_moves b.conn
  have hkeeps := flushPending_keepsPeer b.conn
  rw [hflush] at hmoves hkeeps
  refine ⟨h.awaits.flushPending hflush, fun f hf hgo id s hs => ?_, fun f hf hgo => ?_⟩
  · obtain ⟨t, ht, -⟩ := hmoves.came hs
    exact h.within f hf hgo ht
  · rcases h.barred f hf hgo with hempty | ⟨last, hlast, hle⟩
    · exact .inl hempty
    · refine .inr ⟨last, hkeeps.goaway.trans hlast, hle.imp_right fun hlt => ?_⟩
      rw [hmoves.next]
      exact hlt

theorem Hopeful.refill (h : Hopeful frames b) (hacc : Accounted reqs b)
    (hrefill : b.refill reqs = (b', true)) : Hopeful frames b' := by
  unfold Batch.refill at hrefill
  split at hrefill
  · obtain ⟨rfl, -⟩ := Prod.mk.inj hrefill
    exact h
  split at hrefill
  · cases hrefill
  simp only at hrefill
  split at hrefill
  · cases hrefill
  split at hrefill
  · cases hrefill
  · next hflush =>
      obtain ⟨rfl, -⟩ := Prod.mk.inj hrefill
      exact (h.startQueued hacc).flushPending hflush

end

/-! ## Many streams: reading -/

/-- The frame ends no stream too early, and is no GOAWAY that, with requests still queued, names
the next stream and a later last stream than the GOAWAY before. -/
structure Regular (b : Batch) (f : Frame) : Prop where
  stream : b.conn.Regular f
  goaway : f.isGoaway → b.queue ≠ [] → ∀ last, b.conn.goawayReceived = some last →
    f.lastStreamId ≤ last ∨ f.lastStreamId < b.conn.nextStreamId

section

variable {frames : List Frame} {b : Batch} {f : Frame} {source : Source} {conn : Connection}

theorem failGoawayDoomed_queue (b : Batch) : b.failGoawayDoomed.queue = b.queue := by
  have hone : ∀ (last : Nat) (b : Batch) (id : Nat), (failDoomed last b id).queue = b.queue := by
    intro last b id
    unfold failDoomed
    split <;> rfl
  unfold failGoawayDoomed
  split
  · rfl
  next last hlast =>
  simp only
  clear hlast
  generalize List.filter _ _ = doomed
  induction doomed generalizing b with
  | nil => rfl
  | cons id doomed ih => rw [List.foldl_cons, ih, hone]

/-- A frame is handled, the streams it dooms are reaped, and a response is taken. -/
theorem Hopeful.handled {o : DispatchOutcome} (h : Hopeful frames b)
    (hreg : b.Regular f) (hframe : (b.conn.receive source f).processFrame f = (.ok o, conn))
    (hacc₁ : Accounted reqs { b with conn }) :
    Hopeful (frames ++ [f]) (finishStream codec reqs (failGoawayDoomed { b with conn }) o) := by
  have htouches := processFrame_touch (b.conn.receive source f) f
  have heff := processFrame_effect (b.conn.receive source f) f
  rw [hframe] at htouches heff
  have hnoted : conn.goawayReceived = if f.isGoaway then some f.lastStreamId
      else b.conn.goawayReceived := by
    have hgoaway := processFrame_goaway_of_ok hframe
    exact hgoaway
  obtain ⟨⟨streams, hconn⟩, hlook⟩ := failGoawayDoomed_lookup hacc₁
  have hacc₂ := hacc₁.failGoawayDoomed.1
  have hqueue : (failGoawayDoomed { b with conn }).queue = b.queue := failGoawayDoomed_queue _
  -- a stream that is left is awaited still, unless it is done
  have hleft : ∀ ⦃id s'⦄, (failGoawayDoomed { b with conn }).conn.streams.lookup id = some s' →
      (conn.Awaits id s' ∨ o = .done id) ∧ (∃ s, b.conn.streams.lookup id = some s) ∧
        (f.isGoaway → id ≤ f.lastStreamId) := by
    intro id s' hs'
    obtain ⟨hs₁, hkept⟩ := hlook.mp hs'
    obtain ⟨s, hs, -⟩ := htouches hs₁
    have hawaits : (b.conn.receive source f).Awaits id s := (h.awaits hs).congr rfl rfl
    have hincomplete : conn.Awaits id s' ∨ o = .done id := by
      rcases hawaits.handled hs (hreg.stream.receive source) hframe hs₁ with
        h | ⟨rfl, -⟩ | ⟨hgo, hlast, hended, -⟩
      · exact .inl h
      · exact .inr rfl
      · rw [if_pos hgo] at hnoted
        have hdone := hkept f.lastStreamId hnoted hlast
        rw [hended] at hdone
        cases hdone
    refine ⟨hincomplete, ⟨s, hs⟩, fun hgo => ?_⟩
    rw [if_pos hgo] at hnoted
    by_contra hlt
    have hdone := hkept f.lastStreamId hnoted (Nat.not_le.mp hlt)
    rcases hincomplete with h | rfl
    · rw [h.incomplete] at hdone
      cases hdone
    · have hcont := processFrame_of_goaway (b.conn.receive source f) f
        ⟨admits_of_ok hframe, hgo.1, hgo.2⟩
      rw [hframe] at hcont
      cases hcont
  have hbarred : ∀ g ∈ frames ++ [f], g.isGoaway → b.queue = [] ∨
      ∃ last, conn.goawayReceived = some last ∧
        (last ≤ g.lastStreamId ∨ last < conn.nextStreamId) := by
    intro g hg hgo
    have hnext : conn.nextStreamId = b.conn.nextStreamId := heff.next_eq
    rw [hnext]
    by_cases hempty : b.queue = []
    · exact .inl hempty
    by_cases hf : f.isGoaway
    · rw [if_pos hf] at hnoted
      refine .inr ⟨f.lastStreamId, hnoted, ?_⟩
      rcases List.mem_append.mp hg with hg | hg
      · rcases h.barred g hg hgo with hnil | ⟨last, hlast, hle⟩
        · exact absurd hnil hempty
        · have hcap := hreg.goaway hf hempty last hlast
          omega
      · obtain rfl := List.mem_singleton.mp hg
        exact .inl (Nat.le_refl _)
    · rw [if_neg hf] at hnoted
      rw [hnoted]
      rcases List.mem_append.mp hg with hg | hg
      · exact h.barred g hg hgo
      · obtain rfl := List.mem_singleton.mp hg
        exact absurd hgo hf
  have hall : ∀ {b' : Batch}, b'.queue = b.queue →
      (∃ streams, b'.conn = { conn with streams }) →
      (∀ ⦃id s'⦄, b'.conn.streams.lookup id = some s' →
        (failGoawayDoomed { b with conn }).conn.streams.lookup id = some s' ∧ o ≠ .done id) →
      Hopeful (frames ++ [f]) b' := by
    rintro b' hqueue' ⟨streams', hconn'⟩ hstays
    refine ⟨fun id s' hs' => ?_, fun g hg hgo id s' hs' => ?_, fun g hg hgo => ?_⟩
    · obtain ⟨hs', hne⟩ := hstays hs'
      exact ((hleft hs').1.resolve_right hne).congr (by rw [hconn']) (by rw [hconn'])
    · obtain ⟨hs', -⟩ := hstays hs'
      obtain ⟨-, ⟨s, hs⟩, hlast⟩ := hleft hs'
      rcases List.mem_append.mp hg with hg | hg
      · exact h.within g hg hgo hs
      · obtain rfl := List.mem_singleton.mp hg
        exact hlast hgo
    · rw [hqueue', hconn']
      exact hbarred g hg hgo
  unfold finishStream
  split
  · exact hall hqueue ⟨streams, hconn⟩ fun id s' hs' => ⟨hs', nofun⟩
  next id =>
  split
  · next idx stream hidx _ =>
      have hends := hacc₂.ends hidx (buildResponseFromStream codec stream)
      refine Hopeful.startQueued (hall hqueue ⟨_, by rw [hconn]; rfl⟩ fun j s' hs' => ?_) hends.1
      obtain ⟨hne, hs'⟩ := Base.Table.lookup_of_erase hs'
      exact ⟨hs', fun hdone => hne (DispatchOutcome.done.inj hdone).symm⟩
  · next hnone =>
      refine hall hqueue ⟨streams, hconn⟩ fun j s' hs' => ⟨hs', ?_⟩
      rintro ⟨⟩
      obtain ⟨idx, hidx⟩ := (hacc₂.registered id).mp ⟨s', hs'⟩
      exact hnone idx s' hidx hs'

theorem Hopeful.not_stalled (h : Hopeful frames b) (id : Nat) : ¬ Stalled b id := by
  rintro ⟨s, idx, hs, -, hclosed, -⟩
  exact (h.awaits hs).not_closed hclosed

/-- A frame that is refused stalls the stream it resets, or none. -/
theorem Hopeful.stalls (h : Hopeful frames b) (hacc : Accounted reqs b) (hreg : b.conn.Regular f)
    {e : Error} (hframe : (b.conn.receive source f).processFrame f = (.error e, conn)) {id : Nat}
    (hstalled : Stalled { b with conn } id) : b.Resets f ∧ f.streamId = id := by
  have hlive : Holds (fun s => s.state ≠ .idle) b.conn := by
    intro j t ht hidle
    cases h.awaits ht with
    | live _ hstate => rcases hstate with h | h <;> rw [h] at hidle <;> cases hidle
    | inBlock _ hstate => rw [hstate] at hidle; cases hidle
  rcases (stalled_after_error hacc hlive hframe id).mp hstalled with
    hbefore | ⟨hresets, hid, -⟩ | ⟨htyp, rfl, hadmits, hend, s, hs, -, hnone, hpasses⟩
  · exact absurd hbefore (h.not_stalled id)
  · exact ⟨hresets, hid⟩
  · exact absurd (.data htyp hend (Stream.hasFinal_of_none hnone) hpasses) (hreg hadmits s hs)

/-- A reset that is refused changes its stream only. -/
theorem processRst_error {c c' : Connection} {e : Error} (h : c.processRst f = (.error e, c')) :
    c' = c ∨ ∃ s, c' = c.setStream f.streamId s := by
  unfold Connection.processRst at h
  simp only at h
  split at h
  · cases h
  split at h
  · cases h
  split at h
  · exact .inl (Prod.mk.inj h).2.symm
  · exact .inr ⟨_, (Prod.mk.inj h).2.symm⟩

/-- A frame is refused, and its error is charged to the stream it resets. -/
theorem Hopeful.charged {b₂ : Batch} {e : Error} {idx : Nat} (h : Hopeful frames b)
    (hacc : Accounted reqs b) (hreg : b.Regular f)
    (hframe : (b.conn.receive source f).processFrame f = (.error e, conn))
    (htake : takeStreamError { b with conn } = some (idx, b₂)) :
    b.idToIdx.lookup f.streamId = some idx ∧ Hopeful (frames ++ [f]) b₂ := by
  obtain ⟨id, hidx, rfl, honly⟩ := unique_of_takeStreamError htake
  obtain ⟨⟨htyp, hadmits, -⟩, rfl⟩ := h.stalls hacc hreg.stream hframe ((honly id).mpr rfl)
  refine ⟨hidx, ?_⟩
  have hid := streamId_ne_zero (c := b.conn.receive source f) (.inr htyp) hadmits hframe
  rw [processFrame_rst (c := b.conn.receive source f) htyp hadmits hid] at hframe
  have hgone : ∀ {s : Stream} {streams : Streams} ⦃j t⦄,
      ((streams.insert f.streamId s).erase f.streamId).lookup j = some t →
        streams.lookup j = some t := by
    intro s streams j t ht
    obtain ⟨hne, ht⟩ := Base.Table.lookup_of_erase ht
    rcases Base.Table.lookup_insert_cases ht with ⟨heq, -⟩ | ⟨-, ht⟩
    · exact absurd heq hne
    · exact ht
  have hsame : Hopeful frames (dropStream { b with conn } f.streamId) := by
    rcases processRst_error hframe with rfl | ⟨s, rfl⟩
    · exact h.shrink (fun j t ht => (Base.Table.lookup_of_erase ht).2) rfl rfl rfl (Nat.le_refl _)
        id
    · exact h.shrink (fun j t ht => hgone ht) rfl rfl rfl (Nat.le_refl _) id
  have hgoaway : ∀ g ∈ frames ++ [f], g.isGoaway → g ∈ frames := by
    intro g hg hgo
    rcases List.mem_append.mp hg with hg | hg
    · exact hg
    · obtain rfl := List.mem_singleton.mp hg
      exact absurd (htyp.symm.trans hgo.2) (by decide)
  exact ⟨hsame.awaits, fun g hg hgo => hsame.within g (hgoaway g hg hgo) hgo,
    fun g hg hgo => hsame.barred g (hgoaway g hg hgo) hgo⟩

end

/-! ## Passes -/

/-- A pass of the loop that goes on, with a regular frame. -/
def Calmly (codec : Codec) (reqs : List Request) (b b' : Batch) : Prop :=
  Again codec reqs b b' ∧ ∀ b₁ f source, b.refill reqs = (b₁, true) →
    readFrame b₁.conn.tls.source = (.ok f, source) → b₁.Regular f

/-- The loop looks for results, after passes with regular frames only. -/
def CalmHead (codec : Codec) (c : Connection) (reqs : List Request) (b : Batch) : Prop :=
  ∃ conn, ((init c reqs).startQueued reqs).conn.flushPending = (.ok (), conn) ∧
    ReflTransGen (Calmly codec reqs) { (init c reqs).startQueued reqs with conn } b

/-- The loop is sound, and hopeful about the frames read from `c` on. -/
def Calm (reqs : List Request) (c : Connection) (b : Batch) : Prop :=
  Sound reqs b ∧ ∃ frames, b.conn.tls.received = c.tls.received ++ frames ∧ Hopeful frames b

section

variable {c : Connection} {b b' b₁ : Batch}

theorem startQueued_received (reqs : List Request) (b : Batch) :
    (b.startQueued reqs).conn.tls.received = b.conn.tls.received := by
  refine startQueued_induct reqs
    (P := fun b' => b'.conn.tls.received = b.conn.tls.received) ?_ rfl
  intro b₁ b₂ hstart h
  rw [← h]
  cases hstart with
  | @refused idx queue e _ hopen =>
      obtain ⟨res, c', heq⟩ : ∃ res c', b₁.conn.openStream = (res, c') := ⟨_, _, rfl⟩
      rw [heq] at hopen ⊢
      obtain rfl : res = .error e := hopen
      obtain rfl := openStream_eq_error heq
      rfl
  | lost _ hopen =>
      obtain ⟨-, rfl⟩ := openStream_eq_ok hopen
      rfl
  | @failed idx id queue conn conn' req e _ hopen _ hstage =>
      have hmoves := stageRequestOn_moves conn id req
      rw [hstage] at hmoves
      obtain ⟨-, rfl⟩ := openStream_eq_ok hopen
      exact hmoves.received
  | @started idx id queue conn conn' req _ hopen _ hstage =>
      have hmoves := stageRequestOn_moves conn id req
      rw [hstage] at hmoves
      obtain ⟨-, rfl⟩ := openStream_eq_ok hopen
      exact hmoves.received

theorem flushPending_received {conn : Connection} (h : b.conn.flushPending = (.ok (), conn)) :
    conn.tls.received = b.conn.tls.received := by
  have hmoves := flushPending_moves b.conn
  rw [h] at hmoves
  exact hmoves.received

/-- From the head of a pass to the frame that is read. -/
theorem Calm.refill (h : Calm reqs c b) (hrefill : b.refill reqs = (b₁, true)) :
    Accounted reqs b₁ ∧ Marked b₁.conn ∧
      ∃ frames, b₁.conn.tls.received = c.tls.received ++ frames ∧ Hopeful frames b₁ := by
  obtain ⟨hsound, frames, hreceived, hhopeful⟩ := h
  obtain ⟨hafter, -⟩ := refill_true hsound hrefill
  refine ⟨hafter.advances.1, hafter.marked, frames, ?_, hhopeful.refill hsound.accounted hrefill⟩
  rw [← hreceived]
  unfold Batch.refill at hrefill
  split at hrefill
  · obtain ⟨rfl, -⟩ := Prod.mk.inj hrefill
    rfl
  split at hrefill
  · cases hrefill
  simp only at hrefill
  split at hrefill
  · cases hrefill
  split at hrefill
  · cases hrefill
  · next hflush =>
      obtain ⟨rfl, -⟩ := Prod.mk.inj hrefill
      exact (flushPending_received hflush).trans (startQueued_received reqs b)

/-- Without a frame nothing is charged: no stream is stalled. -/
theorem Hopeful.frame_of_charged {frames : List Frame} {b₂ : Batch} {conn : Connection} {e : Error}
    {idx : Nat} (h : Hopeful frames b) (hread : b.conn.readAndDispatch = (.error e, conn))
    (htake : takeStreamError { b with conn } = some (idx, b₂)) :
    ∃ f source, readFrame b.conn.tls.source = (.ok f, source) ∧
      (b.conn.receive source f).processFrame f = (.error e, conn) := by
  rcases readAndDispatch_cases b.conn with ⟨e', source, hfail, -⟩ | ⟨f, source, hsource, hframe, -⟩
  · rw [hfail] at hread
    obtain ⟨-, rfl⟩ := Prod.mk.inj hread
    obtain ⟨id, -, -, honly⟩ := unique_of_takeStreamError htake
    obtain ⟨s, i, hs, hi, hstalled⟩ := (honly id).mpr rfl
    exact absurd ⟨s, i, hs, hi, hstalled⟩ (h.not_stalled id)
  · exact ⟨f, source, hsource, hframe ▸ hread⟩

theorem Calm.pass (h : Calm reqs c b) (hpass : Calmly codec reqs b b') : Calm reqs c b' := by
  obtain ⟨hagain, hreg⟩ := hpass
  refine ⟨(hagain.spec h.1).1, ?_⟩
  cases hagain with
  | @charged b₁ b₂ conn conn' e idx _ hrefill hread htake hflush =>
      obtain ⟨hacc, -, frames, hreceived, hhopeful⟩ := h.refill hrefill
      obtain ⟨f, source, hsource, hframe⟩ := hhopeful.frame_of_charged hread htake
      obtain ⟨-, hhopeful₂⟩ := hhopeful.charged hacc (hreg _ _ _ hrefill hsource) hframe htake
      have hacc₁ := hacc.readAndDispatch
      rw [hread] at hacc₁
      have hacc₂ := (hacc₁.takeStreamError htake (.error e)).1
      refine ⟨frames ++ [f], ?_, ?_⟩
      · have heff := processFrame_effect (b₁.conn.receive source f) f
        rw [hframe] at heff
        have hnow : conn.tls.received = b₁.conn.tls.received ++ [f] := heff.received_eq
        obtain ⟨id, s, -, -, rfl⟩ := takeStreamError_eq_some htake
        have hstart := startQueued_received reqs (setResult { b₁ with
          conn := { conn with streams := conn.streams.erase id }
          idToIdx := b₁.idToIdx.erase id } idx (.error e))
        rw [← List.append_assoc, ← hreceived, ← hnow]
        exact (flushPending_received hflush).trans hstart
      · have hfilled : Hopeful (frames ++ [f]) (b₂.setResult idx (.error e)) :=
          ⟨hhopeful₂.awaits, hhopeful₂.within, hhopeful₂.barred⟩
        exact (hfilled.startQueued hacc₂).flushPending hflush
  | @handled b₁ conn conn' o _ hrefill hread hflush =>
      obtain ⟨hacc, -, frames, hreceived, hhopeful⟩ := h.refill hrefill
      rcases readAndDispatch_cases b₁.conn with ⟨e', source, hfail, -⟩ |
        ⟨f, source, hsource, hframe, -⟩
      · rw [hfail] at hread
        cases hread
      rw [hread] at hframe
      have hacc₁ := hacc.readAndDispatch
      rw [hread] at hacc₁
      refine ⟨frames ++ [f], ?_, ?_⟩
      · have heff := processFrame_effect (b₁.conn.receive source f) f
        rw [← hframe] at heff
        have hnow : conn.tls.received = b₁.conn.tls.received ++ [f] := heff.received_eq
        have hfinish : (finishStream codec reqs (failGoawayDoomed { b₁ with conn })
            o).conn.tls.received = conn.tls.received := by
          obtain ⟨⟨streams, hconn⟩, -⟩ := failGoawayDoomed_lookup hacc₁
          unfold finishStream
          split
          · rw [hconn]
          split
          · refine (startQueued_received reqs _).trans ?_
            show (failGoawayDoomed { b₁ with conn }).conn.tls.received = conn.tls.received
            rw [hconn]
          · rw [hconn]
        rw [← List.append_assoc, ← hreceived, ← hnow, ← hfinish]
        exact flushPending_received hflush
      · exact (hhopeful.handled (hreg _ _ _ hrefill hsource) hframe.symm hacc₁).flushPending hflush

/-- Up to every such moment the loop is calm. -/
theorem calm_head (hempty : c.streams.entries = []) (h : CalmHead codec c reqs b) :
    Calm reqs c b := by
  obtain ⟨conn, hflush, hruns⟩ := h
  induction hruns with
  | tail _ hpass ih => exact ih.pass hpass
  | refl =>
      have hnone : Hopeful [] (init c reqs) := by
        refine ⟨fun id s hs => ?_, List.forall_mem_nil _, List.forall_mem_nil _⟩
        have hs' : c.streams.lookup id = some s := hs
        rw [AList.lookup, hempty] at hs'
        cases hs'
      refine ⟨(sound_first hempty hflush).1, [], ?_,
        (hnone.startQueued (accounted_init hempty)).flushPending hflush⟩
      rw [List.append_nil]
      exact (flushPending_received hflush).trans (startQueued_received reqs (init c reqs))

end

/-! ## The request pays -/

/-- The slot is filled with an error. -/
def Fails (b : Batch) (idx : Nat) : Prop := ∃ e, b.results[idx]? = some (some (.error e))

section

variable {b b' : Batch} {id idx : Nat}

theorem Fails.keeps (h : Fails b idx) (hkeeps : Keeps b.results b'.results) : Fails b' idx := by
  obtain ⟨e, he⟩ := h
  exact ⟨e, hkeeps he⟩

theorem slot_of_flight (hacc : Accounted reqs b) (hidx : b.idToIdx.lookup id = some idx) :
    b.results[idx]? = some none :=
  (hacc.slots.mem_iff idx).mp ((out_perm_erase hidx).mem_iff.mpr List.mem_cons_self)

theorem fails_setResult (hacc : Accounted reqs b) (hidx : b.idToIdx.lookup id = some idx)
    (hresults : b'.results = b.results) (e : Error) : Fails (b'.setResult idx (.error e)) idx := by
  have hlt := (List.getElem?_eq_some_iff.mp (slot_of_flight hacc hidx)).1
  refine ⟨e, ?_⟩
  rw [setResult, hresults]
  exact List.getElem?_set_self hlt

theorem failSlot_mem {e : Error} {idxs : List Nat} {results : List (Option (Result Response))}
    (hidx : idx ∈ idxs) (hnone : results[idx]? = some none) :
    (idxs.foldl (failSlot e) results)[idx]? = some (some (.error e)) := by
  induction idxs generalizing results with
  | nil => cases hidx
  | cons j idxs ih =>
      rw [List.foldl_cons]
      by_cases hj : j = idx
      · subst hj
        refine (foldl_failSlot e idxs _).2.1 ?_
        rw [failSlot, hnone]
        exact List.getElem?_set_self (List.getElem?_eq_some_iff.mp hnone).1
      · refine ih ((List.mem_cons.mp hidx).resolve_left (Ne.symm hj)) ?_
        unfold failSlot
        split
        · rw [List.getElem?_set_ne hj]
          exact hnone
        · exact hnone

theorem fails_failAll (hacc : Accounted reqs b) (hidx : b.idToIdx.lookup id = some idx) (e : Error) :
    Fails (failAllOutstanding b e) idx := by
  refine ⟨e, failSlot_mem (List.mem_append_left _ ?_) (slot_of_flight hacc hidx)⟩
  exact List.mem_map.mpr ⟨⟨id, idx⟩, AList.mem_lookup_iff.mp hidx, rfl⟩

theorem fails_foldl_failDoomed (last : Nat) {doomed : List Nat} (hacc : Accounted reqs b)
    (hidx : b.idToIdx.lookup id = some idx) (hmem : id ∈ doomed) :
    Fails (doomed.foldl (failDoomed last) b) idx := by
  induction doomed generalizing b with
  | nil => cases hmem
  | cons j doomed ih =>
      rw [List.foldl_cons]
      have hadv := hacc.failDoomed last j
      by_cases hj : j = id
      · subst hj
        have hfails : Fails (failDoomed last b j) idx := by
          unfold failDoomed
          rw [hidx]
          exact fails_setResult hacc hidx rfl _
        exact hfails.keeps (hadv.1.foldl_failDoomed last doomed).2
      · refine ih hadv.1 ?_ ((List.mem_cons.mp hmem).resolve_left (Ne.symm hj))
        unfold failDoomed
        split
        · exact hidx
        · exact (AList.lookup_erase_ne (Ne.symm hj)).trans hidx

/-- A stream that a GOAWAY excludes fails, unless its response is complete. -/
theorem fails_failGoawayDoomed {last : Nat} {s : Stream} (hacc : Accounted reqs b)
    (hlast : b.conn.goawayReceived = some last) (hidx : b.idToIdx.lookup id = some idx)
    (hlt : last < id) (hs : b.conn.streams.lookup id = some s)
    (hincomplete : (s.endStreamRecv && s.responseHeaders.isSome) = false) :
    Fails b.failGoawayDoomed idx := by
  unfold failGoawayDoomed
  simp only [hlast]
  refine fails_foldl_failDoomed last hacc hidx ?_
  rw [List.mem_filter]
  refine ⟨?_, by simp only [hs, hlt, hincomplete, decide_true, Bool.not_false, Bool.and_true]⟩
  rw [← AList.mem_keys, ← AList.lookup_isSome, hidx]
  rfl

/-- What the loop has filled in stays. -/
theorem loop_keeps (fuel : Nat) (h : Sound reqs b) :
    Keeps b.results (loop codec reqs fuel b).results := by
  obtain ⟨b', hruns, hout⟩ := loop_leaves codec reqs fuel b
  have hinv : Sound reqs b' ∧ Keeps b.results b'.results := by
    clear hout
    induction hruns with
    | refl => exact ⟨h, .refl _⟩
    | tail _ hagain ih =>
        obtain ⟨hsound, hkeeps, -⟩ := hagain.spec ih.1
        exact ⟨hsound, ih.2.trans hkeeps⟩
  rcases hout with hleaves | heq
  · exact hinv.2.trans (hleaves.filled hinv.1).keeps
  · rw [heq]
    exact hinv.2

/-- The request an error is charged to has failed before another frame is read. -/
theorem fails_of_charged {b₁ b₂ : Batch} {conn : Connection} {e : Error} (h : Sound reqs b)
    (hwaits : b.results.any Option.isNone = true) (hrefill : b.refill reqs = (b₁, true))
    (hread : b₁.conn.readAndDispatch = (.error e, conn))
    (htake : takeStreamError { b₁ with conn } = some (idx, b₂)) (fuel : Nat) :
    Fails (loop codec reqs (fuel + 1) b) idx := by
  obtain ⟨hafter, -⟩ := refill_true h hrefill
  have hacc := hafter.advances.1.readAndDispatch
  rw [hread] at hacc
  have hcharged := (hacc.takeStreamError htake (.error e)).1
  have hfails : Fails (b₂.setResult idx (.error e)) idx := by
    obtain ⟨j, s, -, hj, rfl⟩ := takeStreamError_eq_some htake
    exact fails_setResult hacc hj rfl e
  have hstart := hcharged.startQueued
  have hflushed := hstart.1.flushPending
  obtain ⟨flushed, conn', hflush⟩ : ∃ flushed conn',
    ((b₂.setResult idx (.error e)).startQueued reqs).conn.flushPending = (flushed, conn') :=
      ⟨_, _, rfl⟩
  rw [hflush] at hflushed
  cases flushed with
  | error e' =>
      rw [loop_of_leaves (.chargedBroken hwaits hrefill hread htake hflush)]
      exact (hfails.keeps hstart.2).keeps (filled_failAll hflushed e').keeps
  | ok u =>
      have hagain : Again codec reqs b _ := .charged hwaits hrefill hread htake hflush
      rw [loop_of_again hagain]
      exact (hfails.keeps hstart.2).keeps (loop_keeps fuel (hagain.spec h).1)

/-- A request that has failed when a frame is handled has failed before another is read. -/
theorem fails_of_handled {b₁ : Batch} {conn : Connection} {o : DispatchOutcome} (h : Sound reqs b)
    (hwaits : b.results.any Option.isNone = true) (hrefill : b.refill reqs = (b₁, true))
    (hread : b₁.conn.readAndDispatch = (.ok o, conn))
    (hfails : Fails (failGoawayDoomed { b₁ with conn }) idx) (fuel : Nat) :
    Fails (loop codec reqs (fuel + 1) b) idx := by
  obtain ⟨hafter, -⟩ := refill_true h hrefill
  have hacc := hafter.advances.1.readAndDispatch
  rw [hread] at hacc
  have hfinish := hacc.failGoawayDoomed.1.finishStream codec o
  have hflushed := hfinish.1.flushPending
  obtain ⟨flushed, conn', hflush⟩ : ∃ flushed conn', (finishStream codec reqs
    (failGoawayDoomed { b₁ with conn }) o).conn.flushPending = (flushed, conn') := ⟨_, _, rfl⟩
  rw [hflush] at hflushed
  cases flushed with
  | error e' =>
      rw [loop_of_leaves (.handledBroken hwaits hrefill hread hflush)]
      exact (hfails.keeps hfinish.2).keeps (filled_failAll hflushed _).keeps
  | ok u =>
      have hagain : Again codec reqs b _ := .handled hwaits hrefill hread hflush
      rw [loop_of_again hagain]
      exact (hfails.keeps hfinish.2).keeps (loop_keeps fuel (hagain.spec h).1)

/-- After a frame that makes it impossible for a stream in flight to complete, its request has
failed before another frame is read. -/
theorem Calm.dooms {c : Connection} {b₁ : Batch} (h : Calm reqs c b)
    (hwaits : b.results.any Option.isNone = true) (hrefill : b.refill reqs = (b₁, true)) {f : Frame}
    {source : Source} {s : Stream} (hread : readFrame b₁.conn.tls.source = (.ok f, source))
    (hidx : b₁.idToIdx.lookup id = some idx) (hs : b₁.conn.streams.lookup id = some s)
    (hdooms : b₁.conn.Dooms f id s) (hreg : b₁.Regular f) (fuel : Nat) :
    Fails (loop codec reqs (fuel + 1) b) idx := by
  obtain ⟨hacc, hmark, frames, -, hhopeful⟩ := h.refill hrefill
  obtain ⟨res, conn, hframe⟩ : ∃ res conn,
    (b₁.conn.receive source f).processFrame f = (res, conn) := ⟨_, _, rfl⟩
  have hdispatch := readAndDispatch_of_frame hread hframe
  have hacc₁ := hacc.readAndDispatch
  rw [hdispatch] at hacc₁
  have hawaits : (b₁.conn.receive source f).Awaits id s := (hhopeful.awaits hs).congr rfl rfl
  cases res with
  | error e =>
      cases htake : takeStreamError { b₁ with conn } with
      | none =>
          rw [loop_of_leaves (.fatal hwaits hrefill hdispatch htake)]
          exact fails_failAll hacc₁ hidx e
      | some taken =>
          obtain ⟨idx', b₂⟩ := taken
          obtain ⟨j, hj, -, honly⟩ := unique_of_takeStreamError htake
          obtain ⟨hresets, rfl⟩ := hhopeful.stalls hacc hreg.stream hframe ((honly j).mpr rfl)
          -- the stream that is reset is the one that cannot complete
          have hid : f.streamId = id := by
            cases hdooms with
            | reset _ hid | ended hid => exact hid
            | goaway hgo => exact absurd (hresets.1.symm.trans hgo.2) (by decide)
          subst hid
          obtain rfl : idx = idx' := Option.some.inj (hidx.symm.trans hj)
          exact fails_of_charged h.1 hwaits hrefill hdispatch htake fuel
  | ok o =>
      -- the frame is a GOAWAY
      have hgo : f.isGoaway := by
        by_contra hgo
        obtain ⟨e, c', herror⟩ := hawaits.refuses hs (hreg.stream.receive source)
          (hdooms.receive source) hgo
        rw [hframe] at herror
        cases herror
      have hlast : f.lastStreamId < id := by
        cases hdooms with
        | goaway _ hlast => exact hlast
        | reset htyp => exact absurd (htyp.symm.trans hgo.2) (by decide)
        | ended hid hstream => exact absurd (hid.symm.trans hgo.1) hstream
      have hgoaway := processFrame_of_goaway (b₁.conn.receive source f) f
        ⟨admits_of_ok hframe, hgo.1, hgo.2⟩
      rw [hframe] at hgoaway
      obtain ⟨-, hconn⟩ := Prod.mk.inj hgoaway
      obtain ⟨s', hs'⟩ := (hacc₁.registered id).mpr ⟨idx, hidx⟩
      have hmoves := processGoaway_moves (b₁.conn.receive source f) f
      rw [← hconn] at hmoves
      obtain ⟨t, ht, hsame⟩ := hmoves.came hs'
      obtain rfl := Option.some.inj (hs.symm.trans ht)
      refine fails_of_handled h.1 hwaits hrefill hdispatch ?_ fuel
      have hnoted : conn.goawayReceived = some f.lastStreamId := by
        rw [hconn]
        rfl
      refine fails_failGoawayDoomed hacc₁ hnoted hidx hlast hs' ?_
      rw [hsame.endStreamRecv, hsame.responseHeaders]
      exact hawaits.incomplete

end

/-- What holds in a batch on `c` whose loop, at the head of a pass in `b`, reads a frame in
`b₁`. -/
structure Unwedged (codec : Codec) (reqs : List Request) (c : Connection) (b b₁ : Batch) :
    Prop where
  streams : ∀ id idx, b₁.idToIdx.lookup id = some idx →
    ∃ s, b₁.conn.streams.lookup id = some s ∧ ¬ s.Wedged
  within : ∃ frames, b₁.conn.tls.received = c.tls.received ++ frames ∧
    ∀ f ∈ frames, f.isGoaway → ∀ id idx, b₁.idToIdx.lookup id = some idx → id ≤ f.lastStreamId
  /-- A frame after which a stream cannot complete fails its request. -/
  dooms : ∀ f source id idx s, readFrame b₁.conn.tls.source = (.ok f, source) →
    b₁.idToIdx.lookup id = some idx → b₁.conn.streams.lookup id = some s →
    b₁.conn.Dooms f id s → b₁.Regular f →
    ∀ fuel, Fails (loop codec reqs (fuel + 1) b) idx

end Batch

/-- As long as no frame ends a stream too early, or excludes the stream that
`drive_until_stream_done` waits for, or takes back a GOAWAY while requests are queued: no driver
waits for a stream that is wedged or beyond a GOAWAY, and a frame after which a stream cannot
complete ends the wait for it. -/
theorem unwedged_runs (codec : Codec) (reqs : List Request) (c : Connection) :
    (∀ id c' s, c.streams.lookup id = some s → c.Awaits id s → ReflTransGen (Drives id) c c' →
      Driven id c c') ∧
    ∀ b b₁, c.isUsable = true → Batch.CalmHead codec c reqs b →
      b.results.any Option.isNone = true → b.refill reqs = (b₁, true) →
      Batch.Unwedged codec reqs c b b₁ := by
  refine ⟨fun id c' s => driven, fun b b₁ husable hhead hwaits hrefill => ?_⟩
  have hcalm := Batch.calm_head (streams_of_usable husable) hhead
  obtain ⟨hacc, -, frames, hreceived, hhopeful⟩ := hcalm.refill hrefill
  refine ⟨fun id idx hidx => ?_, ⟨frames, hreceived, fun f hf hgo id idx hidx => ?_⟩, ?_⟩
  · obtain ⟨s, hs⟩ := (hacc.registered id).mpr ⟨idx, hidx⟩
    exact ⟨s, hs, (hhopeful.awaits hs).not_wedged⟩
  · obtain ⟨s, hs⟩ := (hacc.registered id).mpr ⟨idx, hidx⟩
    exact hhopeful.within f hf hgo hs
  · intro f source id idx s hread hidx hs hdooms hreg fuel
    exact hcalm.dooms hwaits hrefill hread hidx hs hdooms hreg fuel

/-- Before a reset is read: nothing is wedged, and the reset will end the wait. -/
theorem unwedged_before_reset :
    Driven 1 (Batch.beforeReset.conn) (Batch.beforeReset.conn) ∧
      Batch.Unwedged (fun _ _ _ => .error []) [sampleGet] (.dial ⟨Batch.resetOne.bytes, none⟩)
        Batch.beforeReset Batch.beforeReset := by
  obtain ⟨hflush, hresults, hflight, -, -⟩ := Batch.beforeReset_facts
  have hlive : (Batch.beforeReset.conn.streams.lookup 1).any
      (fun s => !s.endStreamRecv && s.state = .halfClosedLocal) = true := by decide +kernel
  obtain ⟨s, hs, hstate⟩ := (Option.any_eq_true _ _).mp hlive
  rw [Bool.and_eq_true, Bool.not_eq_true', decide_eq_true_iff] at hstate
  have hrefill : Batch.beforeReset.refill [sampleGet] = (Batch.beforeReset, true) := by
    rw [Batch.refill, hflight]
    rfl
  exact ⟨(unwedged_runs (fun _ _ _ => .error []) [sampleGet] _).1 1 _ s hs
      (.live hstate.1 (.inr hstate.2)) .refl,
    (unwedged_runs _ _ _).2 _ _ (by decide +kernel) ⟨_, Prod.ext hflush rfl, .refl⟩
      (by rw [hresults]; rfl) hrefill⟩

/-! ### Waiting for nothing -/

/-- A GOAWAY that excludes every stream, and a PING. -/
def excluded : Bytes :=
  Frame.bytes { typ := fGoaway, flags := 0, streamId := 0, payload := [0, 0, 0, 0, 0, 0, 0, 0] } ++
  Frame.bytes { typ := fPing, flags := 0, streamId := 0, payload := [0, 0, 0, 0, 0, 0, 0, 0] }

/-- DATA with END_STREAM before any HEADERS, and a PING. -/
def headless : Bytes :=
  Frame.bytes { typ := fData, flags := 0x1, streamId := 1, payload := [] } ++
  Frame.bytes { typ := fPing, flags := 0, streamId := 0, payload := [0, 0, 0, 0, 0, 0, 0, 0] }

/-- The connection when the driver starts to wait for a GET on stream 1. -/
def sentGet : Connection :=
  ((Connection.dial ⟨excluded, none⟩).openStream.2.sendRequestOn 1 sampleGet).2

/-- The same for a batch of one GET. -/
def loopOfOne : Batch :=
  let b := (Batch.init (.dial ⟨headless, none⟩) [sampleGet]).startQueued [sampleGet]
  { b with conn := b.conn.flushPending.2 }

/-- Closed without a complete response, as a test. -/
def Stream.isWedged (s : Stream) : Bool := s.state = .closed && !s.complete

theorem sentGet_facts :
    (sentGet.streams.lookup 1).any (fun s => !s.endStreamRecv && s.state = .halfClosedLocal) =
        true ∧
      sentGet.readAndDispatch.1 = .ok .cont ∧
      (sentGet.readAndDispatch.2.streams.lookup 1).any Stream.isWedged = true ∧
      (sentGet.driveUntilStreamDone 100 1).2.tls.received.length = 2 := by
  decide +kernel

theorem loopOfOne_facts :
    ((Batch.init (.dial ⟨headless, none⟩) [sampleGet]).startQueued
        [sampleGet]).conn.flushPending.1 = .ok () ∧
      loopOfOne.results = [none] ∧ loopOfOne.idToIdx.entries = [⟨1, 0⟩] ∧
      loopOfOne.conn.readAndDispatch.1 = .ok .cont ∧
      loopOfOne.conn.readAndDispatch.2.goawayReceived = none ∧
      loopOfOne.conn.readAndDispatch.2.flushPending.1 = .ok () ∧
      (loopOfOne.conn.readAndDispatch.2.flushPending.2.streams.lookup 1).any Stream.isWedged =
        true := by
  decide +kernel

theorem wedged_of_isWedged {streams : Streams} {id : Nat}
    (h : (streams.lookup id).any Stream.isWedged = true) :
    ∃ s, streams.lookup id = some s ∧ s.Wedged := by
  obtain ⟨s, hs, hwedged⟩ := (Option.any_eq_true _ _).mp h
  rw [Stream.isWedged, Bool.and_eq_true, decide_eq_true_iff, Bool.not_eq_true'] at hwedged
  exact ⟨s, hs, hwedged⟩

/-- Excluded by a GOAWAY, the stream is waited for, and the PING is read; ended without a response,
it is waited for in a batch. -/
theorem waits_for_nothing :
    (¬ ∀ (id : Nat) (c c' : Connection) (s : Stream) (o : DispatchOutcome),
      c.streams.lookup id = some s → c.Awaits id s →
      c.readAndDispatch = (.ok o, c') → o ≠ .done id →
        ∃ s', c'.streams.lookup id = some s' ∧ ¬ s'.Wedged) ∧
    (sentGet.driveUntilStreamDone 100 1).2.tls.received.length = 2 ∧
    ¬ ∀ (codec : Codec) (c : Connection) (reqs : List Request) (b : Batch), c.isUsable = true →
      Batch.Head codec c reqs b → ∀ id idx s, b.idToIdx.lookup id = some idx → b.conn.streams.lookup id = some s →
        ¬ s.Wedged := by
  obtain ⟨hlive, hread, hwedged, hboth⟩ := sentGet_facts
  refine ⟨fun hclaim => ?_, hboth, fun hclaim => ?_⟩
  · obtain ⟨s, hs, hstate⟩ := (Option.any_eq_true _ _).mp hlive
    rw [Bool.and_eq_true, Bool.not_eq_true', decide_eq_true_iff] at hstate
    obtain ⟨t, ht, hnot⟩ := hclaim 1 sentGet sentGet.readAndDispatch.2 s .cont hs
      (.live hstate.1 (.inr hstate.2)) (Prod.ext hread rfl) nofun
    obtain ⟨t', ht', hw⟩ := wedged_of_isWedged hwedged
    obtain rfl := Option.some.inj (ht.symm.trans ht')
    exact hnot hw
  · obtain ⟨hflush, hresults, hflight, hread, hgoaway, hflushed, hwedged⟩ := loopOfOne_facts
    have hrefill : loopOfOne.refill [sampleGet] = (loopOfOne, true) := by
      rw [Batch.refill, hflight]
      rfl
    -- the frame is handled, and nothing is reaped or taken
    have hfinish : Batch.finishStream (fun _ _ _ => .error []) [sampleGet]
        (Batch.failGoawayDoomed { loopOfOne with conn := loopOfOne.conn.readAndDispatch.2 })
        .cont = { loopOfOne with conn := loopOfOne.conn.readAndDispatch.2 } := by
      simp only [Batch.finishStream, Batch.failGoawayDoomed, hgoaway]
    have hagain : Batch.Again (fun _ _ _ => .error []) [sampleGet] loopOfOne _ :=
      .handled (by rw [hresults]; rfl) hrefill (Prod.ext hread rfl)
        (by rw [hfinish]; exact Prod.ext hflushed rfl)
    obtain ⟨s, hs, hw⟩ := wedged_of_isWedged hwedged
    refine hclaim (fun _ _ _ => .error []) (.dial ⟨headless, none⟩) [sampleGet] _
      (by decide +kernel) ⟨_, Prod.ext hflush rfl, .single hagain⟩ 1 0 s ?_ hs hw
    rw [hfinish, AList.lookup, hflight]
    rfl

end Rsurl.H2
