/-
# `Rsurl.H2.Scope` — whose error it is

An error of `process_frame` carries no stream; `take_stream_error` finds one
afterwards, by looking for a request in flight whose stream is closed without a
complete response.  `errorScope_iff` says when that finds the stream of an
RST_STREAM, and nothing for any other frame.
-/
import Rsurl.H2.Fragment
import Rsurl.H2.Loop

namespace Rsurl.H2

open Http (Request Response)
open Relation (ReflTransGen)

/-! ## A property of every stream -/

/-- A property of streams that sending and receiving keep. -/
structure Lasting (I : Stream → Prop) : Prop where
  sent : ∀ {s s'}, SentTo s s' → I s → I s'
  touched : ∀ {f res id s s'}, Touch f res id s s' → I s → I s'
  staged : ∀ {id w req}, I (.staged id w req)

/-- Every registered stream has the property. -/
def Holds (I : Stream → Prop) (c : Connection) : Prop :=
  ∀ ⦃id s⦄, c.streams.lookup id = some s → I s

theorem Holds.stays {I : Stream → Prop} {c c' : Connection} (h : Holds I c)
    (hstays : ∀ {id s}, c'.streams.lookup id = some s → c.streams.lookup id = some s) :
    Holds I c' :=
  fun _ _ hs => h (hstays hs)

theorem Holds.erase {I : Stream → Prop} {c : Connection} (h : Holds I c) (id : Nat) :
    Holds I { c with streams := c.streams.erase id } :=
  h.stays (removes_erase (p := fun _ => True) c id fun _ _ => trivial).stays

section

variable {I : Stream → Prop} (hI : Lasting I)

include hI

theorem Lasting.flushPending {c : Connection} (h : Holds I c) : Holds I c.flushPending.2 := by
  have hpumps := flushPending_pumps false c nofun
  generalize c.flushPending.2 = c' at hpumps
  induction hpumps with
  | refl => exact h
  | tail _ hpump ih =>
      intro id s' hs'
      obtain ⟨s, hs, hsent⟩ := hpump.sends hs'
      exact hI.sent hsent (ih hs)

theorem Lasting.readAndDispatch {c : Connection} (h : Holds I c) :
    Holds I c.readAndDispatch.2 := by
  rcases readAndDispatch_cases c with ⟨e, source, hfail, -⟩ | ⟨f, source, -, hframe, -⟩
  · rw [hfail]
    exact h
  · rw [hframe]
    intro id s' hs'
    obtain ⟨s, hs, htouch, -⟩ := processFrame_touch (c.receive source f) f hs'
    exact hI.touched htouch (h hs)

end

namespace Batch

variable {codec : Codec} {reqs : List Request}

section

variable {I : Stream → Prop} (hI : Lasting I)

include hI

theorem holds_startQueued {b : Batch} (hacc : Accounted reqs b) (h : Holds I b.conn) :
    Holds I (b.startQueued reqs).conn := by
  have hinv := startQueued_induct reqs
    (P := fun b => Accounted reqs b ∧ Holds I b.conn) ?_ ⟨hacc, h⟩
  · exact hinv.2
  · rintro b b' hstart ⟨hacc, h⟩
    refine ⟨(hacc.starts hstart).1, fun id s' hs' => ?_⟩
    rcases (hstart.streams hacc).2 hs' with hs | ⟨w, req, rfl, -⟩
    · exact h hs
    · exact hI.staged

theorem holds_refill {b b₁ : Batch} (hsound : Sound reqs b) (h : Holds I b.conn)
    (hrefill : b.refill reqs = (b₁, true)) : Holds I b₁.conn := by
  unfold refill at hrefill
  split at hrefill
  · obtain ⟨rfl, -⟩ := Prod.mk.inj hrefill
    exact h
  split at hrefill
  · cases hrefill
  have hstart := hI.flushPending (holds_startQueued hI hsound.accounted h)
  simp only at hrefill
  split at hrefill
  · cases hrefill
  split at hrefill
  · cases hrefill
  · next hflush =>
      obtain ⟨rfl, -⟩ := Prod.mk.inj hrefill
      rw [hflush] at hstart
      exact hstart

theorem holds_again {b b' : Batch} (hsound : Sound reqs b) (h : Holds I b.conn)
    (hagain : Again codec reqs b b') : Holds I b'.conn := by
  cases hagain with
  | charged _ hrefill hread htake hflush =>
      obtain ⟨hafter, -⟩ := refill_true hsound hrefill
      have hreads := hI.readAndDispatch (holds_refill hI hsound h hrefill)
      have hadv := (charged_spec hafter.advances.1 hafter.marked hread htake).1
      obtain ⟨id, s, -, -, rfl⟩ := takeStreamError_eq_some htake
      rw [hread] at hreads
      have hdone := hI.flushPending (holds_startQueued hI hadv.1 (hreads.erase id))
      rw [hflush] at hdone
      exact hdone
  | @handled b₁ conn conn' outcome _ hrefill hread hflush =>
      obtain ⟨hafter, -⟩ := refill_true hsound hrefill
      have hreads := hI.readAndDispatch (holds_refill hI hsound h hrefill)
      rw [hread] at hreads
      have hacc₁ := hafter.advances.1.readAndDispatch
      rw [hread] at hacc₁
      have hreaped : Holds I (failGoawayDoomed { b₁ with conn }).conn :=
        hreads.stays fun hs => ((failGoawayDoomed_lookup hacc₁).2.mp hs).1
      have hadv := hacc₁.failGoawayDoomed
      generalize failGoawayDoomed { b₁ with conn } = b₂ at *
      have hfinish : Holds I (b₂.finishStream codec reqs outcome).conn := by
        unfold finishStream
        split
        · exact hreaped
        next id =>
        split
        · next idx stream hidx _ =>
            have hends := hadv.1.ends hidx (buildResponseFromStream codec stream)
            exact holds_startQueued hI hends.1 (hreaped.erase id)
        · exact hreaped
      have hdone := hI.flushPending hfinish
      rw [hflush] at hdone
      exact hdone

/-- Whenever the loop looks for results, the batch is sound and every stream has the property. -/
theorem holds_head {c : Connection} (hempty : c.streams.entries = []) {b : Batch}
    (hhead : Head codec c reqs b) : Sound reqs b ∧ Holds I b.conn := by
  obtain ⟨conn, hflush, hruns⟩ := hhead
  have hfirst : Holds I conn := by
    have hnone : Holds I (init c reqs).conn := by
      intro id s hs
      change c.streams.lookup id = some s at hs
      rw [AList.lookup, hempty] at hs
      cases hs
    have hstart := hI.flushPending (holds_startQueued hI (accounted_init hempty) hnone)
    rw [hflush] at hstart
    exact hstart
  induction hruns with
  | refl => exact ⟨(sound_first hempty hflush).1, hfirst⟩
  | tail _ hagain ih => exact ⟨(hagain.spec ih.1).1, holds_again hI ih.1 ih.2 hagain⟩

end

/-! ## Stalled streams -/

/-- A request in flight whose stream is closed without a complete response. -/
def Stalled (b : Batch) (id : Nat) : Prop :=
  ∃ s idx, b.conn.streams.lookup id = some s ∧ b.idToIdx.lookup id = some idx ∧
    s.state = .closed ∧ s.complete = false

theorem stalled_iff_mem {b : Batch} {id : Nat} :
    Stalled b id ↔ id ∈ (b.conn.streams.entries.filter fun x =>
      (b.idToIdx.lookup x.1).isSome && x.2.state = .closed && !x.2.complete).map Sigma.fst := by
  simp only [Stalled, List.mem_map, List.mem_filter, Bool.and_eq_true, decide_eq_true_eq,
    Bool.not_eq_true', Option.isSome_iff_exists]
  constructor
  · rintro ⟨s, idx, hs, hidx, hclosed, hnot⟩
    exact ⟨⟨id, s⟩, ⟨AList.mem_lookup_iff.mp hs, ⟨⟨idx, hidx⟩, hclosed⟩, hnot⟩, rfl⟩
  · rintro ⟨⟨j, s⟩, ⟨hmem, ⟨⟨idx, hidx⟩, hclosed⟩, hnot⟩, rfl⟩
    exact ⟨s, idx, AList.mem_lookup_iff.mpr hmem, hidx, hclosed, hnot⟩

theorem nodup_stalled (b : Batch) : ((b.conn.streams.entries.filter fun x =>
    (b.idToIdx.lookup x.1).isSome && x.2.state = .closed && !x.2.complete).map Sigma.fst).Nodup :=
  (List.Sublist.map Sigma.fst List.filter_sublist).nodup b.conn.streams.nodupKeys

/-- What is left of a batch when the stream `id` goes. -/
def dropStream (b : Batch) (id : Nat) : Batch :=
  { b with
    conn := { b.conn with streams := b.conn.streams.erase id }
    idToIdx := b.idToIdx.erase id }

/-- One stalled stream is taken. -/
theorem takeStreamError_of_unique {b : Batch} {id idx : Nat} (hidx : b.idToIdx.lookup id = some idx)
    (honly : ∀ j, Stalled b j ↔ j = id) : b.takeStreamError = some (idx, b.dropStream id) := by
  have hnodup := nodup_stalled b
  simp only [stalled_iff_mem] at honly
  unfold takeStreamError
  generalize b.conn.streams.entries.filter _ = l at *
  cases l with
  | nil => exact absurd ((honly id).mpr rfl) List.not_mem_nil
  | cons x l =>
      have hx : x.1 = id := (honly x.1).mp List.mem_cons_self
      cases l with
      | nil =>
          subst hx
          simp only [hidx]
          rfl
      | cons y l =>
          have hy : y.1 = id := (honly y.1).mp (List.mem_cons_of_mem _ List.mem_cons_self)
          have hnot := (List.nodup_cons.mp hnodup).1
          rw [hx, ← hy] at hnot
          exact absurd List.mem_cons_self hnot

/-- A stream is taken when it is the only one stalled. -/
theorem unique_of_takeStreamError {b b' : Batch} {idx : Nat}
    (h : b.takeStreamError = some (idx, b')) :
    ∃ id, b.idToIdx.lookup id = some idx ∧ b' = b.dropStream id ∧ ∀ j, Stalled b j ↔ j = id := by
  obtain ⟨id, s, hfilter, hidx, rfl⟩ := takeStreamError_eq_some h
  refine ⟨id, hidx, rfl, fun j => ?_⟩
  rw [stalled_iff_mem, hfilter]
  exact List.mem_singleton

theorem takeStreamError_eq_none {b : Batch} :
    b.takeStreamError = none ↔ ¬ ∃! id, Stalled b id := by
  constructor
  · rintro h ⟨id, hid, honly⟩
    have hstalled : Stalled b id := hid
    obtain ⟨s, idx, -, hidx, -⟩ := hstalled
    have hsome := takeStreamError_of_unique hidx fun j =>
      ⟨fun hj => honly j hj, fun hj => hj ▸ hid⟩
    rw [h] at hsome
    cases hsome
  · intro h
    by_contra hne
    obtain ⟨⟨idx, b'⟩, hsome⟩ := Option.ne_none_iff_exists'.mp hne
    obtain ⟨id, -, -, honly⟩ := unique_of_takeStreamError hsome
    exact h ⟨id, (honly id).mpr rfl, fun j hj => (honly j).mp hj⟩

end Batch

/-! ## What an error does to the streams -/

/-- DATA gets past the checks of `process_data` on the stream `s`. -/
structure DataPasses (c : Connection) (f : Frame) (s : Stream) : Prop where
  connWindow : 0 ≤ (c.connRecvWindow.consume f.payload.length).available
  streamWindow : 0 ≤ (s.recvWindow.consume f.payload.length).available
  payload : ∃ bytes, Connection.dataPayload f = .ok bytes ∧
    s.body.length + bytes.length ≤ maxResponseBytes

/-- END_STREAM on DATA closes a stream half closed on this side, once the checks are passed. -/
theorem processData_closes {c : Connection} {f : Frame} {s : Stream}
    (hs : c.streams.lookup f.streamId = some s) (hstate : s.state = .halfClosedLocal)
    (hend : f.has flagEndStream = true) :
    ∃ s', (c.processData f).2.streams.lookup f.streamId = some s' ∧
      (s'.state = .closed ↔ DataPasses c f s) := by
  have hrecv : s.state.recvData (f.has flagEndStream) = .ok .closed := by rw [hstate, hend]; rfl
  have hopen : s.state ≠ .closed := by rw [hstate]; nofun
  unfold Connection.processData
  simp only [hs, if_neg hopen, hrecv]
  split
  · next hconn =>
      refine ⟨s, hs, ?_⟩
      rw [hstate]
      exact ⟨nofun, fun h => absurd h.connWindow (Int.not_le.mpr hconn)⟩
  next hconn =>
  split
  · next hstream =>
      refine ⟨_, Connection.lookup_setStream .., ?_⟩
      simp only [hstate]
      exact ⟨nofun, fun h => absurd h.streamWindow (Int.not_le.mpr hstream)⟩
  next hstream =>
  split
  · next hpayload =>
      refine ⟨_, Connection.lookup_setStream .., ?_⟩
      simp only [hstate]
      refine ⟨nofun, fun h => ?_⟩
      obtain ⟨bytes, hbytes, -⟩ := h.payload
      rw [hpayload] at hbytes
      cases hbytes
  next bytes hpayload =>
  split
  · next hlong =>
      refine ⟨_, Connection.lookup_setStream .., ?_⟩
      simp only [hstate]
      refine ⟨nofun, fun h => ?_⟩
      obtain ⟨bytes', hbytes, hle⟩ := h.payload
      rw [hpayload] at hbytes
      obtain rfl := Except.ok.inj hbytes
      exact absurd hle (Nat.not_le.mpr hlong)
  next hshort =>
  obtain ⟨s', hsame, -, hstreams, -⟩ := replenishBoth_touch
    { c with connRecvWindow := c.connRecvWindow.consume f.payload.length } f.streamId
    { s with
      recvWindow := s.recvWindow.consume f.payload.length
      body := s.body ++ bytes
      endStreamRecv := s.endStreamRecv || f.has flagEndStream
      state := .closed }
  refine ⟨s', by rw [hstreams, AList.lookup_insert], ?_⟩
  rw [hsame.state]
  exact ⟨fun _ => ⟨Int.not_lt.mp hconn, Int.not_lt.mp hstream, bytes, hpayload,
    Nat.not_lt.mp hshort⟩, fun _ => rfl⟩

/-- A reset closes its stream. -/
theorem processRst_closes {c c' : Connection} {f : Frame} {s : Stream} {e : Error}
    (hs : c.streams.lookup f.streamId = some s) (hlive : s.state ≠ .idle)
    (h : c.processRst f = (.error e, c')) :
    c'.streams.lookup f.streamId = some { s with state := .closed } := by
  unfold Connection.processRst at h
  simp only [hs] at h
  split at h
  · cases h
  split at h
  · next hrst =>
      cases hstate : s.state with
      | idle => exact absurd hstate hlive
      | «open» | halfClosedLocal | halfClosedRemote | closed => rw [hstate] at hrst; cases hrst
  · next state hrst =>
      have hclosed : state = .closed := by
        cases hstate : s.state with
        | idle => exact absurd hstate hlive
        | «open» | halfClosedLocal | halfClosedRemote | closed =>
            rw [hstate] at hrst
            exact (Except.ok.inj hrst).symm
      obtain ⟨-, rfl⟩ := Prod.mk.inj h
      rw [hclosed]
      exact Connection.lookup_setStream ..

theorem sendData_ne_idle (state : StreamState) (isLast : Bool) :
    state.sendData isLast ≠ .ok .idle := by
  cases state <;> cases isLast <;> nofun

theorem recvHeaders_ne_idle (state : StreamState) (endStream : Bool) :
    state.recvHeaders endStream ≠ .ok .idle := by
  cases state <;> cases endStream <;> nofun

theorem recvData_ne_idle (state : StreamState) (endStream : Bool) :
    state.recvData endStream ≠ .ok .idle := by
  cases state <;> cases endStream <;> nofun

/-- No stream in flight is idle. -/
theorem lasting_live : Lasting fun s => s.state ≠ .idle where
  sent h hlive hidle := by
    rcases h.state with heq | ⟨isLast, hsend⟩
    · exact hlive (heq ▸ hidle)
    · exact sendData_ne_idle _ isLast (hidle ▸ hsend)
  touched h hlive hidle := by
    cases h with
    | kept same => exact hlive (same.state ▸ hidle)
    | doomed _ _ _ _ hstate | reset _ _ _ _ hstate => rw [hstate] at hidle; cases hidle
    | garbled _ _ _ _ hstate | continued _ _ _ _ hstate => exact hlive (hstate ▸ hidle)
    | headers _ _ _ hstate => exact recvHeaders_ne_idle _ _ (hidle ▸ hstate)
    | data _ _ hstate => exact recvData_ne_idle _ _ (hidle ▸ hstate)
  staged {id w req} := by
    unfold Stream.staged
    cases req.body.isEmpty <;> nofun

namespace Batch

/-- An RST_STREAM for a request in flight, not inside a header block. -/
def Resets (b : Batch) (f : Frame) : Prop :=
  f.typ = fRstStream ∧ b.conn.admits f = true ∧ (b.idToIdx.lookup f.streamId).isSome = true

instance (b : Batch) (f : Frame) : Decidable (b.Resets f) :=
  inferInstanceAs (Decidable (_ ∧ _ ∧ _))

/-- DATA with END_STREAM, past all checks, on a stream that has no response headers. -/
def ClosesNow (b : Batch) (f : Frame) (id : Nat) : Prop :=
  f.typ = fData ∧ f.streamId = id ∧ b.conn.admits f = true ∧ f.has flagEndStream = true ∧
    ∃ s, b.conn.streams.lookup id = some s ∧ s.state = .halfClosedLocal ∧
      s.responseHeaders = none ∧ DataPasses b.conn f s

/-- The error is charged to the stream of an RST_STREAM in flight, and to no stream otherwise. -/
def ErrorScoped (b : Batch) (f : Frame) (conn : Connection) : Prop :=
  if b.Resets f then
    ∃ idx, b.idToIdx.lookup f.streamId = some idx ∧
      takeStreamError { b with conn } = some (idx, dropStream { b with conn } f.streamId)
  else takeStreamError { b with conn } = none

/-- Before the frame: no other stream is stalled, and a stream that is reset has no complete
response; for another frame, not exactly one stream is stalled or closed by it. -/
def Attributable (b : Batch) (f : Frame) : Prop :=
  if b.Resets f then
    (∀ j, j ≠ f.streamId → ¬ Stalled b j) ∧
      ∀ s, b.conn.streams.lookup f.streamId = some s →
        (s.endStreamRecv && s.responseHeaders.isSome) = false
  else ¬ ∃! id, Stalled b id ∨ ClosesNow b f id

section

variable {b : Batch} {f : Frame} {source : Source} {conn : Connection} {e : Error}

/-- The stream an error may have closed, besides those stalled before. -/
def StalledNow (b : Batch) (f : Frame) (id : Nat) : Prop :=
  (b.Resets f ∧ f.streamId = id ∧ ∀ s, b.conn.streams.lookup id = some s →
    (s.endStreamRecv && s.responseHeaders.isSome) = false) ∨ ClosesNow b f id

theorem processFrame_of_typ {c : Connection} (hadmits : c.admits f = true)
    (hid : f.streamId ≠ 0) : c.processFrame f = c.processStreamFrame f := by
  simp only [Connection.processFrame, hadmits, if_true, if_neg hid]

/-- On stream 0 frames of most types are ignored. -/
theorem processFrame_ignored {c : Connection} (hadmits : c.admits f = true) (hid : f.streamId = 0)
    (htyp : f.typ ∉ [fSettings, fPing, fWindowUpdate, fGoaway]) :
    c.processFrame f = (.ok .cont, c) := by
  simp only [List.mem_cons, List.not_mem_nil, or_false, not_or] at htyp
  obtain ⟨hsettings, hping, hupdate, hgoaway⟩ := htyp
  simp only [Connection.processFrame, hadmits, hid, Connection.processConnFrame, if_true,
    if_neg hsettings, if_neg hping, if_neg hupdate, if_neg hgoaway]

theorem processFrame_data {c : Connection} (htyp : f.typ = fData) (hadmits : c.admits f = true)
    (hid : f.streamId ≠ 0) : c.processFrame f = c.processData f := by
  have hne : fData ≠ fHeaders ∧ fData ≠ fContinuation := by decide
  simp only [processFrame_of_typ hadmits hid, Connection.processStreamFrame, htyp, if_neg hne.1,
    if_neg hne.2, if_true]

theorem processFrame_rst {c : Connection} (htyp : f.typ = fRstStream)
    (hadmits : c.admits f = true) (hid : f.streamId ≠ 0) :
    c.processFrame f = c.processRst f := by
  have hne : fRstStream ≠ fHeaders ∧ fRstStream ≠ fContinuation ∧ fRstStream ≠ fData := by decide
  simp only [processFrame_of_typ hadmits hid, Connection.processStreamFrame, htyp, if_neg hne.1,
    if_neg hne.2.1, if_neg hne.2.2, if_true]

/-- A frame that fails can only be refused at the gate or have passed it on a stream. -/
theorem streamId_ne_zero {c c' : Connection} (htyp : f.typ = fData ∨ f.typ = fRstStream)
    (hadmits : c.admits f = true) (h : c.processFrame f = (.error e, c')) : f.streamId ≠ 0 := by
  intro hid
  rw [processFrame_ignored hadmits hid (by rcases htyp with h | h <;> rw [h] <;> decide)] at h
  cases h

/-- A frame that changes the state of a stream has passed the gate. -/
theorem admits_of_changed {c c' : Connection} {res : Result DispatchOutcome} {id : Nat}
    {s s' : Stream} (h : c.processFrame f = (res, c')) (hs : c.streams.lookup id = some s)
    (hs' : c'.streams.lookup id = some s') (hne : s'.state ≠ s.state) : c.admits f = true := by
  by_contra hno
  rw [Connection.processFrame, if_neg hno] at h
  obtain ⟨-, rfl⟩ := Prod.mk.inj h
  obtain rfl := Option.some.inj (hs.symm.trans hs')
  exact hne rfl

theorem recvData_closed {state : StreamState} {endStream : Bool}
    (h : state.recvData endStream = .ok .closed) :
    state = .halfClosedLocal ∧ endStream = true := by
  cases state <;> cases endStream <;> first | exact ⟨rfl, rfl⟩ | cases h

/-- After an error the stalled streams are those of before, and the one the frame closed. -/
theorem stalled_after_error (hacc : Accounted reqs b)
    (hlive : Holds (fun s => s.state ≠ .idle) b.conn)
    (hframe : (b.conn.receive source f).processFrame f = (.error e, conn)) (id : Nat) :
    Stalled { b with conn } id ↔ Stalled b id ∨ StalledNow b f id := by
  have htouches := processFrame_touch (b.conn.receive source f) f
  have heff := processFrame_effect (b.conn.receive source f) f
  rw [hframe] at htouches heff
  constructor
  · rintro ⟨s', idx, hs', hidx, hclosed, hnot⟩
    obtain ⟨s, hs, htouch, -⟩ := htouches hs'
    have hchanged := admits_of_changed hframe hs hs'
    cases htouch with
    | kept same =>
        refine .inl ⟨s, idx, hs, hidx, same.state ▸ hclosed, ?_⟩
        rw [← hnot, Stream.complete, Stream.complete, same.state, same.ended, same.headers]
    | doomed _ _ hres => cases hres
    | headers _ _ _ _ _ _ hres => cases hres
    | continued _ _ _ _ _ _ _ hres => cases hres
    | garbled _ _ hopen _ hstate => exact absurd (hstate ▸ hclosed) hopen
    | reset htyp hid _ hwas hstate hended hheaders =>
        subst hid
        have hadmits := hchanged (by rw [hstate]; exact Ne.symm hwas)
        refine .inr (.inl ⟨⟨htyp, hadmits, Option.isSome_iff_exists.mpr ⟨idx, hidx⟩⟩, rfl, ?_⟩)
        intro t ht
        obtain rfl := Option.some.inj (hs.symm.trans ht)
        rw [Stream.complete, hstate, hended, hheaders] at hnot
        simpa [StreamState.remoteDone] using hnot
    | data htyp hid hstate hended hheaders =>
        subst hid
        rw [hclosed] at hstate
        obtain ⟨hlocal, hend⟩ := recvData_closed hstate
        have hadmits := hchanged (by rw [hclosed, hlocal]; decide)
        have hid := streamId_ne_zero (.inl htyp) hadmits hframe
        obtain ⟨t, ht, hpasses⟩ := processData_closes hs hlocal hend
        rw [← processFrame_data htyp hadmits hid, hframe] at ht
        obtain rfl := Option.some.inj (hs'.symm.trans ht)
        have hpassed := hpasses.mp hclosed
        refine .inr (.inr ⟨htyp, rfl, hadmits, hend, s, hs, hlocal, ?_,
          ⟨hpassed.connWindow, hpassed.streamWindow, hpassed.payload⟩⟩)
        rw [Stream.complete, hclosed, hended, hheaders, hend] at hnot
        simpa [StreamState.remoteDone] using hnot
  · rintro (⟨s, idx, hs, hidx, hclosed, hnot⟩ | ⟨⟨htyp, hadmits, hflight⟩, rfl, hcomplete⟩ |
      ⟨htyp, rfl, hadmits, hend, s, hs, hlocal, hheaders, hpasses⟩)
    · obtain ⟨s', hs'⟩ := heff.kept hs
      obtain ⟨t, ht, htouch, -⟩ := htouches hs'
      obtain rfl := Option.some.inj (hs.symm.trans ht)
      refine ⟨s', idx, hs', hidx, ?_⟩
      cases htouch with
      | kept same =>
          refine ⟨same.state ▸ hclosed, ?_⟩
          rw [← hnot, Stream.complete, Stream.complete, same.state, same.ended, same.headers]
      | doomed _ _ hres => cases hres
      | headers _ _ hopen | garbled _ _ hopen | continued _ _ _ hopen | reset _ _ _ hopen =>
          exact absurd hclosed hopen
      | data _ _ hstate => rw [hclosed] at hstate; cases hstate
    · -- the stream that is reset
      obtain ⟨idx, hidx⟩ := Option.isSome_iff_exists.mp hflight
      obtain ⟨s, hs⟩ := (hacc.registered f.streamId).mpr ⟨idx, hidx⟩
      have hid := streamId_ne_zero (c := b.conn.receive source f) (.inr htyp) hadmits hframe
      rw [processFrame_rst (c := b.conn.receive source f) htyp hadmits hid] at hframe
      refine ⟨_, idx, processRst_closes (c := b.conn.receive source f) hs (hlive hs) hframe, hidx, rfl, ?_⟩
      simpa [Stream.complete, StreamState.remoteDone] using hcomplete s hs
    · -- the stream that DATA closes
      obtain ⟨idx, hidx⟩ := (hacc.registered f.streamId).mp ⟨s, hs⟩
      have hid := streamId_ne_zero (c := b.conn.receive source f) (.inl htyp) hadmits hframe
      obtain ⟨s', hs', hclosed⟩ := processData_closes (c := b.conn.receive source f) hs hlocal hend
      rw [← processFrame_data (c := b.conn.receive source f) htyp hadmits hid, hframe] at hs'
      obtain ⟨t, ht, htouch, -⟩ := htouches hs'
      obtain rfl := Option.some.inj (hs.symm.trans ht)
      have hsame : s'.responseHeaders = s.responseHeaders := by
        cases htouch with
        | kept same => exact same.headers
        | doomed _ _ hres => cases hres
        | headers _ _ _ _ _ _ hres => cases hres
        | continued _ _ _ _ _ _ _ hres => cases hres
        | reset _ _ _ _ _ _ hsame | garbled _ _ _ _ _ _ hsame | data _ _ _ _ hsame => exact hsame
      refine ⟨s', idx, hs', hidx,
        hclosed.mpr ⟨hpasses.connWindow, hpasses.streamWindow, hpasses.payload⟩, ?_⟩
      rw [Stream.complete, hsame, hheaders, Option.isSome_none, Bool.and_false]

/-- A frame that fails is charged as it should be exactly when the streams stalled before leave
no doubt. -/
theorem errorScoped_iff (hacc : Accounted reqs b)
    (hlive : Holds (fun s => s.state ≠ .idle) b.conn)
    (hframe : (b.conn.receive source f).processFrame f = (.error e, conn)) :
    ErrorScoped b f conn ↔ Attributable b f := by
  have hstalled := stalled_after_error hacc hlive hframe
  unfold ErrorScoped Attributable
  split
  · next hresets =>
      obtain ⟨idx, hidx⟩ := Option.isSome_iff_exists.mp hresets.2.2
      -- the stream that is reset was not stalled before, and DATA is no RST_STREAM
      have hopen : ¬ Stalled b f.streamId := by
        rintro ⟨s, i, hs, -, hclosed, -⟩
        have hid := streamId_ne_zero (c := b.conn.receive source f) (.inr hresets.1) hresets.2.1
          hframe
        rw [processFrame_rst (c := b.conn.receive source f) hresets.1 hresets.2.1 hid] at hframe
        unfold Connection.processRst at hframe
        have hs' : (b.conn.receive source f).streams.lookup f.streamId = some s := hs
        simp only [hs', if_pos hclosed] at hframe
        cases hframe
      have hdata : ∀ j, ¬ ClosesNow b f j := by
        rintro j ⟨htyp, -⟩
        rw [hresets.1] at htyp
        exact absurd htyp (by decide)
      constructor
      · rintro ⟨i, hi, htake⟩
        obtain ⟨id, hid, hdrop, honly⟩ := unique_of_takeStreamError htake
        have heq : id = f.streamId := by
          by_contra hne
          have hlook := congrArg (fun b => b.idToIdx.lookup id) hdrop
          simp only [dropStream, AList.lookup_erase, AList.lookup_erase_ne hne] at hlook
          rw [hlook] at hid
          cases hid
        subst heq
        refine ⟨fun j hj hstall => hj ((honly j).mp ((hstalled j).mpr (.inl hstall))), ?_⟩
        intro s hs
        rcases (hstalled f.streamId).mp ((honly f.streamId).mpr rfl) with h | ⟨-, -, h⟩ | h
        · exact absurd h hopen
        · exact h s hs
        · exact absurd h (hdata _)
      · rintro ⟨hothers, hincomplete⟩
        refine ⟨idx, hidx, takeStreamError_of_unique hidx fun j => ?_⟩
        rw [hstalled]
        constructor
        · rintro (h | ⟨-, h, -⟩ | h)
          · by_contra hj
            exact hothers j hj h
          · exact h.symm
          · exact absurd h (hdata j)
        · rintro rfl
          exact .inr (.inl ⟨hresets, rfl, hincomplete⟩)
  · next hresets =>
      rw [takeStreamError_eq_none, not_iff_not]
      have hsame : ∀ j, Stalled { b with conn } j ↔ Stalled b j ∨ ClosesNow b f j := by
        intro j
        rw [hstalled, StalledNow]
        constructor
        · rintro (h | ⟨h, -⟩ | h)
          · exact .inl h
          · exact absurd h hresets
          · exact .inr h
        · exact Or.imp_right .inr
      exact existsUnique_congr hsame

/-- What the loop does about an error: it goes on without one stream, or it fails all that is
out. -/
structure Answers (codec : Codec) (reqs : List Request) (b b₁ : Batch) (conn : Connection)
    (e : Error) : Prop where
  charged : ∀ idx b₂, takeStreamError { b₁ with conn } = some (idx, b₂) →
    ∀ conn' fuel, ((b₂.setResult idx (.error e)).startQueued reqs).conn.flushPending =
      (.ok (), conn') → loop codec reqs (fuel + 1) b =
        loop codec reqs fuel { (b₂.setResult idx (.error e)).startQueued reqs with conn := conn' }
  fatal : takeStreamError { b₁ with conn } = none →
    ∀ fuel, loop codec reqs (fuel + 1) b = failAllOutstanding { b₁ with conn } e

/-- In every run of the loop and for every frame that fails in it: the error is charged to the
stream of an RST_STREAM in flight, and to all requests for any other frame, exactly when the
streams stalled before leave no doubt. -/
theorem errorScope_iff {c : Connection} (husable : c.isUsable = true)
    (hhead : Head codec c reqs b) (hwaits : b.results.any Option.isNone = true) {b₁ : Batch}
    (hrefill : b.refill reqs = (b₁, true)) (hread : readFrame b₁.conn.tls.source = (.ok f, source))
    (hframe : (b₁.conn.receive source f).processFrame f = (.error e, conn)) :
    (ErrorScoped b₁ f conn ↔ Attributable b₁ f) ∧ Answers codec reqs b b₁ conn e := by
  have hempty := streams_of_usable husable
  obtain ⟨hsound, hlive⟩ := holds_head lasting_live hempty hhead
  obtain ⟨hafter, -⟩ := refill_true hsound hrefill
  have hlive₁ := holds_refill lasting_live hsound hlive hrefill
  have hdispatch : b₁.conn.readAndDispatch = (.error e, conn) := by
    rw [Connection.readAndDispatch, hread]
    exact hframe
  refine ⟨errorScoped_iff hafter.advances.1 hlive₁ hframe, ?_, ?_⟩
  · intro idx b₂ htake conn' fuel hflush
    exact loop_of_again (.charged hwaits hrefill hdispatch htake hflush) fuel
  · intro htake fuel
    exact loop_of_leaves (.fatal hwaits hrefill hdispatch htake) fuel

end

/-! ### A stalled stream takes the blame -/

/-- DATA with END_STREAM before any HEADERS on stream 1, a malformed WINDOW_UPDATE, and the
answer on stream 3. -/
def blamed : Bytes :=
  Frame.bytes { typ := fData, flags := 0x1, streamId := 1, payload := [] } ++
  Frame.bytes { typ := fWindowUpdate, flags := 0x0, streamId := 0, payload := [] } ++
  Frame.bytes { typ := fHeaders, flags := 0x5, streamId := 3, payload := [0x88] }

/-- The malformed frame on stream 0 fails one request of two, and the loop goes on. -/
theorem error_charged_to_stalled :
    (runMultiplexed (fun _ _ _ => .error []) (.dial ⟨blamed, none⟩) [sampleGet, sampleGet]).1 =
      [.error (.badResponse [.str "WINDOW_UPDATE payload length ", .num 0,
          .str " (expected 4) (FRAME_SIZE_ERROR)"]),
        .ok ⟨200, [], "HTTP/2".toList, [], []⟩] := by
  decide +kernel

/-- A reset of stream 1. -/
def resetOne : Frame where
  typ := fRstStream
  flags := 0
  streamId := 1
  payload := [0, 0, 0, 8]

/-- One request in flight, and its reset to be read. -/
def beforeReset : Batch :=
  let b := (init (.dial ⟨resetOne.bytes, none⟩) [sampleGet]).startQueued [sampleGet]
  { b with conn := b.conn.flushPending.2 }

theorem beforeReset_facts :
    ((init (.dial ⟨resetOne.bytes, none⟩) [sampleGet]).startQueued
        [sampleGet]).conn.flushPending.1 = .ok () ∧
      beforeReset.results = [none] ∧ beforeReset.idToIdx.entries = [⟨1, 0⟩] ∧
      beforeReset.conn.streams.keys = [1] ∧
      readFrame beforeReset.conn.tls.source = (.ok resetOne, ⟨[], none⟩) ∧
      ((beforeReset.conn.receive ⟨[], none⟩ resetOne).processFrame resetOne).1 =
        .error (.badResponse [.str "stream ", .num 1, .str " reset by server, error code ",
          .num 8]) ∧
      beforeReset.conn.admits resetOne = true ∧
      (beforeReset.conn.streams.lookup 1).all (fun s => !(s.endStreamRecv &&
        s.responseHeaders.isSome)) = true := by
  decide +kernel

/-- The reset is charged to its stream. -/
theorem error_scoped_of_reset :
    ErrorScoped beforeReset resetOne
      ((beforeReset.conn.receive ⟨[], none⟩ resetOne).processFrame resetOne).2 := by
  obtain ⟨hflush, hresults, hflight, hkeys, hread, hframe, hadmits, hall⟩ := beforeReset_facts
  have hidx : beforeReset.idToIdx.lookup 1 = some 0 := by
    rw [AList.lookup, hflight]
    rfl
  have hhead : Head (fun _ _ _ => .error []) (.dial ⟨resetOne.bytes, none⟩) [sampleGet]
      beforeReset := ⟨_, Prod.ext hflush rfl, .refl⟩
  have hwaits : beforeReset.results.any Option.isNone = true := by
    rw [hresults]
    rfl
  have hrefill : beforeReset.refill [sampleGet] = (beforeReset, true) := by
    rw [refill, hflight]
    rfl
  have hattributable : Attributable beforeReset resetOne := by
    rw [Attributable, if_pos ⟨rfl, hadmits, Option.isSome_iff_exists.mpr ⟨0, hidx⟩⟩]
    constructor
    · rintro j hj ⟨s, _, hs, -⟩
      have hmem : j ∈ beforeReset.conn.streams.keys := by
        rw [← AList.mem_keys, ← AList.lookup_isSome, hs]
        rfl
      rw [hkeys] at hmem
      exact hj (List.mem_singleton.mp hmem)
    · intro s hs
      change beforeReset.conn.streams.lookup 1 = some s at hs
      rw [hs, Option.all_some, Bool.not_eq_true'] at hall
      exact hall
  exact (errorScope_iff (by decide +kernel) hhead hwaits hrefill hread
    (Prod.ext hframe rfl)).1.mpr hattributable

end Batch
end Rsurl.H2
