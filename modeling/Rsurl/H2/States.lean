/-
# `Rsurl.H2.States` — what one frame does to each stream

The outbound reading of `process_frame`: `Touch` lists the changes of a
stream's state, END_STREAM mark and response headers, and
`processFrame_touch` says that every registered stream undergoes one of them.
-/
import Rsurl.H2.Step

namespace Rsurl.H2

open Http (Header)

/-- `last-stream-id` of a GOAWAY. -/
def Frame.lastStreamId (f : Frame) : Nat :=
  if 4 ≤ f.payload.length then fromBeBytes (f.payload.take 4) % 2 ^ 31 else 0

/-- The same state, END_STREAM mark, response headers and pending body. -/
structure SameProgress (s s' : Stream) : Prop where
  state : s'.state = s.state
  ended : s'.endStreamRecv = s.endStreamRecv
  headers : s'.responseHeaders = s.responseHeaders

theorem SameProgress.refl (s : Stream) : SameProgress s s := ⟨rfl, rfl, rfl⟩

/-- What the frame `f` with the result `res` may do to the stream `id`. -/
inductive Touch (f : Frame) (res : Result DispatchOutcome) (id : Nat) (s s' : Stream) : Prop
  | kept (same : SameProgress s s')
  | doomed (htyp : f.typ = fGoaway) (hid : f.streamId = 0) (hres : res = .ok .cont)
      (hlast : f.lastStreamId < id)
      (hstate : s'.state = .closed) (hended : s'.endStreamRecv = s.endStreamRecv)
      (hheaders : s'.responseHeaders = s.responseHeaders)
  | reset (htyp : f.typ = fRstStream) (hid : f.streamId = id) (hres : ∃ e, res = .error e)
      (hwas : s.state ≠ .closed) (hstate : s'.state = .closed)
      (hended : s'.endStreamRecv = s.endStreamRecv)
      (hheaders : s'.responseHeaders = s.responseHeaders)
  | headers (htyp : f.typ = fHeaders) (hid : f.streamId = id) (hopen : s.state ≠ .closed)
      (hstate : s.state.recvHeaders (f.has flagEndStream) = .ok s'.state)
      (hended : s'.endStreamRecv = (s.endStreamRecv || f.has flagEndStream))
      (hheaders : if f.has flagEndHeaders then s'.responseHeaders.isSome
        else s'.responseHeaders = s.responseHeaders)
      (hres : res = .ok (s'.outcome id))
  | garbled (htyp : f.typ = fHeaders) (hid : f.streamId = id) (hopen : s.state ≠ .closed)
      (hres : ∃ e, res = .error e) (hstate : s'.state = s.state)
      (hended : s'.endStreamRecv = (s.endStreamRecv || f.has flagEndStream))
      (hheaders : s'.responseHeaders = s.responseHeaders)
  | continued (htyp : f.typ = fContinuation) (hid : f.streamId = id)
      (hlast : f.has flagEndHeaders = true) (hopen : s.state ≠ .closed)
      (hstate : s'.state = s.state) (hended : s'.endStreamRecv = s.endStreamRecv)
      (hheaders : s'.responseHeaders.isSome) (hres : res = .ok (s'.outcome id))
  | data (htyp : f.typ = fData) (hid : f.streamId = id)
      (hstate : s.state.recvData (f.has flagEndStream) = .ok s'.state)
      (hended : s'.endStreamRecv = (s.endStreamRecv || f.has flagEndStream))
      (hheaders : s'.responseHeaders = s.responseHeaders)
      (hres : res = .ok (s'.outcome id) ∨ ∃ e, res = .error e)

/-- Every stream after the frame comes from one before it by a listed change, with its body to
send. -/
def Touches (c : Connection) (f : Frame) (res : Result DispatchOutcome) (c' : Connection) : Prop :=
  ∀ ⦃id s'⦄, c'.streams.lookup id = some s' → ∃ s, c.streams.lookup id = some s ∧
    Touch f res id s s' ∧ s'.pendingBody = s.pendingBody

theorem touches_of_streams_eq {c c' : Connection} {f : Frame} {res : Result DispatchOutcome}
    (h : c'.streams = c.streams) : Touches c f res c' := by
  intro id s' hs'
  exact ⟨s', h ▸ hs', .kept (.refl s'), rfl⟩

/-- Only one stream changes. -/
theorem touches_of_insert {c c' : Connection} {f : Frame} {res : Result DispatchOutcome}
    {s s' : Stream} (hs : c.streams.lookup f.streamId = some s)
    (h : c'.streams = c.streams.insert f.streamId s') (htouch : Touch f res f.streamId s s')
    (hpending : s'.pendingBody = s.pendingBody) : Touches c f res c' := by
  intro id t' ht'
  rw [h] at ht'
  by_cases hid : id = f.streamId
  · subst hid
    rw [AList.lookup_insert] at ht'
    obtain rfl := Option.some.inj ht'
    exact ⟨s, hs, htouch, hpending⟩
  · rw [AList.lookup_insert_ne hid] at ht'
    exact ⟨t', ht', .kept (.refl t'), rfl⟩

section

variable (c : Connection) (f : Frame)

theorem shiftSendWindows_touch (newInitial : Nat) {id : Nat} {s' : Stream}
    (hs' : (c.shiftSendWindows newInitial).2.lookup id = some s') :
    ∃ s, c.streams.lookup id = some s ∧ SameProgress s s' ∧ s'.pendingBody = s.pendingBody := by
  unfold Connection.shiftSendWindows at hs'
  split at hs'
  · rcases Base.Table.lookup_mapUntil (fun _ (s : Stream) => (do
        let sendWindow ← s.sendWindow.applyInitialWindowChange newInitial
        .ok { s with sendWindow } : Result Stream)) c.streams id with heq | ⟨v, v', hwas, hupd, hnow⟩
    · exact ⟨s', heq.symm.trans hs', .refl s', rfl⟩
    · obtain rfl := Option.some.inj (hnow.symm.trans hs')
      obtain ⟨w, -, hv⟩ := Result.bind_eq_ok.mp hupd
      cases hv
      exact ⟨v, hwas, ⟨rfl, rfl, rfl⟩, rfl⟩
  · exact ⟨s', hs', .refl s', rfl⟩

theorem processSettings_touch :
    Touches c f (c.processSettings f).1 (c.processSettings f).2 := by
  have hshift : ∀ newInitial {c'}, c'.streams = (c.shiftSendWindows newInitial).2 →
      Touches c f (c.processSettings f).1 c' := by
    intro newInitial c' hstreams id s' hs'
    rw [hstreams] at hs'
    obtain ⟨s, hs, hsame, hpending⟩ := shiftSendWindows_touch c newInitial hs'
    exact ⟨s, hs, .kept hsame, hpending⟩
  revert hshift
  unfold Connection.processSettings
  split
  · exact fun _ => touches_of_streams_eq rfl
  · next peer _ =>
      split
      · next streams ht => exact fun hshift => hshift peer.initialWindowSize (by rw [ht])
      · next streams ht => exact fun hshift => hshift peer.initialWindowSize (by rw [ht]; rfl)

theorem processConnFrame_touch (hid : f.streamId = 0) :
    Touches c f (c.processConnFrame f).1 (c.processConnFrame f).2 := by
  unfold Connection.processConnFrame
  split
  · split
    · exact touches_of_streams_eq rfl
    · exact processSettings_touch c f
  split
  · split <;> exact touches_of_streams_eq rfl
  split
  · split <;> exact touches_of_streams_eq rfl
  split
  · next htyp =>
      intro id s' hs'
      rw [Connection.processGoaway, Base.Table.lookup_mapValues] at hs'
      obtain ⟨s, hs, rfl⟩ := Option.map_eq_some_iff.mp hs'
      refine ⟨s, hs, ?_, ?_⟩
      · change Touch f _ id s (if f.lastStreamId < id then { s with state := .closed } else s)
        split
        · next hlast => exact .doomed htyp hid rfl hlast rfl rfl rfl
        · exact .kept (.refl s)
      · change (if f.lastStreamId < id then { s with state := .closed } else s).pendingBody = _
        split <;> rfl
  · exact touches_of_streams_eq rfl

theorem processHeaders_touch (htyp : f.typ = fHeaders) :
    Touches c f (c.processHeaders f).1 (c.processHeaders f).2 := by
  unfold Connection.processHeaders
  split
  · exact touches_of_streams_eq rfl
  simp only
  split
  · exact touches_of_streams_eq rfl
  next s hs =>
  split
  · unfold Connection.headersOnClosed
    split
    · split <;> exact touches_of_streams_eq rfl
    · split
      · exact touches_of_streams_eq rfl
      · next s' hpush =>
          obtain rfl := pushHeaderFragment_eq_ok hpush
          exact touches_of_insert hs rfl (.kept ⟨rfl, rfl, rfl⟩) rfl
  next hopen =>
  split
  · exact touches_of_streams_eq rfl
  next newState hstate =>
  split
  · exact touches_of_streams_eq rfl
  next s' hpush =>
  obtain rfl := pushHeaderFragment_eq_ok hpush
  generalize hnoted : (if f.has flagEndStream then
    ({ s with headersBuf := s.headersBuf ++ _, endStreamRecv := true } : Stream)
    else { s with headersBuf := s.headersBuf ++ _ }) = s₁
  have hended : s₁.endStreamRecv = (s.endStreamRecv || f.has flagEndStream) := by
    rw [← hnoted]
    split
    · next h => rw [h, Bool.or_true]
    · next h => rw [Bool.eq_false_iff.mpr h, Bool.or_false]
  have hsame : s₁.state = s.state ∧ s₁.responseHeaders = s.responseHeaders ∧
      s₁.pendingBody = s.pendingBody := by
    rw [← hnoted]
    split <;> exact ⟨rfl, rfl, rfl⟩
  split
  · next hlast =>
      split
      · exact touches_of_insert hs rfl (.garbled htyp rfl hopen ⟨_, rfl⟩ hsame.1 hended hsame.2.1) hsame.2.2
      · exact touches_of_insert hs rfl
          (.headers htyp rfl hopen hstate hended (by rw [if_pos hlast]; rfl) rfl) hsame.2.2
  · next hmore =>
      exact touches_of_insert hs rfl
        (.headers htyp rfl hopen hstate hended (by rw [if_neg hmore]; exact hsame.2.1) rfl) hsame.2.2

theorem processContinuation_touch (htyp : f.typ = fContinuation) :
    Touches c f (c.processContinuation f).1 (c.processContinuation f).2 := by
  unfold Connection.processContinuation
  simp only
  split
  · exact touches_of_streams_eq rfl
  split
  · exact touches_of_streams_eq rfl
  next s hs =>
  split
  · exact touches_of_streams_eq rfl
  next s' hpush =>
  obtain rfl := pushHeaderFragment_eq_ok hpush
  split
  · next hlast =>
      split
      · exact touches_of_insert hs rfl (.kept ⟨rfl, rfl, rfl⟩) rfl
      · by_cases hclosed : s.state = .closed
        · have hsame : SameProgress s { s with headersBuf := [] } := ⟨rfl, rfl, rfl⟩
          refine touches_of_insert hs ?_ (.kept hsame) rfl
          simp only [hclosed, if_true]
          rfl
        · simp only [if_neg hclosed]
          exact touches_of_insert hs rfl (.continued htyp rfl hlast hclosed rfl rfl rfl rfl) rfl
  · exact touches_of_insert hs rfl (.kept ⟨rfl, rfl, rfl⟩) rfl

/-- The updates at the end of DATA leave the stream's progress. -/
theorem replenishBoth_touch (id : Nat) (s : Stream) :
    ∃ s', SameProgress s s' ∧ s'.pendingBody = s.pendingBody ∧
      (c.replenishBoth id s).2.streams = c.streams.insert id s' ∧
      ((c.replenishBoth id s).1 = .ok (s'.outcome id) ∨
        ∃ e, (c.replenishBoth id s).1 = .error e) := by
  unfold Connection.replenishBoth
  simp only
  split
  · exact ⟨s, .refl s, rfl, rfl, .inr ⟨_, rfl⟩⟩
  · refine ⟨{ s with recvWindow := (s.recvWindow.replenish id).2 }, ⟨rfl, rfl, rfl⟩, rfl, rfl, ?_⟩
    unfold Connection.afterWrite
    generalize Sink.andThen _ _ = out
    obtain ⟨res, sink⟩ := out
    cases res with
    | error e => exact .inr ⟨e, rfl⟩
    | ok u => exact .inl rfl

theorem processData_touch (htyp : f.typ = fData) :
    Touches c f (c.processData f).1 (c.processData f).2 := by
  unfold Connection.processData
  simp only
  split
  · exact touches_of_streams_eq rfl
  split
  · split <;> exact touches_of_streams_eq rfl
  next s hs =>
  split
  · exact touches_of_streams_eq rfl
  split
  · exact touches_of_streams_eq rfl
  next newState hstate =>
  split
  · exact touches_of_insert hs rfl (.kept ⟨rfl, rfl, rfl⟩) rfl
  split
  · exact touches_of_insert hs rfl (.kept ⟨rfl, rfl, rfl⟩) rfl
  next payload _ =>
  split
  · exact touches_of_insert hs rfl (.kept ⟨rfl, rfl, rfl⟩) rfl
  · obtain ⟨s', hsame, hpending, hstreams, hres⟩ := replenishBoth_touch
      { c with connRecvWindow := c.connRecvWindow.consume f.payload.length } f.streamId
      { s with
        recvWindow := s.recvWindow.consume f.payload.length
        body := s.body ++ payload
        endStreamRecv := s.endStreamRecv || f.has flagEndStream
        state := newState }
    refine touches_of_insert hs hstreams ?_ hpending
    exact .data htyp rfl (by rw [hsame.state]; exact hstate) hsame.ended hsame.headers hres

theorem processRst_touch (htyp : f.typ = fRstStream) :
    Touches c f (c.processRst f).1 (c.processRst f).2 := by
  unfold Connection.processRst
  simp only
  split
  · exact touches_of_streams_eq rfl
  next s hs =>
  split
  · exact touches_of_streams_eq rfl
  next hopen =>
  split
  · exact touches_of_streams_eq rfl
  · next state hstate =>
      have hclosed : state = .closed := by
        unfold StreamState.recvRst at hstate
        split at hstate
        · cases hstate
        · exact (Except.ok.inj hstate).symm
      exact touches_of_insert hs rfl (.reset htyp rfl ⟨_, rfl⟩ hopen hclosed rfl rfl) rfl

theorem processStreamWindowUpdate_touch :
    Touches c f (c.processStreamWindowUpdate f).1 (c.processStreamWindowUpdate f).2 := by
  unfold Connection.processStreamWindowUpdate
  split
  · exact touches_of_streams_eq rfl
  split
  · exact touches_of_streams_eq rfl
  next s hs =>
  split
  · exact touches_of_streams_eq rfl
  · exact touches_of_insert hs rfl (.kept ⟨rfl, rfl, rfl⟩) rfl

/-- Every stream undergoes one of the listed changes. -/
theorem processFrame_touch : Touches c f (c.processFrame f).1 (c.processFrame f).2 := by
  unfold Connection.processFrame
  split
  · split
    · next hid => exact processConnFrame_touch c f hid
    · unfold Connection.processStreamFrame
      split
      · next htyp => exact processHeaders_touch c f htyp
      split
      · next htyp => exact processContinuation_touch c f htyp
      split
      · next htyp => exact processData_touch c f htyp
      split
      · next htyp => exact processRst_touch c f htyp
      split
      · exact processStreamWindowUpdate_touch c f
      split <;> exact touches_of_streams_eq rfl
  · exact touches_of_streams_eq rfl

/-! ## What no frame changes -/

/-- The read half stays where it is; no GOAWAY and no settings are noted. -/
structure KeepsLink (c c' : Connection) : Prop where
  source : c'.tls.source = c.tls.source
  goaway : c'.goawayReceived = c.goawayReceived
  peer : c'.peer = c.peer

theorem processHeaders_link : KeepsLink c (c.processHeaders f).2 := by
  unfold Connection.processHeaders
  split
  · exact ⟨rfl, rfl, rfl⟩
  simp only
  split
  · exact ⟨rfl, rfl, rfl⟩
  split
  · unfold Connection.headersOnClosed
    split
    · split <;> exact ⟨rfl, rfl, rfl⟩
    · split <;> exact ⟨rfl, rfl, rfl⟩
  split
  · exact ⟨rfl, rfl, rfl⟩
  split
  · exact ⟨rfl, rfl, rfl⟩
  split
  · split <;> exact ⟨rfl, rfl, rfl⟩
  · exact ⟨rfl, rfl, rfl⟩

theorem processContinuation_link : KeepsLink c (c.processContinuation f).2 := by
  unfold Connection.processContinuation
  simp only
  split
  · exact ⟨rfl, rfl, rfl⟩
  split
  · exact ⟨rfl, rfl, rfl⟩
  split
  · exact ⟨rfl, rfl, rfl⟩
  split
  · split <;> exact ⟨rfl, rfl, rfl⟩
  · exact ⟨rfl, rfl, rfl⟩

theorem replenishBoth_link (id : Nat) (s : Stream) : KeepsLink c (c.replenishBoth id s).2 := by
  unfold Connection.replenishBoth
  simp only
  split <;> exact ⟨rfl, rfl, rfl⟩

theorem processData_link : KeepsLink c (c.processData f).2 := by
  unfold Connection.processData
  simp only
  split
  · exact ⟨rfl, rfl, rfl⟩
  split
  · split <;> exact ⟨rfl, rfl, rfl⟩
  split
  · exact ⟨rfl, rfl, rfl⟩
  split
  · exact ⟨rfl, rfl, rfl⟩
  split
  · exact ⟨rfl, rfl, rfl⟩
  split
  · exact ⟨rfl, rfl, rfl⟩
  split
  · exact ⟨rfl, rfl, rfl⟩
  · have hlink := replenishBoth_link
      { c with connRecvWindow := c.connRecvWindow.consume f.payload.length } f.streamId
    exact ⟨(hlink _).source, (hlink _).goaway, (hlink _).peer⟩

theorem processRst_link : KeepsLink c (c.processRst f).2 := by
  unfold Connection.processRst
  simp only
  split
  · exact ⟨rfl, rfl, rfl⟩
  split
  · exact ⟨rfl, rfl, rfl⟩
  split <;> exact ⟨rfl, rfl, rfl⟩

theorem processStreamWindowUpdate_link : KeepsLink c (c.processStreamWindowUpdate f).2 := by
  unfold Connection.processStreamWindowUpdate
  split
  · exact ⟨rfl, rfl, rfl⟩
  split
  · exact ⟨rfl, rfl, rfl⟩
  split <;> exact ⟨rfl, rfl, rfl⟩

theorem processStreamFrame_link : KeepsLink c (c.processStreamFrame f).2 := by
  unfold Connection.processStreamFrame
  split
  · exact processHeaders_link c f
  split
  · exact processContinuation_link c f
  split
  · exact processData_link c f
  split
  · exact processRst_link c f
  split
  · exact processStreamWindowUpdate_link c f
  split <;> exact ⟨rfl, rfl, rfl⟩

/-- SETTINGS that are no acknowledgement. -/
def Frame.setsPeer (f : Frame) : Prop := f.streamId = 0 ∧ f.typ = fSettings ∧ f.has flagAck = false

instance : Decidable f.setsPeer := inferInstanceAs (Decidable (_ ∧ _ ∧ _))

theorem processConnFrame_link (hid : f.streamId = 0) (hgoaway : f.typ ≠ fGoaway)
    (hsettings : ¬ f.setsPeer) : KeepsLink c (c.processConnFrame f).2 := by
  unfold Connection.processConnFrame
  split
  · next htyp =>
      split
      · exact ⟨rfl, rfl, rfl⟩
      · next hack => exact absurd ⟨hid, htyp, Bool.eq_false_iff.mpr hack⟩ hsettings
  split
  · split <;> exact ⟨rfl, rfl, rfl⟩
  split
  · split <;> exact ⟨rfl, rfl, rfl⟩
  exact ⟨rfl, rfl, rfl⟩

/-- A GOAWAY that passes the gate. -/
def Connection.seesGoaway (c : Connection) (f : Frame) : Prop :=
  c.admits f = true ∧ f.streamId = 0 ∧ f.typ = fGoaway

instance : Decidable (c.seesGoaway f) := inferInstanceAs (Decidable (_ ∧ _ ∧ _))

theorem processFrame_of_goaway (h : c.seesGoaway f) :
    c.processFrame f = (.ok .cont, c.processGoaway f) := by
  obtain ⟨hadmits, hid, htyp⟩ := h
  have hne : fGoaway ≠ fSettings ∧ fGoaway ≠ fPing ∧ fGoaway ≠ fWindowUpdate := by decide
  simp only [Connection.processFrame, hadmits, hid, Connection.processConnFrame, htyp, if_true,
    if_neg hne.1, if_neg hne.2.1, if_neg hne.2.2]

/-- Settings of the peer that pass the gate. -/
def Connection.seesSettings (c : Connection) (f : Frame) : Prop :=
  c.admits f = true ∧ f.setsPeer

instance : Decidable (c.seesSettings f) := inferInstanceAs (Decidable (_ ∧ _))

theorem processFrame_of_settings (h : c.seesSettings f) :
    c.processFrame f = c.processSettings f := by
  obtain ⟨hadmits, hid, htyp, hack⟩ := h
  simp only [Connection.processFrame, hadmits, hid, Connection.processConnFrame, htyp, hack,
    if_true, Bool.false_eq_true, if_false]

theorem processFrame_link (hgoaway : ¬ c.seesGoaway f) (hsettings : ¬ c.seesSettings f) :
    KeepsLink c (c.processFrame f).2 := by
  unfold Connection.processFrame
  split
  · next hadmits =>
      split
      · next hid =>
          exact processConnFrame_link c f hid (fun htyp => hgoaway ⟨hadmits, hid, htyp⟩)
            fun hsets => hsettings ⟨hadmits, hsets⟩
      · exact processStreamFrame_link c f
  · exact ⟨rfl, rfl, rfl⟩

/-- Of the settings, whatever was read is applied, also when they are refused. -/
theorem processSettings_notes :
    (c.processSettings f).2.tls.source = c.tls.source ∧
      (c.processSettings f).2.goawayReceived = c.goawayReceived ∧
      (c.processSettings f).2.peer = (c.peer.applySettingsPayload f.payload).2 := by
  unfold Connection.processSettings
  split
  · next hset =>
      rw [hset]
      exact ⟨rfl, rfl, rfl⟩
  · next hset =>
      rw [hset]
      split <;> exact ⟨rfl, rfl, rfl⟩

theorem processFrame_source : (c.processFrame f).2.tls.source = c.tls.source := by
  by_cases h : c.seesGoaway f
  · rw [processFrame_of_goaway c f h]
    rfl
  by_cases hset : c.seesSettings f
  · rw [processFrame_of_settings c f hset]
    exact (processSettings_notes c f).1
  · exact (processFrame_link c f h hset).source

theorem processFrame_goaway : (c.processFrame f).2.goawayReceived =
    if c.seesGoaway f then some f.lastStreamId else c.goawayReceived := by
  split
  · next h =>
      rw [processFrame_of_goaway c f h]
      rfl
  next h =>
  by_cases hset : c.seesSettings f
  · rw [processFrame_of_settings c f hset]
    exact (processSettings_notes c f).2.1
  · exact (processFrame_link c f h hset).goaway

theorem processFrame_peer : (c.processFrame f).2.peer =
    if c.seesSettings f then (c.peer.applySettingsPayload f.payload).2 else c.peer := by
  split
  · next hset =>
      rw [processFrame_of_settings c f hset]
      exact (processSettings_notes c f).2.2
  next hset =>
  by_cases h : c.seesGoaway f
  · rw [processFrame_of_goaway c f h]
    rfl
  · exact (processFrame_link c f h hset).peer

/-! ## The peer's frame size -/

/-- The peer takes frames of the size every peer must take (RFC 9113 §6.5.2). -/
def Connection.Sane (c : Connection) : Prop := 16384 ≤ c.peer.maxFrameSize

/-- An accepted entry leaves the bounded settings alone or sets them within their bounds. -/
theorem applySetting_eq_ok {p p' : PeerSettings} {id val : Nat}
    (h : p.applySetting id val = .ok p') :
    (p'.maxFrameSize = p.maxFrameSize ∨ 16384 ≤ p'.maxFrameSize) ∧
      (p'.initialWindowSize = p.initialWindowSize ∨ p'.initialWindowSize ≤ 0x7fffffff) := by
  unfold PeerSettings.applySetting at h
  split at h
  · obtain rfl := Except.ok.inj h
    exact ⟨.inl rfl, .inl rfl⟩
  · split at h
    · obtain rfl := Except.ok.inj h
      exact ⟨.inl rfl, .inl rfl⟩
    · obtain rfl := Except.ok.inj h
      exact ⟨.inl rfl, .inl rfl⟩
    · cases h
  · obtain rfl := Except.ok.inj h
    exact ⟨.inl rfl, .inl rfl⟩
  · split at h
    · cases h
    · next hval =>
        obtain rfl := Except.ok.inj h
        exact ⟨.inl rfl, .inr (Nat.not_lt.mp hval)⟩
  · split at h
    · next hval =>
        obtain rfl := Except.ok.inj h
        exact ⟨.inr hval.1, .inl rfl⟩
    · cases h
  · obtain rfl := Except.ok.inj h
    exact ⟨.inl rfl, .inl rfl⟩
  · obtain rfl := Except.ok.inj h
    exact ⟨.inl rfl, .inl rfl⟩

theorem applySetting_sane {p p' : PeerSettings} {id val : Nat} (h : 16384 ≤ p.maxFrameSize)
    (hset : p.applySetting id val = .ok p') : 16384 ≤ p'.maxFrameSize := by
  rcases (applySetting_eq_ok hset).1 with hsame | hbound
  · rw [hsame]
    exact h
  · exact hbound

theorem applySetting_window {p p' : PeerSettings} {id val : Nat}
    (h : p.initialWindowSize ≤ 0x7fffffff) (hset : p.applySetting id val = .ok p') :
    p'.initialWindowSize ≤ 0x7fffffff := by
  rcases (applySetting_eq_ok hset).2 with hsame | hbound
  · rw [hsame]
    exact h
  · exact hbound

/-- What every accepted entry keeps, a SETTINGS payload keeps. -/
theorem applySettingsPayload_induct {P : PeerSettings → Prop}
    (hset : ∀ {p p' id val}, P p → p.applySetting id val = .ok p' → P p') (payload : Bytes)
    {p : PeerSettings} (h : P p) : P (p.applySettingsPayload payload).2 := by
  unfold PeerSettings.applySettingsPayload
  split
  · exact h
  clear * - hset h
  induction p, payload using PeerSettings.applyEntries.induct with
  | case1 p i₁ i₀ v₃ v₂ v₁ v₀ payload e hentry =>
      simp only [PeerSettings.applyEntries, hentry]
      exact h
  | case2 p i₁ i₀ v₃ v₂ v₁ v₀ payload p' hentry ih =>
      simp only [PeerSettings.applyEntries, hentry]
      exact ih (hset h hentry)
  | case3 p payload hshort =>
      unfold PeerSettings.applyEntries
      split
      · exact absurd rfl (hshort _ _ _ _ _ _ _)
      · exact h

theorem processFrame_sane (h : c.Sane) : (c.processFrame f).2.Sane := by
  unfold Connection.Sane
  rw [processFrame_peer]
  split
  · exact applySettingsPayload_induct applySetting_sane f.payload h
  · exact h

end

end Rsurl.H2
