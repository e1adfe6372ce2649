/-
# `Rsurl.H2.Step` — what one frame does to a connection

Everything later proofs need of `process_frame`, once.  A handler either leaves
the inbound side of every stream alone (`Moves`), or it changes one stream:
`Effect` lists what a frame may do, and `processFrame_effect` says that it does
one of these.
-/
import Rsurl.H2.Connection

namespace Rsurl.H2

open Http (Header)

/-! ## Changes on this side -/

/-- Two states of a stream with the same inbound side. -/
structure SameInbound (s s' : Stream) : Prop where
  headersBuf : s'.headersBuf = s.headersBuf
  responseHeaders : s'.responseHeaders = s.responseHeaders
  endStreamRecv : s'.endStreamRecv = s.endStreamRecv

theorem SameInbound.refl (s : Stream) : SameInbound s s := ⟨rfl, rfl, rfl⟩

theorem SameInbound.trans {s s' s'' : Stream} (h : SameInbound s s') (h' : SameInbound s' s'') :
    SameInbound s s'' :=
  ⟨h'.headersBuf.trans h.headersBuf, h'.responseHeaders.trans h.responseHeaders,
    h'.endStreamRecv.trans h.endStreamRecv⟩

/-- A change of a connection that receives no header block and no data, with the same streams
after it. -/
structure Moves (c c' : Connection) : Prop where
  decoder : c'.decoder = c.decoder
  expecting : c'.expectingContinuation = c.expectingContinuation
  received : c'.tls.received = c.tls.received
  next : c'.nextStreamId = c.nextStreamId
  kept : ∀ {id s}, c.streams.lookup id = some s → ∃ s', c'.streams.lookup id = some s'
  came : ∀ {id s'}, c'.streams.lookup id = some s' →
    ∃ s, c.streams.lookup id = some s ∧ SameInbound s s'

theorem Moves.refl (c : Connection) : Moves c c where
  decoder := rfl
  expecting := rfl
  received := rfl
  next := rfl
  kept h := ⟨_, h⟩
  came h := ⟨_, h, .refl _⟩

theorem Moves.trans {c c' c'' : Connection} (h : Moves c c') (h' : Moves c' c'') :
    Moves c c'' where
  decoder := h'.decoder.trans h.decoder
  expecting := h'.expecting.trans h.expecting
  received := h'.received.trans h.received
  next := h'.next.trans h.next
  kept hs := by
    obtain ⟨s', hs'⟩ := h.kept hs
    exact h'.kept hs'
  came hs := by
    obtain ⟨s', hs', hsame'⟩ := h'.came hs
    obtain ⟨s, hs, hsame⟩ := h.came hs'
    exact ⟨s, hs, hsame.trans hsame'⟩

/-- Changing only the transport's ends, the windows, the settings and the encoder. -/
theorem Moves.of_streams_eq {c c' : Connection} (hdec : c'.decoder = c.decoder)
    (hexp : c'.expectingContinuation = c.expectingContinuation)
    (hrec : c'.tls.received = c.tls.received) (hnext : c'.nextStreamId = c.nextStreamId)
    (hstreams : c'.streams = c.streams) : Moves c c' where
  decoder := hdec
  expecting := hexp
  received := hrec
  next := hnext
  kept h := ⟨_, by rwa [hstreams]⟩
  came h := ⟨_, by rwa [hstreams] at h, .refl _⟩

/-- Replacing a stream by one with the same inbound side. -/
theorem Moves.setStream {c : Connection} {id : Nat} {s s' : Stream}
    (h : c.streams.lookup id = some s) (hsame : SameInbound s s') :
    Moves c (c.setStream id s') where
  decoder := rfl
  expecting := rfl
  received := rfl
  next := rfl
  kept {j t} ht := by
    by_cases hj : j = id
    · subst hj
      exact ⟨s', AList.lookup_insert _⟩
    · exact ⟨t, by rwa [Connection.setStream, AList.lookup_insert_ne hj]⟩
  came {j t} ht := by
    by_cases hj : j = id
    · subst hj
      rw [Connection.setStream, AList.lookup_insert] at ht
      obtain rfl := Option.some.inj ht
      exact ⟨s, h, hsame⟩
    · rw [Connection.setStream, AList.lookup_insert_ne hj] at ht
      exact ⟨t, ht, .refl t⟩

theorem Moves.setSink (c : Connection) (sink : Sink) : Moves c (c.setSink sink) :=
  .of_streams_eq rfl rfl rfl rfl rfl

/-! ## What a frame may do -/

/-- Only the stream `id` changes, from `s` to `s'`. -/
structure OnStream (c c' : Connection) (id : Nat) (s s' : Stream) : Prop where
  was : c.streams.lookup id = some s
  now : c'.streams.lookup id = some s'
  others : ∀ {j}, j ≠ id → c'.streams.lookup j = c.streams.lookup j
  received : c'.tls.received = c.tls.received
  next : c'.nextStreamId = c.nextStreamId

theorem OnStream.of_setStream {c c' : Connection} {id : Nat} {s s' : Stream}
    (h : c.streams.lookup id = some s) (hstreams : c'.streams = c.streams.insert id s')
    (hrec : c'.tls.received = c.tls.received) (hnext : c'.nextStreamId = c.nextStreamId) :
    OnStream c c' id s s' where
  was := h
  now := by rw [hstreams, AList.lookup_insert]
  others hj := by rw [hstreams, AList.lookup_insert_ne hj]
  received := hrec
  next := hnext

/-- The frame is part of a header block. -/
def Frame.carriesBlock (f : Frame) : Prop :=
  f.typ = fHeaders ∨ f.typ = fContinuation ∨ f.typ = fPushPromise

/-- The effects of a frame, by what it does to the inbound side. -/
inductive Effect (c : Connection) (f : Frame) : Result DispatchOutcome → Connection → Prop
  /-- Nothing is received: a frame of the connection, an ignored frame, or an error. -/
  | quiet {res : Result DispatchOutcome} {c' : Connection} (moves : Moves c c')
      (hdone : ∀ id, res ≠ .ok (.done id))
      (hblock : f.carriesBlock → f.streamId ≠ 0 → ∃ e, res = .error e) : Effect c f res c'
  /-- DATA. -/
  | data {s s' : Stream} {res : Result DispatchOutcome} {c' : Connection} (htyp : f.typ = fData)
      (on : OnStream c c' f.streamId s s') (hdec : c'.decoder = c.decoder)
      (hexp : c'.expectingContinuation = c.expectingContinuation)
      (hbuf : s'.headersBuf = s.headersBuf) (hhead : s'.responseHeaders = s.responseHeaders)
      (hend : s'.endStreamRecv = (s.endStreamRecv || f.has flagEndStream))
      (hres : ∀ id, res = .ok (.done id) → id = f.streamId ∧ s'.complete) : Effect c f res c'
  /-- HEADERS without END_HEADERS. -/
  | opens {s s' : Stream} {frag : Bytes} {o : DispatchOutcome} {c' : Connection}
      (htyp : f.typ = fHeaders) (hfrag : Connection.headersFragment f = .ok frag)
      (hmore : f.has flagEndHeaders = false) (on : OnStream c c' f.streamId s s')
      (hdec : c'.decoder = c.decoder) (hexp : c'.expectingContinuation = some f.streamId)
      (hbuf : s'.headersBuf = s.headersBuf ++ frag)
      (hhead : s'.responseHeaders = s.responseHeaders)
      (hend : s'.endStreamRecv → s.endStreamRecv ∨ f.has flagEndStream)
      (hres : ∀ id, o = .done id → id = f.streamId ∧ s'.complete) : Effect c f (.ok o) c'
  /-- CONTINUATION without END_HEADERS. -/
  | continues {s s' : Stream} {c' : Connection} (htyp : f.typ = fContinuation)
      (hmore : f.has flagEndHeaders = false) (on : OnStream c c' f.streamId s s')
      (hwas : c.expectingContinuation = some f.streamId) (hdec : c'.decoder = c.decoder)
      (hexp : c'.expectingContinuation = some f.streamId)
      (hbuf : s'.headersBuf = s.headersBuf ++ f.payload)
      (hhead : s'.responseHeaders = s.responseHeaders)
      (hend : s'.endStreamRecv = s.endStreamRecv) :
      Effect c f (.ok (s'.outcome f.streamId)) c'
  /-- The end of a header block that decodes. -/
  | closes {s s' : Stream} {block : Bytes} {decoded : List Header} {c' : Connection}
      (hblock : (f.typ = fHeaders ∧ ∃ frag, Connection.headersFragment f = .ok frag ∧
          block = s.headersBuf ++ frag) ∨
        (f.typ = fContinuation ∧ c.expectingContinuation = some f.streamId ∧
          block = s.headersBuf ++ f.payload))
      (hlast : f.has flagEndHeaders = true) (on : OnStream c c' f.streamId s s')
      (hdec : c.decoder.decodeBlock block = (.ok decoded, c'.decoder))
      (hexp : c'.expectingContinuation = none) (hbuf : s'.headersBuf = [])
      (hhead : s'.responseHeaders = some decoded ∨ s'.responseHeaders = s.responseHeaders)
      (hend : s'.endStreamRecv → s.endStreamRecv ∨
        f.typ = fHeaders ∧ f.has flagEndStream) :
      Effect c f (.ok (s'.outcome f.streamId)) c'
  /-- The end of a header block that does not decode. -/
  | garbled {s s' : Stream} {e : Error} {c' : Connection} (hlast : f.has flagEndHeaders = true)
      (on : OnStream c c' f.streamId s s')
      (hexp : c'.expectingContinuation = c.expectingContinuation) (hbuf : s'.headersBuf = []) :
      Effect c f (.error e) c'
  /-- A whole header block on a closed stream. -/
  | drained {s : Stream} {frag : Bytes} {res : Result (List Header)} {decoder : Decoder}
      (htyp : f.typ = fHeaders) (hfrag : Connection.headersFragment f = .ok frag)
      (hlast : f.has flagEndHeaders = true) (was : c.streams.lookup f.streamId = some s)
      (hdec : c.decoder.decodeBlock frag = (res, decoder)) :
      Effect c f (res.map fun _ => .cont) { c with decoder }

/-! ## Frames on stream 0 -/

theorem error_ne_done {e : Error} (id : Nat) :
    (.error e : Result DispatchOutcome) ≠ .ok (.done id) := nofun

theorem cont_ne_done (id : Nat) : (.ok .cont : Result DispatchOutcome) ≠ .ok (.done id) := nofun

theorem Effect.quiet_error {c c' : Connection} {f : Frame} {e : Error} (h : Moves c c') :
    Effect c f (.error e) c' :=
  .quiet h error_ne_done fun _ _ => ⟨e, rfl⟩

/-- A frame that is not part of a header block and has no say. -/
theorem Effect.quiet_other {c c' : Connection} {f : Frame} {res : Result DispatchOutcome}
    (h : Moves c c') (hdone : ∀ id, res ≠ .ok (.done id))
    (hno : ¬ f.carriesBlock ∨ f.streamId = 0) : Effect c f res c' := by
  refine .quiet h hdone fun hblock hid => ?_
  rcases hno with hno | hno
  · exact absurd hblock hno
  · exact absurd hno hid

theorem afterWrite_ne_done (c : Connection) (out : Result Unit × Sink) (id : Nat) :
    (c.afterWrite out .cont).1 ≠ .ok (.done id) := by
  obtain ⟨res, sink⟩ := out
  cases res with
  | error e => exact error_ne_done id
  | ok u => exact cont_ne_done id

/-- The shift of the send windows keeps every stream's inbound side. -/
theorem shiftSendWindows_moves (c : Connection) (newInitial : Nat) {c' : Connection}
    (hdec : c'.decoder = c.decoder) (hexp : c'.expectingContinuation = c.expectingContinuation)
    (hrec : c'.tls.received = c.tls.received) (hnext : c'.nextStreamId = c.nextStreamId)
    (hstreams : c'.streams = (c.shiftSendWindows newInitial).2) : Moves c c' := by
  unfold Connection.shiftSendWindows at hstreams
  split at hstreams
  · have hlook := fun id => Base.Table.lookup_mapUntil
      (fun _ (s : Stream) => (do
        let sendWindow ← s.sendWindow.applyInitialWindowChange newInitial
        .ok { s with sendWindow } : Result Stream)) c.streams id
    simp only [← hstreams] at hlook
    refine ⟨hdec, hexp, hrec, hnext, ?_, ?_⟩
    · intro id s hs
      rcases hlook id with heq | ⟨_, v', _, _, hnow⟩
      · exact ⟨s, heq.trans hs⟩
      · exact ⟨v', hnow⟩
    · intro id s' hs'
      rcases hlook id with heq | ⟨v, v', hwas, hupd, hnow⟩
      · exact ⟨s', heq.symm.trans hs', .refl s'⟩
      · obtain rfl := Option.some.inj (hnow.symm.trans hs')
        obtain ⟨w, -, hv⟩ := Result.bind_eq_ok.mp hupd
        cases hv
        exact ⟨v, hwas, ⟨rfl, rfl, rfl⟩⟩
  · exact .of_streams_eq hdec hexp hrec hnext hstreams

theorem processSettings_moves (c : Connection) (f : Frame) :
    Moves c (c.processSettings f).2 ∧ ∀ id, (c.processSettings f).1 ≠ .ok (.done id) := by
  unfold Connection.processSettings
  split
  · exact ⟨.of_streams_eq rfl rfl rfl rfl rfl, error_ne_done⟩
  · next peer _ =>
      have hshift := @shiftSendWindows_moves c peer.initialWindowSize
      split
      · next ht =>
          rw [ht] at hshift
          exact ⟨hshift rfl rfl rfl rfl rfl, error_ne_done⟩
      · next ht =>
          rw [ht] at hshift
          exact ⟨hshift rfl rfl rfl rfl rfl, afterWrite_ne_done _ _⟩

theorem processGoaway_moves (c : Connection) (f : Frame) : Moves c (c.processGoaway f) where
  decoder := rfl
  expecting := rfl
  received := rfl
  next := rfl
  kept h := ⟨_, by rw [Connection.processGoaway, Base.Table.lookup_mapValues, h, Option.map_some]⟩
  came {id s'} h := by
    rw [Connection.processGoaway, Base.Table.lookup_mapValues] at h
    obtain ⟨s, hs, rfl⟩ := Option.map_eq_some_iff.mp h
    refine ⟨s, hs, ?_⟩
    generalize (if 4 ≤ f.payload.length then _ else 0 : Nat) = last
    split
    · exact ⟨rfl, rfl, rfl⟩
    · exact .refl s

theorem processConnFrame_effect {c : Connection} {f : Frame} (hid : f.streamId = 0) :
    Effect c f (c.processConnFrame f).1 (c.processConnFrame f).2 := by
  unfold Connection.processConnFrame
  split
  · split
    · exact .quiet_other (.refl c) cont_ne_done (.inr hid)
    · obtain ⟨hmoves, hdone⟩ := processSettings_moves c f
      exact .quiet_other hmoves hdone (.inr hid)
  split
  · split
    · exact .quiet_other (.refl c) cont_ne_done (.inr hid)
    · exact .quiet_other (.setSink c _) (afterWrite_ne_done c _) (.inr hid)
  split
  · split
    · exact .quiet_error (.refl c)
    · exact .quiet_other (.of_streams_eq rfl rfl rfl rfl rfl) cont_ne_done (.inr hid)
  split
  · exact .quiet_other (processGoaway_moves c f) cont_ne_done (.inr hid)
  · exact .quiet_other (.refl c) cont_ne_done (.inr hid)

/-! ## Frames on a stream -/

theorem pushHeaderFragment_eq_ok {s s' : Stream} {frag : Bytes}
    (h : s.pushHeaderFragment frag = .ok s') :
    s' = { s with headersBuf := s.headersBuf ++ frag } := by
  unfold Stream.pushHeaderFragment at h
  split at h
  · cases h
  · exact (Except.ok.inj h).symm

theorem outcome_eq_done {s : Stream} {id i : Nat} (h : s.outcome id = .done i) :
    i = id ∧ s.complete := by
  unfold Stream.outcome at h
  split at h
  · next hc => exact ⟨(DispatchOutcome.done.inj h).symm, hc⟩
  · cases h

theorem processHeaders_effect {c : Connection} {f : Frame} (htyp : f.typ = fHeaders) :
    Effect c f (c.processHeaders f).1 (c.processHeaders f).2 := by
  unfold Connection.processHeaders
  split
  · exact .quiet_error (.refl c)
  next frag hfrag =>
  simp only
  split
  · exact .quiet_error (.refl c)
  next s hs =>
  split
  · -- HEADERS on a closed stream
    unfold Connection.headersOnClosed
    split
    · next hlast =>
        split
        · next hdec => exact .drained htyp hfrag hlast hs hdec
        · next hdec => exact .drained htyp hfrag hlast hs hdec
    · next hmore =>
        split
        · exact .quiet_error (.refl c)
        · next s' hpush =>
            obtain rfl := pushHeaderFragment_eq_ok hpush
            exact .opens htyp hfrag (Bool.eq_false_iff.mpr hmore)
              (.of_setStream hs rfl rfl rfl) rfl rfl rfl rfl .inl nofun
  split
  · exact .quiet_error (.refl c)
  next newState _ =>
  split
  · exact .quiet_error (.refl c)
  next s' hpush =>
  obtain rfl := pushHeaderFragment_eq_ok hpush
  -- the stream after END_STREAM is noted
  generalize hended : (if f.has flagEndStream then
    ({ s with headersBuf := s.headersBuf ++ frag, endStreamRecv := true } : Stream)
    else { s with headersBuf := s.headersBuf ++ frag }) = s₁
  have hbuf : s₁.headersBuf = s.headersBuf ++ frag := by
    rw [← hended]
    split <;> rfl
  have hhead : s₁.responseHeaders = s.responseHeaders := by
    rw [← hended]
    split <;> rfl
  have hend : s₁.endStreamRecv → s.endStreamRecv ∨ f.has flagEndStream := by
    rw [← hended]
    split
    · next h => exact fun _ => .inr h
    · exact .inl
  split
  · next hlast =>
      split
      · exact .garbled hlast (.of_setStream hs rfl rfl rfl) rfl rfl
      · next hdec =>
          rw [hbuf] at hdec
          refine .closes (.inl ⟨htyp, frag, hfrag, rfl⟩) hlast
            (.of_setStream hs rfl rfl rfl) hdec rfl rfl (.inl rfl) ?_
          intro h
          exact (hend h).imp_right fun h => ⟨htyp, h⟩
  · next hmore =>
      exact .opens htyp hfrag (Bool.eq_false_iff.mpr hmore) (.of_setStream hs rfl rfl rfl)
        rfl rfl hbuf hhead hend fun _ => outcome_eq_done

theorem processContinuation_effect {c : Connection} {f : Frame} (htyp : f.typ = fContinuation) :
    Effect c f (c.processContinuation f).1 (c.processContinuation f).2 := by
  unfold Connection.processContinuation
  simp only
  split
  · exact .quiet_error (.refl c)
  next hwas =>
  have hwas : c.expectingContinuation = some f.streamId := not_not.mp hwas
  split
  · exact .quiet_error (.refl c)
  next s hs =>
  split
  · exact .quiet_error (.refl c)
  next s' hpush =>
  obtain rfl := pushHeaderFragment_eq_ok hpush
  split
  · next hlast =>
      split
      · exact .garbled hlast (.of_setStream hs rfl rfl rfl) rfl rfl
      · next hdec =>
          refine .closes (.inr ⟨htyp, hwas, rfl⟩) hlast (.of_setStream hs rfl rfl rfl) hdec
            rfl ?_ ?_ ?_
          · split <;> rfl
          · split
            · exact .inr rfl
            · exact .inl rfl
          · split
            · exact .inl
            · exact .inl
  · next hmore =>
      exact .continues htyp (Bool.eq_false_iff.mpr hmore) (.of_setStream hs rfl rfl rfl) hwas
        rfl hwas rfl rfl rfl

theorem not_carriesBlock {f : Frame} {t : UInt8} (h : f.typ = t)
    (ht : t ≠ fHeaders ∧ t ≠ fContinuation ∧ t ≠ fPushPromise) : ¬ f.carriesBlock := by
  rintro (hh | hh | hh)
  · exact ht.1 (h.symm.trans hh)
  · exact ht.2.1 (h.symm.trans hh)
  · exact ht.2.2 (h.symm.trans hh)

/-- The updates at the end of DATA change windows only. -/
theorem replenishBoth_spec (c : Connection) (id : Nat) (s : Stream) :
    ∃ s', SameInbound s s' ∧ (c.replenishBoth id s).2.streams = c.streams.insert id s' ∧
      (c.replenishBoth id s).2.decoder = c.decoder ∧
      (c.replenishBoth id s).2.expectingContinuation = c.expectingContinuation ∧
      (c.replenishBoth id s).2.tls.received = c.tls.received ∧
      (c.replenishBoth id s).2.nextStreamId = c.nextStreamId ∧
      ∀ i, (c.replenishBoth id s).1 = .ok (.done i) → i = id ∧ s'.complete := by
  unfold Connection.replenishBoth
  simp only
  split
  · exact ⟨s, .refl s, rfl, rfl, rfl, rfl, rfl, nofun⟩
  · refine ⟨{ s with recvWindow := (s.recvWindow.replenish id).2 }, ⟨rfl, rfl, rfl⟩, rfl, rfl, rfl,
      rfl, rfl, ?_⟩
    intro i hi
    obtain ⟨_, _, hi⟩ := Result.map_eq_ok hi
    exact outcome_eq_done hi

theorem processData_effect {c : Connection} {f : Frame} (htyp : f.typ = fData) :
    Effect c f (c.processData f).1 (c.processData f).2 := by
  have hno : ¬ f.carriesBlock := not_carriesBlock htyp (by decide)
  unfold Connection.processData
  simp only
  split
  · exact .quiet_error (.of_streams_eq rfl rfl rfl rfl rfl)
  split
  · split
    · exact .quiet_other (.of_streams_eq rfl rfl rfl rfl rfl) (afterWrite_ne_done _ _)
        (.inl hno)
    · exact .quiet_other (.of_streams_eq rfl rfl rfl rfl rfl) cont_ne_done (.inl hno)
  next s hs =>
  have hwindow : Moves c { c with connRecvWindow := c.connRecvWindow.consume f.payload.length } :=
    .of_streams_eq rfl rfl rfl rfl rfl
  split
  · exact .quiet_error hwindow
  split
  · exact .quiet_error hwindow
  next newState _ =>
  split
  · exact .quiet_error (hwindow.trans (.setStream hs ⟨rfl, rfl, rfl⟩))
  split
  · exact .quiet_error (hwindow.trans (.setStream hs ⟨rfl, rfl, rfl⟩))
  split
  · exact .quiet_error (hwindow.trans (.setStream hs ⟨rfl, rfl, rfl⟩))
  · obtain ⟨s', hsame, hstreams, hdec, hexp, hrec, hnext, hres⟩ := replenishBoth_spec
      { c with connRecvWindow := c.connRecvWindow.consume f.payload.length } f.streamId _
    exact .data htyp (.of_setStream hs hstreams hrec hnext) hdec hexp hsame.headersBuf
      hsame.responseHeaders hsame.endStreamRecv hres

theorem processRst_effect {c : Connection} {f : Frame} (htyp : f.typ = fRstStream) :
    Effect c f (c.processRst f).1 (c.processRst f).2 := by
  have hno : ¬ f.carriesBlock := not_carriesBlock htyp (by decide)
  unfold Connection.processRst
  simp only
  split
  · exact .quiet_other (.refl c) cont_ne_done (.inl hno)
  next s hs =>
  split
  · exact .quiet_other (.refl c) cont_ne_done (.inl hno)
  split
  · exact .quiet_error (.refl c)
  · exact .quiet_error (.setStream hs ⟨rfl, rfl, rfl⟩)

theorem processStreamWindowUpdate_effect {c : Connection} {f : Frame}
    (htyp : f.typ = fWindowUpdate) :
    Effect c f (c.processStreamWindowUpdate f).1 (c.processStreamWindowUpdate f).2 := by
  have hno : ¬ f.carriesBlock := not_carriesBlock htyp (by decide)
  unfold Connection.processStreamWindowUpdate
  split
  · exact .quiet_error (.refl c)
  split
  · exact .quiet_other (.refl c) cont_ne_done (.inl hno)
  next s hs =>
  split
  · exact .quiet_error (.refl c)
  · exact .quiet_other (.setStream hs ⟨rfl, rfl, rfl⟩) cont_ne_done (.inl hno)

/-- A frame has one of the listed effects. -/
theorem processFrame_effect (c : Connection) (f : Frame) :
    Effect c f (c.processFrame f).1 (c.processFrame f).2 := by
  unfold Connection.processFrame
  split
  · split
    · next hid => exact processConnFrame_effect hid
    · unfold Connection.processStreamFrame
      split
      · next htyp => exact processHeaders_effect htyp
      next hheaders =>
      split
      · next htyp => exact processContinuation_effect htyp
      next hcontinuation =>
      split
      · next htyp => exact processData_effect htyp
      split
      · next htyp => exact processRst_effect htyp
      split
      · next htyp => exact processStreamWindowUpdate_effect htyp
      split
      · exact .quiet_error (.refl c)
      · next hpush =>
          refine .quiet_other (.refl c) cont_ne_done (.inl ?_)
          rintro (hh | hh | hh)
          · exact hheaders hh
          · exact hcontinuation hh
          · exact hpush hh
  · exact .quiet_error (.refl c)

/-- `Done` names the frame's stream, and that stream is complete. -/
theorem Effect.of_done {c c' : Connection} {f : Frame} {id : Nat}
    (h : Effect c f (.ok (.done id)) c') :
    id = f.streamId ∧ ∃ s, c'.streams.lookup id = some s ∧ s.complete := by
  generalize hres : (.ok (.done id) : Result DispatchOutcome) = res at h
  cases h with
  | quiet _ hdone => exact absurd hres.symm (hdone id)
  | data _ on _ _ _ _ _ hdone =>
      obtain ⟨rfl, hc⟩ := hdone id hres.symm
      exact ⟨rfl, _, on.now, hc⟩
  | opens _ _ _ on _ _ _ _ _ hdone =>
      obtain ⟨rfl, hc⟩ := hdone id (Except.ok.inj hres).symm
      exact ⟨rfl, _, on.now, hc⟩
  | continues _ _ on =>
      obtain ⟨rfl, hc⟩ := outcome_eq_done (Except.ok.inj hres).symm
      exact ⟨rfl, _, on.now, hc⟩
  | closes _ _ on =>
      obtain ⟨rfl, hc⟩ := outcome_eq_done (Except.ok.inj hres).symm
      exact ⟨rfl, _, on.now, hc⟩
  | garbled => cases hres
  | drained =>
      obtain ⟨_, _, hcont⟩ := Result.map_eq_ok hres.symm
      cases hcont

theorem OnStream.registered {c c' : Connection} {i j : Nat} {s s' t' : Stream}
    (h : OnStream c c' i s s') (ht : c'.streams.lookup j = some t') :
    ∃ t, c.streams.lookup j = some t := by
  by_cases hj : j = i
  · exact ⟨s, hj ▸ h.was⟩
  · exact ⟨t', h.others hj ▸ ht⟩

/-- No frame registers a stream. -/
theorem Effect.registered {c c' : Connection} {f : Frame} {res : Result DispatchOutcome} {id : Nat}
    {s' : Stream} (h : Effect c f res c') (hs : c'.streams.lookup id = some s') :
    ∃ s, c.streams.lookup id = some s := by
  cases h with
  | quiet moves => exact (moves.came hs).imp fun _ h => h.1
  | data _ on | opens _ _ _ on | continues _ _ on | closes _ _ on | garbled _ on =>
      exact on.registered hs
  | drained => exact ⟨s', hs⟩

theorem OnStream.kept {c c' : Connection} {i j : Nat} {s s' t : Stream} (h : OnStream c c' i s s')
    (ht : c.streams.lookup j = some t) : ∃ t', c'.streams.lookup j = some t' := by
  by_cases hj : j = i
  · exact ⟨s', hj ▸ h.now⟩
  · exact ⟨t, (h.others hj).trans ht⟩

/-- No frame removes a stream. -/
theorem Effect.kept {c c' : Connection} {f : Frame} {res : Result DispatchOutcome} {id : Nat}
    {s : Stream} (h : Effect c f res c') (hs : c.streams.lookup id = some s) :
    ∃ s', c'.streams.lookup id = some s' := by
  cases h with
  | quiet moves => exact moves.kept hs
  | data _ on | opens _ _ _ on | continues _ _ on | closes _ _ on | garbled _ on => exact on.kept hs
  | drained => exact ⟨s, hs⟩

theorem Effect.next_eq {c c' : Connection} {f : Frame} {res : Result DispatchOutcome}
    (h : Effect c f res c') : c'.nextStreamId = c.nextStreamId := by
  cases h with
  | quiet moves => exact moves.next
  | data _ on | opens _ _ _ on | continues _ _ on | closes _ _ on | garbled _ on => exact on.next
  | drained => rfl

theorem Effect.received_eq {c c' : Connection} {f : Frame} {res : Result DispatchOutcome}
    (h : Effect c f res c') : c'.tls.received = c.tls.received := by
  cases h with
  | quiet moves => exact moves.received
  | data _ on | opens _ _ _ on | continues _ _ on | closes _ _ on | garbled _ on =>
      exact on.received
  | drained => rfl

/-- A frame that is not refused passed the gate. -/
theorem admits_of_ok {c c' : Connection} {f : Frame} {o : DispatchOutcome}
    (h : c.processFrame f = (.ok o, c')) : c.admits f = true := by
  unfold Connection.processFrame at h
  split at h
  · next hadmits => exact hadmits
  · cases h

end Rsurl.H2
