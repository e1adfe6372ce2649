/-
# `Rsurl.H2.Written` — frames on the wire when writes may fail

Frames are written one after another until one of them is too long or the
transport fails.  The transport takes no more bytes then (`Broken`); a frame
that is too long leaves it as it is.  `processFrame_writes` says what a frame
that comes in leaves of the write half and of the encoder.
-/
import Rsurl.H2.Windows

namespace Rsurl.H2

open Http (Request)

/-! ## A sink that fails -/

/-- No more bytes are taken. -/
def Broken (w : Sink) : Prop := ∃ kind, w.fault = some (0, kind)

/-- A front of the bytes, and not all of them. -/
def Short (part bs : Bytes) : Prop := part <+: bs ∧ part.length < bs.length

/-- All bytes are taken, or some of them and no more. -/
theorem writeAll_cases (w : Sink) (bs : Bytes) :
    (∃ w', w.writeAll bs = (.ok (), w') ∧ w'.written = w.written ++ bs) ∨
      ∃ e w' part, w.writeAll bs = (.error e, w') ∧ Broken w' ∧ Short part bs ∧
        w'.written = w.written ++ part := by
  unfold Sink.writeAll
  split
  · exact .inl ⟨_, rfl, rfl⟩
  next room kind _ =>
  split
  · exact .inl ⟨_, rfl, rfl⟩
  · next hroom =>
      refine .inr ⟨_, _, bs.take room, rfl, ⟨kind, rfl⟩, ⟨List.take_prefix room bs, ?_⟩, rfl⟩
      rw [List.length_take]
      omega

theorem writeAll_of_broken {w : Sink} (h : Broken w) {bs : Bytes} (hne : bs ≠ []) :
    ∃ e w', w.writeAll bs = (.error e, w') ∧ Broken w' ∧ w'.written = w.written := by
  obtain ⟨kind, hfault⟩ := h
  have hpos : ¬ bs.length ≤ 0 := by
    rw [Nat.le_zero, List.length_eq_zero_iff]
    exact hne
  refine ⟨.io kind, { w with written := w.written ++ bs.take 0, fault := some (0, kind) }, ?_,
    ⟨kind, rfl⟩, ?_⟩
  · simp only [Sink.writeAll, hfault, if_neg hpos]
  · exact List.append_nil w.written

theorem frameHeader_ne_nil (f : Frame) : frameHeader f ≠ [] := List.cons_ne_nil _ _

/-- A frame is written, is too long, or breaks the sink. -/
theorem writeFrame_outcomes (w : Sink) (f : Frame) :
    (∃ w', writeFrame w f = (.ok (), w') ∧ w'.written = w.written ++ f.bytes) ∨
      (∃ e, writeFrame w f = (.error e, w) ∧ maxFramePayload < f.payload.length) ∨
      ∃ e w' part, writeFrame w f = (.error e, w') ∧ Broken w' ∧ Short part f.bytes ∧
        w'.written = w.written ++ part := by
  by_cases hlong : maxFramePayload < f.payload.length
  · exact .inr (.inl ⟨_, if_pos hlong, hlong⟩)
  have hframe : writeFrame w f = Sink.andThen (w.writeAll (frameHeader f)) fun w =>
      if f.payload.isEmpty then (.ok (), w) else w.writeAll f.payload := if_neg hlong
  rw [hframe]
  rcases writeAll_cases w (frameHeader f) with
    ⟨w₁, hhead, hw₁⟩ | ⟨e, w₁, part, hhead, hbroken, hshort, hw₁⟩
  · rw [hhead]
    simp only [Sink.andThen]
    split
    · next hempty =>
        refine .inl ⟨w₁, rfl, ?_⟩
        rw [hw₁, Frame.bytes, List.isEmpty_iff.mp hempty, List.append_nil]
    rcases writeAll_cases w₁ f.payload with
      ⟨w₂, hbody, hw₂⟩ | ⟨e, w₂, part, hbody, hbroken, hshort, hw₂⟩
    · exact .inl ⟨w₂, hbody, by rw [hw₂, hw₁, Frame.bytes, List.append_assoc]⟩
    · refine .inr (.inr ⟨e, w₂, frameHeader f ++ part, hbody, hbroken, ⟨?_, ?_⟩, ?_⟩)
      · exact (List.prefix_append_right_inj _).mpr hshort.1
      · rw [Frame.bytes, List.length_append, List.length_append]
        exact Nat.add_lt_add_left hshort.2 _
      · rw [hw₂, hw₁, List.append_assoc]
  · rw [hhead]
    refine .inr (.inr ⟨e, w₁, part, rfl, hbroken, ⟨?_, ?_⟩, hw₁⟩)
    · exact hshort.1.trans (List.prefix_append _ _)
    · rw [Frame.bytes, List.length_append]
      exact Nat.lt_of_lt_of_le hshort.2 (Nat.le_add_right _ _)

theorem writeFrame_of_broken {w : Sink} (h : Broken w) (f : Frame) :
    ∃ e w', writeFrame w f = (.error e, w') ∧ Broken w' ∧ w'.written = w.written := by
  by_cases hlong : maxFramePayload < f.payload.length
  · exact ⟨_, w, if_pos hlong, h, rfl⟩
  obtain ⟨e, w', hhead, hw'⟩ := writeAll_of_broken h (frameHeader_ne_nil f)
  refine ⟨e, w', ?_, hw'⟩
  unfold writeFrame
  rw [if_neg hlong, hhead]
  rfl

/-! ## Frames one after another -/

/-- The frames that `writeFrames` gets onto the wire. -/
def completed (w : Sink) : List Frame → List Frame
  | [] => []
  | f :: fs =>
      match writeFrame w f with
      | (.error _, _) => []
      | (.ok (), w) => f :: completed w fs

/-- How the writing of frames can end: with all of them written, in front of one that is too long,
or with a broken sink. -/
inductive Wrote (w : Sink) (fs : List Frame) : Result Unit × Sink → Prop
  | all {w' : Sink} (hall : completed w fs = fs)
      (hwritten : w'.written = w.written ++ fs.flatMap Frame.bytes) : Wrote w fs (.ok (), w')
  | tooLong {e : Error} {w' : Sink} {f : Frame} (hfront : completed w fs ++ [f] <+: fs)
      (hlong : maxFramePayload < f.payload.length)
      (hwritten : w'.written = w.written ++ (completed w fs).flatMap Frame.bytes) :
      Wrote w fs (.error e, w')
  | broken {e : Error} {w' : Sink} {f : Frame} {part : Bytes}
      (hfront : completed w fs ++ [f] <+: fs) (hshort : Short part f.bytes) (hbroken : Broken w')
      (hwritten : w'.written = w.written ++ (completed w fs).flatMap Frame.bytes ++ part) :
      Wrote w fs (.error e, w')

theorem writeFrames_wrote (w : Sink) (fs : List Frame) : Wrote w fs (writeFrames w fs) := by
  induction fs generalizing w with
  | nil => exact .all rfl (List.append_nil _).symm
  | cons f fs ih =>
      rcases writeFrame_outcomes w f with
        ⟨w₁, hf, hw₁⟩ | ⟨e, hf, hlong⟩ | ⟨e, w₁, part, hf, hbroken, hshort, hw₁⟩
      · have hcompleted : completed w (f :: fs) = f :: completed w₁ fs := by
          rw [completed, hf]
        have hframes : writeFrames w (f :: fs) = writeFrames w₁ fs := by
          rw [writeFrames, hf]
          rfl
        have hrest := ih w₁
        rw [hframes]
        generalize writeFrames w₁ fs = out at hrest
        cases hrest with
        | all hall hwritten =>
            refine .all (by rw [hcompleted, hall]) ?_
            rw [hwritten, hw₁, List.flatMap_cons, List.append_assoc]
        | tooLong hfront hlong hwritten =>
            refine .tooLong ?_ hlong ?_
            · rw [hcompleted]
              exact (List.prefix_cons_inj f).mpr hfront
            · rw [hcompleted, hwritten, hw₁, List.flatMap_cons, List.append_assoc]
        | broken hfront hshort hbroken hwritten =>
            refine .broken ?_ hshort hbroken ?_
            · rw [hcompleted]
              exact (List.prefix_cons_inj f).mpr hfront
            · rw [hcompleted, hwritten, hw₁, List.flatMap_cons, List.append_assoc w.written]
      · have hcompleted : completed w (f :: fs) = [] := by
          rw [completed, hf]
        have hframes : writeFrames w (f :: fs) = (.error e, w) := by
          rw [writeFrames, hf]
          rfl
        rw [hframes]
        refine .tooLong (f := f) ?_ hlong ?_
        · rw [hcompleted]
          exact List.prefix_append [f] fs
        · rw [hcompleted]
          exact (List.append_nil _).symm
      · have hcompleted : completed w (f :: fs) = [] := by
          rw [completed, hf]
        have hframes : writeFrames w (f :: fs) = (.error e, w₁) := by
          rw [writeFrames, hf]
          rfl
        rw [hframes]
        refine .broken (f := f) ?_ hshort hbroken ?_
        · rw [hcompleted]
          exact List.prefix_append [f] fs
        · rw [hcompleted, hw₁, List.flatMap_nil, List.append_nil]

theorem ne_of_front {fs gs : List Frame} {f : Frame} (h : gs ++ [f] <+: fs) : gs ≠ fs := by
  rintro rfl
  have hlen := h.length_le
  rw [List.length_append] at hlen
  exact absurd hlen (Nat.not_succ_le_self _)

/-- Frames the bytes of which are written have been completed. -/
theorem completed_of_written {w : Sink} {fs gs : List Frame} (hfront : fs <+: gs)
    (h : (writeFrames w fs).2.written = w.written ++ gs.flatMap Frame.bytes) :
    completed w fs = gs := by
  have hwrote := writeFrames_wrote w fs
  generalize writeFrames w fs = out at h hwrote
  have hbehind : ∀ {f : Frame} {part : Bytes}, completed w fs ++ [f] <+: fs →
      part.length < f.bytes.length →
      w.written ++ (completed w fs).flatMap Frame.bytes ++ part ≠
        w.written ++ gs.flatMap Frame.bytes := by
    intro f part hnext hshort heq
    obtain ⟨rest, hrest⟩ := hnext.trans hfront
    rw [← hrest, List.append_assoc, List.append_assoc] at heq
    have hlen := congrArg List.length heq
    simp only [List.flatMap_append, List.flatMap_cons, List.flatMap_nil, List.length_append] at hlen
    omega
  cases hwrote with
  | all hall hwritten =>
      obtain ⟨rest, rfl⟩ := hfront
      rw [hwritten, List.flatMap_append] at h
      have hnil := List.self_eq_append_right.mp (List.append_cancel_left h)
      have hrest : rest = [] := by
        cases rest with
        | nil => rfl
        | cons f rest => exact absurd (List.append_eq_nil_iff.mp hnil).1 (List.cons_ne_nil _ _)
      rw [hall, hrest, List.append_nil]
  | tooLong hnext hlong hwritten =>
      rw [hwritten] at h
      exact absurd (by rw [List.append_nil, h])
        (@hbehind _ [] hnext (List.length_pos_of_ne_nil (List.cons_ne_nil _ _)))
  | broken hnext hshort hbroken hwritten =>
      rw [hwritten] at h
      exact absurd h (hbehind hnext hshort.2)

/-- A broken sink stays as it is. -/
theorem completed_of_broken {w : Sink} (h : Broken w) (fs : List Frame) :
    completed w fs = [] ∧ Broken (writeFrames w fs).2 ∧
      (writeFrames w fs).2.written = w.written ∧
      (fs ≠ [] → ∃ e, (writeFrames w fs).1 = .error e) := by
  cases fs with
  | nil => exact ⟨rfl, h, rfl, fun hne => absurd rfl hne⟩
  | cons f fs =>
      obtain ⟨e, w', hf, hbroken, hw'⟩ := writeFrame_of_broken h f
      have hframes : writeFrames w (f :: fs) = (.error e, w') := by
        rw [writeFrames, hf]
        rfl
      rw [hframes]
      refine ⟨?_, hbroken, hw', fun _ => ⟨e, rfl⟩⟩
      rw [completed, hf]

theorem writeFrames_singleton (w : Sink) (f : Frame) : writeFrames w [f] = writeFrame w f := by
  rw [writeFrames]
  obtain ⟨res, w', h⟩ : ∃ res w', writeFrame w f = (res, w') := ⟨_, _, rfl⟩
  rw [h]
  cases res <;> rfl

theorem writeFrames_append (w : Sink) (fs fs' : List Frame) :
    writeFrames w (fs ++ fs') = Sink.andThen (writeFrames w fs) fun w => writeFrames w fs' := by
  induction fs generalizing w with
  | nil => rfl
  | cons f fs ih =>
      rw [List.cons_append, writeFrames, writeFrames]
      obtain ⟨res, w', h⟩ : ∃ res w', writeFrame w f = (res, w') := ⟨_, _, rfl⟩
      rw [h]
      cases res with
      | error e => rfl
      | ok u => exact ih w'

theorem writeUpdate_eq (w : Sink) (upd : Option Frame) :
    Connection.writeUpdate w upd = writeFrames w upd.toList := by
  cases upd with
  | none => rfl
  | some f => exact (writeFrames_singleton w f).symm

/-- A flush behind it leaves the sink alone. -/
theorem andThen_flush_snd (out : Result Unit × Sink) : (Sink.andThen out Sink.flush).2 = out.2 := by
  obtain ⟨res, w⟩ := out
  cases res with
  | error e => rfl
  | ok u =>
      show w.flush.2 = w
      exact flush_written rfl

/-! ## What a frame leaves -/

section

variable {c c' : Connection} {f : Frame}

/-- Of the answers to a frame, as many are written as it comes to; the encoder stays as it is. -/
structure Writes (c : Connection) (f : Frame) (c' : Connection) : Prop where
  encoder : c'.encoder = c.encoder
  sink : ∃ fs, fs <+: c.answers f ∧ (writeFrames c.tls.sink fs).2 = c'.tls.sink

/-- Nothing is written. -/
theorem Writes.nothing (hencoder : c'.encoder = c.encoder) (hsink : c'.tls.sink = c.tls.sink) :
    Writes c f c' := ⟨hencoder, [], List.nil_prefix, hsink.symm⟩

/-- The one answer is written. -/
theorem Writes.one {g : Frame} (hanswers : c.answers f = [g]) (hencoder : c'.encoder = c.encoder)
    (hsink : c'.tls.sink = (writeFrameFlush c.tls.sink g).2) : Writes c f c' := by
  refine ⟨hencoder, [g], ?_, ?_⟩
  · rw [hanswers]
  · rw [hsink, writeFrameFlush, andThen_flush_snd, writeFrames_singleton]

theorem headers_writes : Writes c f (c.processHeaders f).2 := by
  unfold Connection.processHeaders
  split
  · exact .nothing rfl rfl
  simp only
  split
  · exact .nothing rfl rfl
  split
  · unfold Connection.headersOnClosed
    split
    · split <;> exact .nothing rfl rfl
    · split <;> exact .nothing rfl rfl
  split
  · exact .nothing rfl rfl
  split
  · exact .nothing rfl rfl
  split
  · split <;> exact .nothing rfl rfl
  · exact .nothing rfl rfl

theorem continuation_writes : Writes c f (c.processContinuation f).2 := by
  unfold Connection.processContinuation
  simp only
  split
  · exact .nothing rfl rfl
  split
  · exact .nothing rfl rfl
  split
  · exact .nothing rfl rfl
  split
  · split <;> exact .nothing rfl rfl
  · exact .nothing rfl rfl

/-- The update of the connection's window, then that of the stream's. -/
theorem replenishBoth_writes (c : Connection) (id : Nat) (s : Stream) :
    (c.replenishBoth id s).2.encoder = c.encoder ∧
      ∃ fs, fs <+: (c.connRecvWindow.replenish 0).1.toList ++ (s.recvWindow.replenish id).1.toList ∧
        (writeFrames c.tls.sink fs).2 = (c.replenishBoth id s).2.tls.sink := by
  unfold Connection.replenishBoth
  simp only [writeUpdate_eq]
  split
  · next e sink hwrite =>
      exact ⟨rfl, _, List.prefix_append _ _, by rw [hwrite]; rfl⟩
  · next sink hwrite =>
      refine ⟨rfl, _, List.prefix_refl _, ?_⟩
      rw [writeFrames_append, hwrite]
      exact (andThen_flush_snd _).symm

theorem answers_data (hid : f.streamId ≠ 0) (htyp : f.typ = fData) :
    c.answers f = ((c.connRecvWindow.consume f.payload.length).replenish 0).1.toList ++
      match c.streams.lookup f.streamId with
      | none => []
      | some s => ((s.recvWindow.consume f.payload.length).replenish f.streamId).1.toList :=
  (if_neg hid).trans (if_pos htyp)

theorem data_writes (hid : f.streamId ≠ 0) (htyp : f.typ = fData) :
    Writes c f (c.processData f).2 := by
  have hanswers : c.answers f = _ := answers_data hid htyp
  unfold Connection.processData
  simp only
  split
  · exact .nothing rfl rfl
  split
  · next hs =>
      rw [hs] at hanswers
      split
      · next upd w hupd =>
          rw [hupd] at hanswers
          exact .one hanswers rfl rfl
      · exact .nothing rfl rfl
  next s hs =>
  rw [hs] at hanswers
  split
  · exact .nothing rfl rfl
  split
  · exact .nothing rfl rfl
  next state _ =>
  split
  · exact .nothing rfl rfl
  split
  · exact .nothing rfl rfl
  next payload _ =>
  split
  · exact .nothing rfl rfl
  obtain ⟨hencoder, fs, hfs, hsink⟩ := replenishBoth_writes
    { c with connRecvWindow := c.connRecvWindow.consume f.payload.length } f.streamId
    { s with
      recvWindow := s.recvWindow.consume f.payload.length
      body := s.body ++ payload
      endStreamRecv := s.endStreamRecv || f.has flagEndStream
      state := state }
  refine ⟨hencoder, fs, ?_, hsink⟩
  rw [hanswers]
  exact hfs

theorem rst_writes : Writes c f (c.processRst f).2 := by
  unfold Connection.processRst
  simp only
  split
  · exact .nothing rfl rfl
  split
  · exact .nothing rfl rfl
  split <;> exact .nothing rfl rfl

theorem streamUpdate_writes : Writes c f (c.processStreamWindowUpdate f).2 := by
  unfold Connection.processStreamWindowUpdate
  split
  · exact .nothing rfl rfl
  split
  · exact .nothing rfl rfl
  split <;> exact .nothing rfl rfl

theorem streamFrame_writes (hid : f.streamId ≠ 0) : Writes c f (c.processStreamFrame f).2 := by
  unfold Connection.processStreamFrame
  split
  · exact headers_writes
  split
  · exact continuation_writes
  split
  · next htyp => exact data_writes hid htyp
  split
  · exact rst_writes
  split
  · exact streamUpdate_writes
  split <;> exact .nothing rfl rfl

theorem connFrame_writes (hid : f.streamId = 0) (hsettings : ¬ f.setsPeer) :
    Writes c f (c.processConnFrame f).2 := by
  unfold Connection.processConnFrame
  split
  · next htyp =>
      split
      · exact .nothing rfl rfl
      · next hack => exact absurd ⟨hid, htyp, Bool.eq_false_iff.mpr hack⟩ hsettings
  split
  · next htyp =>
      split
      · exact .nothing rfl rfl
      · next hack =>
          refine @Writes.one _ _ _
            { typ := fPing, flags := flagAck, streamId := 0, payload := f.payload } ?_ rfl rfl
          simp only [Connection.answers, hid, htyp, hack, if_true, Bool.false_eq_true, if_false]
          rfl
  split
  · split <;> exact .nothing rfl rfl
  split <;> exact .nothing rfl rfl

/-- A frame that is not the peer's SETTINGS. -/
theorem processFrame_writes (h : ¬ c.seesSettings f) : Writes c f (c.processFrame f).2 := by
  unfold Connection.processFrame
  split
  · next hadmits =>
      split
      · next hid => exact connFrame_writes hid fun hsettings => h ⟨hadmits, hsettings⟩
      · next hid => exact streamFrame_writes hid
  · exact .nothing rfl rfl

/-- The answer to SETTINGS. -/
def settingsAck : Frame := { typ := fSettings, flags := flagAck, streamId := 0, payload := [] }

theorem answers_settings (c : Connection) (h : f.setsPeer) : c.answers f = [settingsAck] := by
  obtain ⟨hid, htyp, hack⟩ := h
  simp only [Connection.answers, hid, htyp, hack, if_true, Bool.false_eq_true, if_false]
  rfl

/-- If these are the peer's SETTINGS, they pass the gate and every entry is taken. -/
def Connection.Settles (c : Connection) (f : Frame) : Prop :=
  f.setsPeer → c.admits f = true ∧ (c.peer.applySettingsPayload f.payload).1 = .ok () ∧
    (c.shiftSendWindows (c.peer.applySettingsPayload f.payload).2.initialWindowSize).1 = .ok ()

/-- SETTINGS are refused and nothing is written, or the answer is. -/
theorem processSettings_sink (c : Connection) (f : Frame) :
    (c.processSettings f).2.tls.sink = c.tls.sink ∨
      (c.processSettings f).2.tls.sink = (writeFrame c.tls.sink settingsAck).2 := by
  unfold Connection.processSettings
  split
  · exact .inl rfl
  split
  · exact .inl rfl
  · exact .inr (andThen_flush_snd _)

/-- SETTINGS that are taken. -/
theorem processFrame_settles (h : c.Settles f) (hsettings : f.setsPeer) :
    (c.processFrame f).2.peer = (c.peer.applySettingsPayload f.payload).2 ∧
      (c.processFrame f).2.tls.sink = (writeFrame c.tls.sink settingsAck).2 ∧
      (c.processFrame f).2.encoder =
        if (c.peer.applySettingsPayload f.payload).2.headerTableSize ≠ c.peer.headerTableSize then
          c.encoder.setPeerMaxTableSize (c.peer.applySettingsPayload f.payload).2.headerTableSize
        else c.encoder := by
  obtain ⟨hadmits, happly, hshift⟩ := h hsettings
  rw [processFrame_of_settings c f ⟨hadmits, hsettings⟩]
  refine ⟨(processSettings_notes c f).2.2, ?_⟩
  obtain ⟨res, peer, hpeer⟩ : ∃ res peer, c.peer.applySettingsPayload f.payload = (res, peer) :=
    ⟨_, _, rfl⟩
  rw [hpeer] at happly hshift ⊢
  obtain rfl : res = .ok () := happly
  obtain ⟨res, streams, hstreams⟩ : ∃ res streams,
    c.shiftSendWindows peer.initialWindowSize = (res, streams) := ⟨_, _, rfl⟩
  rw [hstreams] at hshift
  obtain rfl : res = .ok () := hshift
  simp only [Connection.processSettings, hpeer, hstreams]
  exact ⟨andThen_flush_snd _, rfl⟩

/-- Whatever the frame is, as many answers are written as it comes to. -/
theorem processFrame_sink (c : Connection) (f : Frame) :
    ∃ fs, fs <+: c.answers f ∧ (writeFrames c.tls.sink fs).2 = (c.processFrame f).2.tls.sink := by
  by_cases h : c.seesSettings f
  · rw [processFrame_of_settings c f h]
    rcases processSettings_sink c f with hsink | hsink
    · exact ⟨[], List.nil_prefix, hsink.symm⟩
    · refine ⟨[settingsAck], ?_, ?_⟩
      · rw [answers_settings c h.2]
      · rw [writeFrames_singleton, hsink]
  · exact (processFrame_writes h).sink

end

end Rsurl.H2
