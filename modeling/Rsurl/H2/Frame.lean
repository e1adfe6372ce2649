/-
# `Rsurl.H2.Frame` — frames, settings and windows

One frame with `read_frame` and `write_frame` on bytes, the peer's SETTINGS,
and the flow-control windows.  `ConnRecvWindow` and `StreamRecvWindow` differ
only in the stream id of the frame `replenish` makes, which is an argument
here.
-/
import Rsurl.Net

namespace Rsurl.H2

/-! ## Frames -/

/-- `Frame`. -/
structure Frame where
  typ : UInt8
  flags : UInt8
  streamId : Nat
  payload : Bytes
deriving DecidableEq, Repr

def fData : UInt8 := 0x0
def fHeaders : UInt8 := 0x1
def fRstStream : UInt8 := 0x3
def fSettings : UInt8 := 0x4
def fPushPromise : UInt8 := 0x5
def fPing : UInt8 := 0x6
def fGoaway : UInt8 := 0x7
def fWindowUpdate : UInt8 := 0x8
def fContinuation : UInt8 := 0x9

def flagEndStream : UInt8 := 0x01
def flagAck : UInt8 := 0x01
def flagEndHeaders : UInt8 := 0x04
def flagPadded : UInt8 := 0x08
def flagPriority : UInt8 := 0x20

/-- `frame.flags & flag != 0`. -/
def Frame.has (f : Frame) (flag : UInt8) : Bool := f.flags &&& flag != 0

/-- `MAX_FRAME_PAYLOAD`. -/
def maxFramePayload : Nat := 2 ^ 20

/-- `u16::from_be_bytes` and `u32::from_be_bytes`. -/
def fromBeBytes (bs : Bytes) : Nat := bs.foldl (fun n b => n * 256 + b.toNat) 0

/-- `u32::to_be_bytes`. -/
def toBeBytes (n : Nat) : Bytes :=
  [UInt8.ofNat (n >>> 24), UInt8.ofNat (n >>> 16), UInt8.ofNat (n >>> 8), UInt8.ofNat n]

/-- `read_frame`. -/
def readFrame (s : Source) : Except IoKind Frame × Source :=
  match s.readExact 9 with
  | (.error e, s) => (.error e, s)
  | (.ok hdr, s) =>
      let length := fromBeBytes (hdr.take 3)
      let typ := hdr.getD 3 0
      let flags := hdr.getD 4 0
      let streamId := fromBeBytes (hdr.drop 5) % 2 ^ 31
      if maxFramePayload < length then (.error .invalidData, s)
      else
        match s.readExact length with
        | (.error e, s) => (.error e, s)
        | (.ok payload, s) => (.ok { typ, flags, streamId, payload }, s)

/-- The nine bytes in front of a payload. -/
def frameHeader (f : Frame) : Bytes :=
  let len := f.payload.length
  [UInt8.ofNat (len >>> 16), UInt8.ofNat (len >>> 8), UInt8.ofNat len, f.typ, f.flags,
    UInt8.ofNat ((f.streamId >>> 24) % 128), UInt8.ofNat (f.streamId >>> 16),
    UInt8.ofNat (f.streamId >>> 8), UInt8.ofNat f.streamId]

/-- A frame on the wire. -/
def Frame.bytes (f : Frame) : Bytes := frameHeader f ++ f.payload

/-- `write_frame`. -/
def writeFrame (w : Sink) (f : Frame) : Result Unit × Sink :=
  if maxFramePayload < f.payload.length then (.error (.io .invalidInput), w)
  else
    Sink.andThen (w.writeAll (frameHeader f)) fun w =>
      if f.payload.isEmpty then (.ok (), w) else w.writeAll f.payload

/-- Write a frame and flush. -/
def writeFrameFlush (w : Sink) (f : Frame) : Result Unit × Sink :=
  Sink.andThen (writeFrame w f) Sink.flush

/-! ## Settings -/

/-- `PeerSettings`; "no limit" is `u32::MAX`. -/
structure PeerSettings where
  headerTableSize : Nat
  enablePush : Bool
  maxConcurrentStreams : Nat
  initialWindowSize : Nat
  maxFrameSize : Nat
  maxHeaderListSize : Nat
deriving DecidableEq, Repr

/-- `PeerSettings::default`. -/
def PeerSettings.default : PeerSettings where
  headerTableSize := 4096
  enablePush := true
  maxConcurrentStreams := 2 ^ 32 - 1
  initialWindowSize := 65535
  maxFrameSize := 16384
  maxHeaderListSize := 2 ^ 32 - 1

/-- One SETTINGS entry; an unknown identifier is ignored. -/
def PeerSettings.applySetting (p : PeerSettings) (id val : Nat) : Result PeerSettings :=
  match id with
  | 0x1 => .ok { p with headerTableSize := val }
  | 0x2 =>
      match val with
      | 0 => .ok { p with enablePush := false }
      | 1 => .ok { p with enablePush := true }
      | _ => .error (.badResponse [.str "SETTINGS_ENABLE_PUSH must be 0 or 1, got ", .num val])
  | 0x3 => .ok { p with maxConcurrentStreams := val }
  | 0x4 =>
      if 0x7fffffff < val then
        .error (.badResponse [.str "SETTINGS_INITIAL_WINDOW_SIZE ", .num val,
          .str " exceeds 2^31-1 (FLOW_CONTROL_ERROR)"])
      else .ok { p with initialWindowSize := val }
  | 0x5 =>
      if 16384 ≤ val ∧ val ≤ 16777215 then .ok { p with maxFrameSize := val }
      else
        .error (.badResponse [.str "SETTINGS_MAX_FRAME_SIZE ", .num val,
          .str " out of range [16384, 16777215]"])
  | 0x6 => .ok { p with maxHeaderListSize := val }
  | _ => .ok p

/-- The loop of `apply_settings_payload`; what came before a bad entry stays applied. -/
def PeerSettings.applyEntries (p : PeerSettings) : Bytes → Result Unit × PeerSettings
  | i₁ :: i₀ :: v₃ :: v₂ :: v₁ :: v₀ :: payload =>
      match p.applySetting (fromBeBytes [i₁, i₀]) (fromBeBytes [v₃, v₂, v₁, v₀]) with
      | .error e => (.error e, p)
      | .ok p => p.applyEntries payload
  | _ => (.ok (), p)

/-- `PeerSettings::apply_settings_payload`. -/
def PeerSettings.applySettingsPayload (p : PeerSettings) (payload : Bytes) :
    Result Unit × PeerSettings :=
  if payload.length % 6 ≠ 0 then
    (.error (.badResponse [.str "SETTINGS payload length ", .num payload.length,
      .str " not a multiple of 6"]), p)
  else p.applyEntries payload

/-! ## Windows -/

/-- `WINDOW_MAX`. -/
def windowMax : Int := 0x7fffffff

/-- `OUR_INITIAL_WINDOW`. -/
def ourInitialWindow : Int := 65535

/-- `apply_window_update` on either send window. -/
def applyWindowUpdate (available : Int) (increment : Nat) (zeroIncrement overflowOf : String) :
    Result Int :=
  if increment = 0 then .error (.badResponse [.str zeroIncrement])
  else if windowMax < available + increment then
    .error (.badResponse [.str "WINDOW_UPDATE pushes ", .str overflowOf, .str " send window to ",
      .num (available + increment), .str " > 2^31-1 (FLOW_CONTROL_ERROR)"])
  else .ok (available + increment)

/-- `ConnSendWindow`. -/
structure ConnSendWindow where
  available : Int
deriving DecidableEq, Repr

namespace ConnSendWindow

def new : ConnSendWindow := ⟨65535⟩

def applyWindowUpdate (w : ConnSendWindow) (increment : Nat) : Result ConnSendWindow := do
  let available ← H2.applyWindowUpdate w.available increment
    "WINDOW_UPDATE with zero increment on connection (FLOW_CONTROL_ERROR)" "conn"
  .ok ⟨available⟩

def consume (w : ConnSendWindow) (n : Nat) : ConnSendWindow := ⟨w.available - n⟩

end ConnSendWindow

/-- `StreamSendWindow`. -/
structure StreamSendWindow where
  available : Int
  initialPeerWindow : Int
deriving DecidableEq, Repr

namespace StreamSendWindow

def new (initial : Int) : StreamSendWindow := ⟨initial, initial⟩

def applyWindowUpdate (w : StreamSendWindow) (increment : Nat) : Result StreamSendWindow := do
  let available ← H2.applyWindowUpdate w.available increment
    "WINDOW_UPDATE with zero increment on stream (PROTOCOL_ERROR)" "stream"
  .ok { w with available }

/-- `apply_initial_window_change`. -/
def applyInitialWindowChange (w : StreamSendWindow) (newInitial : Nat) :
    Result StreamSendWindow :=
  let newAvailable := w.available + (newInitial - w.initialPeerWindow)
  if windowMax < newAvailable then
    .error (.badResponse [.str "SETTINGS_INITIAL_WINDOW_SIZE delta pushes stream send window to ",
      .num newAvailable, .str " > 2^31-1 (FLOW_CONTROL_ERROR)"])
  else .ok ⟨newAvailable, newInitial⟩

def consume (w : StreamSendWindow) (n : Nat) : StreamSendWindow :=
  { w with available := w.available - n }

end StreamSendWindow

/-- `window_update_frame`. -/
def windowUpdateFrame (streamId increment : Nat) : Frame where
  typ := fWindowUpdate
  flags := 0
  streamId
  payload := toBeBytes (increment % 2 ^ 31)

/-- `ConnRecvWindow` and `StreamRecvWindow`. -/
structure RecvWindow where
  available : Int
  initial : Int
deriving DecidableEq, Repr

namespace RecvWindow

def new : RecvWindow := ⟨ourInitialWindow, ourInitialWindow⟩

def consume (w : RecvWindow) (n : Nat) : RecvWindow := { w with available := w.available - n }

/-- `replenish`: an update frame once less than half is left. -/
def replenish (w : RecvWindow) (streamId : Nat) : Option Frame × RecvWindow :=
  if w.available < w.initial / 2 then
    (some (windowUpdateFrame streamId ((w.initial - w.available).toNat % 2 ^ 32)),
      { w with available := w.initial })
  else (none, w)

end RecvWindow

/-- `parse_window_update`. -/
def parseWindowUpdate (payload : Bytes) : Result Nat :=
  if payload.length ≠ 4 then
    .error (.badResponse [.str "WINDOW_UPDATE payload length ", .num payload.length,
      .str " (expected 4) (FRAME_SIZE_ERROR)"])
  else .ok (fromBeBytes payload % 2 ^ 31)

/-! ## What is written is read -/

theorem readExact_length {s s' : Source} {n : Nat} {res : Except IoKind Bytes}
    (h : s.readExact n = (res, s')) :
    s'.bytes.length ≤ s.bytes.length ∧ ∀ {a}, res = .ok a → s'.bytes.length + n = s.bytes.length := by
  unfold Source.readExact at h
  split at h
  · next hle =>
      obtain ⟨-, rfl⟩ := Prod.mk.inj h
      simp only [List.length_drop]
      exact ⟨Nat.sub_le _ _, fun _ => Nat.sub_add_cancel hle⟩
  · obtain ⟨rfl, rfl⟩ := Prod.mk.inj h
    exact ⟨Nat.zero_le _, nofun⟩

/-- Reading a frame takes its nine bytes of header at least. -/
theorem readFrame_length {s s' : Source} {res : Except IoKind Frame}
    (h : readFrame s = (res, s')) :
    s'.bytes.length ≤ s.bytes.length ∧ ∀ {f}, res = .ok f → s'.bytes.length + 9 ≤ s.bytes.length := by
  unfold readFrame at h
  split at h
  · next hread =>
      obtain ⟨rfl, rfl⟩ := Prod.mk.inj h
      exact ⟨(readExact_length hread).1, nofun⟩
  · next hdr s₁ hread =>
      have hhead := (readExact_length hread).2 rfl
      simp only at h
      split at h
      · obtain ⟨rfl, rfl⟩ := Prod.mk.inj h
        exact ⟨by omega, nofun⟩
      split at h
      · next hread' =>
          have htail := (readExact_length hread').1
          obtain ⟨rfl, rfl⟩ := Prod.mk.inj h
          exact ⟨by omega, nofun⟩
      · next hread' =>
          have htail := (readExact_length hread').1
          obtain ⟨rfl, rfl⟩ := Prod.mk.inj h
          exact ⟨by omega, fun _ => by omega⟩

end Rsurl.H2
