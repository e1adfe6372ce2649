/-
# `Rsurl.WebSocket` — frames and messages of a WebSocket connection

From `src/websocket.rs`, behind the handshake: the frame reader, the loop that
puts a message together and answers the control frames it meets, and the masked
frames the client sends.
-/
import Rsurl.Base.Ber
import Rsurl.Base.Program
import Rsurl.Net
import Rsurl.Socket

namespace Rsurl.WebSocket

open Base (Program)

def opcodeCont : UInt8 := 0x0

def opcodeText : UInt8 := 0x1

def opcodeBinary : UInt8 := 0x2

def opcodeClose : UInt8 := 0x8

def opcodePing : UInt8 := 0x9

def opcodePong : UInt8 := 0xA

def maxPayloadBytes : Nat := 64 * 1024 * 1024

def maxControlPayload : Nat := 125

/-- `Frame`. -/
structure Frame where
  fin : Bool
  rsv1 : Bool
  opcode : UInt8
  payload : Bytes
deriving DecidableEq, Repr

/-- `Message`. -/
inductive Message where
  | data (opcode : UInt8) (payload : Bytes)
  | closed
deriving DecidableEq, Repr

/-- Both halves of the stream, and how often entropy has been drawn. -/
structure Stream where
  source : Source
  sink : Sink
  drawn : Nat
deriving DecidableEq, Repr

abbrev Session (α : Type) := Program Stream Error α

/-! ## Reading frames -/

/-- `read_exact`. -/
def readExact (n : Nat) : Session Bytes := fun s =>
  match s.source.readExact n with
  | (.ok bytes, source) => (.ok bytes, { s with source })
  | (.error _, source) => (.error (endError s.source.tail), { s with source })

/-- The payload's length, from the seven bits and what follows them. -/
def readLength (len7 : UInt8) : Session Nat :=
  if len7 ≤ 125 then return len7.toNat
  else if len7 = 126 then return Base.beValue (← readExact 2)
  else return Base.beValue (← readExact 8)

/-- The payload, if there is one. -/
def readPayload (n : Nat) : Session Bytes := if n > 0 then readExact n else return []

/-- `read_frame` behind the two bytes it begins with. -/
def readFrameAfter (first second : UInt8) : Session Frame :=
  if first &&& 0x30 ≠ 0 then
    throw (.badResponse [.str "non-zero RSV2/RSV3 bits on incoming WS frame"])
  else if second &&& 0x80 ≠ 0 then
    throw (.badResponse [.str "server-to-client frame is masked"])
  else do
    let payloadLen ← readLength (second &&& 0x7F)
    if payloadLen > maxPayloadBytes then
      throw (.badResponse [.str "WS payload too large: ", .num payloadLen, .str " bytes"])
    else
      let payload ← readPayload payloadLen
      return { fin := first &&& 0x80 != 0, rsv1 := first &&& 0x40 != 0, opcode := first &&& 0x0F,
               payload }

/-- `read_frame`. -/
def readFrame : Session Frame := do
  let header ← readExact 2
  readFrameAfter (header.headD 0) (header.tail.headD 0)

/-! ## Writing frames -/

section Entropy

-- The draws of `random_16` from the operating system; one may fail.
variable (entropy : Nat → Option {r : Bytes // r.length = 16})

def random16 : Session Bytes := fun s =>
  match entropy s.drawn with
  | some r => (.ok r.val, { s with drawn := s.drawn + 1 })
  | none => (.error (.badResponse [.str "websocket: no secure entropy source available"]),
      { s with drawn := s.drawn + 1 })

/-- The length with the mask bit. -/
def maskedLength (n : Nat) : Bytes :=
  if n < 126 then [0x80 ||| UInt8.ofNat n]
  else if n ≤ 65535 then (0x80 ||| 126) :: Base.beBytes 2 n
  else (0x80 ||| 127) :: Base.beBytes 8 n

/-- Each byte with the mask's byte at its place. -/
def maskBytes (mask payload : Bytes) : Bytes :=
  payload.mapIdx fun i b => b ^^^ mask.getD (i % 4) 0

/-- `build_client_frame_inner`. -/
def buildClientFrameInner (opcode : UInt8) (payload : Bytes) (rsv1 : Bool) : Session Bytes := do
  let mask := (← random16 entropy).take 4
  let rsv1Bit : UInt8 := if rsv1 then 0x40 else 0x00
  return (0x80 ||| rsv1Bit ||| (opcode &&& 0x0F)) :: (maskedLength payload.length ++ mask ++
    maskBytes mask payload)

/-- `build_client_frame`. -/
def buildClientFrame (opcode : UInt8) (payload : Bytes) : Session Bytes :=
  buildClientFrameInner entropy opcode payload false

def writeAll (bytes : Bytes) : Session Unit := fun s =>
  ((s.sink.writeAll bytes).1, { s with sink := (s.sink.writeAll bytes).2 })

def flush : Session Unit := fun s => (s.sink.flush.1, { s with sink := s.sink.flush.2 })

/-- A step whose error is dropped. -/
def ignore (m : Session Unit) : Session Unit := do
  let _ ← m.attempt
  return ()

/-! ## The receive loop -/

/-- `accumulate`. -/
def accumulate (buf chunk : Bytes) : Result Bytes :=
  if buf.length + chunk.length > maxPayloadBytes then
    .error (.badResponse [.str "reassembled WS message too large: ",
      .num (buf.length + chunk.length), .str " bytes (max ", .num maxPayloadBytes, .str ")"])
  else .ok (buf ++ chunk)

/-- `pmd`: inflating one message, when the extension was negotiated. -/
abbrev Inflate := Option (Bytes → Result Bytes)

/-- `finish_data_message`. -/
def finishDataMessage (pmd : Inflate) (opcode : UInt8) (payload : Bytes) (compressed : Bool) :
    Result Message :=
  if compressed then
    match pmd with
    | none => .error (.badResponse
        [.str "compressed WS message without negotiated permessage-deflate"])
    | some inflate => do
        let inflated ← inflate payload
        .ok (.data opcode inflated)
  else .ok (.data opcode payload)

/-- What is kept between the frames of a message: its opcode, once it has begun, whether it is
compressed, and its bytes so far. -/
structure Fragments where
  opcode : Option UInt8
  compressed : Bool
  buf : Bytes
deriving DecidableEq, Repr

/-- What a control frame leads to: an answer, nothing, or the end. -/
inductive Control where
  | answer (pong : Bytes)
  | skip
  | close

/-- The checks on a control frame. -/
def checkControl (frame : Frame) : Result Control :=
  if frame.rsv1 then .error (.badResponse [.str "RSV1 set on a WS control frame"])
  else if !frame.fin then
    .error (.badResponse [.str "fragmented control frame (FIN=0 on a control opcode)"])
  else if frame.payload.length > maxControlPayload then
    .error (.badResponse [.str "control frame payload too large: ", .num frame.payload.length,
      .str " bytes (max ", .num maxControlPayload, .str ")"])
  else if frame.opcode = opcodePing then .ok (.answer frame.payload)
  else if frame.opcode = opcodePong then .ok .skip
  else if frame.opcode = opcodeClose then .ok .close
  else .error (.badResponse [.str "unknown WS control opcode 0x", .hex frame.opcode.toNat])

/-- A data frame added to the fragments: more of them, or the message. -/
def addData (pmd : Inflate) (frags : Fragments) (frame : Frame) :
    Result (Fragments ⊕ Message) :=
  if frame.opcode = opcodeText ∨ frame.opcode = opcodeBinary then
    if frags.opcode.isSome then
      .error (.badResponse
        [.str "new data frame began while a fragmented message was in progress"])
    else if frame.rsv1 && pmd.isNone then
      .error (.badResponse
        [.str "RSV1 set on a WS frame but permessage-deflate was not negotiated"])
    else do
      let compressed := frags.compressed || frame.rsv1
      let buf ← accumulate frags.buf frame.payload
      if frame.fin then return .inr (← finishDataMessage pmd frame.opcode buf compressed)
      else return .inl ⟨some frame.opcode, compressed, buf⟩
  else if frame.opcode = opcodeCont then
    match frags.opcode with
    | none => .error (.badResponse [.str "continuation frame with no message in progress"])
    | some opcode =>
        if frame.rsv1 then .error (.badResponse [.str "RSV1 set on a WS continuation frame"])
        else do
          let buf ← accumulate frags.buf frame.payload
          if frame.fin then return .inr (← finishDataMessage pmd opcode buf frags.compressed)
          else return .inl { frags with buf }
  else .error (.badResponse [.str "unknown WS opcode 0x", .hex frame.opcode.toNat])

/-- The answer to a close frame, as far as it can be given. -/
def answerClose : Session Unit := do
  match ← (buildClientFrame entropy opcodeClose []).attempt with
  | .error _ => return ()
  | .ok close =>
      ignore (writeAll close)
      ignore flush

/-- The loop of `read_message`; each turn takes bytes, so what is to come bounds them. -/
def readLoop (pmd : Inflate) : Nat → Fragments → Session Message
  | 0, _ => throw .unexpectedEof
  | turns + 1, frags => do
      let frame ← readFrame
      if frame.opcode ≥ 0x8 then
        match ← Program.ofExcept (checkControl frame) with
        | .answer payload =>
            let pong ← buildClientFrame entropy opcodePong payload
            writeAll pong
            flush
            readLoop pmd turns frags
        | .skip => readLoop pmd turns frags
        | .close =>
            answerClose entropy
            return .closed
      else
        match ← Program.ofExcept (addData pmd frags frame) with
        | .inl frags => readLoop pmd turns frags
        | .inr message => return message

/-- `read_message`. -/
def readMessage (pmd : Inflate) : Session Message := do
  readLoop entropy pmd ((← get).source.bytes.length + 1) ⟨none, false, []⟩

/-- `read_data_and_close`. -/
def readDataAndClose (pmd : Inflate) : Session Bytes := do
  match ← readMessage entropy pmd with
  | .closed => return []
  | .data _ payload =>
      answerClose entropy
      return payload

end Entropy
end Rsurl.WebSocket
