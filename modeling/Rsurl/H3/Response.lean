/-
# `Rsurl.H3.Response` — reading a response

The frame header codec, the server's unidirectional streams, and the loop of
`read_response` with `try_consume_frame` and `finalize_response`.  What QUIC
and the clock do in one turn of the loop is a `Turn`; Section Acknowledgements
are counted as they are owed.
-/
import Rsurl.Base.Table
import Rsurl.Compress
import Rsurl.H3.Qpack

namespace Rsurl.H3

open Http (Header Response)
open Qpack (DynamicTable Fields bad)

/-! ## Variable-length integers -/

/-- `varint::decode`: the value and the bytes it takes. -/
def varintDecode (buf : Bytes) : Result (Nat × Nat) :=
  match buf with
  | [] => .error (bad [.str "varint: empty input"])
  | b :: rest =>
      let n := 2 ^ (b.toNat / 64)
      if buf.length < n then
        .error (bad [.str "varint: need ", .num n, .str " bytes, have ", .num buf.length])
      else .ok ((rest.take (n - 1)).foldl (fun v b => v * 256 + b.toNat) (b.toNat % 64), n)

/-! ## Frames -/

/-- `frame_type::DATA`. -/
def typeData : Nat := 0x00

/-- `frame_type::HEADERS`. -/
def typeHeaders : Nat := 0x01

/-- `uni_stream_type::QPACK_ENCODER`. -/
def typeQpackEncoder : Nat := 0x02

/-- `Frame`: type and length of a frame. -/
structure Frame where
  ty : Nat
  len : Nat
deriving DecidableEq, Repr

/-- `Frame::decode_header`. -/
def Frame.decodeHeader (buf : Bytes) : Result (Frame × Nat) := do
  let (ty, n1) ← varintDecode buf
  let (len, n2) ← varintDecode (buf.drop n1)
  .ok (⟨ty, len⟩, n1 + n2)

/-! ## The server's unidirectional streams -/

/-- `MAX_UNI_BUFFER`. -/
def maxUniBuffer : Nat := 64 * 1024

/-- `UniStreamState`. -/
structure UniStreamState where
  buf : Bytes
  ty : Option Nat
deriving DecidableEq, Repr

/-- `Http3State`. -/
structure Http3State where
  dynTable : DynamicTable
  decoderStream : Option Nat
  uni : Base.Table Nat UniStreamState

/-- `Http3State::new`. -/
def Http3State.new (decoderStream : Option Nat) : Http3State where
  dynTable := .new
  decoderStream := decoderStream
  uni := ∅

namespace UniStreamState

/-- The type prefix, taken off the buffer once it is all there. -/
def classify (entry : UniStreamState) : UniStreamState :=
  match entry.ty with
  | some _ => entry
  | none =>
      match varintDecode entry.buf with
      | .ok (ty, used) => { buf := entry.buf.drop used, ty := some ty }
      | .error _ => entry

/-- `process_uni_stream` on one stream's entry. -/
def process (entry : UniStreamState) (table : DynamicTable) :
    Result UniStreamState × DynamicTable :=
  let entry := entry.classify
  match entry.ty with
  | none => (.ok entry, table)
  | some ty =>
      if ty = typeQpackEncoder then
        match Qpack.applyEncoderInstructions table entry.buf with
        | (.error e, table) => (.error e, table)
        | (.ok consumed, table) => (.ok { entry with buf := entry.buf.drop consumed }, table)
      else (.ok { entry with buf := [] }, table)

/-- What one read brings, as long as it fits the buffer. -/
def append (entry : UniStreamState) (piece : Bytes) : Result UniStreamState :=
  if maxUniBuffer < entry.buf.length + piece.length then
    .error (bad [.str "http3: server uni-stream buffer exceeded limit"])
  else .ok { entry with buf := entry.buf ++ piece }

end UniStreamState

namespace Http3State

/-- `state.uni.entry(sid).or_default()`. -/
def uniEntry (st : Http3State) (sid : Nat) : UniStreamState :=
  (st.uni.lookup sid).getD ⟨[], none⟩

def setUni (st : Http3State) (sid : Nat) (entry : UniStreamState) : Http3State :=
  { st with uni := st.uni.insert sid entry }

/-- `drain_uni_streams` on one stream: buffer what the reads bring, then process it. -/
def drainUniStream (st : Http3State) (sid : Nat) (reads : List Bytes) :
    Result Unit × Http3State :=
  match reads.foldlM UniStreamState.append (st.uniEntry sid) with
  | .error e => (.error e, st)
  | .ok entry =>
      match entry.process st.dynTable with
      | (.error e, table) => (.error e, { st with dynTable := table })
      | (.ok entry, table) => (.ok (), { st with dynTable := table }.setUni sid entry)

/-- `drain_uni_streams`, for the readable streams with what can be read from each. -/
def drainUniStreams : List (Nat × List Bytes) → Http3State → Result Unit × Http3State
  | [], st => (.ok (), st)
  | (sid, reads) :: ids, st =>
      match st.drainUniStream sid reads with
      | (.error e, st) => (.error e, st)
      | (.ok (), st) => drainUniStreams ids st

end Http3State

/-! ## The request stream -/

/-- `MAX_RESPONSE_BYTES`. -/
def maxResponseBytes : Nat := 256 * 1024 * 1024

/-- `MAX_HEADERS_FRAME_LEN`. -/
def maxHeadersFrameLen : Nat := 256 * 1024

/-- `FrameOutcome`, with the headers and the body the frame leaves. -/
inductive FrameOutcome where
  | consumed (n : Nat) (ackOwed : Bool) (headers : Option Fields) (body : Bytes)
  | needMore
  | err (e : Error)

/-- The checks on a declared length. -/
def checkLength (frame : Frame) (body : Bytes) : Result Unit :=
  if frame.ty = typeHeaders ∧ maxHeadersFrameLen < frame.len then
    .error (bad [.str "http3: HEADERS frame length exceeds limit"])
  else if frame.ty = typeData ∧ maxResponseBytes - body.length < frame.len then
    .error (bad [.str "http3: DATA frame length exceeds response budget"])
  else .ok ()

/-- A whole frame. -/
def takeFrame (ty total : Nat) (payload : Bytes) (headers : Option Fields) (body : Bytes)
    (dynTable : DynamicTable) : FrameOutcome :=
  if ty = typeHeaders then
    match Qpack.decodeFieldSectionWith payload dynTable with
    | .error e => .err e
    | .ok fields =>
        -- a later block is read and dropped
        .consumed total (Qpack.blockReferencesDynamicTable payload) (headers.or (some fields)) body
  else if ty = typeData then .consumed total false headers (body ++ payload)
  else .consumed total false headers body

/-- `try_consume_frame`. -/
def tryConsumeFrame (buf : Bytes) (headers : Option Fields) (body : Bytes)
    (dynTable : DynamicTable) : FrameOutcome :=
  match Frame.decodeHeader buf with
  | .error _ => .needMore
  | .ok (frame, hdrLen) =>
      match checkLength frame body with
      | .error e => .err e
      | .ok () =>
          let total := hdrLen + frame.len
          if buf.length < total then .needMore
          else takeFrame frame.ty total ((buf.take total).drop hdrLen) headers body dynTable

/-- The variables of `read_response`, and the Section Acknowledgements owed so far. -/
structure Assembly where
  streamBuf : Bytes
  headers : Option Fields
  body : Bytes
  acks : Nat
deriving DecidableEq

def Assembly.init : Assembly := ⟨[], none, [], 0⟩

/-- The inner loop: peel frames off the buffer.  Each takes two bytes at least. -/
def peel (dynTable : DynamicTable) : Nat → Assembly → Result Unit × Assembly
  | 0, a => (.ok (), a)
  | fuel + 1, a =>
      match tryConsumeFrame a.streamBuf a.headers a.body dynTable with
      | .needMore => (.ok (), a)
      | .err e => (.error e, a)
      | .consumed n ackOwed headers body =>
          let a : Assembly :=
            { streamBuf := a.streamBuf.drop n, headers, body,
              acks := a.acks + if ackOwed then 1 else 0 }
          if a.streamBuf = [] then (.ok (), a) else peel dynTable fuel a

/-- What happens around one turn of the loop of `read_response`: the deadline, the connection,
the unidirectional streams, the read with its FIN flag, and the turn of the I/O loop. -/
structure Turn where
  expired : Bool
  closed : Bool
  uni : List (Nat × List Bytes)
  read : Except Text (Bytes × Bool)
  pumped : Result Unit

/-- How the loop stands: it waits for more, or has ended. -/
inductive Progress where
  | waiting (st : Http3State) (a : Assembly)
  | ended (res : Result Unit) (st : Http3State) (a : Assembly)

/-- The frames that a read has made whole, and what FIN says of the rest. -/
def settle (t : Turn) (fin : Bool) (st : Http3State) (a : Assembly) : Progress :=
  match peel st.dynTable a.streamBuf.length a with
  | (.error e, a) => .ended (.error e) st a
  | (.ok (), a) =>
      if fin then
        if a.streamBuf ≠ [] then
          .ended (.error (bad [.str "http3: stream FIN with partial frame in buffer"])) st a
        else .ended (.ok ()) st a
      else
        match t.pumped with
        | .error e => .ended (.error e) st a
        | .ok () => .waiting st a

/-- One turn of the loop of `read_response`. -/
def Turn.run (t : Turn) (st : Http3State) (a : Assembly) : Progress :=
  if t.expired then .ended (.error (.io .timedOut)) st a
  else if t.closed then .ended (.error (bad [.str "http3: peer closed connection"])) st a
  else
    match st.drainUniStreams t.uni with
    | (.error e, st) => .ended (.error e) st a
    | (.ok (), st) =>
        match t.read with
        | .error e => .ended (.error (bad [.str "http3: stream read: ", .display e])) st a
        | .ok (bytes, fin) =>
            if bytes ≠ [] ∧ maxResponseBytes < a.streamBuf.length + bytes.length then
              .ended (.error (bad [.str "http3: response too large"])) st a
            else settle t fin st { a with streamBuf := a.streamBuf ++ bytes }

/-- The loop of `read_response`. -/
def readLoop : List Turn → Http3State → Assembly → Progress
  | [], st, a => .waiting st a
  | t :: ts, st, a =>
      match t.run st a with
      | .waiting st a => readLoop ts st a
      | p => p

/-- The header loop of `finalize_response`: the last `:status`, and the fields that are no
pseudo-headers. -/
def splitFields : Fields → Option UInt16 → List Header → Result (Option UInt16 × List Header)
  | [], status, hdrs => .ok (status, hdrs)
  | (k, v) :: fields, status, hdrs =>
      if k = ":status".toList then
        match parseU16 v with
        | some status => splitFields fields (some status) hdrs
        | none => .error (bad [.str "http3: bad :status ", .debug v])
      else if k.head? = some ':' then splitFields fields status hdrs
      else splitFields fields status (hdrs ++ [(k, v)])

/-- `finalize_response`. -/
def finalizeResponse (codec : Codec) (fields : Fields) (body : Bytes) : Result Response := do
  match ← splitFields fields none [] with
  | (none, _) => .error (bad [.str "http3: missing :status"])
  | (some status, hdrs) =>
      let (hdrs, body) ← Compress.maybeDecodeBody codec hdrs body
      .ok { status, reason := [], version := "HTTP/3".toList, headers := hdrs, body }

/-- What `read_response` returns when its loop has ended. -/
def Progress.response (codec : Codec) : Progress → Option (Result Response)
  | .waiting _ _ => none
  | .ended (.error e) _ _ => some (.error e)
  | .ended (.ok ()) _ a =>
      match a.headers with
      | none => some (.error (bad [.str "http3: no HEADERS frame"]))
      | some fields => some (finalizeResponse codec fields a.body)

/-- `read_response`; `none` while it still waits. -/
def readResponse (codec : Codec) (turns : List Turn) (st : Http3State) :
    Option (Result Response) :=
  (readLoop turns st .init).response codec

end Rsurl.H3
