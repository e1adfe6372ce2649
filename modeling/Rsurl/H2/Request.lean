/-
# `Rsurl.H2.Request` — the frames of a request

The header fields of a request, their block, and its HEADERS and CONTINUATION
frames.
-/
import Rsurl.H2.Connection

namespace Rsurl.H2

open Http (Header Request)

/-- `is_connection_specific_header`. -/
def isConnectionSpecificHeader (name : Text) : Bool :=
  name.toAsciiLowercase ∈ ["connection".toList, "proxy-connection".toList, "keep-alive".toList,
    "transfer-encoding".toList, "upgrade".toList, "te".toList]

/-- `RequestPseudo`. -/
structure RequestPseudo where
  method : Text
  scheme : Text
  authority : Text
  path : Text
deriving DecidableEq, Repr

/-- The caller's headers that go on the wire, in lower case. -/
def callerFields (req : Request) : List Header :=
  (req.headers.filter fun (k, _) =>
    !(isConnectionSpecificHeader k || k.eqIgnoreAsciiCase "host".toList)).map
      fun (k, v) => (k.toAsciiLowercase, v)

/-- A field that is added unless the caller set it. -/
def fieldUnlessSet (fields : List Header) (name : String) (value : Option Text) : List Header :=
  if fields.any fun (k, _) => k == name.toList then []
  else (value.map fun v => (name.toList, v)).toList

/-- `request_header_fields`. -/
def requestHeaderFields (req : Request) : RequestPseudo × List Header :=
  let authority :=
    if req.url.port = 443 ∧ req.url.scheme = "https".toList then req.url.host
    else req.url.host ++ ':' :: decimal req.url.port.toNat
  let pseudo : RequestPseudo :=
    { method := req.method, scheme := req.url.scheme, authority, path := req.url.path }
  let fields := callerFields req
  (pseudo,
    fields ++
    fieldUnlessSet fields "authorization"
      ((Http.effectiveBasicAuth req).map ("Basic ".toList ++ ·)) ++
    fieldUnlessSet fields "user-agent" (some "rsurl/0.0.4".toList) ++
    fieldUnlessSet fields "accept" (some "*/*".toList) ++
    fieldUnlessSet fields "accept-encoding" (some "gzip, deflate".toList) ++
    if req.body.isEmpty then [] else [("content-length".toList, decimal req.body.length)])

/-- `build_header_block`. -/
def buildHeaderBlock (encoder : Encoder) (req : Request) : Bytes × Encoder :=
  let (pseudo, fields) := requestHeaderFields req
  let all : List Header :=
    (":method".toList, pseudo.method) :: (":scheme".toList, pseudo.scheme) ::
      (":authority".toList, pseudo.authority) :: (":path".toList, pseudo.path) :: fields
  all.foldl (fun (out, e) (k, v) => e.encodeHeader out k v) ([], encoder)

/-- CONTINUATION frames, END_HEADERS on the last. -/
def continuationFrames (streamId : Nat) : List Bytes → List Frame
  | [] => []
  | [chunk] =>
      [{ typ := fContinuation, flags := flagEndHeaders, streamId, payload := chunk }]
  | chunk :: chunks =>
      { typ := fContinuation, flags := 0, streamId, payload := chunk } ::
        continuationFrames streamId chunks

/-- `fragment_header_block`. -/
def fragmentHeaderBlock (streamId : Nat) (headerBlock : Bytes) (maxFrameSize : Nat)
    (endStream : Bool) : List Frame :=
  let flags := if endStream then flagEndStream else 0
  match headerBlock.toChunks maxFrameSize with
  | [] =>
      [{ typ := fHeaders, flags := flagEndHeaders ||| flags, streamId, payload := [] }]
  | [chunk] =>
      [{ typ := fHeaders, flags := flags ||| flagEndHeaders, streamId, payload := chunk }]
  | chunk :: chunks =>
      { typ := fHeaders, flags, streamId, payload := chunk } ::
        continuationFrames streamId chunks

/-- `next_data_chunk_size`. -/
def nextDataChunkSize (maxFrameSize : Nat) (available : Int) (remaining : Nat) : Nat :=
  if available ≤ 0 then 0 else (min (min available remaining) maxFrameSize).toNat

/-- A DATA frame of a request body. -/
def dataFrame (streamId : Nat) (chunk : Bytes) (isLast : Bool) : Frame where
  typ := fData
  flags := if isLast then flagEndStream else 0
  streamId
  payload := chunk

/-- Write frames one after another. -/
def writeFrames (w : Sink) : List Frame → Result Unit × Sink
  | [] => (.ok (), w)
  | f :: fs => Sink.andThen (writeFrame w f) fun w => writeFrames w fs

end Rsurl.H2
