/-
# `Rsurl.H2.Connection` — the frame dispatcher

The per-stream state machine, the `Connection` with its transport, and
`process_frame` with the handler of every frame type.  A handler returns its
outcome together with the connection it leaves behind, also when it fails.
Streams are kept under their ids in a `Base.Table`.
-/
import Rsurl.Base.Table
import Rsurl.Http
import Rsurl.H2.Frame
import Rsurl.H2.Hpack

namespace Rsurl.H2

open Http (Header)

/-! ## Streams -/

/-- `StreamState`. -/
inductive StreamState where
  | idle
  | open
  | halfClosedLocal
  | halfClosedRemote
  | closed
deriving DecidableEq, Repr

namespace StreamState

/-- `{self:?}`. -/
def debug : StreamState → String
  | .idle => "Idle"
  | .open => "Open"
  | .halfClosedLocal => "HalfClosedLocal"
  | .halfClosedRemote => "HalfClosedRemote"
  | .closed => "Closed"

/-- `send_data`. -/
def sendData (s : StreamState) (endStream : Bool) : Result StreamState :=
  match s with
  | .idle => .ok (if endStream then .halfClosedLocal else .open)
  | .open => .ok (if endStream then .halfClosedLocal else .open)
  | .halfClosedRemote => .ok (if endStream then .closed else .halfClosedRemote)
  | .halfClosedLocal | .closed =>
      .error (.badResponse [.str "internal: tried to send DATA in stream state ", .str s.debug])

/-- `recv_data`. -/
def recvData (s : StreamState) (endStream : Bool) : Result StreamState :=
  match s with
  | .open => .ok (if endStream then .halfClosedRemote else .open)
  | .halfClosedLocal => .ok (if endStream then .closed else .halfClosedLocal)
  | .idle | .halfClosedRemote | .closed =>
      .error (.badResponse [.str "received DATA in stream state ", .str s.debug,
        .str " (RFC 9113 §5.1)"])

/-- `recv_headers`. -/
def recvHeaders (s : StreamState) (endStream : Bool) : Result StreamState :=
  match s with
  | .open => .ok (if endStream then .halfClosedRemote else .open)
  | .halfClosedLocal => .ok (if endStream then .closed else .halfClosedLocal)
  | .closed => .ok .closed
  | .idle | .halfClosedRemote =>
      .error (.badResponse [.str "received HEADERS in stream state ", .str s.debug,
        .str " (RFC 9113 §5.1)"])

/-- `recv_rst`. -/
def recvRst (s : StreamState) : Result StreamState :=
  match s with
  | .idle => .error (.badResponse [.str "RST_STREAM on idle stream (RFC 9113 §5.1)"])
  | _ => .ok .closed

/-- `matches!(s.state, Closed | HalfClosedRemote)`. -/
def remoteDone (s : StreamState) : Bool := s = .closed || s = .halfClosedRemote

end StreamState

/-- `PendingBody`. -/
structure PendingBody where
  bytes : Bytes
  sent : Nat
deriving DecidableEq, Repr

/-- `Stream`. -/
structure Stream where
  id : Nat
  state : StreamState
  sendWindow : StreamSendWindow
  recvWindow : RecvWindow
  headersBuf : Bytes
  responseHeaders : Option (List Header)
  body : Bytes
  endStreamRecv : Bool
  pendingBody : Option PendingBody
deriving DecidableEq, Repr

/-- `MAX_HEADERS_BUF`. -/
def maxHeadersBuf : Nat := 256 * 1024

/-- `MAX_RESPONSE_BYTES`. -/
def maxResponseBytes : Nat := 256 * 1024 * 1024

namespace Stream

/-- `Stream::new`. -/
def new (id : Nat) (initialPeerWindow : Int) : Stream where
  id
  state := .idle
  sendWindow := .new initialPeerWindow
  recvWindow := .new
  headersBuf := []
  responseHeaders := none
  body := []
  endStreamRecv := false
  pendingBody := none

/-- `send_budget`. -/
def sendBudget (s : Stream) (w : ConnSendWindow) : Int := min s.sendWindow.available w.available

/-- `push_header_fragment`. -/
def pushHeaderFragment (s : Stream) (frag : Bytes) : Result Stream :=
  if maxHeadersBuf < s.headersBuf.length + frag.length then
    .error (.badResponse [.str "header block exceeds size limit (CONTINUATION flood?)"])
  else .ok { s with headersBuf := s.headersBuf ++ frag }

/-- The peer is done with the stream and its response headers are in. -/
def complete (s : Stream) : Bool :=
  s.state.remoteDone && s.endStreamRecv && s.responseHeaders.isSome

end Stream

/-! ## The connection -/

/-- The transport of a connection.  `received` lists the frames read off it so far; no
function reads it. -/
structure Tls where
  source : Source
  sink : Sink
  received : List Frame
deriving DecidableEq, Repr

abbrev Streams := Base.Table Nat Stream

/-- `Connection`. -/
structure Connection where
  tls : Tls
  peer : PeerSettings
  connSendWindow : ConnSendWindow
  connRecvWindow : RecvWindow
  decoder : Decoder
  encoder : Encoder
  streams : Streams
  nextStreamId : Nat
  goawayReceived : Option Nat
  expectingContinuation : Option Nat

/-- `DispatchOutcome`. -/
inductive DispatchOutcome where
  | cont
  | done (streamId : Nat)
deriving DecidableEq, Repr

/-- The outcome for a stream after a frame on it. -/
def Stream.outcome (s : Stream) (streamId : Nat) : DispatchOutcome :=
  if s.complete then .done streamId else .cont

namespace Connection

/-- `PREFACE`. -/
def preface : Bytes := "PRI * HTTP/2.0\r\n\r\nSM\r\n\r\n".toList.map fun c => UInt8.ofNat c.toNat

/-- Our SETTINGS: `ENABLE_PUSH=0`. -/
def ourSettings : Frame where
  typ := fSettings
  flags := 0
  streamId := 0
  payload := [0x0, 0x2, 0x0, 0x0, 0x0, 0x0]

/-- `Connection::new`. -/
def new (tls : Tls) : Result Connection :=
  match Sink.andThen (tls.sink.writeAll preface) fun w => writeFrameFlush w ourSettings with
  | (.error e, _) => .error e
  | (.ok (), sink) =>
      .ok {
        tls := { tls with sink }
        peer := .default
        connSendWindow := .new
        connRecvWindow := .new
        decoder := .new
        encoder := .new
        streams := ∅
        nextStreamId := 1
        goawayReceived := none
        expectingContinuation := none }

/-- `is_usable`. -/
def isUsable (c : Connection) : Bool :=
  c.goawayReceived.isNone && c.streams.entries.isEmpty && c.nextStreamId < 0x80000000

/-- `prune_completed_streams`. -/
def pruneCompletedStreams (c : Connection) : Connection :=
  { c with streams := c.streams.retain fun _ s =>
      !(s.state = .closed ||
        (s.state = .halfClosedRemote && s.responseHeaders.isSome && s.endStreamRecv)) }

/-- `open_stream`. -/
def openStream (c : Connection) : Result Nat × Connection :=
  if c.peer.maxConcurrentStreams ≤ c.streams.entries.length then
    (.error (.badResponse [.str "at MAX_CONCURRENT_STREAMS limit"]), c)
  else if 0x80000000 ≤ c.nextStreamId then
    (.error (.badResponse [.str "stream id space exhausted (RFC 9113 §5.1.1)"]), c)
  else if c.goawayReceived.any (· < c.nextStreamId) then
    (.error (.badResponse [.str "GOAWAY received with last-stream-id=",
      .num (c.goawayReceived.getD 0), .str "; cannot allocate id=", .num c.nextStreamId]), c)
  else
    (.ok c.nextStreamId, { c with
      nextStreamId := c.nextStreamId + 2
      streams := c.streams.insert c.nextStreamId
        (.new c.nextStreamId c.peer.initialWindowSize) })

/-- `?` between two operations on a connection. -/
def andThen {α β : Type} (out : Result α × Connection)
    (next : α → Connection → Result β × Connection) : Result β × Connection :=
  match out with
  | (.error e, c) => (.error e, c)
  | (.ok a, c) => next a c

/-- Put a stream under its id. -/
def setStream (c : Connection) (streamId : Nat) (s : Stream) : Connection :=
  { c with streams := c.streams.insert streamId s }

/-- Put back the write half. -/
def setSink (c : Connection) (sink : Sink) : Connection := { c with tls := { c.tls with sink } }

/-- A write on the transport, ending a handler. -/
def afterWrite (c : Connection) (out : Result Unit × Sink) (outcome : DispatchOutcome) :
    Result DispatchOutcome × Connection :=
  (out.1.map fun _ => outcome, c.setSink out.2)

/-! ## Frames on stream 0 -/

/-- The shift of every stream's send window when `SETTINGS_INITIAL_WINDOW_SIZE` changes. -/
def shiftSendWindows (c : Connection) (newInitial : Nat) : Result Unit × Streams :=
  if newInitial ≠ c.peer.initialWindowSize then
    c.streams.mapUntil fun _ s => do
      let sendWindow ← s.sendWindow.applyInitialWindowChange newInitial
      .ok { s with sendWindow }
  else (.ok (), c.streams)

/-- The SETTINGS arm of `process_conn_frame`. -/
def processSettings (c : Connection) (frame : Frame) : Result DispatchOutcome × Connection :=
  match c.peer.applySettingsPayload frame.payload with
  | (.error e, peer) => (.error e, { c with peer })
  | (.ok (), peer) =>
      match c.shiftSendWindows peer.initialWindowSize with
      | (.error e, streams) => (.error e, { c with peer, streams })
      | (.ok (), streams) =>
          let encoder :=
            if peer.headerTableSize ≠ c.peer.headerTableSize then
              c.encoder.setPeerMaxTableSize peer.headerTableSize
            else c.encoder
          let ack : Frame := { typ := fSettings, flags := flagAck, streamId := 0, payload := [] }
          afterWrite { c with peer, streams, encoder } (writeFrameFlush c.tls.sink ack) .cont

/-- The GOAWAY arm of `process_conn_frame`. -/
def processGoaway (c : Connection) (frame : Frame) : Connection :=
  let last :=
    if 4 ≤ frame.payload.length then fromBeBytes (frame.payload.take 4) % 2 ^ 31 else 0
  { c with
    goawayReceived := some last
    streams := c.streams.mapValues fun id s => if last < id then { s with state := .closed } else s }

/-- `process_conn_frame`. -/
def processConnFrame (c : Connection) (frame : Frame) : Result DispatchOutcome × Connection :=
  if frame.typ = fSettings then
    if frame.has flagAck then (.ok .cont, c) else c.processSettings frame
  else if frame.typ = fPing then
    if frame.has flagAck then (.ok .cont, c)
    else
      let pong : Frame :=
        { typ := fPing, flags := flagAck, streamId := 0, payload := frame.payload }
      c.afterWrite (writeFrameFlush c.tls.sink pong) .cont
  else if frame.typ = fWindowUpdate then
    match (parseWindowUpdate frame.payload).bind c.connSendWindow.applyWindowUpdate with
    | .error e => (.error e, c)
    | .ok connSendWindow => (.ok .cont, { c with connSendWindow })
  else if frame.typ = fGoaway then (.ok .cont, c.processGoaway frame)
  else (.ok .cont, c)

/-! ## Frames on a stream -/

/-- The header-block fragment of a HEADERS payload, without padding and priority. -/
def headersFragment (frame : Frame) : Result Bytes := do
  let (padLen, payload) ←
    if frame.has flagPadded then
      match frame.payload with
      | [] => .error (.badResponse [.str "HEADERS PADDED with empty payload"])
      | b :: payload => .ok (b.toNat, payload)
    else .ok (0, frame.payload)
  let payload ←
    if frame.has flagPriority then
      if payload.length < 5 then
        .error (.badResponse [.str "HEADERS PRIORITY with insufficient payload"])
      else .ok (payload.drop 5)
    else .ok payload
  if payload.length < padLen then
    .error (.badResponse [.str "HEADERS padding overruns payload"])
  else .ok (payload.take (payload.length - padLen))

/-- HEADERS on a closed stream: a block that ends here is decoded and dropped. -/
def headersOnClosed (c : Connection) (streamId : Nat) (s : Stream) (frag : Bytes)
    (endHeaders : Bool) : Result DispatchOutcome × Connection :=
  if endHeaders then
    match c.decoder.decodeBlock frag with
    | (.error e, decoder) => (.error e, { c with decoder })
    | (.ok _, decoder) => (.ok .cont, { c with decoder })
  else
    match s.pushHeaderFragment frag with
    | .error e => (.error e, c)
    | .ok s => (.ok .cont, { c.setStream streamId s with expectingContinuation := some streamId })

/-- `process_headers`. -/
def processHeaders (c : Connection) (frame : Frame) : Result DispatchOutcome × Connection :=
  match headersFragment frame with
  | .error e => (.error e, c)
  | .ok frag =>
      let endHeaders := frame.has flagEndHeaders
      let endStream := frame.has flagEndStream
      let streamId := frame.streamId
      match c.streams.lookup streamId with
      | none =>
          (.error (.badResponse [.str "HEADERS on unknown stream ", .num streamId,
            .str " (server push disabled)"]), c)
      | some s =>
          if s.state = .closed then c.headersOnClosed streamId s frag endHeaders
          else
            match s.state.recvHeaders endStream with
            | .error e => (.error e, c)
            | .ok newState =>
                match s.pushHeaderFragment frag with
                | .error e => (.error e, c)
                | .ok s =>
                    let s := if endStream then { s with endStreamRecv := true } else s
                    if endHeaders then
                      let block := s.headersBuf
                      let s := { s with headersBuf := [] }
                      match c.decoder.decodeBlock block with
                      | (.error e, decoder) => (.error e, { c.setStream streamId s with decoder })
                      | (.ok decoded, decoder) =>
                          let s := { s with responseHeaders := some decoded, state := newState }
                          (.ok (s.outcome streamId),
                            { c.setStream streamId s with decoder, expectingContinuation := none })
                    else
                      let s := { s with state := newState }
                      (.ok (s.outcome streamId),
                        { c.setStream streamId s with expectingContinuation := some streamId })

/-- `process_continuation`. -/
def processContinuation (c : Connection) (frame : Frame) : Result DispatchOutcome × Connection :=
  let streamId := frame.streamId
  if c.expectingContinuation ≠ some streamId then
    (.error (.badResponse [.str "unexpected CONTINUATION on stream ", .num streamId]), c)
  else
    match c.streams.lookup streamId with
    | none =>
        (.error (.badResponse [.str "CONTINUATION on unknown stream ", .num streamId]), c)
    | some s =>
        match s.pushHeaderFragment frame.payload with
        | .error e => (.error e, c)
        | .ok s =>
            if frame.has flagEndHeaders then
              let block := s.headersBuf
              let s := { s with headersBuf := [] }
              match c.decoder.decodeBlock block with
              | (.error e, decoder) => (.error e, { c.setStream streamId s with decoder })
              | (.ok decoded, decoder) =>
                  let s := if s.state = .closed then s else { s with responseHeaders := some decoded }
                  (.ok (s.outcome streamId),
                    { c.setStream streamId s with decoder, expectingContinuation := none })
            else (.ok (s.outcome streamId), c.setStream streamId s)

/-- The application bytes of a DATA payload. -/
def dataPayload (frame : Frame) : Result Bytes :=
  if frame.has flagPadded then
    match frame.payload with
    | [] => .error (.badResponse [.str "DATA PADDED with empty payload"])
    | b :: payload =>
        if payload.length < b.toNat then
          .error (.badResponse [.str "DATA padding overruns payload"])
        else .ok (payload.take (payload.length - b.toNat))
  else .ok frame.payload

/-- Write an update frame, if there is one. -/
def writeUpdate (w : Sink) : Option Frame → Result Unit × Sink
  | some upd => writeFrame w upd
  | none => (.ok (), w)

/-- The window updates at the end of `process_data`. -/
def replenishBoth (c : Connection) (streamId : Nat) (s : Stream) :
    Result DispatchOutcome × Connection :=
  let (upd, connRecvWindow) := c.connRecvWindow.replenish 0
  match writeUpdate c.tls.sink upd with
  | (.error e, sink) =>
      (.error e, { (c.setStream streamId s).setSink sink with connRecvWindow })
  | (.ok (), sink) =>
      let (upd, recvWindow) := s.recvWindow.replenish streamId
      let s := { s with recvWindow }
      afterWrite { c.setStream streamId s with connRecvWindow }
        (Sink.andThen (writeUpdate sink upd) Sink.flush) (s.outcome streamId)

/-- `process_data`. -/
def processData (c : Connection) (frame : Frame) : Result DispatchOutcome × Connection :=
  let streamId := frame.streamId
  let frameBytes := frame.payload.length
  let c := { c with connRecvWindow := c.connRecvWindow.consume frameBytes }
  if c.connRecvWindow.available < 0 then
    (.error (.badResponse [.str "http2: flow-control window exceeded by peer"]), c)
  else
    match c.streams.lookup streamId with
    | none =>
        match c.connRecvWindow.replenish 0 with
        | (some upd, connRecvWindow) =>
            afterWrite { c with connRecvWindow } (writeFrameFlush c.tls.sink upd) .cont
        | (none, _) => (.ok .cont, c)
    | some s =>
        if s.state = .closed then
          (.error (.badResponse [.str "DATA on closed stream ", .num streamId]), c)
        else
          let endStream := frame.has flagEndStream
          match s.state.recvData endStream with
          | .error e => (.error e, c)
          | .ok newState =>
              let s := { s with recvWindow := s.recvWindow.consume frameBytes }
              if s.recvWindow.available < 0 then
                (.error (.badResponse [.str "http2: flow-control window exceeded by peer"]),
                  c.setStream streamId s)
              else
                match dataPayload frame with
                | .error e => (.error e, c.setStream streamId s)
                | .ok payload =>
                    if maxResponseBytes < s.body.length + payload.length then
                      (.error (.badResponse [.str "response body exceeds size limit"]),
                        c.setStream streamId s)
                    else
                      c.replenishBoth streamId { s with
                        body := s.body ++ payload
                        endStreamRecv := s.endStreamRecv || endStream
                        state := newState }

/-- `process_rst`. -/
def processRst (c : Connection) (frame : Frame) : Result DispatchOutcome × Connection :=
  let streamId := frame.streamId
  let code := if 4 ≤ frame.payload.length then fromBeBytes (frame.payload.take 4) else 0
  match c.streams.lookup streamId with
  | none => (.ok .cont, c)
  | some s =>
      if s.state = .closed then (.ok .cont, c)
      else
        match s.state.recvRst with
        | .error e => (.error e, c)
        | .ok state =>
            (.error (.badResponse [.str "stream ", .num streamId,
                .str " reset by server, error code ", .num code]),
              c.setStream streamId { s with state })

/-- The WINDOW_UPDATE arm of `process_stream_frame`. -/
def processStreamWindowUpdate (c : Connection) (frame : Frame) :
    Result DispatchOutcome × Connection :=
  match parseWindowUpdate frame.payload with
  | .error e => (.error e, c)
  | .ok inc =>
      match c.streams.lookup frame.streamId with
      | none => (.ok .cont, c)
      | some s =>
          match s.sendWindow.applyWindowUpdate inc with
          | .error e => (.error e, c)
          | .ok sendWindow => (.ok .cont, c.setStream frame.streamId { s with sendWindow })

/-- `process_stream_frame`. -/
def processStreamFrame (c : Connection) (frame : Frame) : Result DispatchOutcome × Connection :=
  if frame.typ = fHeaders then c.processHeaders frame
  else if frame.typ = fContinuation then c.processContinuation frame
  else if frame.typ = fData then c.processData frame
  else if frame.typ = fRstStream then c.processRst frame
  else if frame.typ = fWindowUpdate then c.processStreamWindowUpdate frame
  else if frame.typ = fPushPromise then
    (.error (.badResponse [.str "received PUSH_PROMISE despite SETTINGS_ENABLE_PUSH=0"]), c)
  else (.ok .cont, c)

/-- The gate of RFC 9113 §6.10: while a header block is open, only its own CONTINUATION. -/
def admits (c : Connection) (frame : Frame) : Bool :=
  match c.expectingContinuation with
  | some awaiting => frame.typ = fContinuation && frame.streamId = awaiting
  | none => true

/-- `process_frame`. -/
def processFrame (c : Connection) (frame : Frame) : Result DispatchOutcome × Connection :=
  if c.admits frame then
    if frame.streamId = 0 then c.processConnFrame frame else c.processStreamFrame frame
  else
    (.error (.badResponse [.str "expected CONTINUATION on stream ",
      .num (c.expectingContinuation.getD 0), .str ", got type=0x", .hex frame.typ.toNat,
      .str " stream=", .num frame.streamId]), c)

/-- A frame has been read. -/
def receive (c : Connection) (source : Source) (frame : Frame) : Connection :=
  { c with tls := { c.tls with source, received := c.tls.received ++ [frame] } }

/-- `read_and_dispatch`. -/
def readAndDispatch (c : Connection) : Result DispatchOutcome × Connection :=
  match readFrame c.tls.source with
  | (.error .unexpectedEof, source) =>
      (.error .unexpectedEof, { c with tls := { c.tls with source } })
  | (.error kind, source) => (.error (.io kind), { c with tls := { c.tls with source } })
  | (.ok frame, source) => (c.receive source frame).processFrame frame

end Connection
end Rsurl.H2
