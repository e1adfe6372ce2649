/-
# `Rsurl.H2.Driver` — requests on a connection

The two drivers: `run_one_request`, which sends one request and reads until its
stream is done, and `run_multiplexed`, which keeps several streams in flight.
Loops that read frames take as fuel a bound on the frames still to come: every
frame takes nine bytes or more off the source.
-/
import Rsurl.Compress
import Rsurl.H2.Request

namespace Rsurl.H2

open Http (Header Request Response)

/-! ## The response of a stream -/

/-- The loop over the header list: the status, and the fields that are no pseudo-headers. -/
def cleanHeaders : List Header → Option UInt16 → List Header →
    Result (Option UInt16 × List Header)
  | [], status, clean => .ok (status, clean)
  | (k, v) :: headers, status, clean =>
      if k = ":status".toList then
        match parseU16 v with
        | some n => cleanHeaders headers (some n) clean
        | none => .error (.badResponse [.str "bad :status ", .debug v])
      else if k.head? = some ':' then cleanHeaders headers status clean
      else cleanHeaders headers status (clean ++ [(k, v)])

/-- `build_response_from_stream_labelled`. -/
def buildResponseFromStream (codec : Codec) (stream : Stream) : Result Response :=
  match stream.responseHeaders with
  | none => .error (.badResponse [.str "response ended before any HEADERS frame"])
  | some headers => do
      match ← cleanHeaders headers none [] with
      | (none, _) => .error (.badResponse [.str "response missing :status"])
      | (some status, clean) =>
          let (clean, body) ← Compress.maybeDecodeBody codec clean stream.body
          .ok { status, reason := [], version := "HTTP/2".toList, headers := clean, body }

namespace Connection

/-! ## One request -/

/-- The HEADERS of a request, common to `send_request_on` and `stage_request_on`. -/
def sendHeadersOn (c : Connection) (streamId : Nat) (req : Request) :
    Result Stream × Connection :=
  let (headerBlock, encoder) := buildHeaderBlock c.encoder req
  let hasBody := !req.body.isEmpty
  let frames := fragmentHeaderBlock streamId headerBlock c.peer.maxFrameSize (!hasBody)
  let c := { c with encoder }
  match writeFrames c.tls.sink frames with
  | (.error e, sink) => (.error e, c.setSink sink)
  | (.ok (), sink) =>
      let c := c.setSink sink
      match c.streams.lookup streamId with
      | none => (.error (.badResponse [.str "stream ", .num streamId, .str " not found"]), c)
      | some s =>
          match s.state.sendData (!hasBody) with
          | .error e => (.error e, c)
          | .ok state =>
              let s := { s with state }
              (.ok s, c.setStream streamId s)

/-- The inner loop of `send_request_on`: read frames until there is budget. -/
def awaitBudget : Nat → Connection → Nat → Result Unit × Connection
  | 0, c, _ => (.error .unexpectedEof, c)
  | fuel + 1, c, streamId =>
      match c.streams.lookup streamId with
      | none =>
          (.error (.badResponse [.str "stream ", .num streamId, .str " disappeared mid-send"]), c)
      | some s =>
          if 0 < s.sendBudget c.connSendWindow then (.ok (), c)
          else
            andThen c.readAndDispatch fun outcome c =>
              if outcome = .done streamId then
                (.error (.badResponse
                  [.str "server ended stream before request body was fully sent"]), c)
              else awaitBudget fuel c streamId

/-- A DATA frame goes out: `consume` on both windows and `send_data`. -/
def sendChunk (c : Connection) (streamId : Nat) (s : Stream) (chunk : Bytes) (isLast : Bool) :
    Result Stream × Connection :=
  match writeFrame c.tls.sink (dataFrame streamId chunk isLast) with
  | (.error e, sink) => (.error e, c.setSink sink)
  | (.ok (), sink) =>
      let c := { c.setSink sink with connSendWindow := c.connSendWindow.consume chunk.length }
      let s := { s with sendWindow := s.sendWindow.consume chunk.length }
      match s.state.sendData isLast with
      | .error e => (.error e, c.setStream streamId s)
      | .ok state => (.ok { s with state }, c.setStream streamId { s with state })

/-- The outer loop of `send_request_on`; every turn sends at least one byte. -/
def sendBody : Nat → Connection → Nat → Bytes → Result Unit × Connection
  | 0, c, _, _ => (.ok (), c)
  | fuel + 1, c, streamId, remaining =>
      if remaining.isEmpty then (.ok (), c)
      else
        andThen (awaitBudget (c.tls.source.bytes.length + 1) c streamId) fun _ c =>
          match c.streams.lookup streamId with
          | none => (.error (.badResponse [.str "stream ", .num streamId,
              .str " disappeared mid-send"]), c)
          | some s =>
              let n := nextDataChunkSize c.peer.maxFrameSize (s.sendBudget c.connSendWindow)
                remaining.length
              let chunk := remaining.take n
              let remaining := remaining.drop n
              andThen (c.sendChunk streamId s chunk remaining.isEmpty) fun _ c =>
                sendBody fuel c streamId remaining

/-- `tls.flush()?`. -/
def flush (c : Connection) : Result Unit × Connection :=
  (c.tls.sink.flush.1, c.setSink c.tls.sink.flush.2)

/-- `send_request_on`. -/
def sendRequestOn (c : Connection) (streamId : Nat) (req : Request) : Result Unit × Connection :=
  andThen (c.sendHeadersOn streamId req) fun _ c =>
    andThen (sendBody req.body.length c streamId req.body) fun _ c => c.flush

/-- Hand a stream to the caller. -/
def takeStream (c : Connection) (streamId : Nat) : Result Stream × Connection :=
  match c.streams.lookup streamId with
  | some s => (.ok s, { c with streams := c.streams.erase streamId })
  | none =>
      (.error (.badResponse [.str "stream ", .num streamId, .str " not registered"]), c)

/-- `drive_until_stream_done`. -/
def driveUntilStreamDone : Nat → Connection → Nat → Result Stream × Connection
  | 0, c, _ => (.error .unexpectedEof, c)
  | fuel + 1, c, streamId =>
      match c.streams.lookup streamId with
      | none =>
          (.error (.badResponse [.str "stream ", .num streamId, .str " not registered"]), c)
      | some s =>
          if s.complete then c.takeStream streamId
          else
            andThen c.readAndDispatch fun outcome c =>
              if outcome = .done streamId then c.takeStream streamId
              else driveUntilStreamDone fuel c streamId

end Connection

open Connection (andThen)

/-- `run_one_request`. -/
def runOneRequest (codec : Codec) (c : Connection) (req : Request) :
    Result Response × Connection :=
  andThen c.openStream fun streamId c =>
    andThen (c.sendRequestOn streamId req) fun _ c =>
      andThen (c.driveUntilStreamDone (c.tls.source.bytes.length + 1) streamId) fun stream c =>
        (buildResponseFromStream codec stream, c.pruneCompletedStreams)

/-! ## Many requests -/

namespace Connection

/-- `stage_request_on`. -/
def stageRequestOn (c : Connection) (streamId : Nat) (req : Request) : Result Unit × Connection :=
  andThen (c.sendHeadersOn streamId req) fun s c =>
    if req.body.isEmpty then (.ok (), c)
    else
      (.ok (), c.setStream streamId { s with pendingBody := some { bytes := req.body, sent := 0 } })

/-- The loop of `pump_pending_sends` on one stream; every turn sends at least one byte. -/
def pumpStream : Nat → Connection → Nat → Nat → Result Unit × Connection
  | 0, c, _, _ => (.ok (), c)
  | fuel + 1, c, maxFrameSize, streamId =>
      match c.streams.lookup streamId with
      | none => (.ok (), c)
      | some s =>
          match s.pendingBody with
          | none => (.ok (), c)
          | some pb =>
              let remainingLen := pb.bytes.length - pb.sent
              if remainingLen = 0 then (.ok (), c.setStream streamId { s with pendingBody := none })
              else
                let n := nextDataChunkSize maxFrameSize (s.sendBudget c.connSendWindow)
                  remainingLen
                if n = 0 then (.ok (), c)
                else
                  let isLast : Bool := n = remainingLen
                  let chunk := (pb.bytes.drop pb.sent).take n
                  andThen (c.sendChunk streamId s chunk isLast) fun s c =>
                    if isLast then (.ok (), c.setStream streamId { s with pendingBody := none })
                    else
                      pumpStream fuel (c.setStream streamId
                        { s with pendingBody := some { pb with sent := pb.sent + n } })
                        maxFrameSize streamId

/-- The streams with a body to send, in ascending order. -/
def pendingIds (c : Connection) : List Nat :=
  ((c.streams.entries.filter fun x => x.2.pendingBody.isSome).map fun x => x.1).mergeSort

/-- The fuel for one stream's pending body. -/
def pendingLength (c : Connection) (streamId : Nat) : Nat :=
  match (c.streams.lookup streamId).bind Stream.pendingBody with
  | some pb => pb.bytes.length + 1
  | none => 1

/-- `pump_pending_sends` over the given streams. -/
def pumpAll (c : Connection) (maxFrameSize : Nat) : List Nat → Result Unit × Connection
  | [] => (.ok (), c)
  | id :: ids =>
      andThen (pumpStream (c.pendingLength id) c maxFrameSize id) fun _ c =>
        c.pumpAll maxFrameSize ids

/-- `pump_pending_sends`. -/
def pumpPendingSends (c : Connection) : Result Unit × Connection :=
  c.pumpAll c.peer.maxFrameSize c.pendingIds

/-- `flush_pending`. -/
def flushPending (c : Connection) : Result Unit × Connection :=
  andThen c.pumpPendingSends fun _ c => c.flush

end Connection

/-- The state of `run_multiplexed`. -/
structure Batch where
  conn : Connection
  results : List (Option (Result Response))
  idToIdx : Base.Table Nat Nat
  queue : List Nat

namespace Batch

/-- `results[idx] = Some(res)`. -/
def setResult (b : Batch) (idx : Nat) (res : Result Response) : Batch :=
  { b with results := b.results.set idx (some res) }

/-- The loop of `start_queued` over the queue. -/
def startFrom (reqs : List Request) (b : Batch) : List Nat → Batch
  | [] => { b with queue := [] }
  | idx :: queue =>
      if b.conn.peer.maxConcurrentStreams ≤ b.conn.streams.entries.length then
        { b with queue := idx :: queue }
      else
        match b.conn.openStream with
        | (.error e, conn) => startFrom reqs ({ b with conn }.setResult idx (.error e)) queue
        | (.ok id, conn) =>
            match reqs[idx]? with
            | none => startFrom reqs { b with conn } queue
            | some req =>
                match conn.stageRequestOn id req with
                | (.error e, conn) =>
                    let conn := { conn with streams := conn.streams.erase id }
                    startFrom reqs ({ b with conn }.setResult idx (.error e)) queue
                | (.ok (), conn) =>
                    startFrom reqs { b with conn, idToIdx := b.idToIdx.insert id idx } queue

/-- `start_queued`. -/
def startQueued (reqs : List Request) (b : Batch) : Batch := b.startFrom reqs b.queue

/-- `take_stream_error`: the one live stream that is closed without a complete response. -/
def takeStreamError (b : Batch) : Option (Nat × Batch) :=
  match b.conn.streams.entries.filter fun x =>
      (b.idToIdx.lookup x.1).isSome && x.2.state = .closed && !x.2.complete with
  | [x] =>
      match b.idToIdx.lookup x.1 with
      | none => none
      | some idx =>
          some (idx, { b with
            idToIdx := b.idToIdx.erase x.1
            conn := { b.conn with streams := b.conn.streams.erase x.1 } })
  | _ => none

/-- One stream abandoned by a GOAWAY. -/
def failDoomed (last : Nat) (b : Batch) (id : Nat) : Batch :=
  match b.idToIdx.lookup id with
  | none => b
  | some idx =>
      let conn := { b.conn with streams := b.conn.streams.erase id }
      { b with conn, idToIdx := b.idToIdx.erase id }.setResult idx
        (.error (.badResponse [.str "stream ", .num id, .str " abandoned by GOAWAY (last-stream-id=",
          .num last, .str ")"]))

/-- `fail_goaway_doomed`. -/
def failGoawayDoomed (b : Batch) : Batch :=
  match b.conn.goawayReceived with
  | none => b
  | some last =>
      let doomed := b.idToIdx.keys.filter fun id =>
        last < id &&
          match b.conn.streams.lookup id with
          | some s => !(s.endStreamRecv && s.responseHeaders.isSome)
          | none => true
      doomed.foldl (failDoomed last) b

/-- One slot of `fail_all_outstanding`. -/
def failSlot (e : Error) (results : List (Option (Result Response))) (idx : Nat) :
    List (Option (Result Response)) :=
  match results[idx]? with
  | some none => results.set idx (some (.error e))
  | _ => results

/-- `fail_all_outstanding`. -/
def failAllOutstanding (b : Batch) (e : Error) : Batch :=
  { b with results :=
      ((b.idToIdx.entries.map fun x => x.2) ++ b.queue).foldl (failSlot e) b.results }

/-- The head of a turn when nothing is in flight: start queued work, or give up.  The flag says
whether the turn goes on. -/
def refill (reqs : List Request) (b : Batch) : Batch × Bool :=
  if !b.idToIdx.entries.isEmpty then (b, true)
  else if b.queue.isEmpty then (b, false)
  else
    let b := b.startQueued reqs
    if b.idToIdx.entries.isEmpty then
      let e := .badResponse [.str "no usable stream to issue request (GOAWAY?)"]
      ({ b with results := b.queue.foldl (failSlot e) b.results, queue := [] }, false)
    else
      match b.conn.flushPending with
      | (.error _, conn) => ({ b with conn }, false)
      | (.ok (), conn) => ({ b with conn }, true)

/-- What a completed stream leads to: its response, and the next request. -/
def finishStream (codec : Codec) (reqs : List Request) (b : Batch) (outcome : DispatchOutcome) :
    Batch :=
  match outcome with
  | .cont => b
  | .done id =>
      match b.idToIdx.lookup id, b.conn.streams.lookup id with
      | some idx, some stream =>
          let conn := { b.conn with streams := b.conn.streams.erase id }
          ({ b with conn, idToIdx := b.idToIdx.erase id }.setResult idx
            (buildResponseFromStream codec stream)).startQueued reqs
      | _, _ => b

/-- The frame loop of `run_multiplexed`. -/
def loop (codec : Codec) (reqs : List Request) : Nat → Batch → Batch
  | 0, b => b
  | fuel + 1, b =>
      if !b.results.any Option.isNone then b
      else
        match b.refill reqs with
        | (b, false) => b
        | (b, true) =>
            match b.conn.readAndDispatch with
            | (.error e, conn) =>
                match takeStreamError { b with conn } with
                | none => failAllOutstanding { b with conn } e
                | some (idx, b) =>
                    let b := (b.setResult idx (.error e)).startQueued reqs
                    match b.conn.flushPending with
                    | (.error e, conn) => failAllOutstanding { b with conn } e
                    | (.ok (), conn) => loop codec reqs fuel { b with conn }
            | (.ok outcome, conn) =>
                let b := finishStream codec reqs (failGoawayDoomed { b with conn }) outcome
                match b.conn.flushPending with
                | (.error _, conn) =>
                    failAllOutstanding { b with conn }
                      (.badResponse [.str "write error pumping multiplexed sends"])
                | (.ok (), conn) => loop codec reqs fuel { b with conn }

/-- `collect_results`. -/
def collectResults (results : List (Option (Result Response))) : List (Result Response) :=
  results.map fun slot =>
    slot.getD (.error (.badResponse
      [.str "internal: multiplexed request produced no result"]))

end Batch

/-- `run_multiplexed`. -/
def runMultiplexed (codec : Codec) (c : Connection) (reqs : List Request) :
    List (Result Response) × Connection :=
  let b : Batch := {
    conn := c
    results := reqs.map fun _ => none
    idToIdx := ∅
    queue := List.range reqs.length }
  let b := b.startQueued reqs
  match b.conn.flushPending with
  | (.error e, conn) =>
      let b := Batch.failAllOutstanding { b with conn } e
      (Batch.collectResults b.results, b.conn)
  | (.ok (), conn) =>
      let b := Batch.loop codec reqs (conn.tls.source.bytes.length + 1) { b with conn }
      (Batch.collectResults b.results, b.conn.pruneCompletedStreams)

end Rsurl.H2
