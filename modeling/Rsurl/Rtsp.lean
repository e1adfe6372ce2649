/-
# `Rsurl.Rtsp` — the RTSP client

From `src/rtsp.rs`: the response reader and the requests of a session.  Each
request reads its response through a buffer of its own, which is dropped with
what it holds when the response is complete.
-/
import Rsurl.Base.Program
import Rsurl.Http
import Rsurl.Net
import Rsurl.Socket
import Rsurl.Text.Fields

namespace Rsurl.Rtsp

open Base (Program)

def maxHeaderBytes : Nat := 64 * 1024

def maxBodyBytes : Nat := 64 * 1024 * 1024

/-- The capacity of a `BufReader`. -/
def bufferBytes : Nat := 8192

abbrev Header := Text × Text

/-- `RtspResponse`. -/
structure RtspResponse where
  version : Text
  status : UInt16
  reason : Text
  headers : List Header
  body : Bytes
deriving DecidableEq, Repr

/-! ## Reading a response -/

/-- A line as a `String`; bytes that are none are consumed. -/
def lineOf (line : Bytes) : Result (Text × Nat) :=
  match fromUtf8 line with
  | some text => .ok (text, line.length)
  | none => .error (.io .invalidData)

/-- `BufReader::read_line`: the line, its end included, and its length; none at the end of the
stream. -/
def readLine (b : Buffered) : Result (Text × Nat) × Buffered :=
  match b.pull (fun _ => bufferBytes) (Base.Segment.through (· == 10)) with
  | (some line, b) => (lineOf line, b)
  | (none, b) =>
      match b.tail with
      | some kind => (.error (.io kind), { b with held := [] })
      | none => (lineOf b.held, { b with held := [] })

/-- `r.take(n).read_to_end(..)`, and the check that nothing is missing; what is longer than the
buffer is read past it. -/
def readBody (n : Nat) (b : Buffered) : Result Bytes × Buffered :=
  match b.pull (fun body => max bufferBytes (n - body.length)) (Base.Segment.front n) with
  | (some body, b) => (.ok body, b)
  | (none, b) => (.error (endError b.tail), { b with held := [] })

def parseStatusLine (line : Text) : Result (Text × UInt16 × Text) :=
  let (version, rest) := match Text.splitOnce ' ' line with
    | some (version, rest) => (version, some rest)
    | none => (line, none)
  if !"RTSP/".toList.isPrefixOf version then
    .error (.badResponse [.str "not RTSP: ", .display version])
  else
    match rest with
    | none => .error (.badResponse [.str "missing status: ", .debug line])
    | some rest =>
        let (status, reason) := (Text.splitOnce ' ' rest).getD (rest, [])
        match parseU16 status with
        | none => .error (.badResponse [.str "bad status: ", .debug line])
        | some status => .ok (version, status, reason)

/-- A header line, split and trimmed. -/
def parseHeader (line : Text) : Result Header :=
  match Text.splitOnce ':' line with
  | none => .error (.badResponse [.str "malformed header line: ", .debug line])
  | some (k, v) => .ok (k.trim, v.trim)

theorem readLine_of_through {b : Buffered} {line rest : Bytes}
    (h : Base.Segment.through (· == 10) b.pending = some (line, rest)) :
    ∃ b', readLine b = (lineOf line, b') ∧ b'.pending = rest ∧ b'.tail = b.tail := by
  obtain ⟨b', hpull, hrest, htail⟩ := Buffered.pull_of_find (fun _ => bufferBytes)
    (Base.Segment.through_stable _) (fun _ _ => by decide) h
  exact ⟨b', by rw [readLine, hpull], hrest, htail⟩

theorem readLine_of_end {b : Buffered}
    (h : Base.Segment.through (· == 10) b.pending = none) :
    readLine b =
      match b.tail with
      | some kind => (.error (.io kind), ⟨[], [], b.tail⟩)
      | none => (lineOf b.pending, ⟨[], [], b.tail⟩) := by
  rw [readLine, Buffered.pull_of_not_find _ (Base.Segment.through_stable _)
    (fun _ _ => by decide) h]
  rfl

theorem lineOf_eq_ok {line : Bytes} {text : Text} {n : Nat} (h : lineOf line = .ok (text, n)) :
    n = line.length := by
  unfold lineOf at h
  split at h
  · exact (Prod.mk.inj (Except.ok.inj h)).2.symm
  · cases h

/-- A line that is not the end of the stream takes something of it. -/
theorem length_readLine_lt {b : Buffered} {text : Text} {n : Nat}
    (h : (readLine b).1 = .ok (text, n)) (hn : n ≠ 0) :
    (readLine b).2.pending.length < b.pending.length := by
  cases hthrough : Base.Segment.through (· == 10) b.pending with
  | some out =>
      obtain ⟨b', hread, hrest, -⟩ := readLine_of_through hthrough
      rw [hread] at h
      have hlength := lineOf_eq_ok h
      rw [hread, hrest, (Base.Segment.through_eq_some hthrough).1, List.length_append]
      omega
  | none =>
      have hread := readLine_of_end hthrough
      cases htail : b.tail with
      | some kind =>
          simp only [htail] at hread
          rw [hread] at h
          cases h
      | none =>
          simp only [htail] at hread
          rw [hread] at h ⊢
          have hlength := lineOf_eq_ok h
          show 0 < b.pending.length
          omega

/-- The header lines, to the empty one; `count` bytes of them have been read. -/
def readHeaders (headers : List Header) (count : Nat) (b : Buffered) :
    Result (List Header) × Buffered :=
  match _ : (readLine b).1 with
  | .error e => (.error e, (readLine b).2)
  | .ok (line, n) =>
      let after := (readLine b).2
      if _ : n = 0 then (.error .unexpectedEof, after)
      else if count + n > maxHeaderBytes then
        (.error (.badResponse [.str "headers exceed 64 KiB"]), after)
      else
        let trimmed := line.trimEndCrlf
        if trimmed = [] then (.ok headers, after)
        else
          match parseHeader trimmed with
          | .error e => (.error e, after)
          | .ok header => readHeaders (headers ++ [header]) (count + n) after
termination_by b.pending.length
decreasing_by exact length_readLine_lt ‹_› ‹_›

/-- `content-length`, when it is a number. -/
def contentLength (headers : List Header) : Nat :=
  ((Http.findHeader headers "content-length".toList).bind
    (parseUnsigned 10 (2 ^ 64 - 1))).getD 0

/-- `read_response`. -/
def readResponse (b : Buffered) : Result RtspResponse × Buffered :=
  match readLine b with
  | (.error e, b) => (.error e, b)
  | (.ok (statusLine, n), b) =>
      if n = 0 then (.error .unexpectedEof, b)
      else
        match parseStatusLine statusLine.trimEndCrlf with
        | .error e => (.error e, b)
        | .ok (version, status, reason) =>
            match readHeaders [] 0 b with
            | (.error e, b) => (.error e, b)
            | (.ok headers, b) =>
                let length := contentLength headers
                if length > maxBodyBytes then
                  (.error (.badResponse [.str "body too large: ", .num length]), b)
                else if length > 0 then
                  match readBody length b with
                  | (.error e, b) => (.error e, b)
                  | (.ok body, b) => (.ok { version, status, reason, headers, body }, b)
                else (.ok { version, status, reason, headers, body := [] }, b)

/-! ## Sessions -/

/-- `Session`: both halves of the stream, and what the requests share. -/
structure Session where
  socket : Socket
  sink : Sink
  uri : Text
  cseq : UInt32
  sessionId : Option Text
deriving DecidableEq, Repr

abbrev Step (α : Type) := Program Session Error α

def defaultPort : UInt16 := 554

def defaultUserAgent : Text := "rsurl/0.0.4".toList

def defaultTransport : Text := "RTP/AVP/TCP;unicast;interleaved=0-1".toList

def rejectControlBytes (value : Text) (field : String) : Result Unit :=
  if value.utf8.any fun b => b < 0x20 || b == 0x7F then
    .error (.invalidUrl [.str "rtsp: control byte in ", .str field])
  else .ok ()

def requestUri (url : Url) : Text :=
  if url.port = defaultPort then "rtsp://".toList ++ url.host ++ url.path
  else "rtsp://".toList ++ url.host ++ ':' :: decimal url.port.toNat ++ url.path

def buildRequest (method uri : Text) (cseq : UInt32) (extra : List Header) : Text :=
  method ++ ' ' :: uri ++ " RTSP/1.0\r\nCSeq: ".toList ++ decimal cseq.toNat ++ "\r\n".toList ++
    extra.flatMap (fun (k, v) => k ++ ": ".toList ++ v ++ "\r\n".toList) ++
    "User-Agent: ".toList ++ defaultUserAgent ++ "\r\n\r\n".toList

def parseSessionId (value : Text) : Text := ((value.split ';').headD value).trim

/-- `Session::connect`, on a stream that has been opened. -/
def Session.connect (url : Url) (socket : Socket) (sink : Sink) : Result Session := do
  rejectControlBytes url.host "host"
  rejectControlBytes url.path "path"
  .ok { socket, sink, uri := requestUri url, cseq := 1, sessionId := none }

/-- What a request makes of its response: its `CSeq` must be the request's, its status a 2xx. -/
def checkResponse (cseq : UInt32) (resp : RtspResponse) : Result RtspResponse :=
  match Http.findHeader resp.headers "CSeq".toList with
  | none => .error (.badResponse [.str "rtsp: response missing CSeq"])
  | some value =>
      match parseU32 value.trim with
      | none => .error (.badResponse [.str "rtsp: bad CSeq: ", .debug value])
      | some got =>
          if got ≠ cseq then
            .error (.badResponse [.str "rtsp: CSeq mismatch: sent ", .num cseq.toNat,
              .str ", got ", .num got.toNat])
          else if ¬(200 ≤ resp.status ∧ resp.status < 300) then
            .error (.badResponse [.str "rtsp: ", .num resp.status.toNat, .str " ",
              .display resp.reason])
          else .ok resp

/-- `read_response(BufReader::new(&self.stream))`: the buffer goes with what it holds. -/
def receive : Step RtspResponse := fun s =>
  let out := readResponse ⟨[], s.socket⟩
  (out.1, { s with socket := out.2.socket })

/-- `write_all` and `flush`. -/
def transmit (text : Text) : Step Unit := fun s =>
  let out := Sink.andThen (s.sink.writeAll text.utf8) Sink.flush
  (out.1, { s with sink := out.2 })

/-- `Session::request`. -/
def request (method : Text) (extra : List Header) : Step RtspResponse := do
  let s ← get
  modify fun s => { s with cseq := s.cseq + 1 }
  transmit (buildRequest method s.uri s.cseq extra)
  let resp ← receive
  Program.ofExcept (checkResponse s.cseq resp)

def options : Step RtspResponse := request "OPTIONS".toList []

def describe : Step RtspResponse :=
  request "DESCRIBE".toList [("Accept".toList, "application/sdp".toList)]

def setup : Step RtspResponse := do
  let resp ← request "SETUP".toList [("Transport".toList, defaultTransport)]
  match Http.findHeader resp.headers "Session".toList with
  | none => throw (.badResponse [.str "rtsp: SETUP response missing Session"])
  | some session =>
      modify fun s => { s with sessionId := some (parseSessionId session) }
      return resp

/-- The id of the session, for an operation that needs one. -/
def sessionFor (operation : String) : Step Text := do
  match (← get).sessionId with
  | some id => return id
  | none => throw (.badResponse [.str "rtsp: ", .str operation,
      .str " requires a SETUP session first"])

def play : Step RtspResponse := do
  let id ← sessionFor "PLAY"
  request "PLAY".toList [("Session".toList, id), ("Range".toList, "npt=0.000-".toList)]

def teardown : Step RtspResponse := do
  let id ← sessionFor "TEARDOWN"
  let resp ← request "TEARDOWN".toList [("Session".toList, id)]
  modify fun s => { s with sessionId := none }
  return resp

/-- The operations behind a method of `run_method`, the last one its own. -/
def handshake (method : Text) : Option (List (Step RtspResponse) × Step RtspResponse) :=
  if method = "OPTIONS".toList then some ([], options)
  else if method = "DESCRIBE".toList then some ([], describe)
  else if method = "SETUP".toList then some ([options, describe], setup)
  else if method = "PLAY".toList then some ([options, describe, setup], play)
  else if method = "TEARDOWN".toList then some ([options, describe, setup, play], teardown)
  else none

/-- `run_method`, on a session that is connected. -/
def runMethod (method : Text) : Step Bytes :=
  match handshake method.toAsciiUppercase with
  | some (before, last) => do
      before.forM fun operation => do let _ ← operation
      return (← last).body
  | none => throw (.badResponse [.str "rtsp: unsupported method ",
      .debug method.toAsciiUppercase,
      .str " (expected OPTIONS, DESCRIBE, SETUP, PLAY, or TEARDOWN)"])

end Rsurl.Rtsp
