/-
# `Rsurl.Tftp` — the read side of the TFTP client

`fetch` of `src/tftp.rs`.  What the socket does is an argument: the outcome of
each `recv_from`, with the fault of the send that follows it when there is one.
`receive` is one turn of the loop, `Fetch` its variables.
-/
import Rsurl.Url

namespace Rsurl.Tftp

/-! ## Packets -/

/-- The opcodes of RFC 1350. -/
def opRrq : UInt16 := 1

def opData : UInt16 := 3

def opAck : UInt16 := 4

def opError : UInt16 := 5

def blockSize : Nat := 512

def maxRetries : Nat := 3

def maxTotalBytes : Nat := 256 * 1024 * 1024

/-- The receive buffer. -/
def bufferSize : Nat := 4 + blockSize + 16

/-- `u16::to_be_bytes`. -/
def toBeBytes (n : UInt16) : Bytes := [UInt8.ofNat (n.toNat / 256), UInt8.ofNat n.toNat]

/-- `u16::from_be_bytes`. -/
def fromBeBytes (hi lo : UInt8) : UInt16 := UInt16.ofNat (hi.toNat * 256 + lo.toNat)

def buildRequest (opcode : UInt16) (filename : Text) : Bytes :=
  toBeBytes opcode ++ filename.utf8 ++ [0] ++ Text.utf8 "octet".toList ++ [0]

def buildRrq (filename : Text) : Bytes := buildRequest opRrq filename

def buildData (block : UInt16) (payload : Bytes) : Bytes :=
  toBeBytes opData ++ toBeBytes block ++ payload

def buildAck (block : UInt16) : Bytes := toBeBytes opAck ++ toBeBytes block

def parseOpcode : Bytes → Option UInt16
  | hi :: lo :: _ => some (fromBeBytes hi lo)
  | _ => none

structure DataPacket where
  block : UInt16
  data : Bytes
deriving DecidableEq, Repr

def parseData (buf : Bytes) : Result DataPacket :=
  match buf with
  | _ :: _ :: hi :: lo :: data =>
      if parseOpcode buf ≠ some opData then
        .error (.badResponse [.str "tftp: not a DATA packet"])
      else .ok ⟨fromBeBytes hi lo, data⟩
  | _ => .error (.badResponse [.str "tftp: short DATA packet"])

def parseError (buf : Bytes) : Result Text :=
  match buf with
  | _ :: _ :: _ :: _ :: msg =>
      if parseOpcode buf ≠ some opError then
        .error (.badResponse [.str "tftp: not an ERROR packet"])
      else .ok (fromUtf8Lossy (msg.takeWhile (· ≠ 0)))
  | _ => .error (.badResponse [.str "tftp: short ERROR packet"])

/-- `filename_of`: the path without its leading `/`. -/
def filenameOf (url : Url) : Result Text :=
  let filename : Text := match url.path with
    | '/' :: rest => rest
    | path => path
  if filename = [] then
    .error (.invalidUrl [.str "tftp: empty filename in ", .display url.scheme, .str "://",
      .display url.host, .str "/", .display url.path])
  else if filename.utf8.contains 0 then
    .error (.invalidUrl [.str "tftp: filename contains NUL"])
  else .ok filename

/-! ## The loop -/

/-- `SocketAddr`. -/
structure Addr where
  ip : Nat
  port : UInt16
deriving DecidableEq, Repr

/-- The variables of the loop. -/
structure Fetch where
  peer : Option Addr
  out : Bytes
  expectedBlock : UInt16
  lastPacket : Bytes
  lastDest : Addr
  retries : Nat
deriving DecidableEq, Repr

/-- What `recv_from` returns, and the fault of the next `send_to`. -/
inductive Event where
  | datagram (pkt : Bytes) (src : Addr) (sendFault : Option IoKind)
  | fault (kind : IoKind) (sendFault : Option IoKind)
deriving DecidableEq, Repr

/-- A datagram on its way to an address. -/
abbrev Sent := Addr × Bytes

/-- How a turn ends: with the packets it sent, in a next turn or a return. -/
inductive Turn where
  | next (s : Fetch) (sent : List Sent)
  | done (res : Result Bytes) (sent : List Sent)

/-- `socket.send_to(..)?` and what follows it. -/
def sendTo (fault : Option IoKind) (dest : Addr) (pkt : Bytes) (k : List Sent → Turn) : Turn :=
  match fault with
  | some kind => .done (.error (.io kind)) []
  | none => k [(dest, pkt)]

/-- `recv_from` failed: send the last packet again, as often as allowed. -/
def onFault (s : Fetch) (kind : IoKind) (sendFault : Option IoKind) : Turn :=
  if kind = .wouldBlock ∨ kind = .timedOut then
    if s.retries ≥ maxRetries then .done (.error .unexpectedEof) []
    else sendTo sendFault s.lastDest s.lastPacket fun sent =>
      .next { s with retries := s.retries + 1 } sent
  else .done (.error (.io kind)) []

/-- The expected block has come. -/
def acceptBlock (s : Fetch) (data : DataPacket) (src : Addr) (sendFault : Option IoKind) : Turn :=
  let peer := s.peer.or (some src)
  if s.out.length + data.data.length > maxTotalBytes then
    .done (.error (.badResponse
      [.str "tftp: transfer exceeds ", .num maxTotalBytes, .str " bytes"])) []
  else
    let out := s.out ++ data.data
    sendTo sendFault src (buildAck data.block) fun sent =>
      if data.data.length < blockSize then .done (.ok out) sent
      else if s.expectedBlock = 65535 then
        .done (.error (.badResponse
          [.str "tftp: block number wrapped; refusing oversized transfer"])) sent
      else .next {
        peer, out
        expectedBlock := s.expectedBlock + 1
        lastPacket := buildAck data.block
        lastDest := src
        retries := 0 } sent

/-- A DATA packet. -/
def onData (s : Fetch) (pkt : Bytes) (src : Addr) (sendFault : Option IoKind) : Turn :=
  match parseData pkt with
  | .error e => .done (.error e) []
  | .ok data =>
      if data.block ≠ s.expectedBlock then
        -- a duplicate of the block before is acknowledged again
        if data.block + 1 = s.expectedBlock then
          sendTo sendFault src (buildAck data.block) fun sent => .next s sent
        else .next s []
      else acceptBlock s data src sendFault

/-- The packet is from the latched peer, or from the server's address while there is none. -/
def isHeard (server : Addr) (s : Fetch) (src : Addr) : Bool :=
  match s.peer with
  | some p => src == p
  | none => src.ip == server.ip

/-- One turn of the loop of `fetch`. -/
def receive (server : Addr) (s : Fetch) : Event → Turn
  | .fault kind sendFault => onFault s kind sendFault
  | .datagram pkt src sendFault =>
      if !isHeard server s src then .next s []
      else
        let pkt := pkt.take bufferSize
        match parseOpcode pkt with
        | none => .done (.error (.badResponse [.str "tftp: packet too short"])) []
        | some op =>
            if op = opData then onData s pkt src sendFault
            else if op = opError then
              match parseError pkt with
              | .error e => .done (.error e) []
              | .ok msg => .done (.error (.badResponse [.str "tftp: ", .display msg])) []
            else .done (.error (.badResponse [.str "tftp: unexpected opcode ", .num op.toNat])) []

/-- The variables when the request has been sent. -/
def Fetch.init (server : Addr) (filename : Text) : Fetch where
  peer := none
  out := []
  expectedBlock := 1
  lastPacket := buildRrq filename
  lastDest := server
  retries := 0

/-- The loop over what the socket delivers; `none` while it still waits. -/
def fetchLoop (server : Addr) : Fetch → List Event → Option (Result Bytes)
  | _, [] => none
  | s, e :: es =>
      match receive server s e with
      | .next s' _ => fetchLoop server s' es
      | .done res _ => some res

/-- What `fetch` finds when it sets its socket up: the address the host resolves to, and the
faults of `bind`, `set_read_timeout` and the first `send_to`. -/
structure Setup where
  resolved : Result Addr
  bindFault : Option IoKind
  timeoutFault : Option IoKind
  sendFault : Option IoKind

/-- `fetch`. -/
def fetch (url : Url) (setup : Setup) (events : List Event) : Option (Result Bytes) :=
  match filenameOf url, setup.resolved, setup.bindFault, setup.timeoutFault, setup.sendFault with
  | .error e, _, _, _, _ => some (.error e)
  | .ok _, .error e, _, _, _ => some (.error e)
  | .ok _, .ok _, some kind, _, _ => some (.error (.io kind))
  | .ok _, .ok _, none, some kind, _ => some (.error (.io kind))
  | .ok _, .ok _, none, none, some kind => some (.error (.io kind))
  | .ok filename, .ok server, none, none, none =>
      fetchLoop server (.init server filename) events

end Rsurl.Tftp
