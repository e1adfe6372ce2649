/-
# `Rsurl.Tftp.Store` — the write side of the TFTP client

`store` of `src/tftp.rs`, with the socket as on the read side: the outcome of
each `recv_from`, and the fault of the send that follows it when there is one.
-/
import Rsurl.Tftp

namespace Rsurl.Tftp

def opWrq : UInt16 := 2

def buildWrq (filename : Text) : Bytes := buildRequest opWrq filename

def parseAck (buf : Bytes) : Result UInt16 :=
  match buf with
  | _ :: _ :: hi :: lo :: _ =>
      if parseOpcode buf ≠ some opAck then
        .error (.badResponse [.str "tftp: not an ACK packet"])
      else .ok (fromBeBytes hi lo)
  | _ => .error (.badResponse [.str "tftp: short ACK packet"])

/-- The variables of the loop.  `block` is the block whose acknowledgement it waits for, 0 for
that of the request; the offset is that of the block sent last. -/
structure Store where
  peer : Option Addr
  block : UInt16
  sentOffset : Nat
  sentFinal : Bool
  lastPacket : Bytes
  lastDest : Addr
  retries : Nat
deriving DecidableEq, Repr

namespace Store

/-- How a turn ends: with the packets it sent, in a next turn or a return. -/
inductive Turn where
  | next (s : Store) (sent : List Sent)
  | done (res : Result Unit) (sent : List Sent)

/-- `socket.send_to(..)?` and what follows it. -/
def sendTo (fault : Option IoKind) (dest : Addr) (pkt : Bytes) (k : List Sent → Turn) : Turn :=
  match fault with
  | some kind => .done (.error (.io kind)) []
  | none => k [(dest, pkt)]

/-- `recv_from` failed: send the last packet again, as often as allowed. -/
def onFault (s : Store) (kind : IoKind) (sendFault : Option IoKind) : Turn :=
  if kind = .wouldBlock ∨ kind = .timedOut then
    if s.retries ≥ maxRetries then .done (.error .unexpectedEof) []
    else sendTo sendFault s.lastDest s.lastPacket fun sent =>
      .next { s with retries := s.retries + 1 } sent
  else .done (.error (.io kind)) []

/-- The refusal of a block after the last one that can be counted. -/
def wrapped : Error :=
  .badResponse [.str "tftp: block number wrapped; refusing oversized transfer"]

/-- The block waited for has been acknowledged. -/
def acceptAck (data : Bytes) (s : Store) (src : Addr) (sendFault : Option IoKind) : Turn :=
  let peer := s.peer.or (some src)
  if s.sentFinal then .done (.ok ()) []
  else
    let nextOffset := if s.block = 0 then 0 else s.sentOffset + blockSize
    if s.block = 65535 then .done (.error wrapped) []
    else
      let nextBlock := s.block + 1
      let payload := (data.drop nextOffset).take blockSize
      let dgram := buildData nextBlock payload
      sendTo sendFault src dgram fun sent => .next {
        peer
        block := nextBlock
        sentOffset := nextOffset
        sentFinal := payload.length < blockSize
        lastPacket := dgram
        lastDest := src
        retries := 0 } sent

/-- An ACK packet.  One of another block moves nothing. -/
def onAck (data : Bytes) (s : Store) (pkt : Bytes) (src : Addr) (sendFault : Option IoKind) : Turn :=
  match parseAck pkt with
  | .error e => .done (.error e) []
  | .ok acked => if acked ≠ s.block then .next s [] else acceptAck data s src sendFault

/-- The packet is from the latched peer, or from the server's address while there is none. -/
def isHeard (server : Addr) (s : Store) (src : Addr) : Bool :=
  match s.peer with
  | some p => src == p
  | none => src.ip == server.ip

/-- One turn of the loop of `store`. -/
def receive (server : Addr) (data : Bytes) (s : Store) : Event → Turn
  | .fault kind sendFault => onFault s kind sendFault
  | .datagram pkt src sendFault =>
      if !isHeard server s src then .next s []
      else
        let pkt := pkt.take bufferSize
        match parseOpcode pkt with
        | none => .done (.error (.badResponse [.str "tftp: packet too short"])) []
        | some op =>
            if op = opAck then onAck data s pkt src sendFault
            else if op = opError then
              match parseError pkt with
              | .error e => .done (.error e) []
              | .ok msg => .done (.error (.badResponse [.str "tftp: ", .display msg])) []
            else .done (.error (.badResponse [.str "tftp: unexpected opcode ", .num op.toNat])) []

/-- The variables when the request has been sent. -/
def init (server : Addr) (filename : Text) : Store where
  peer := none
  block := 0
  sentOffset := 0
  sentFinal := false
  lastPacket := buildWrq filename
  lastDest := server
  retries := 0

/-- The loop over what the socket delivers; `none` while it still waits. -/
def loop (server : Addr) (data : Bytes) : Store → List Event → Option (Result Unit)
  | _, [] => none
  | s, e :: es =>
      match receive server data s e with
      | .next s' _ => loop server data s' es
      | .done res _ => some res

end Store

/-- `store`. -/
def store (url : Url) (data : Bytes) (setup : Setup) (events : List Event) : Option (Result Unit) :=
  match filenameOf url with
  | .error e => some (.error e)
  | .ok filename =>
      if data.length > maxTotalBytes then
        some (.error (.badResponse
          [.str "tftp: upload exceeds ", .num maxTotalBytes, .str " bytes"]))
      else
        match setup.resolved, setup.bindFault, setup.timeoutFault, setup.sendFault with
        | .error e, _, _, _ => some (.error e)
        | .ok _, some kind, _, _ => some (.error (.io kind))
        | .ok _, none, some kind, _ => some (.error (.io kind))
        | .ok _, none, none, some kind => some (.error (.io kind))
        | .ok server, none, none, none => Store.loop server data (.init server filename) events

end Rsurl.Tftp
