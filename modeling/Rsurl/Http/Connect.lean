/-
# `Rsurl.Http.Connect` — the connections a client opens

`World` is what a client acts on: who answers its next connects, the process-wide
pools of idle connections, and the log of what it did.  A connection knows how it
came about (`Link`): the host and port its socket went to, the target of the
tunnel it asked for, and what it was verified against.  No function of the client
reads a link.  The TLS and QUIC implementations are crates of their own; what they
make of a connection is said by the peer that answers.
-/
import Rsurl.Base.Pool
import Rsurl.Base.Program
import Rsurl.H2.Driver
import Rsurl.Http.Read
import Rsurl.Http.Write

namespace Rsurl.Http

open Base (Pool Program)

/-! ## Connections -/

/-- A host and a port. -/
abbrev Dest := Text × UInt16

/-- What the certificates of a TLS connection are checked against, if they are. -/
structure Posture where
  serverName : Text
  verify : Bool
  caBundle : Option Text
deriving DecidableEq, Repr

/-- How a connection came about. -/
structure Link where
  peer : Dest
  tunnel : Option Dest
  posture : Option Posture
deriving DecidableEq, Repr

/-- An open connection. -/
structure Wire where
  link : Link
  source : Source
  sink : Sink
deriving DecidableEq, Repr

/-- An HTTP/2 connection. -/
structure H2Wire where
  link : Link
  conn : H2.Connection

/-- What answers a TCP connect: the connection or the error, and what a TLS handshake with
these options and, if asked, the ALPN `h2`, makes of it.  The last component is whether `h2`
was selected. -/
structure Peer where
  tcp : Result (Source × Sink)
  tls : Posture → Bool → Result (Source × Sink × Bool)

/-- What answers on QUIC: whether a client can be built, and what comes of the exchange. -/
structure QuicPeer where
  client : Result Unit
  answer : Result Response

/-- `PoolKey` and `pool::Key`. -/
structure PoolKey where
  scheme : Text
  host : Text
  port : UInt16
deriving DecidableEq, Repr

/-- `pool_key_for` and `PoolKey::from_request`. -/
def poolKeyFor (u : Url) : PoolKey := ⟨u.scheme, u.host, u.port⟩

/-- What a request is sent on. -/
inductive Exchange where
  | h1 (wire : Wire) (absoluteForm : Bool)
  | h2 (wire : H2Wire)
  | batch (wire : H2Wire) (reqs : List Request)

/-- The connection of an exchange. -/
def Exchange.link : Exchange → Link
  | .h1 wire _ => wire.link
  | .h2 wire => wire.link
  | .batch wire _ => wire.link

/-- What a client does: open a connection, ask for a tunnel, send a request. -/
inductive Event where
  | connect (dest : Dest)
  | udp (dest : Dest)
  | tunnel (link : Link) (target : Dest)
  | handed (req : Request) (pooled : Bool) (exchange : Exchange)

structure World where
  net : List Peer
  quic : List QuicPeer
  plain : Pool PoolKey Wire
  tls : Pool PoolKey Wire
  h2 : Pool PoolKey H2Wire
  log : List Event

/-- A function of the client. -/
abbrev Client := Program World Error

def emit (e : Event) : Client Unit := modify fun w => { w with log := w.log ++ [e] }

/-- Who answers the next connect; nobody, when there is none left. -/
def nextPeer : Client Peer := fun w =>
  match w.net with
  | [] => (.error (.io .other), w)
  | peer :: net => (.ok peer, { w with net })

def nextQuic : Client QuicPeer := fun w =>
  match w.quic with
  | [] => (.error (.io .other), w)
  | peer :: quic => (.ok peer, { w with quic })

/-! ## Dialling -/

/-- The proxy a request goes through. -/
def activeProxy (r : Request) : Option ProxyConfig := r.proxy.filter fun _ => !proxyBypassed r

/-- `tcp_connect`. -/
def tcpConnect (r : Request) : Client (Wire × Peer) := do
  let dest : Dest := match activeProxy r with
    | some p => (p.host, p.port)
    | none => (r.url.host, r.url.port)
  emit (.connect dest)
  let peer ← nextPeer
  let (source, sink) ← Program.ofExcept peer.tcp
  pure (⟨⟨dest, none, none⟩, source, sink⟩, peer)

/-- The head of a CONNECT. -/
def connectHead (target : Url) (proxy : ProxyConfig) : Text :=
  let hostPort := target.host ++ ':' :: decimal target.port.toNat
  "CONNECT ".toList ++ hostPort ++ " HTTP/1.1".toList ++ crlf ++
    headerLine ("Host".toList, hostPort) ++ crlf ++
    headerLine ("User-Agent".toList, "rsurl/0.0.4".toList) ++ crlf ++
    headerLine ("Proxy-Connection".toList, "Keep-Alive".toList) ++ crlf ++
    (match proxy.auth with
      | some (user, pass) =>
          headerLine ("Proxy-Authorization".toList,
            basicToken (base64Encode (user ++ ':' :: pass : Text).utf8)) ++ crlf
      | none => []) ++
    crlf

/-- A line of the answer without its LF and one CR. -/
def connectLine (line : Bytes) : Text :=
  let noLf := if line.getLast? = some 10 then line.dropLast else line
  fromUtf8Lossy (if noLf.getLast? = some 13 then noLf.dropLast else noLf)

/-- The loop of `connect_tunnel`, byte by byte up to an empty line: the status line. -/
def readConnect : Nat → Source → Nat → Bytes → Option Text → Result Text × Source
  | 0, s, _, _, _ => (.error .unexpectedEof, s)
  | fuel + 1, s, total, line, status =>
      if maxHeaderBytes < total then
        (.error (.badResponse [.str "CONNECT response headers exceed 64 KiB"]), s)
      else
        match s.bytes with
        | [] =>
            match s.tail with
            | some kind => (.error (.io kind), s)
            | none => (.error .unexpectedEof, s)
        | b :: bytes =>
            if b = 10 then
              let trimmed := connectLine (line ++ [b])
              let first := status.getD trimmed
              if trimmed = [] then (.ok first, { s with bytes })
              else readConnect fuel { s with bytes } (total + 1) [] (some first)
            else readConnect fuel { s with bytes } (total + 1) (line ++ [b]) status

/-- The status of the answer: 2xx, or an error. -/
def connectStatus (target : Url) (status : Text) : Result Unit :=
  match status.splitOnce ' ' with
  | none => .error (.badResponse [.str "CONNECT: malformed status line ", .debug status])
  | some (_, rest) =>
      let code := ((rest.splitOnce ' ').getD (rest, [])).1
      match parseU16 code with
      | none => .error (.badResponse [.str "CONNECT: bad status ", .debug code])
      | some n =>
          if 200 ≤ n ∧ n < 300 then .ok ()
          else .error (.badResponse [.str "CONNECT to ", .display target.host, .str ":",
            .num target.port.toNat, .str " failed: ", .display status])

/-- `connect_tunnel` on the two halves of a stream: what it comes to, and what is left of them. -/
def connectStream (source : Source) (sink : Sink) (target : Url) (proxy : ProxyConfig) :
    Result Unit × Source × Sink :=
  match Sink.andThen (sink.writeAll (connectHead target proxy).utf8) Sink.flush with
  | (.error e, sink) => (.error e, source, sink)
  | (.ok (), sink) =>
      match readConnect (source.bytes.length + 1) source 0 [] none with
      | (.error e, source) => (.error e, source, sink)
      | (.ok status, source) => (connectStatus target status, source, sink)

/-- The stream is handed on if a tunnel came of it. -/
def tunnelThrough (source : Source) (sink : Sink) (target : Url) (proxy : ProxyConfig) :
    Result (Source × Sink) :=
  let (outcome, stream) := connectStream source sink target proxy
  outcome.map fun _ => stream

/-- `connect_tunnel`. -/
def connectTunnel (w : Wire) (target : Url) (proxy : ProxyConfig) : Client Wire := do
  emit (.tunnel w.link (target.host, target.port))
  let (source, sink) ← Program.ofExcept (tunnelThrough w.source w.sink target proxy)
  pure ⟨{ w.link with tunnel := some (target.host, target.port) }, source, sink⟩

/-- `connect_tunnel` where there is a proxy to ask. -/
def maybeTunnel (w : Wire) (target : Url) : Option ProxyConfig → Client Wire
  | some proxy => connectTunnel w target proxy
  | none => pure w

/-- `tls_opts_from` and `connect_over_tls`; `h2` is whether ALPN offers it. -/
def connectOverTls (w : Wire) (peer : Peer) (r : Request) (h2 : Bool) : Client (Wire × Bool) := do
  let posture : Posture := ⟨r.url.host, r.verifyTls, r.caBundle⟩
  let (source, sink, selected) ← Program.ofExcept (peer.tls posture h2)
  pure (⟨{ w.link with posture := some posture }, source, sink⟩, selected)

/-! ## Pools -/

/-- `POOL_PER_KEY_CAP`. -/
def poolPerKeyCap : Nat := 4

/-- `POOL_GLOBAL_CAP`. -/
def poolGlobalCap : Nat := 32

/-- `pool_checkout_plain`. -/
def poolCheckoutPlain (u : Url) : Client (Option Wire) := fun w =>
  (.ok (w.plain.checkout (poolKeyFor u)).1, { w with plain := (w.plain.checkout (poolKeyFor u)).2 })

/-- `pool_checkout_tls`. -/
def poolCheckoutTls (r : Request) : Client (Option Wire) := fun w =>
  if tlsPoolEligible r then
    (.ok (w.tls.checkout (poolKeyFor r.url)).1,
      { w with tls := (w.tls.checkout (poolKeyFor r.url)).2 })
  else (.ok none, w)

/-- `guard.checkout(&key)` on the HTTP/2 pool. -/
def poolCheckoutH2 (r : Request) : Client (Option H2Wire) := fun w =>
  (.ok (w.h2.checkout (poolKeyFor r.url)).1, { w with h2 := (w.h2.checkout (poolKeyFor r.url)).2 })

/-- `guard.release(key, conn)` on the HTTP/2 pool. -/
def poolReleaseH2 (r : Request) (c : H2Wire) : Client Unit :=
  modify fun w =>
    { w with h2 := w.h2.release poolPerKeyCap poolGlobalCap (poolKeyFor r.url) c }

end Rsurl.Http
