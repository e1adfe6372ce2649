/-
# `Rsurl.Http.Send` — one request, by scheme and version

`dispatch` is `send_once`, over a `World`; what it dispatches to: `send_plain` and
`send_https` with their HTTP/1.1 pools, and the HTTP/2 and HTTP/3 senders.
-/
import Rsurl.H2.Send
import Rsurl.Http.Redirect

namespace Rsurl

open Base (Program)
open Http (Client Request Response Wire)

namespace H3

/-- `http3::send`: a client, a UDP socket to the host and port of the URL, and the exchange. -/
def send (r : Request) : Client Response :=
  if r.url.scheme ≠ "https".toList then
    throw (.unsupportedScheme [.str "http/3 requires https://, not ", .display r.url.scheme,
      .str "://"])
  else do
    let peer ← Http.nextQuic
    Program.ofExcept peer.client
    Http.emit (.udp (r.url.host, r.url.port))
    Program.ofExcept peer.answer

end H3

namespace Http

/-! ## HTTP/1.1 exchanges -/

/-- A request written and its response read, on a connection of HTTP/1.1. -/
def perform (codec : Codec) (r : Request) (absoluteForm : Bool) (w : Wire) :
    Result Response × Wire :=
  match writeRequest w.sink r absoluteForm with
  | (.error e, sink) => (.error e, { w with sink })
  | (.ok (), sink) =>
      let (res, source) := readResponse codec w.source r.method
      (res, { w with source, sink })

def exchange (codec : Codec) (r : Request) (pooled absoluteForm : Bool) (w : Wire) :
    Client (Response × Wire) := do
  emit (.handed r pooled (.h1 w absoluteForm))
  let (res, w) := perform codec r absoluteForm w
  let resp ← Program.ofExcept res
  pure (resp, w)

/-- `PooledError`. -/
inductive PooledError where
  | stale (why : Msg)
  | hard (e : Error)
deriving DecidableEq, Repr

/-- `stale_or_hard`; the text of an `io::Error` is left out. -/
def staleOrHard (e : Error) : PooledError :=
  match e with
  | .unexpectedEof => .stale [.str "connection closed by peer"]
  | .io .unexpectedEof => .stale []
  | .io .connectionReset => .stale []
  | .io .connectionAborted => .stale []
  | .io .brokenPipe => .stale []
  | .io .notConnected => .stale []
  | e => .hard e

/-- No proxy is in the way. -/
def isDirect (r : Request) : Bool := r.proxy.isNone || proxyBypassed r

/-! ## Plain -/

/-- `finalize_plain`. -/
def finalizePlain (w : Wire) (r : Request) (resp : Response) (mayPool : Bool) : Client Unit :=
  if mayPool && responseIsReusable r.method resp then
    modify fun world =>
      { world with plain := world.plain.release poolPerKeyCap poolGlobalCap (poolKeyFor r.url) w }
  else pure ()

/-- `send_plain_fresh`. -/
def sendPlainFresh (codec : Codec) (r : Request) (mayPool : Bool) : Client Response := do
  let (w, _) ← tcpConnect r
  let (resp, w) ← exchange codec r false (viaPlainHttpProxy r) w
  finalizePlain w r resp mayPool
  pure resp

/-- `perform_on_pooled_plain`, its error not yet told apart. -/
def performOnPooledPlain (codec : Codec) (w : Wire) (r : Request) : Client Response := do
  let (resp, w) ← exchange codec r true (viaPlainHttpProxy r) w
  finalizePlain w r resp true
  pure resp

/-- `send_plain`. -/
def sendPlain (codec : Codec) (r : Request) : Client Response :=
  if r.httpVersionPref = .http3Only then
    throw (.unsupportedScheme [.str "http/3 requires https://, not http://"])
  else if isDirect r then do
    match ← poolCheckoutPlain r.url with
    | none => sendPlainFresh codec r true
    | some w =>
        match ← (performOnPooledPlain codec w r).attempt with
        | .ok resp => pure resp
        | .error e =>
            match staleOrHard e with
            | .stale _ => sendPlainFresh codec r true
            | .hard e => throw e
  else sendPlainFresh codec r false

/-! ## TLS -/

/-- `finalize_tls`. -/
def finalizeTls (w : Wire) (r : Request) (resp : Response) (mayPool : Bool) : Client Unit :=
  if mayPool && tlsPoolEligible r && responseIsReusable r.method resp then
    modify fun world =>
      { world with tls := world.tls.release poolPerKeyCap poolGlobalCap (poolKeyFor r.url) w }
  else pure ()

/-- `send_https_fresh`. -/
def sendHttpsFresh (codec : Codec) (r : Request) (mayPool : Bool) : Client Response := do
  let (w, peer) ← tcpConnect r
  let w ← maybeTunnel w r.url ((activeProxy r).filter fun _ => r.url.scheme = "https".toList)
  let (w, _) ← connectOverTls w peer r false
  let (resp, w) ← exchange codec r false false w
  finalizeTls w r resp mayPool
  pure resp

/-- `perform_on_pooled_tls`, its error not yet told apart. -/
def performOnPooledTls (codec : Codec) (w : Wire) (r : Request) : Client Response := do
  let (resp, w) ← exchange codec r true false w
  finalizeTls w r resp true
  pure resp

/-- The prefixes by which `h3_should_fall_back` knows a transport failure. -/
def h3TransportFailures : List Text :=
  ["http3: connection closed".toList, "http3: peer closed".toList, "http3: build client".toList,
    "http3: open_bidi".toList, "http3: open_uni".toList, "http3: feed".toList,
    "http3: stream read".toList, "http3: stream write".toList, "http3: stream finish".toList]

/-- The literal text a message starts with. -/
def leadingText : Msg → Text
  | .str s :: m => s.toList ++ leadingText m
  | .display t :: m => t ++ leadingText m
  | _ => []

/-- `h3_should_fall_back`. -/
def h3ShouldFallBack (e : Error) : Bool :=
  match e with
  | .io _ => true
  | .unsupportedScheme _ => true
  | .invalidUrl _ => true
  | .badResponse m => h3TransportFailures.any fun p => p.isPrefixOf (leadingText m)
  | _ => false

/-- The HTTP/1.1 path of `send_https`. -/
def sendHttps11 (codec : Codec) (r : Request) : Client Response :=
  if isDirect r then do
    match ← poolCheckoutTls r with
    | none => sendHttpsFresh codec r true
    | some w =>
        match ← (performOnPooledTls codec w r).attempt with
        | .ok resp => pure resp
        | .error e =>
            match staleOrHard e with
            | .stale _ => sendHttpsFresh codec r true
            | .hard e => throw e
  else sendHttpsFresh codec r false

/-- HTTP/2 first, HTTP/1.1 if the server does not select it. -/
def sendAuto (codec : Codec) (r : Request) : Client Response := do
  match ← (H2.send codec r).attempt with
  | .ok resp => pure resp
  | .error .h2NotNegotiated => sendHttps11 codec r
  | .error e => throw e

/-- `send_https`. -/
def sendHttps (codec : Codec) (r : Request) : Client Response :=
  match r.httpVersionPref with
  | .http3Only => H3.send r
  | .http3 => do
      match ← (H3.send r).attempt with
      | .ok resp => pure resp
      | .error e => if h3ShouldFallBack e then sendAuto codec r else throw e
  | .http2Only => H2.send codec r
  | .auto => sendAuto codec r
  | .http11Only => sendHttps11 codec r

/-! ## Both -/

/-- `send_once` over a `World`. -/
def dispatch (codec : Codec) (r : Request) : Client Response :=
  match routeOf r.url with
  | some .plain => sendPlain codec r
  | some .https => sendHttps codec r
  | none => throw (.unsupportedScheme (.ofText r.url.scheme))

section

variable {J : Type} {env : Env World J} {codec : Codec}

/-- The transports a redirect chain calls are these, and its clock can only be read. -/
structure Hands (codec : Codec) (env : Env World J) : Prop where
  plain : ∀ r w, env.sendPlain r w = (sendPlain codec r).exec w
  https : ∀ r w, env.sendHttps r w = (sendHttps codec r).exec w
  clock : ∀ w, (env.now w).2 = w

theorem Hands.sendOnce_eq (h : Hands codec env) (r : Request) (w : World) :
    sendOnce env r w = (dispatch codec r).exec w := by
  unfold sendOnce dispatch
  cases routeOf r.url with
  | none => rfl
  | some route =>
      cases route with
      | plain => exact h.plain r w
      | https => exact h.https r w

end

end Http
end Rsurl
