/-
# `Rsurl.H2.Send` — requests over pooled or fresh HTTP/2 connections

`dial_h2`, `send` and `send_multiplexed`.
-/
import Rsurl.Http.Connect

namespace Rsurl.H2

open Base (Program)
open Http (Client Request Response H2Wire)

/-- `dial_h2`. -/
def dialH2 (r : Request) : Client H2Wire := do
  let (wire, peer) ← Http.tcpConnect r
  let wire ← Http.maybeTunnel wire r.url (Http.activeProxy r)
  let (wire, negotiatedH2) ← Http.connectOverTls wire peer r true
  if negotiatedH2 then
    let conn ← Program.ofExcept (Connection.new ⟨wire.source, wire.sink, []⟩)
    pure ⟨wire.link, conn⟩
  else throw .h2NotNegotiated

/-- `pool_eligible`. -/
def poolEligible (r : Request) : Bool := r.verifyTls && r.caBundle.isNone

/-- One request on a connection: the outcome and the connection after it. -/
def exchange (codec : Codec) (r : Request) (pooled : Bool) (c : H2Wire) :
    Client (Result Response × H2Wire) := do
  Http.emit (.handed r pooled (.h2 c))
  let (res, conn) := runOneRequest codec c.conn r
  pure (res, { c with conn })

/-- Park a connection that may be parked and is still usable. -/
def repool (r : Request) (mayPool : Bool) (c : H2Wire) : Client Unit :=
  if mayPool && c.conn.isUsable then Http.poolReleaseH2 r c else pure ()

/-- The pool path of `send`: no response when there is no usable connection, or the request
failed on it. -/
def sendPooled (codec : Codec) (r : Request) : Client (Option Response) := do
  match ← Http.poolCheckoutH2 r with
  | none => pure none
  | some c =>
      if c.conn.isUsable then
        let (res, c) ← exchange codec r true c
        match res with
        | .error _ => pure none
        | .ok resp =>
            repool r true c
            pure (some resp)
      else pure none

/-- The cold-dial path of `send`. -/
def sendFresh (codec : Codec) (r : Request) : Client Response := do
  let fresh ← dialH2 r
  let (res, c) ← exchange codec r false fresh
  let resp ← Program.ofExcept res
  repool r (poolEligible r) c
  pure resp

/-- `send`. -/
def send (codec : Codec) (r : Request) : Client Response :=
  if r.url.scheme ≠ "https".toList then
    throw (.unsupportedScheme [.str "http/2 over ", .display r.url.scheme, .str " not supported"])
  else if poolEligible r then do
    match ← sendPooled codec r with
    | some resp => pure resp
    | none => sendFresh codec r
  else sendFresh codec r

/-- `send` for each request of a batch, whatever becomes of the others. -/
def sendEach (codec : Codec) : List Request → Client (List (Result Response))
  | [] => pure []
  | r :: reqs => do
      let res ← (send codec r).attempt
      let results ← sendEach codec reqs
      pure (res :: results)

/-- `run_multiplexed` on a connection, which is parked again if every request succeeded. -/
def runBatch (codec : Codec) (first : Request) (reqs : List Request) (pooled : Bool) (c : H2Wire) :
    Client (List (Result Response)) := do
  reqs.forM fun r => Http.emit (.handed r pooled (.batch c reqs))
  let (results, conn) := runMultiplexed codec c.conn reqs
  repool first (results.all Except.isOk) { c with conn }
  pure results

/-- The batch has one `https` origin and default TLS options throughout. -/
def isMultiplexable (first : Request) (reqs : List Request) : Bool :=
  first.url.scheme == "https".toList &&
    reqs.all (fun r => r.url.scheme == first.url.scheme && r.url.host == first.url.host &&
      r.url.port == first.url.port) &&
    reqs.all poolEligible

/-- The batch on one connection, pooled or fresh; request by request if none can be opened. -/
def multiplex (codec : Codec) (first : Request) (reqs : List Request) :
    Client (List (Result Response)) := do
  let pooled ← Http.poolCheckoutH2 first
  match pooled.filter (·.conn.isUsable) with
  | some c => runBatch codec first reqs true c
  | none =>
      match ← (dialH2 first).attempt with
      | .error _ => sendEach codec reqs
      | .ok fresh => runBatch codec first reqs false fresh

/-- `send_multiplexed`. -/
def sendMultiplexed (codec : Codec) (reqs : List Request) : Client (List (Result Response)) :=
  match reqs with
  | [] => pure []
  | first :: _ =>
      if isMultiplexable first reqs then multiplex codec first reqs else sendEach codec reqs

end Rsurl.H2
