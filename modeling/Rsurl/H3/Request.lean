/-
# `Rsurl.H3.Request` — the field list of an HTTP/3 request

What `http3::write_request` hands to its QPACK encoder: four pseudo-headers,
the caller's headers in lower case, and three defaults.
-/
import Rsurl.Http

namespace Rsurl.H3

open Http (Header Request)

/-- A caller's header, its name in lower case, that does not go on the wire. -/
def isSkipped (name : Text) : Bool :=
  name.head? == some ':' || name ∈ ["host".toList, "connection".toList,
    "transfer-encoding".toList, "upgrade".toList, "keep-alive".toList, "proxy-connection".toList]

/-- The caller's headers that go on the wire. -/
def callerFields (req : Request) : List Header :=
  (req.headers.filter fun (k, _) => !isSkipped k.toAsciiLowercase).map
    fun (k, v) => (k.toAsciiLowercase, v)

/-- The pseudo-headers; the scheme is `https` whatever the URL says. -/
def pseudoFields (req : Request) : List Header :=
  let hostPort :=
    if req.url.port = 443 then req.url.host
    else req.url.host ++ ':' :: decimal req.url.port.toNat
  [(":method".toList, req.method), (":scheme".toList, "https".toList),
    (":authority".toList, hostPort), (":path".toList, req.url.path)]

/-- A field that is added unless the caller set it. -/
def fieldUnlessSet (fields : List Header) (name value : String) : List Header :=
  if fields.any fun (k, _) => k == name.toList then [] else [(name.toList, value.toList)]

/-- The fields behind the pseudo-headers. -/
def regularFields (req : Request) : List Header :=
  let fields := callerFields req
  fields ++
  fieldUnlessSet fields "user-agent" "rsurl/0.0.4" ++
  fieldUnlessSet fields "accept-encoding" "gzip, deflate" ++
  if req.body.isEmpty then [] else [("content-length".toList, decimal req.body.length)]

/-- `fields` in `write_request`. -/
def requestFields (req : Request) : List Header := pseudoFields req ++ regularFields req

end Rsurl.H3
