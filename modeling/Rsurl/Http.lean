/-
# `Rsurl.Http` — requests and responses

The `Request` builder and the `Response` record of `src/http.rs`, with the
predicates on a request that several backends share: proxy bypass, effective
Basic credentials, TLS pool eligibility.
-/
import Rsurl.Url.Resolve

namespace Rsurl

/-! ## Base64 -/

def base64Alphabet : Text :=
  "ABCDEFGHIJKLMNOPQRSTUVWXYZabcdefghijklmnopqrstuvwxyz0123456789+/".toList

/-- `ALPHABET[i] as char`; every index the encoder makes is below 64. -/
def base64Char (i : UInt8) : Char := base64Alphabet.getD i.toNat '='

/-- `websocket::base64_encode`. -/
def base64Encode : Bytes → Text
  | b0 :: b1 :: b2 :: rest =>
      base64Char (b0 >>> 2) :: base64Char (((b0 &&& 0x03) <<< 4) ||| (b1 >>> 4)) ::
        base64Char (((b1 &&& 0x0F) <<< 2) ||| (b2 >>> 6)) :: base64Char (b2 &&& 0x3F) ::
        base64Encode rest
  | [b0, b1] =>
      [base64Char (b0 >>> 2), base64Char (((b0 &&& 0x03) <<< 4) ||| (b1 >>> 4)),
        base64Char ((b1 &&& 0x0F) <<< 2), '=']
  | [b0] => [base64Char (b0 >>> 2), base64Char ((b0 &&& 0x03) <<< 4), '=', '=']
  | [] => []

namespace Http

/-! ## Requests -/

abbrev Header := Text × Text

/-- `HttpVersionPref`. -/
inductive HttpVersionPref where
  | auto
  | http11Only
  | http2Only
  | http3
  | http3Only
deriving DecidableEq, Repr

/-- `ProxyConfig`. -/
structure ProxyConfig where
  host : Text
  port : UInt16
  auth : Option (Text × Text)
deriving DecidableEq, Repr

/-- `Request`.  A duration is a number of nanoseconds. -/
structure Request where
  method : Text
  url : Url
  headers : List Header
  body : Bytes
  connectTimeout : Option Nat
  readTimeout : Option Nat
  httpVersionPref : HttpVersionPref
  followRedirects : Bool
  maxRedirs : Nat
  basicAuth : Option (Text × Text)
  verifyTls : Bool
  caBundle : Option Text
  maxTime : Option Nat
  proxy : Option ProxyConfig
  noProxy : List Text
deriving DecidableEq, Repr

/-- `user[:pass]`. -/
def splitCredentials (info : Text) : Text × Text :=
  match Text.splitOnce ':' info with
  | some (user, pass) => (user, pass)
  | none => (info, [])

/-- `ProxyConfig::parse`. -/
def ProxyConfig.parse (s : Text) : Result ProxyConfig := do
  let normalised := match Text.splitOnceStr "://".toList s with
    | some _ => s
    | none => "http://".toList ++ s
  let u ← Url.parse normalised
  if u.scheme ≠ "http".toList then
    .error (.unsupportedScheme [.str "proxy scheme ", .debug u.scheme,
      .str " not supported (only http:// at this milestone)"])
  else
    .ok { host := u.host, port := u.port, auth := u.userinfo.map splitCredentials }

namespace Request

def new (method url : Text) : Result Request := do
  let url ← Url.parse url
  .ok {
    method := method.toAsciiUppercase, url, headers := [], body := [],
    connectTimeout := some 30_000_000_000, readTimeout := some 60_000_000_000,
    httpVersionPref := .auto, followRedirects := false, maxRedirs := 50,
    basicAuth := none, verifyTls := true, caBundle := none, maxTime := none,
    proxy := none, noProxy := [] }

def header (r : Request) (name value : Text) : Request :=
  { r with headers := r.headers ++ [(name, value)] }

def withProxy (r : Request) (spec : Text) : Result Request := do
  let p ← ProxyConfig.parse spec
  .ok { r with proxy := some p }

def proxyUser (r : Request) (user pass : Text) : Result Request :=
  match r.proxy with
  | some p => .ok { r with proxy := some { p with auth := some (user, pass) } }
  | none => .error (.badResponse [.str "proxy_user called without a proxy set"])

/-- The requests the public builder makes; `maxRedirs` is a `u32`. -/
inductive Built : Request → Prop where
  | new {method url : Text} {r : Request} (h : Request.new method url = .ok r) : Built r
  | header {r : Request} (h : Built r) (name value : Text) : Built (r.header name value)
  | body {r : Request} (h : Built r) (body : Bytes) : Built { r with body }
  | httpVersion {r : Request} (h : Built r) (pref : HttpVersionPref) :
      Built { r with httpVersionPref := pref }
  | followRedirects {r : Request} (h : Built r) (on : Bool) :
      Built { r with followRedirects := on }
  | maxRedirs {r : Request} (h : Built r) (n : Nat) (hn : n < 2 ^ 32) :
      Built { r with maxRedirs := n }
  | basicAuth {r : Request} (h : Built r) (user pass : Text) :
      Built { r with basicAuth := some (user, pass) }
  | verifyTls {r : Request} (h : Built r) (on : Bool) : Built { r with verifyTls := on }
  | caBundle {r : Request} (h : Built r) (path : Text) :
      Built { r with caBundle := some path }
  | maxTime {r : Request} (h : Built r) (d : Nat) : Built { r with maxTime := some d }
  | connectTimeout {r : Request} (h : Built r) (d : Nat) :
      Built { r with connectTimeout := some d }
  | proxy {r r' : Request} {spec : Text} (h : Built r) (hp : r.withProxy spec = .ok r') :
      Built r'
  | proxyUser {r r' : Request} {user pass : Text} (h : Built r)
      (hp : r.proxyUser user pass = .ok r') : Built r'
  | noProxy {r : Request} (h : Built r) (entries : List Text) :
      Built { r with noProxy := entries }

/-- The URL of a built request was parsed. -/
theorem Built.url_parsed {r : Request} (h : Built r) : ∃ s, Url.parse s = .ok r.url := by
  induction h with
  | new h =>
      obtain ⟨u, hu, hr⟩ := Result.bind_eq_ok.mp h
      cases hr
      exact ⟨_, hu⟩
  | proxy _ hp ih =>
      obtain ⟨p, -, hr⟩ := Result.bind_eq_ok.mp hp
      cases hr
      exact ih
  | proxyUser _ hp ih =>
      simp only [Request.proxyUser] at hp
      split at hp
      · cases hp
        exact ih
      · cases hp
  | header _ _ _ ih => exact ih
  | body _ _ ih => exact ih
  | httpVersion _ _ ih => exact ih
  | followRedirects _ _ ih => exact ih
  | maxRedirs _ _ _ ih => exact ih
  | basicAuth _ _ _ ih => exact ih
  | verifyTls _ _ ih => exact ih
  | caBundle _ _ ih => exact ih
  | maxTime _ _ ih => exact ih
  | connectTimeout _ _ ih => exact ih
  | noProxy _ _ ih => exact ih

end Request

/-! ## Responses -/

/-- `Response`. -/
structure Response where
  status : UInt16
  reason : Text
  version : Text
  headers : List Header
  body : Bytes
deriving DecidableEq, Repr

/-- The first header of a name, as `Response::header` finds it. -/
def findHeader (headers : List Header) (name : Text) : Option Text :=
  (headers.find? fun (k, _) => k.eqIgnoreAsciiCase name).map Prod.snd

/-- `headers.iter().any(|(k, _)| k.eq_ignore_ascii_case(name))`. -/
def hasHeader (headers : List Header) (name : Text) : Bool :=
  headers.any fun (k, _) => k.eqIgnoreAsciiCase name

/-! ## What a request says about its connection -/

/-- `tls_pool_eligible`. -/
def tlsPoolEligible (r : Request) : Bool := r.verifyTls && r.caBundle.isNone

/-- `proxy_bypassed`. -/
def proxyBypassed (r : Request) : Bool :=
  r.noProxy.any (fun e => e.trim == ['*']) ||
    r.noProxy.any fun e =>
      let h := r.url.host.toAsciiLowercase
      let e := Text.toAsciiLowercase (e.trim.dropWhile (· == '.'))
      !e.isEmpty && (h == e || ('.' :: e).isSuffixOf h)

/-- `via_plain_http_proxy`. -/
def viaPlainHttpProxy (r : Request) : Bool :=
  r.url.scheme == "http".toList && r.proxy.isSome && !proxyBypassed r

/-- `effective_basic_auth`: the explicit pair, else the URL's userinfo. -/
def effectiveBasicAuth (r : Request) : Option Text :=
  match r.basicAuth.orElse fun _ => r.url.userinfo.map splitCredentials with
  | none => none
  | some (user, pass) =>
      if user = [] ∧ pass = [] then none
      else some (base64Encode (user ++ ':' :: pass : Text).utf8)

end Http
end Rsurl
