/-
# `Rsurl.Cookie` — the cookie jar

`src/cookie.rs`: reading a `Set-Cookie` header, the jar and its updates, the
choice of cookies for a request, and the Netscape `cookies.txt` format.  The
clock is an argument wherever the source reads it.  A file is its bytes, or
why it could not be opened.
-/
import Rsurl.Cookie.Date
import Rsurl.Url

namespace Rsurl.Cookies

/-- `crate::cookie::Cookie`. -/
@[ext]
structure Cookie where
  name : Text
  value : Text
  domain : Text
  path : Text
  /-- Seconds since 1970; `none` is a session cookie. -/
  expires : Option Nat
  secure : Bool
  httpOnly : Bool
  /-- Matches only the exact host. -/
  hostOnly : Bool
deriving DecidableEq, Repr

structure CookieJar where
  cookies : List Cookie
deriving DecidableEq, Repr

/-! ## Tests on text -/

/-- `is_ascii_control() || b == 0x7f` of some byte. -/
def hasForbiddenCookieChar (s : Text) : Bool := s.any fun c => c.toNat < 0x20 || c.toNat == 0x7F

def hasJarSeparator (s : Text) : Bool := s.any fun c => c == '\t' || c == '\r' || c == '\n'

def isScopableCookieDomain (domain : Text) : Bool :=
  let d := domain.trimMatches '.'
  !d.isEmpty && d.contains '.'

def isIpLiteral (host : Text) : Bool :=
  if host.head? = some '[' || host.contains ':' then true
  else (host.split '.').all (fun part => (parseU8 part).isSome) && (host.split '.').length == 4

/-! ## Matching a request -/

def domainMatch (requestHost cookieDomain : Text) (hostOnly : Bool) : Bool :=
  let rh := requestHost.toAsciiLowercase
  let cd := cookieDomain.toAsciiLowercase
  if hostOnly then rh == cd
  else if rh = cd then true
  else ('.' :: cd).isSuffixOf rh

def pathMatch (requestPath cookiePath : Text) : Bool :=
  if requestPath = cookiePath then true
  else
    match Text.stripPrefix cookiePath requestPath with
    | some rest => if cookiePath.getLast? = some '/' then true else rest.head? = some '/'
    | none => false

/-- `exp <= now`. -/
def Cookie.expired (c : Cookie) (now : Nat) : Bool :=
  match c.expires with
  | some exp => exp ≤ now
  | none => false

def matchesRequest (c : Cookie) (url : Url) (now : Nat) : Bool :=
  if c.expired now then false
  else if c.secure && !url.isTls then false
  else if !domainMatch url.host c.domain c.hostOnly then false
  else if !pathMatch url.path c.path then false
  else true

/-! ## `Set-Cookie` -/

def defaultPath (uriPath : Text) : Text :=
  if uriPath = [] ∨ uriPath.head? ≠ some '/' then ['/']
  else
    match Text.rsplitOnce '/' uriPath with
    | some ([], _) => ['/']
    | some (dir, _) => dir
    | none => ['/']

/-- What the attributes of a `Set-Cookie` set. -/
structure Attrs where
  domain : Text
  hostOnly : Bool
  path : Text
  expires : Option Nat
  maxAge : Option Int
  secure : Bool
  httpOnly : Bool

/-- `v.strip_prefix('.').unwrap_or(v)`. -/
def stripDot : Text → Text
  | '.' :: t => t
  | t => t

/-- The `domain` arm; `none` refuses the cookie. -/
def Attrs.setDomain (requestHost : Text) (a : Attrs) (v : Text) : Option Attrs :=
  let v := (stripDot v).toAsciiLowercase
  if v = [] then some a
  -- an address takes no `Domain`, not even itself
  else if isIpLiteral requestHost then some a
  else if !isScopableCookieDomain v then none
  else if !domainMatch requestHost v false then none
  else some { a with domain := v, hostOnly := false }

/-- `attr.split_once('=')`, both sides trimmed. -/
def splitAttr (attr : Text) : Text × Option Text :=
  match Text.splitOnce '=' attr with
  | some (k, v) => (k.trim, some v.trim)
  | none => (attr, none)

/-- One turn of the attribute loop. -/
def Attrs.apply (requestHost : Text) (a : Attrs) (attr : Text) : Option Attrs :=
  let attr := attr.trim
  if attr = [] then some a
  else
    let (k, v) := splitAttr attr
    if k.eqIgnoreAsciiCase "domain".toList then
      match v with
      | some v => a.setDomain requestHost v
      | none => some a
    else if k.eqIgnoreAsciiCase "path".toList then
      match v with
      | some v => some (if v.head? = some '/' then { a with path := v } else a)
      | none => some a
    else if k.eqIgnoreAsciiCase "expires".toList then
      match v with
      | some v => some { a with expires := parseHttpDate v }
      | none => some a
    else if k.eqIgnoreAsciiCase "max-age".toList then
      match v with
      | some v => some { a with maxAge := (parseI64 v).or a.maxAge }
      | none => some a
    else if k.eqIgnoreAsciiCase "secure".toList then some { a with secure := true }
    else if k.eqIgnoreAsciiCase "httponly".toList then some { a with httpOnly := true }
    else some a

/-- The defaults before the first attribute. -/
def Attrs.init (url : Url) : Attrs where
  domain := url.host.toAsciiLowercase
  hostOnly := true
  path := defaultPath url.path
  expires := none
  maxAge := none
  secure := false
  httpOnly := false

/-- `Max-Age` over `Expires`; the sum saturates. -/
def Attrs.expiry (a : Attrs) (now : Nat) : Option Nat :=
  match a.maxAge with
  | some ma => if ma ≤ 0 then some 0 else some (min (now + ma.toNat) (2 ^ 64 - 1))
  | none => a.expires

/-- `name=value`, both sides trimmed, when the cookie may have them. -/
def parseNameValue (nv : Text) : Option (Text × Text) := do
  let (name, value) ← Text.splitOnce '=' nv.trim
  let name := name.trim
  let value := value.trim
  if name = [] then none
  else if hasForbiddenCookieChar name || hasForbiddenCookieChar value then none
  else some (name, value)

def parseSetCookie (line : Text) (url : Url) (now : Nat) : Option Cookie :=
  match line.split ';' with
  | [] => none
  | nv :: parts => do
      let (name, value) ← parseNameValue nv
      let a ← parts.foldlM (Attrs.apply url.host.toAsciiLowercase) (Attrs.init url)
      some {
        name, value
        domain := a.domain
        path := a.path
        expires := a.expiry now
        secure := a.secure
        httpOnly := a.httpOnly
        hostOnly := a.hostOnly }

/-! ## The jar -/

namespace CookieJar

def new : CookieJar := ⟨[]⟩

def removeMatching (jar : CookieJar) (c : Cookie) : CookieJar where
  cookies := jar.cookies.filter fun x =>
    !(x.name == c.name && x.domain.eqIgnoreAsciiCase c.domain && x.path == c.path)

/-- `self.cookies.push`. -/
def push (jar : CookieJar) (c : Cookie) : CookieJar := ⟨jar.cookies ++ [c]⟩

def addSetCookie (jar : CookieJar) (url : Url) (line : Text) (now : Nat) : CookieJar :=
  match parseSetCookie line url now with
  | none => jar
  | some parsed =>
      if parsed.expired now then jar.removeMatching parsed
      else (jar.removeMatching parsed).push parsed

/-- `ingest_response`: every `Set-Cookie` of a response in order. -/
def ingestResponse (jar : CookieJar) (url : Url) (headers : List (Text × Text)) (now : Nat) :
    CookieJar :=
  headers.foldl (fun jar (k, v) =>
    if k.eqIgnoreAsciiCase "set-cookie".toList then jar.addSetCookie url v now else jar) jar

def purgeExpired (jar : CookieJar) (now : Nat) : CookieJar :=
  ⟨jar.cookies.filter fun c => !c.expired now⟩

def explicitCookie (name value : Text) (url : Url) : Cookie where
  name := name
  value := value
  domain := url.host.toAsciiLowercase
  path := ['/']
  expires := none
  secure := false
  httpOnly := false
  hostOnly := true

def addExplicit (jar : CookieJar) (name value : Text) (url : Url) : CookieJar :=
  (jar.removeMatching (explicitCookie name value url)).push (explicitCookie name value url)

/-- The cookies a request carries, longest path first. -/
def sent (jar : CookieJar) (url : Url) (now : Nat) : List Cookie :=
  ((jar.cookies.filter fun c => matchesRequest c url now).filter fun c =>
    !hasForbiddenCookieChar c.name && !hasForbiddenCookieChar c.value).mergeSort
    fun c d => d.path.len ≤ c.path.len

def cookieHeader (jar : CookieJar) (url : Url) (now : Nat) : Option Text :=
  match jar.sent url now with
  | [] => none
  | cs => some ("; ".toList.intercalate (cs.map fun c => c.name ++ '=' :: c.value))

end CookieJar

/-! ## `cookies.txt` -/

inductive LineOutcome where
  | cookie (c : Cookie)
  | skip
  | malformed
deriving DecidableEq, Repr

/-- The seven fields of a record. -/
def parseRecord (httpOnly : Bool) : List Text → LineOutcome
  | [domain, dflag, path, sflag, expires, name, value] =>
      if domain = [] then .malformed
      else
        match parseI64 expires with
        | none => .malformed
        | some exp =>
            if name = [] then .malformed
            else if hasForbiddenCookieChar name || hasForbiddenCookieChar value then .skip
            else
              let hostOnly := !dflag.eqIgnoreAsciiCase "TRUE".toList
              let domain := domain.trimStartMatches '.'
              if !hostOnly && !isScopableCookieDomain domain then .skip
              else .cookie {
                name, value, domain, path
                expires := if exp ≤ 0 then none else some exp.toNat
                secure := sflag.eqIgnoreAsciiCase "TRUE".toList
                httpOnly, hostOnly }
  | _ => .malformed

/-- The prefix of a record whose cookie is `HttpOnly`. -/
def httpOnlyMark : Text := "#HttpOnly_".toList

def parseNetscapeLine (line : Text) : LineOutcome :=
  match Text.stripPrefix httpOnlyMark line with
  | some rest => parseRecord true (rest.split '\t')
  | none =>
      if line.head? = some '#' ∨ line.trim = [] then .skip
      else parseRecord false (line.split '\t')

/-- One `\r` before the end of a line is not part of it. -/
def stripCr (line : Bytes) : Bytes :=
  if line.getLast? = some 13 then line.dropLast else line

/-- `BufRead::lines`, each line still undecoded; a last line may lack its newline. -/
def lines (content : Bytes) : List Bytes :=
  let pieces := content.splitOn 10
  (if pieces.getLast? = some [] then pieces.dropLast else pieces).mapIdx fun i p =>
    if i + 1 < pieces.length then stripCr p else p

namespace CookieJar

/-- One turn of the loop of `load_netscape`. -/
def loadLine (path : Text) (jar : CookieJar) (lineno : Nat) (line : Bytes) : Result CookieJar :=
  match fromUtf8 line with
  | none => .error (.io .invalidData)
  | some line =>
      match parseNetscapeLine line with
      | .cookie c => .ok (jar.push c)
      | .skip => .ok jar
      | .malformed =>
          .error (.badResponse [.str "cookies.txt: malformed line ", .num (lineno + 1),
            .str " in ", .display path])

def loadLines (path : Text) : CookieJar → Nat → List Bytes → Result CookieJar
  | jar, _, [] => .ok jar
  | jar, lineno, line :: rest => do
      let jar ← loadLine path jar lineno line
      loadLines path jar (lineno + 1) rest

def loadNetscape (path : Text) (file : Except IoKind Bytes) : Result CookieJar :=
  match file with
  | .error kind => .error (.io kind)
  | .ok content => loadLines path new 0 (lines content)

/-- `load_netscape_or_empty`. -/
def loadNetscapeOrEmpty (path : Text) (file : Except IoKind Bytes) : Result CookieJar :=
  match loadNetscape path file with
  | .error (.io .notFound) => .ok new
  | res => res

/-- The comment lines a saved file begins with. -/
def fileHeader : Text :=
  "# Netscape HTTP Cookie File\n# https://curl.se/docs/http-cookies.html\n# This file was generated by rsurl. Edit at your own risk.\n\n".toList

/-- The record of a cookie that expires at `exp`. -/
def record (c : Cookie) (exp : Nat) : Text :=
  (if c.httpOnly then httpOnlyMark else []) ++ c.domain
    ++ '\t' :: (if c.hostOnly then "FALSE".toList else "TRUE".toList)
    ++ '\t' :: c.path
    ++ '\t' :: (if c.secure then "TRUE".toList else "FALSE".toList)
    ++ '\t' :: decimal exp
    ++ '\t' :: c.name
    ++ '\t' :: c.value

/-- What one turn of the loop of `save_netscape` writes. -/
def savedCookie (c : Cookie) : Text :=
  match c.expires with
  | none => []
  | some exp =>
      if hasJarSeparator c.name || hasJarSeparator c.value || hasJarSeparator c.domain
          || hasJarSeparator c.path then []
      else record c exp ++ ['\n']

/-- The file a successful `save_netscape` leaves. -/
def saveNetscape (jar : CookieJar) : Bytes :=
  Text.utf8 (fileHeader ++ jar.cookies.flatMap savedCookie)

end CookieJar

end Rsurl.Cookies
