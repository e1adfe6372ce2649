/-
# `Rsurl.Url` — `Url::parse` and `resolve`

The parser of `src/url.rs`, cut into the pieces its comments name: the
authority and the path (`splitAuthority`), userinfo (`splitUserinfo`), host
and port (`splitHostport`).  Each search is the source's own: the authority
ends at the first `/`, userinfo at the last `@`, the port begins at the last
`:` of an unbracketed host.  `resolve` builds an absolute string from the base
and the reference and parses it again, as the source does.
-/
import Rsurl.Error

namespace Rsurl

/-- `crate::url::Url`. -/
@[ext]
structure Url where
  scheme : Text
  userinfo : Option Text
  host : Text
  port : UInt16
  path : Text
deriving DecidableEq, Repr

namespace Url

/-- The arms of `default_port`. -/
def schemePorts : List (Text × UInt16) :=
  [("http".toList, 80), ("ws".toList, 80), ("https".toList, 443), ("wss".toList, 443),
   ("ftp".toList, 21), ("ftps".toList, 990), ("dict".toList, 2628),
   ("gopher".toList, 70), ("gophers".toList, 70), ("imap".toList, 143),
   ("imaps".toList, 993), ("ldap".toList, 389), ("ldaps".toList, 636),
   ("mqtt".toList, 1883), ("mqtts".toList, 8883), ("pop3".toList, 110),
   ("pop3s".toList, 995), ("rtsp".toList, 554), ("tftp".toList, 69),
   ("sftp".toList, 22), ("scp".toList, 22)]

def defaultPort (scheme : Text) : Option UInt16 := schemePorts.lookup scheme

/-- A byte `reject_forbidden` refuses: an ASCII control, DEL or a space. -/
def isForbidden (c : Char) : Bool := c.toNat < 0x20 || c.toNat == 0x7F || c == ' '

def rejectForbidden (field original : Text) : Result Unit :=
  if field.any isForbidden then .error (.invalidUrl (.ofText original)) else .ok ()

/-- `match rest.find('/')`: the authority, and the path or `"/"`. -/
def splitAuthority (rest : Text) : Text × Text :=
  match Text.splitOnce '/' rest with
  | some (a, b) => (a, '/' :: b)
  | none => (rest, ['/'])

/-- `match t.find(c) { Some(i) => &t[..i], None => t }`. -/
def beforeFirst (c : Char) (t : Text) : Text :=
  match Text.splitOnce c t with
  | some (a, _) => a
  | none => t

/-- The part before the fragment. -/
def stripFragment (path : Text) : Text := beforeFirst '#' path

/-- `match authority.rfind('@')`. -/
def splitUserinfo (authority : Text) : Option Text × Text :=
  match Text.rsplitOnce '@' authority with
  | some (info, hostport) => (some info, hostport)
  | none => (none, authority)

/-- The port after a closing bracket: nothing, or `:port`. -/
def portAfterBracket (default : UInt16) : Text → Option UInt16
  | [] => some default
  | ':' :: p => parseU16 p
  | _ => none

/-- The host, the port, and whether the host is a bracketed IPv6 literal. -/
def splitHostport (default : UInt16) (hostport : Text) :
    Option (Text × UInt16 × Bool) :=
  match Text.splitOnce ']' hostport with
  | some (inner, after) =>
      if hostport.head? = some '[' then
        (portAfterBracket default after).map fun p => (inner ++ [']'], p, true)
      else none
  | none =>
      if hostport.head? = some '[' then none
      else
        match Text.rsplitOnce ':' hostport with
        | some (h, p) => (parseU16 p).map fun p => (h, p, false)
        | none => some (hostport, default, false)

/-- The `file://` branch: everything after the marker is the path. -/
def parseFile (s : Text) : Result Url :=
  let path := s.drop "file://".toList.length
  if "file://".toList.isPrefixOf s ∧ path.head? = some '/' then
    .ok { scheme := "file".toList, userinfo := none, host := [], port := 0,
          path := stripFragment path }
  else .error (.invalidUrl (.ofText s))

/-- The checks on userinfo: no forbidden byte and no backslash. -/
def checkUserinfo (userinfo : Option Text) (s : Text) : Result Unit :=
  match userinfo with
  | none => .ok ()
  | some info => do
      rejectForbidden info s
      if info.contains '\\' then .error (.invalidUrl (.ofText s)) else .ok ()

/-- `Url::parse`. -/
def parse (s : Text) : Result Url :=
  match Text.splitOnceStr "://".toList s with
  | none => .error (.invalidUrl (.ofText s))
  | some (rawScheme, rest) =>
      if rawScheme = [] then .error (.invalidUrl (.ofText s))
      else
        let scheme := rawScheme.toAsciiLowercase
        let (authority, path) := splitAuthority rest
        if scheme = "file".toList then parseFile s
        else if authority = [] then .error (.invalidUrl (.ofText s))
        else
          let path := stripFragment path
          match defaultPort scheme with
          | none => .error (.unsupportedScheme (.ofText scheme))
          | some default =>
              let (userinfo, hostport) := splitUserinfo authority
              match splitHostport default hostport with
              | none => .error (.invalidUrl (.ofText s))
              | some (host, port, bracketed) =>
                  if host = [] then .error (.invalidUrl (.ofText s))
                  else if port = 0 then .error (.invalidUrl (.ofText s))
                  else do
                    rejectForbidden host s
                    if !bracketed && (host.contains '\\' || host.contains '%') then
                      .error (.invalidUrl (.ofText s))
                    else do
                      checkUserinfo userinfo s
                      rejectForbidden path s
                      .ok { scheme, userinfo, host, port, path }

/-- `Url::is_tls`. -/
def isTls (u : Url) : Bool :=
  u.scheme ∈ ["https".toList, "ftps".toList, "imaps".toList, "pop3s".toList,
    "ldaps".toList, "gophers".toList, "mqtts".toList, "wss".toList]

/-- `c.is_ascii_alphanumeric() || c == '+' || c == '-' || c == '.'`. -/
def isSchemeChar (c : Char) : Bool :=
  c.isAlphanum || c == '+' || c == '-' || c == '.'

/-- The authority `resolve` prints for a base: the port only when it is not
the scheme's default. -/
def printAuthority (base : Url) : Text :=
  let default := (defaultPort base.scheme).getD 0
  if base.port ≠ default then base.host ++ ':' :: decimal base.port.toNat
  else base.host

/-- The path before the query. -/
def stripQuery (path : Text) : Text := beforeFirst '?' path

/-- The base path up to its last `/`, query dropped. -/
def baseDir (path : Text) : Text :=
  match Text.rsplitOnce '/' (stripQuery path) with
  | some (a, _) => a ++ ['/']
  | none => ['/']

/-- An absolute URL: scheme characters before the first `://`. -/
def isAbsolute (loc : Text) : Bool :=
  match Text.splitOnceStr "://".toList loc with
  | some (scheme, _) => !scheme.isEmpty && scheme.all isSchemeChar
  | none => false

/-- `resolve`. -/
def resolve (base : Url) (location : Text) : Result Url :=
  let loc := location.trim
  if loc = [] then .error (.invalidUrl [.str "empty Location"])
  else if isAbsolute loc then parse loc
  else if "//".toList.isPrefixOf loc then
    parse (base.scheme ++ "://".toList ++ loc.drop 2)
  else
    let locNoFrag := stripFragment loc
    if locNoFrag.head? = some '/' then
      parse (base.scheme ++ "://".toList ++ printAuthority base ++ locNoFrag)
    else
      parse (base.scheme ++ "://".toList ++ printAuthority base
        ++ baseDir base.path ++ locNoFrag)

end Url
end Rsurl
