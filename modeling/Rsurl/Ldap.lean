/-
# `Rsurl.Ldap` — the LDAP client's wire formats

From `src/ldap.rs`: the BER writer and reader, search filters with their
parser, the search request, and the LDIF that a search result is printed as.
A writer takes the output buffer and returns it, as the source's `&mut Vec<u8>`
does; a reader takes the unread bytes and returns what is left.
-/
import Mathlib.Data.Nat.Digits.Defs
import Rsurl.Base.Program
import Rsurl.Net
import Rsurl.Text.Percent

namespace Rsurl.Ldap

open Base (Program)

/-! ## Tags -/

namespace Tag

def boolean : UInt8 := 0x01

def integer : UInt8 := 0x02

def octetString : UInt8 := 0x04

def enumerated : UInt8 := 0x0A

def sequence : UInt8 := 0x30

def set : UInt8 := 0x31

def classApplication : UInt8 := 0x40

def classContext : UInt8 := 0x80

def isConstructed : UInt8 := 0x20

/-- An APPLICATION-class tag. -/
def app (n : UInt8) (constructed : Bool) : UInt8 :=
  classApplication ||| (if constructed then isConstructed else 0) ||| (n &&& 0x1f)

/-- A CONTEXT-class tag. -/
def ctx (n : UInt8) (constructed : Bool) : UInt8 :=
  classContext ||| (if constructed then isConstructed else 0) ||| (n &&& 0x1f)

end Tag

def appSearchRequest : UInt8 := 3

/-! ## The writer -/

/-- `encode_length`: short form, or the base-256 digits with their number in front. -/
def encodeLength (len : Nat) (out : Bytes) : Bytes :=
  if len < 0x80 then out ++ [UInt8.ofNat len]
  else
    let tmp := (Nat.digits 256 len).map UInt8.ofNat
    out ++ [0x80 ||| UInt8.ofNat tmp.length] ++ tmp.reverse

def writeTlv (out : Bytes) (tag : UInt8) (value : Bytes) : Bytes :=
  encodeLength value.length (out ++ [tag]) ++ value

/-- `write_constructed`: the length is filled in, or spliced in, when the body is there. -/
def writeConstructed (out : Bytes) (tag : UInt8) (f : Bytes → Bytes) : Bytes :=
  let start := out.length
  let bodyStart := start + 2
  let out := f (out ++ [tag, 0])
  let bodyLen := out.length - bodyStart
  if bodyLen < 0x80 then out.set (start + 1) (UInt8.ofNat bodyLen)
  else
    let hdr := encodeLength bodyLen []
    out.take (start + 1) ++ hdr ++ out.drop (start + 2)

/-- `i64::to_be_bytes`. -/
def toBeBytes (v : Int) : Bytes :=
  [56, 48, 40, 32, 24, 16, 8, 0].map fun i : Nat => UInt8.ofNat (v / 2 ^ i % 256).toNat

/-- The leading bytes that say nothing about the sign are dropped. -/
def dropRedundant : Bytes → Bytes
  | first :: next :: rest =>
      if (first = 0x00 ∧ next &&& 0x80 = 0) ∨ (first = 0xff ∧ next &&& 0x80 ≠ 0) then
        dropRedundant (next :: rest)
      else first :: next :: rest
  | bytes => bytes

def writeInteger (out : Bytes) (v : Int) : Bytes :=
  writeTlv out Tag.integer (dropRedundant (toBeBytes v))

def writeEnumerated (out : Bytes) (v : Int) : Bytes :=
  writeTlv out Tag.enumerated (dropRedundant (toBeBytes v))

def writeOctetString (out : Bytes) (s : Bytes) : Bytes := writeTlv out Tag.octetString s

def writeBoolean (out : Bytes) (b : Bool) : Bytes :=
  writeTlv out Tag.boolean [if b then 0xff else 0x00]

/-! ## The reader -/

structure Tlv where
  tag : UInt8
  value : Bytes
deriving DecidableEq, Repr

def readLength : Bytes → Result (Nat × Bytes)
  | [] => .error (.badResponse [.str "ber: truncated length"])
  | first :: data =>
      if first < 0x80 then .ok (first.toNat, data)
      else
        let n := (first &&& 0x7f).toNat
        if n = 0 then .error (.badResponse [.str "ber: indefinite length not allowed"])
        else if n > 8 then .error (.badResponse [.str "ber: length too large"])
        else if data.length < n then .error (.badResponse [.str "ber: truncated length bytes"])
        else .ok ((data.take n).foldl (fun len b => len <<< 8 ||| b.toNat) 0, data.drop n)

def readTlv : Bytes → Result (Tlv × Bytes)
  | [] => .error (.badResponse [.str "ber: truncated tag"])
  | tag :: data => do
      let (len, data) ← readLength data
      if data.length < len then .error (.badResponse [.str "ber: truncated value"])
      else .ok (⟨tag, data.take len⟩, data.drop len)

def readExpect (tag : UInt8) (r : Bytes) : Result (Bytes × Bytes) := do
  let (tlv, r) ← readTlv r
  if tlv.tag ≠ tag then
    .error (.badResponse [.str "ber: expected tag ", .hex tag.toNat, .str ", got ",
      .hex tlv.tag.toNat])
  else .ok (tlv.value, r)

/-- `decode_integer_i64`: at most eight bytes, from the sign on. -/
def decodeInteger (bytes : Bytes) : Result Int :=
  match bytes with
  | [] => .error (.badResponse [.str "ber: bad integer length"])
  | first :: _ =>
      if bytes.length > 8 then .error (.badResponse [.str "ber: bad integer length"])
      else .ok (bytes.foldl (fun acc b => acc * 256 + b.toNat)
        (if first &&& 0x80 ≠ 0 then -1 else 0))

def readInteger (r : Bytes) : Result (Int × Bytes) := do
  let (v, r) ← readExpect Tag.integer r
  return (← decodeInteger v, r)

def readEnumerated (r : Bytes) : Result (Int × Bytes) := do
  let (v, r) ← readExpect Tag.enumerated r
  return (← decodeInteger v, r)

def readOctetString (r : Bytes) : Result (Bytes × Bytes) := readExpect Tag.octetString r

/-! ## A message off the stream -/

def maxMessageBytes : Nat := 64 * 1024 * 1024

/-- The client's own `read_exact`: a read that gives nothing is the end of the stream. -/
def readExact (n : Nat) : Program Source Error Bytes := fun s =>
  match s.readExact n with
  | (.ok bytes, s') => (.ok bytes, s')
  | (.error _, s') => (.error (s.tail.elim .unexpectedEof .io), s')

/-- The length in front of a message's body. -/
def readMessageLength : Program Source Error Nat := do
  let first := (← readExact 1).headD 0
  if first < 0x80 then return first.toNat
  else
    let n := (first &&& 0x7f).toNat
    if n = 0 ∨ n > 8 then throw (.badResponse [.str "ldap: bad length form"])
    else return (← readExact n).foldl (fun acc b => acc <<< 8 ||| b.toNat) 0

/-- `read_message_from`: the body of one message. -/
def readMessageFrom : Program Source Error Bytes := do
  let tag := (← readExact 1).headD 0
  if tag ≠ Tag.sequence then
    throw (.badResponse [.str "ldap: expected SEQUENCE, got ", .hex tag.toNat])
  else
    let len ← readMessageLength
    if len > maxMessageBytes then
      throw (.badResponse [.str "ldap: message length ", .num len, .str " exceeds maximum ",
        .num maxMessageBytes])
    else readExact len

/-! ## Filters -/

inductive Filter where
  | and (items : List Filter)
  | or (items : List Filter)
  | not (inner : Filter)
  | equalityMatch (attr value : Text)
  | substrings (attr : Text) (initial : Option Text) (any : List Text) (final : Option Text)
  | present (attr : Text)
  | extensibleMatch (matchingRule attrType : Option Text) (matchValue : Text) (dnAttributes : Bool)

/-- A field that is written `if let Some(s)`. -/
def writeOpt (out : Bytes) (tag : UInt8) : Option Text → Bytes
  | some s => writeTlv out tag s.utf8
  | none => out

mutual

/-- `encode_filter`. -/
def encodeFilter (f : Filter) (out : Bytes) : Bytes :=
  match f with
  | .and items => writeConstructed out (Tag.ctx 0 true) fun w => encodeFilters items w
  | .or items => writeConstructed out (Tag.ctx 1 true) fun w => encodeFilters items w
  | .not inner => writeConstructed out (Tag.ctx 2 true) fun w => encodeFilter inner w
  | .equalityMatch attr value =>
      writeConstructed out (Tag.ctx 3 true) fun w =>
        writeOctetString (writeOctetString w attr.utf8) value.utf8
  | .substrings attr initial any final =>
      writeConstructed out (Tag.ctx 4 true) fun w =>
        writeConstructed (writeOctetString w attr.utf8) Tag.sequence fun subs =>
          let subs := writeOpt subs (Tag.ctx 0 false) initial
          let subs := any.foldl (fun subs s => writeTlv subs (Tag.ctx 1 false) s.utf8) subs
          writeOpt subs (Tag.ctx 2 false) final
  | .present attr => writeTlv out (Tag.ctx 7 false) attr.utf8
  | .extensibleMatch matchingRule attrType matchValue dnAttributes =>
      writeConstructed out (Tag.ctx 9 true) fun w =>
        let w := writeOpt w (Tag.ctx 1 false) matchingRule
        let w := writeOpt w (Tag.ctx 2 false) attrType
        let w := writeTlv w (Tag.ctx 3 false) matchValue.utf8
        if dnAttributes then writeTlv w (Tag.ctx 4 false) [0xff] else w

/-- The loop over the items of a set. -/
def encodeFilters : List Filter → Bytes → Bytes
  | [], out => out
  | f :: items, out => encodeFilters items (encodeFilter f out)

end

/-! ## The filter parser -/

def maxFilterDepth : Nat := 64

/-- `FilterParser::expect`. -/
def expect (c : Char) : Bytes → Result Bytes
  | x :: rest =>
      if x = UInt8.ofNat c.toNat then .ok rest
      else .error (.badResponse [.str "filter: expected ", .debug [c], .str ", got ",
        .debug [Char.ofNat x.toNat]])
  | [] => .error (.badResponse [.str "filter: expected ", .debug [c], .str ", got EOF"])

/-- `read_value`: up to the closing parenthesis. -/
def readValue (r : Bytes) : Result (Text × Bytes) :=
  match fromUtf8 (r.takeWhile (· ≠ 41)) with
  | some s => .ok (s, r.dropWhile (· ≠ 41))
  | none => .error (.badResponse [.str "filter: non-utf8 value"])

/-- The description in front of `=`: the bytes read, and what is left. -/
def readDesc : Bytes → Result (Bytes × Bytes)
  | [] => .ok ([], [])
  | c :: rest =>
      if c = 61 ∨ c = 41 then .ok ([], c :: rest)
      else if c = 126 ∨ c = 60 ∨ c = 62 then
        .error (.badResponse [.str "filter: operator ", .debug [Char.ofNat c.toNat],
          .str " not supported"])
      else do
        let (desc, rest) ← readDesc rest
        .ok (c :: desc, rest)

/-- `reject_ctl`. -/
def rejectCtl (s : Text) (what : String) : Result Unit :=
  match s.utf8.find? fun b => b < 0x20 ∨ b = 0x7f with
  | some b => .error (.badResponse [.str "ldap: ", .str what,
      .str " contains illegal control byte ", .hex b.toNat])
  | none => .ok ()

/-- The segments of a substrings value, from the first to the last. -/
def readSegments : List Text → Result (List Text × Option Text)
  | [] => .ok ([], none)
  | [last] =>
      if last = [] then .ok ([], none)
      else do
        rejectCtl last "filter substring segment"
        .ok ([], some last)
  | seg :: rest =>
      if seg = [] then readSegments rest
      else do
        rejectCtl seg "filter substring segment"
        let (any, final) ← readSegments rest
        .ok (seg :: any, final)

/-- A value with a `*` in it, split there. -/
def parseSubstrings (attr : Text) (segments : List Text) : Result Filter :=
  match segments with
  | [] => .ok (.substrings attr none [] none)
  | first :: rest =>
      if first = [] then do
        let (any, final) ← readSegments rest
        .ok (.substrings attr none any final)
      else do
        rejectCtl first "filter substring segment"
        let (any, final) ← readSegments rest
        .ok (.substrings attr (some first) any final)

/-- The tokens between the attribute and `:=`: a `dn` marker and a matching rule. -/
def readTokens : Bool → Option Text → List Text → Result (Bool × Option Text)
  | dnAttributes, matchingRule, [] => .ok (dnAttributes, matchingRule)
  | dnAttributes, matchingRule, tok :: tokens =>
      if tok = "dn".toList then
        if dnAttributes then
          .error (.badResponse [.str "filter: duplicate 'dn' in extensible match"])
        else readTokens true matchingRule tokens
      else if tok = [] then
        .error (.badResponse [.str "filter: empty token in extensible match"])
      else if matchingRule.isSome then
        .error (.badResponse [.str "filter: multiple matching rules in extensible match"])
      else readTokens dnAttributes (some tok) tokens

/-- `reject_ctl` of a field that may be absent. -/
def rejectCtlOpt (s : Option Text) (what : String) : Result Unit :=
  match s with
  | some s => rejectCtl s what
  | none => .ok ()

def parseExtensible (desc : Text) (r : Bytes) : Result (Filter × Bytes) := do
  let tokens := desc.splitOn ':'
  if tokens.getLast? ≠ some [] then
    throw (.badResponse [.str "filter: malformed extensible match (expected ':=')"])
  match tokens.dropLast with
  | [] => throw (.badResponse [.str "filter: empty extensible match description"])
  | a :: tokens =>
      let attrType := if a = [] then none else some a
      let (dnAttributes, matchingRule) ← readTokens false none tokens
      if attrType.isNone && matchingRule.isNone then
        throw (.badResponse [.str "filter: extensible match needs an attribute or matching rule"])
      let (matchValue, r) ← readValue r
      rejectCtl matchValue "filter extensible match value"
      rejectCtlOpt attrType "filter extensible match attribute"
      rejectCtlOpt matchingRule "filter extensible match rule"
      return (.extensibleMatch matchingRule attrType matchValue dnAttributes, r)

def parseSimple (r : Bytes) : Result (Filter × Bytes) := do
  let (descBytes, r) ← readDesc r
  match fromUtf8 descBytes with
  | none => throw (.badResponse [.str "filter: non-utf8 attr"])
  | some desc =>
      let r ← expect '=' r
      if ':' ∈ desc then parseExtensible desc r
      else
        let (value, r) ← readValue r
        if value = ['*'] then return (.present desc, r)
        else if '*' ∈ value then
          return (← parseSubstrings desc (value.splitOn '*'), r)
        else return (.equalityMatch desc value, r)

/-- `parse_list`, for the parser of one item; each item takes at least a byte. -/
def parseList (item : Bytes → Result (Filter × Bytes)) : Nat → Bytes → Result (List Filter × Bytes)
  | 0, r => .ok ([], r)
  | fuel + 1, r =>
      if r.head? = some 40 then do
        let (f, r) ← item r
        let (items, r) ← parseList item fuel r
        .ok (f :: items, r)
      else .ok ([], r)

/-- The items of a set: at least one. -/
def parseItems (item : Bytes → Result (Filter × Bytes)) (r : Bytes) :
    Result (List Filter × Bytes) := do
  let (items, r) ← parseList item r.length r
  if items = [] then throw (.badResponse [.str "filter: empty list"])
  else return (items, r)

/-- `FilterParser::parse`, by the number of levels that are left. -/
def parse : Nat → Bytes → Result (Filter × Bytes)
  | 0, _ => .error (.badResponse [.str "ldap: filter nesting too deep"])
  | levels + 1, r => do
      let r ← expect '(' r
      let (f, r) ← match r with
        | 38 :: r => do
            let (items, r) ← parseItems (parse levels) r
            pure (Filter.and items, r)
        | 124 :: r => do
            let (items, r) ← parseItems (parse levels) r
            pure (Filter.or items, r)
        | 33 :: r => do
            let (inner, r) ← parse levels r
            pure (Filter.not inner, r)
        | _ :: _ => parseSimple r
        | [] => throw (.badResponse [.str "filter: empty filter"])
      let r ← expect ')' r
      return (f, r)

def parseFilter (s : Text) : Result Filter := do
  let (f, r) ← parse (maxFilterDepth + 1) s.utf8
  if r ≠ [] then throw (.badResponse [.str "filter: trailing garbage"])
  else return f

/-! ## The search request -/

inductive Scope where
  | base
  | oneLevel
  | subtree
deriving DecidableEq, Repr

def Scope.asInt : Scope → Int
  | .base => 0
  | .oneLevel => 1
  | .subtree => 2

structure ParsedUrlQuery where
  dn : Text
  attrs : List Text
  scope : Scope
  filter : Text
deriving DecidableEq, Repr

/-! ## The path of a URL -/

/-- `percent_decode`. -/
def percentDecode (s : Text) : Text := fromUtf8Lossy (percentDecodeBytes s.utf8)

/-- `str::splitn`: the last piece is not cut further. -/
def splitN (c : Char) : Nat → Text → List Text
  | 0, _ => []
  | 1, t => [t]
  | n + 2, t =>
      match Text.splitOnce c t with
      | some (piece, rest) => piece :: splitN c (n + 1) rest
      | none => [t]

/-- `parse_ldap_path`; what is behind the filter is not used. -/
def parseLdapPath (path : Text) : Result ParsedUrlQuery :=
  let rest := (Text.stripPrefix ['/'] path).getD path
  let parts := splitN '?' 5 rest
  let dnRaw := parts.getD 0 []
  let attrsRaw := parts.getD 1 []
  let scopeRaw := parts.getD 2 []
  let filterRaw := parts.getD 3 []
  let dn := percentDecode dnRaw
  let attrs :=
    if attrsRaw = [] then []
    else ((Text.split ',' attrsRaw).map fun a => percentDecode a.trim).filter (· ≠ [])
  let scope : Result Scope :=
    let lower := scopeRaw.toAsciiLowercase
    if lower = [] ∨ lower = "base".toList then .ok .base
    else if lower = "one".toList then .ok .oneLevel
    else if lower = "sub".toList then .ok .subtree
    else .error (.badResponse [.str "ldap url: unknown scope ", .debug lower])
  let filter := if filterRaw = [] then "(objectClass=*)".toList else percentDecode filterRaw
  scope.map fun scope => ⟨dn, attrs, scope, filter⟩

/-! ## The search request on the wire -/

def buildSearchRequest (messageId : Int32) (q : ParsedUrlQuery) : Result Bytes := do
  let filter ← parseFilter q.filter
  return writeConstructed [] Tag.sequence fun w =>
    writeConstructed (writeInteger w messageId.toInt) (Tag.app appSearchRequest true) fun s =>
      let s := writeOctetString s q.dn.utf8
      let s := writeEnumerated s q.scope.asInt
      let s := writeEnumerated s 0
      let s := writeInteger s 100
      let s := writeInteger s 30
      let s := writeBoolean s false
      let s := encodeFilter filter s
      writeConstructed s Tag.sequence fun a =>
        q.attrs.foldl (fun a attr => writeOctetString a attr.utf8) a

/-! ## LDIF -/

def base64Alphabet : Text :=
  "ABCDEFGHIJKLMNOPQRSTUVWXYZabcdefghijklmnopqrstuvwxyz0123456789+/".toList

/-- `ALPHA[i] as char`; every index the encoder makes is below 64. -/
def base64Char (i : UInt8) : Char := base64Alphabet.getD i.toNat '='

/-- The client's second Base64 encoder. -/
def base64Encode : Bytes → Text
  | b0 :: b1 :: b2 :: rest =>
      base64Char (b0 >>> 2) :: base64Char (((b0 &&& 0x03) <<< 4) ||| (b1 >>> 4)) ::
        base64Char (((b1 &&& 0x0f) <<< 2) ||| (b2 >>> 6)) :: base64Char (b2 &&& 0x3f) ::
        base64Encode rest
  | [b0, b1] =>
      [base64Char (b0 >>> 2), base64Char (((b0 &&& 0x03) <<< 4) ||| (b1 >>> 4)),
        base64Char ((b1 &&& 0x0f) <<< 2), '=']
  | [b0] => [base64Char (b0 >>> 2), base64Char ((b0 &&& 0x03) <<< 4), '=', '=']
  | [] => []

/-- A byte an attribute name may have. -/
def isNameByte (b : UInt8) : Bool :=
  (65 ≤ b && b ≤ 90) || (97 ≤ b && b ≤ 122) || (48 ≤ b && b ≤ 57) || b == 45 || b == 59 || b == 46

def ldifNameIsSafe (name : Text) : Bool := name ≠ [] && name.utf8.all isNameByte

def ldifIsSafe (value : Bytes) : Bool :=
  match value with
  | [] => true
  | first :: _ =>
      if first = 32 ∨ first = 58 ∨ first = 60 then false
      else value.all fun b => !(b == 0 || b == 13 || b == 10 || 0x80 ≤ b)

def writeLdifLine (out : Bytes) (name : Text) (value : Bytes) : Bytes :=
  if ldifIsSafe value then out ++ name.utf8 ++ Text.utf8 ": ".toList ++ value ++ [10]
  else out ++ name.utf8 ++ Text.utf8 ":: ".toList ++ (base64Encode value).utf8 ++ [10]

/-- An attribute's name, and its values. -/
abbrev LdapAttr := Text × List Bytes

def writeLdifEntry (out : Bytes) (dn : Text) (attrs : List LdapAttr) : Bytes :=
  let out := writeLdifLine out "dn".toList dn.utf8
  let out := attrs.foldl (fun out attr =>
    if !ldifNameIsSafe attr.1 then out
    else attr.2.foldl (fun out v => writeLdifLine out attr.1 v) out) out
  out ++ [10]

end Rsurl.Ldap
