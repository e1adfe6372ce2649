/-
# `Rsurl.Ldap.Session` — one bind, one search, one unbind

From `src/ldap.rs`: the requests and answers of a whole conversation, the parser
of a search entry, and `fetch`.  The connection is that of `Rsurl.Duplex`, with
the stream as its reader; which one a URL leads to, with or without TLS, is a
parameter.
-/
import Rsurl.Base.Element
import Rsurl.Duplex
import Rsurl.Ldap
import Rsurl.Url

namespace Rsurl.Ldap

open Base (Program)

def appBindRequest : UInt8 := 0

def appBindResponse : UInt8 := 1

def appUnbindRequest : UInt8 := 2

def appSearchResultEntry : UInt8 := 4

def appSearchResultDone : UInt8 := 5

def appSearchResultReference : UInt8 := 19

/-! ## Requests -/

def buildBindRequest (messageId : Int32) (name password : Text) : Bytes :=
  writeConstructed [] Tag.sequence fun w =>
    writeConstructed (writeInteger w messageId.toInt) (Tag.app appBindRequest true) fun b =>
      let b := writeInteger b 3
      let b := writeOctetString b name.utf8
      writeTlv b (Tag.ctx 0 false) password.utf8

def buildUnbindRequest (messageId : Int32) : Bytes :=
  writeConstructed [] Tag.sequence fun w =>
    writeTlv (writeInteger w messageId.toInt) (Tag.app appUnbindRequest false) []

/-! ## Answers -/

/-- `split_message`: the message id, and the tag and the value of the operation. -/
def splitMessage (body : Bytes) : Result (Int × UInt8 × Bytes) := do
  let (mid, r) ← readInteger body
  let (op, _) ← readTlv r
  return (mid, op.tag, op.value)

/-- `parse_ldap_result`: the code and the diagnostic message. -/
def parseLdapResult (body : Bytes) : Result (Int × Text) := do
  let (rc, r) ← readEnumerated body
  let (_, r) ← readOctetString r
  let (diag, _) ← readOctetString r
  return (rc, fromUtf8Lossy diag)

/-- A name, and the attributes under it. -/
abbrev SearchEntry := Text × List LdapAttr

/-- The values of a set. -/
def readValues (vals : Bytes) : Result (List Bytes) := Base.many readOctetString vals.length vals

/-- One attribute. -/
def readAttribute (ar : Bytes) : Result (LdapAttr × Bytes) := do
  let (pa, ar) ← readExpect Tag.sequence ar
  let (name, pr) ← readOctetString pa
  let (vals, _) ← readExpect Tag.set pr
  let vals ← readValues vals
  return ((fromUtf8Lossy name, vals), ar)

/-- `parse_search_entry`. -/
def parseSearchEntry (body : Bytes) : Result SearchEntry := do
  let (dn, r) ← readOctetString body
  let (attrs, _) ← readExpect Tag.sequence r
  let attributes ← Base.many readAttribute attrs.length attrs
  return (fromUtf8Lossy dn, attributes)

/-! ## The conversation -/

/-- The transport of a conversation. -/
abbrev Transport := Duplex Source

abbrev Session (α : Type) := Program Transport Error α

/-- `read_message`. -/
def readMessage : Session Bytes := Duplex.receive readMessageFrom.exec

/-- The answer to the bind. -/
def readBindResponse : Session Unit := do
  let resp ← readMessage
  let (_, opTag, opBody) ← Program.ofExcept (splitMessage resp)
  if opTag ≠ Tag.app appBindResponse true then
    throw (.badResponse [.str "ldap: expected BindResponse, got tag ", .hex opTag.toNat])
  else
    let (rc, diag) ← Program.ofExcept (parseLdapResult opBody)
    if rc ≠ 0 then
      throw (.badResponse [.str "ldap bind failed: code ", .num rc, .str ": ", .display diag])
    else return ()

/-- The bind, with message id 1. -/
def authenticate (name password : Text) : Session Unit := do
  Duplex.transmit [buildBindRequest 1 name password]
  readBindResponse

/-- The loop that reads entries, with what is printed so far; each message takes bytes, so what
is to come bounds them. -/
def collect (searchMid : Int) : Nat → Bytes → Session Bytes
  | 0, _ => throw .unexpectedEof
  | turns + 1, out => do
      let body ← readMessage
      let (mid, otag, obody) ← Program.ofExcept (splitMessage body)
      if mid ≠ searchMid then collect searchMid turns out
      else if otag = Tag.app appSearchResultEntry true then
        let (dn, attrs) ← Program.ofExcept (parseSearchEntry obody)
        collect searchMid turns (writeLdifEntry out dn attrs)
      else if otag = Tag.app appSearchResultReference true then collect searchMid turns out
      else if otag = Tag.app appSearchResultDone true then
        let (rc, diag) ← Program.ofExcept (parseLdapResult obody)
        if rc ≠ 0 then
          throw (.badResponse [.str "ldap search failed: code ", .num rc, .str ": ", .display diag])
        else return out
      else throw (.badResponse [.str "ldap: unexpected protocolOp tag ", .hex otag.toNat])

/-- All that there is for the search with message id 2. -/
def readResults : Session Bytes := do
  collect 2 ((← get).input.bytes.length + 1) []

/-- The unbind, whether it gets through or not. -/
def unbind : Session Unit := do
  Duplex.ignore (Duplex.writeAll (buildUnbindRequest 3))
  Duplex.ignore Duplex.flush

/-- The search. -/
def search (q : ParsedUrlQuery) : Session Bytes := do
  let msg ← Program.ofExcept (buildSearchRequest 2 q)
  Duplex.transmit [msg]
  let out ← readResults
  unbind
  return out

/-- What `fetch` asks for. -/
structure Ask where
  query : ParsedUrlQuery
  bindName : Text
  bindPass : Text
deriving DecidableEq, Repr

def splitUserinfo (userinfo : Option Text) : Text × Text :=
  match userinfo with
  | none => ([], [])
  | some ui =>
      match Text.splitOnce ':' ui with
      | some (u, p) => (percentDecode u, percentDecode p)
      | none => (percentDecode ui, [])

/-- What `fetch` looks at before it connects. -/
def askOf (url : Url) : Result Ask := do
  if url.scheme ≠ "ldap".toList ∧ url.scheme ≠ "ldaps".toList then
    throw (.unsupportedScheme (.ofText url.scheme))
  else
    let q ← parseLdapPath url.path
    rejectCtl q.dn "search DN"
    rejectCtl q.filter "search filter"
    let (bindName, bindPass) := splitUserinfo url.userinfo
    rejectCtl bindName "bind DN"
    rejectCtl bindPass "bind password"
    return ⟨q, bindName, bindPass⟩

/-- `fetch` from where it is connected. -/
def converse (ask : Ask) : Session Bytes := do
  authenticate ask.bindName ask.bindPass
  search ask.query

/-- `fetch`, with how to connect. -/
def fetch (connect : Url → Result Transport) (url : Url) : Result Bytes := do
  let ask ← askOf url
  let transport ← connect url
  ((converse ask).exec transport).1

end Rsurl.Ldap
