/-
# `Rsurl.H3.QpackSpec` — header compression as RFC 9204 has it

The dynamic table by its history: every entry keeps the index of its insertion,
and those that are left are the newest.  Encoder instructions and field lines
are given by the octets they are made of; a field section counts the inserts
that its references need and writes the count modulo twice the number of
entries a table may have.
-/
import Rsurl.H2.Conformance
import Rsurl.H3.FieldLine

namespace Rsurl.H3.Rfc

open Base (bitsOf)
open H2 (padding entrySize)
open H2.Rfc (IsInt codedBits entriesOf keep)
open Qpack (Ref Line)

/-! ## What is fixed -/

/-- Appendix A: the names in their order, each with the values it stands with. -/
def staticNames : List (String × List String) :=
  [(":authority", [""]), (":path", ["/"]), ("age", ["0"]), ("content-disposition", [""]),
   ("content-length", ["0"]), ("cookie", [""]), ("date", [""]), ("etag", [""]),
   ("if-modified-since", [""]), ("if-none-match", [""]), ("last-modified", [""]), ("link", [""]),
   ("location", [""]), ("referer", [""]), ("set-cookie", [""]),
   (":method", ["CONNECT", "DELETE", "GET", "HEAD", "OPTIONS", "POST", "PUT"]),
   (":scheme", ["http", "https"]), (":status", ["103", "200", "304", "404", "503"]),
   ("accept", ["*/*", "application/dns-message"]), ("accept-encoding", ["gzip, deflate, br"]),
   ("accept-ranges", ["bytes"]),
   ("access-control-allow-headers", ["cache-control", "content-type"]),
   ("access-control-allow-origin", ["*"]),
   ("cache-control", ["max-age=0", "max-age=2592000", "max-age=604800", "no-cache", "no-store",
     "public, max-age=31536000"]),
   ("content-encoding", ["br", "gzip"]),
   ("content-type", ["application/dns-message", "application/javascript", "application/json",
     "application/x-www-form-urlencoded", "image/gif", "image/jpeg", "image/png", "text/css",
     "text/html; charset=utf-8", "text/plain", "text/plain;charset=utf-8"]),
   ("range", ["bytes=0-"]),
   ("strict-transport-security", ["max-age=31536000", "max-age=31536000; includesubdomains",
     "max-age=31536000; includesubdomains; preload"]),
   ("vary", ["accept-encoding", "origin"]), ("x-content-type-options", ["nosniff"]),
   ("x-xss-protection", ["1; mode=block"]),
   (":status", ["100", "204", "206", "302", "400", "403", "421", "425", "500"]),
   ("accept-language", [""]), ("access-control-allow-credentials", ["FALSE", "TRUE"]),
   ("access-control-allow-headers", ["*"]),
   ("access-control-allow-methods", ["get", "get, post, options", "options"]),
   ("access-control-expose-headers", ["content-length"]),
   ("access-control-request-headers", ["content-type"]),
   ("access-control-request-method", ["get", "post"]), ("alt-svc", ["clear"]),
   ("authorization", [""]),
   ("content-security-policy", ["script-src 'none'; object-src 'none'; base-uri 'none'"]),
   ("early-data", ["1"]), ("expect-ct", [""]), ("forwarded", [""]), ("if-range", [""]),
   ("origin", [""]), ("purpose", ["prefetch"]), ("server", [""]), ("timing-allow-origin", ["*"]),
   ("upgrade-insecure-requests", ["1"]), ("user-agent", [""]), ("x-forwarded-for", [""]),
   ("x-frame-options", ["deny", "sameorigin"])]

/-- An entry of the static table, counted from 0. -/
def staticEntry (i : Nat) : Option (Text × Text) :=
  (entriesOf staticNames)[i]?.map fun (n, v) => (n.toList, v.toList)

theorem staticEntry_eq (i : Nat) : staticEntry i = Qpack.staticEntry i := by
  have hall : entriesOf staticNames = Qpack.staticTable := by decide +kernel
  rw [staticEntry, hall, Qpack.staticEntry]

/-- The capacity that the decoder has announced. -/
def maxTableCapacity : Nat := 4096

/-! ## Integers and strings -/

/-- The octets are the integer, which has 64 bits and ten octets behind its prefix at most. -/
structure Reads (k : Nat) (bytes : Bytes) (n : Nat) : Prop where
  isInt : IsInt k bytes n
  short : bytes.length ≤ 11
  fits : n < 2 ^ 64

/-- What a string literal holds, restricted to UTF-8: the octets themselves, or their Huffman
code. -/
inductive IsContent : Bool → Bytes → Text → Prop
  | raw {raw : Bytes} {t : Text} (ht : fromUtf8 raw = some t) : IsContent false raw t
  | coded {raw octets : Bytes} {n : Nat} {t : Text} (hn : n < 8)
      (hbits : bitsOf raw = codedBits octets ++ padding n) (ht : fromUtf8 octets = some t) :
      IsContent true raw t

/-- A string literal whose first bit says whether it is coded. -/
inductive IsString : Bytes → Text → Prop
  | intro {b : UInt8} {lead raw : Bytes} {t : Text} (hlen : Reads 7 (b :: lead) raw.length)
      (hraw : IsContent (b &&& 0x80 ≠ 0) raw t) : IsString (b :: (lead ++ raw)) t

/-! ## The table -/

/-- A dynamic table: all entries ever inserted, oldest first, and those that are left, newest
first. -/
structure Table where
  history : List (Text × Text)
  live : List (Text × Text)
  max : Nat
  newest : live <+: history.reverse

namespace Table

def new : Table where
  history := []
  live := []
  max := 0
  newest := List.prefix_refl _

/-- The entry with an absolute index, if it is left. -/
def entry (t : Table) (abs : Nat) : Option (Text × Text) :=
  if t.history.length ≤ abs + t.live.length then t.history[abs]? else none

/-- The oldest entries go until the rest takes `n` at most. -/
def resize (t : Table) (n : Nat) : Table where
  history := t.history
  live := keep n t.live
  max := n
  newest := (H2.keep_initial n t.live).trans t.newest

/-- The oldest entries make room for a new one. -/
def add (t : Table) (e : Text × Text) : Table where
  history := t.history ++ [e]
  live := e :: keep (t.max - entrySize e) t.live
  max := t.max
  newest := by
    rw [List.reverse_append]
    exact List.cons_prefix_cons.mpr ⟨rfl, (H2.keep_initial _ _).trans t.newest⟩

end Table

/-! ## Encoder instructions -/

/-- An instruction and what it does.  An entry must fit the table. -/
inductive Instruction (t : Table) : Bytes → Table → Prop
  | setCapacity {b : UInt8} {lead : Bytes} {n : Nat}
      (hkind : b &&& 0x80 = 0 ∧ b &&& 0x40 = 0 ∧ b &&& 0x20 ≠ 0) (hint : Reads 5 (b :: lead) n)
      (hmax : n ≤ maxTableCapacity) : Instruction t (b :: lead) (t.resize n)
  | staticName {b : UInt8} {lead valued : Bytes} {i : Nat} {e : Text × Text} {value : Text}
      (hkind : b &&& 0x80 ≠ 0 ∧ b &&& 0x40 ≠ 0) (hint : Reads 6 (b :: lead) i)
      (hentry : staticEntry i = some e) (hvalue : IsString valued value)
      (hfits : entrySize (e.1, value) ≤ t.max) :
      Instruction t (b :: (lead ++ valued)) (t.add (e.1, value))
  | dynamicName {b : UInt8} {lead valued : Bytes} {i : Nat} {e : Text × Text} {value : Text}
      (hkind : b &&& 0x80 ≠ 0 ∧ b &&& 0x40 = 0) (hint : Reads 6 (b :: lead) i)
      (hi : i < t.history.length) (hentry : t.entry (t.history.length - 1 - i) = some e)
      (hvalue : IsString valued value) (hfits : entrySize (e.1, value) ≤ t.max) :
      Instruction t (b :: (lead ++ valued)) (t.add (e.1, value))
  | literalName {b : UInt8} {lead named valued : Bytes} {name value : Text}
      (hkind : b &&& 0x80 = 0 ∧ b &&& 0x40 ≠ 0) (hlen : Reads 5 (b :: lead) named.length)
      (hname : IsContent (b &&& 0x20 ≠ 0) named name) (hvalue : IsString valued value)
      (hfits : entrySize (name, value) ≤ t.max) :
      Instruction t (b :: (lead ++ (named ++ valued))) (t.add (name, value))
  | duplicate {b : UInt8} {lead : Bytes} {i : Nat} {e : Text × Text}
      (hkind : b &&& 0x80 = 0 ∧ b &&& 0x40 = 0 ∧ b &&& 0x20 = 0) (hint : Reads 5 (b :: lead) i)
      (hi : i < t.history.length) (hentry : t.entry (t.history.length - 1 - i) = some e)
      (hfits : entrySize e ≤ t.max) : Instruction t (b :: lead) (t.add e)

inductive Instructions : Table → Bytes → Table → Prop
  | nil (t : Table) : Instructions t [] t
  | cons {t t' t'' : Table} {bytes rest : Bytes} (hfirst : Instruction t bytes t')
      (hrest : Instructions t' rest t'') : Instructions t (bytes ++ rest) t''

/-! ## Field lines -/

/-- The seven representations.  What marks a field as never to be indexed is left free. -/
inductive IsLine : Bytes → Line → Prop
  | indexedStatic {b : UInt8} {lead : Bytes} {i : Nat} (hkind : b &&& 0x80 ≠ 0 ∧ b &&& 0x40 ≠ 0)
      (hidx : Reads 6 (b :: lead) i) : IsLine (b :: lead) (.indexed (.static i))
  | indexedDynamic {b : UInt8} {lead : Bytes} {i : Nat} (hkind : b &&& 0x80 ≠ 0 ∧ b &&& 0x40 = 0)
      (hidx : Reads 6 (b :: lead) i) : IsLine (b :: lead) (.indexed (.relative i))
  | indexedPostBase {b : UInt8} {lead : Bytes} {i : Nat}
      (hkind : b &&& 0x80 = 0 ∧ b &&& 0x40 = 0 ∧ b &&& 0x20 = 0 ∧ b &&& 0x10 ≠ 0)
      (hidx : Reads 4 (b :: lead) i) : IsLine (b :: lead) (.indexed (.postBase i))
  | staticName {b : UInt8} {lead valued : Bytes} {i : Nat} {value : Text}
      (hkind : b &&& 0x80 = 0 ∧ b &&& 0x40 ≠ 0 ∧ b &&& 0x10 ≠ 0) (hidx : Reads 4 (b :: lead) i)
      (hvalue : IsString valued value) : IsLine (b :: (lead ++ valued)) (.named (.static i) value)
  | dynamicName {b : UInt8} {lead valued : Bytes} {i : Nat} {value : Text}
      (hkind : b &&& 0x80 = 0 ∧ b &&& 0x40 ≠ 0 ∧ b &&& 0x10 = 0) (hidx : Reads 4 (b :: lead) i)
      (hvalue : IsString valued value) : IsLine (b :: (lead ++ valued)) (.named (.relative i) value)
  | postBaseName {b : UInt8} {lead valued : Bytes} {i : Nat} {value : Text}
      (hkind : b &&& 0x80 = 0 ∧ b &&& 0x40 = 0 ∧ b &&& 0x20 = 0 ∧ b &&& 0x10 = 0)
      (hidx : Reads 3 (b :: lead) i) (hvalue : IsString valued value) :
      IsLine (b :: (lead ++ valued)) (.named (.postBase i) value)
  | literal {b : UInt8} {lead named valued : Bytes} {name value : Text}
      (hkind : b &&& 0x80 = 0 ∧ b &&& 0x40 = 0 ∧ b &&& 0x20 ≠ 0)
      (hlen : Reads 3 (b :: lead) named.length) (hname : IsContent (b &&& 0x08 ≠ 0) named name)
      (hvalue : IsString valued value) :
      IsLine (b :: (lead ++ (named ++ valued))) (.literal name value)

inductive Encodes : Bytes → List Line → Prop
  | nil : Encodes [] []
  | cons {bytes rest : Bytes} {line : Line} {lines : List Line} (hline : IsLine bytes line)
      (hrest : Encodes rest lines) : Encodes (bytes ++ rest) (line :: lines)

/-- The absolute index of a reference to the dynamic table. -/
def index (base : Nat) : Ref → Option Nat
  | .static _ => none
  | .relative i => if i < base then some (base - 1 - i) else none
  | .postBase i => some (base + i)

/-- The entry of a reference. -/
def Table.refer (t : Table) (base : Nat) : Ref → Option (Text × Text)
  | .static i => staticEntry i
  | ref => (index base ref).bind t.entry

/-! ## Field sections -/

/-- The Required Insert Count: one more than the largest absolute index referred to. -/
def requiredInsertCount (base : Nat) : List Line → Nat
  | [] => 0
  | line :: lines =>
      max (((line.ref?.bind (index base)).map (· + 1)).getD 0) (requiredInsertCount base lines)

/-- How it is written: modulo twice the entries that have room. -/
def encodedInsertCount (ric : Nat) : Nat :=
  if ric = 0 then 0 else ric % (2 * (maxTableCapacity / 32)) + 1

/-- A field section with any Base of 64 bits. -/
inductive FieldSection (t : Table) : Bytes → List (Text × Text) → Prop
  | intro {b s : UInt8} {lead lead' body : Bytes} {delta base : Nat} {lines : List Line}
      {fields : List (Text × Text)}
      (hcount : Reads 8 (b :: lead) (encodedInsertCount (requiredInsertCount base lines)))
      (hdelta : Reads 7 (s :: lead') delta) (hbound : base < 2 ^ 64)
      (hbase : if s &&& 0x80 ≠ 0 then requiredInsertCount base lines = base + delta + 1
        else base = requiredInsertCount base lines + delta)
      (hlines : Encodes body lines) (hfields : lines.mapM (Line.field (t.refer base)) = some fields) :
      FieldSection t (b :: (lead ++ (s :: (lead' ++ body)))) fields

end Rsurl.H3.Rfc
