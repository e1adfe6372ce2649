/-
# `Rsurl.H2.HpackSpec` — decoding as RFC 7541 has it

A header block as a sequence of field representations, each given by the octets
it is made of, and what each does to the dynamic table.  Two things the RFC
leaves to the receiver are a `Profile`: how long an integer may be, and what a
table size update beyond the limit comes to.  Positions, buffers and loops are
the decoder's own and do not appear; nor do its tables, which are those of the
RFC (`staticEntries_eq`, `code_eq`).
-/
import Rsurl.H2.Hpack

namespace Rsurl.H2.Rfc

open Base (bitsOf)

/-! ## The tables of the RFC -/

/-- Appendix A: the names in their order, each with the values it stands with. -/
def staticNames : List (String × List String) :=
  [(":authority", [""]), (":method", ["GET", "POST"]), (":path", ["/", "/index.html"]),
   (":scheme", ["http", "https"]), (":status", ["200", "204", "206", "304", "400", "404", "500"]),
   ("accept-charset", [""]), ("accept-encoding", ["gzip, deflate"]), ("accept-language", [""]),
   ("accept-ranges", [""]), ("accept", [""]), ("access-control-allow-origin", [""]),
   ("age", [""]), ("allow", [""]), ("authorization", [""]), ("cache-control", [""]),
   ("content-disposition", [""]), ("content-encoding", [""]), ("content-language", [""]),
   ("content-length", [""]), ("content-location", [""]), ("content-range", [""]),
   ("content-type", [""]), ("cookie", [""]), ("date", [""]), ("etag", [""]), ("expect", [""]),
   ("expires", [""]), ("from", [""]), ("host", [""]), ("if-match", [""]),
   ("if-modified-since", [""]), ("if-none-match", [""]), ("if-range", [""]),
   ("if-unmodified-since", [""]), ("last-modified", [""]), ("link", [""]), ("location", [""]),
   ("max-forwards", [""]), ("proxy-authenticate", [""]), ("proxy-authorization", [""]),
   ("range", [""]), ("referer", [""]), ("refresh", [""]), ("retry-after", [""]), ("server", [""]),
   ("set-cookie", [""]), ("strict-transport-security", [""]), ("transfer-encoding", [""]),
   ("user-agent", [""]), ("vary", [""]), ("via", [""]), ("www-authenticate", [""])]

/-- A table of names as a list of entries. -/
def entriesOf (names : List (String × List String)) : List (String × String) :=
  names.flatMap fun (n, values) => values.map fun v => (n, v)

theorem staticEntries_eq : entriesOf staticNames = staticTable := by decide +kernel

/-- Appendix B: the symbols by the length of their codes. -/
def codeLengths : List (Nat × List Nat) :=
  [(5, [48, 49, 50, 97, 99, 101, 105, 111, 115, 116]),
   (6, [32, 37, 45, 46, 47, 51, 52, 53, 54, 55, 56, 57, 61, 65, 95, 98, 100, 102, 103, 104, 108, 109,
     110, 112, 114, 117]),
   (7, [58, 66, 67, 68, 69, 70, 71, 72, 73, 74, 75, 76, 77, 78, 79, 80, 81, 82, 83, 84, 85, 86, 87,
     89, 106, 107, 113, 118, 119, 120, 121, 122]),
   (8, [38, 42, 44, 59, 88, 90]), (10, [33, 34, 40, 41, 63]), (11, [39, 43, 124]), (12, [35, 62]),
   (13, [0, 36, 64, 91, 93, 126]), (14, [94, 125]), (15, [60, 96, 123]), (19, [92, 195, 208]),
   (20, [128, 130, 131, 162, 184, 194, 224, 226]),
   (21, [153, 161, 167, 172, 176, 177, 179, 209, 216, 217, 227, 229, 230]),
   (22, [129, 132, 133, 134, 136, 146, 154, 156, 160, 163, 164, 169, 170, 173, 178, 181, 185, 186,
     187, 189, 190, 196, 198, 228, 232, 233]),
   (23, [1, 135, 137, 138, 139, 140, 141, 143, 147, 149, 150, 151, 152, 155, 157, 158, 165, 166, 168,
     174, 175, 180, 182, 183, 188, 191, 197, 231, 239]),
   (24, [9, 142, 144, 145, 148, 159, 171, 206, 215, 225, 236, 237]), (25, [199, 207, 234, 235]),
   (26, [192, 193, 200, 201, 202, 205, 210, 213, 218, 219, 238, 240, 242, 243, 255]),
   (27, [203, 204, 211, 212, 214, 221, 222, 223, 241, 244, 245, 246, 247, 248, 250, 251, 252, 253,
     254]),
   (28, [2, 3, 4, 5, 6, 7, 8, 11, 12, 14, 15, 16, 17, 18, 19, 20, 21, 23, 24, 25, 26, 27, 28, 29, 30,
     31, 127, 220, 249]),
   (30, [10, 13, 22, 256])]

/-- The canonical code: within a length the codes count up, and those of the next length go on
behind the last one. -/
def canonical : Nat → Nat → List (Nat × List Nat) → List (Nat × Nat × Nat)
  | _, _, [] => []
  | next, prev, (len, symbols) :: longer =>
      let first := next * 2 ^ (len - prev)
      symbols.mapIdx (fun i s => (s, first + i, len)) ++
        canonical (first + symbols.length) len longer

/-- The code of a symbol and its length. -/
def code (s : Nat) : Option (Nat × Nat) := (canonical 0 0 codeLengths).lookup s

theorem code_eq {s : Nat} (hs : s < 257) : code s = some (huffmanEntry s) := by
  have hall : ((List.range 257).all fun s => code s == some (huffmanEntry s)) = true := by
    decide +kernel
  exact beq_iff_eq.mp (List.all_eq_true.mp hall s (List.mem_range.mpr hs))

/-- The codes of octets, one behind the other. -/
def codedBits (octets : Bytes) : List Bool :=
  octets.flatMap fun b => (code b.toNat).elim [] fun (c, len) => Base.bitsOfNat len c

theorem codedBits_eq (octets : Bytes) : codedBits octets = H2.codedBits octets := by
  induction octets with
  | nil => rfl
  | cons b octets ih =>
      have hb : b.toNat < 257 := Nat.lt_succ_of_lt b.toNat_lt
      rw [H2.codedBits_cons, ← ih, codedBits, List.flatMap_cons, code_eq hb]
      rfl

/-! ## Integers -/

/-- The octets behind a full prefix: seven bits each, the low ones first, and all but the last
with the top bit set. -/
inductive IntTail : Bytes → Nat → Prop
  | last {b : UInt8} (h : b.toNat < 128) : IntTail [b] b.toNat
  | more {b : UInt8} {tail : Bytes} {n : Nat} (h : 128 ≤ b.toNat) (htail : IntTail tail n) :
      IntTail (b :: tail) (b.toNat - 128 + 128 * n)

/-- The octets are the number with a prefix of `k` bits. -/
inductive IsInt (k : Nat) : Bytes → Nat → Prop
  | small {b : UInt8} (h : b.toNat % 2 ^ k < 2 ^ k - 1) : IsInt k [b] (b.toNat % 2 ^ k)
  | full {b : UInt8} {tail : Bytes} {n : Nat} (h : b.toNat % 2 ^ k = 2 ^ k - 1)
      (htail : IntTail tail n) : IsInt k (b :: tail) (2 ^ k - 1 + n)

/-- What the RFC leaves open: whether a number written in so many octets is accepted, and the
size that a table size update sets (`none`: it is an error). -/
structure Profile where
  accepts : Nat → Nat → Prop
  sizeSet : Nat → Option Nat

/-- The octets are the number, and it is accepted. -/
structure Profile.Reads (p : Profile) (k : Nat) (bytes : Bytes) (n : Nat) : Prop where
  isInt : IsInt k bytes n
  accepted : p.accepts bytes.length n

/-! ## Strings -/

/-- A string literal, restricted to UTF-8. -/
inductive IsString (p : Profile) : Bytes → Text → Prop
  | raw {b : UInt8} {lead raw : Bytes} {t : Text} (hflag : b.toNat < 128)
      (hlen : p.Reads 7 (b :: lead) raw.length) (ht : fromUtf8 raw = some t) :
      IsString p (b :: lead ++ raw) t
  | coded {b : UInt8} {lead raw octets : Bytes} {n : Nat} {t : Text} (hflag : 128 ≤ b.toNat)
      (hlen : p.Reads 7 (b :: lead) raw.length) (hn : n < 8)
      (hbits : bitsOf raw = codedBits octets ++ padding n) (ht : fromUtf8 octets = some t) :
      IsString p (b :: lead ++ raw) t

/-! ## The table -/

/-- A dynamic table, newest entry first, and its maximum size. -/
@[ext]
structure Table where
  entries : List (Text × Text)
  max : Nat

/-- The newest entries that fit into `room`. -/
def keep : Nat → List (Text × Text) → List (Text × Text)
  | _, [] => []
  | room, e :: entries =>
      if entrySize e ≤ room then e :: keep (room - entrySize e) entries else []

namespace Table

def new : Table := { entries := [], max := 4096 }

/-- The entry at an index of the static and the dynamic table. -/
def entry (t : Table) (i : Nat) : Option (Text × Text) :=
  if i = 0 then none
  else if i ≤ 61 then (entriesOf staticNames)[i - 1]?.map fun (n, v) => (n.toList, v.toList)
  else t.entries[i - 62]?

/-- The oldest entries make room for a new one; one too large empties the table. -/
def add (t : Table) (e : Text × Text) : Table :=
  { t with entries :=
      if entrySize e ≤ t.max then e :: keep (t.max - entrySize e) t.entries else [] }

def resize (t : Table) (n : Nat) : Table := { entries := keep n t.entries, max := n }

end Table

/-! ## Representations -/

/-- The name of a literal: a string behind the index 0, or the name of an entry. -/
inductive IsName (p : Profile) (t : Table) : Nat → Bytes → Text → Prop
  | new {bytes : Bytes} {name : Text} (h : IsString p bytes name) : IsName p t 0 bytes name
  | indexed {i : Nat} {name value : Text} (h : t.entry i = some (name, value)) :
      IsName p t i [] name

/-- One representation: its octets, the header it stands for if it is not a table size update,
and the table after it. -/
inductive Field (p : Profile) (t : Table) : Bytes → Option (Text × Text) → Table → Prop
  | indexed {b : UInt8} {lead : Bytes} {i : Nat} {e : Text × Text} (hflag : 128 ≤ b.toNat)
      (hidx : p.Reads 7 (b :: lead) i) (hentry : t.entry i = some e) :
      Field p t (b :: lead) (some e) t
  | incremental {b : UInt8} {lead named valued : Bytes} {i : Nat} {name value : Text}
      (hflag : 64 ≤ b.toNat ∧ b.toNat < 128) (hidx : p.Reads 6 (b :: lead) i)
      (hname : IsName p t i named name) (hvalue : IsString p valued value) :
      Field p t (b :: lead ++ (named ++ valued)) (some (name, value)) (t.add (name, value))
  | resize {b : UInt8} {lead : Bytes} {n size : Nat} (hflag : 32 ≤ b.toNat ∧ b.toNat < 64)
      (hint : p.Reads 5 (b :: lead) n) (hsize : p.sizeSet n = some size) :
      Field p t (b :: lead) none (t.resize size)
  | plain {b : UInt8} {lead named valued : Bytes} {i : Nat} {name value : Text}
      (hflag : b.toNat < 32) (hidx : p.Reads 4 (b :: lead) i)
      (hname : IsName p t i named name) (hvalue : IsString p valued value) :
      Field p t (b :: lead ++ (named ++ valued)) (some (name, value)) t

/-- A block, the headers it stands for, and the table after it. -/
inductive Fields (p : Profile) : Table → Bytes → List (Text × Text) → Table → Prop
  | nil (t : Table) : Fields p t [] [] t
  | cons {t t' t'' : Table} {bytes rest : Bytes} {out : Option (Text × Text)}
      {headers : List (Text × Text)} (hfield : Field p t bytes out t')
      (hrest : Fields p t' rest headers t'') :
      Fields p t (bytes ++ rest) (out.toList ++ headers) t''

/-- A block decodes to a header list within the receiver's limit. -/
structure Decodes (p : Profile) (t : Table) (block : Bytes) (headers : List (Text × Text))
    (t' : Table) : Prop where
  fields : Fields p t block headers t'
  within : (headers.map entrySize).sum ≤ 256 * 1024

/-! ## Integers on the way -/

/-- The prefix of a representation that starts with `b`. -/
def prefixBits (b : UInt8) : Nat :=
  if 128 ≤ b.toNat then 7 else if 64 ≤ b.toNat then 6 else if 32 ≤ b.toNat then 5 else 4

/-- `b` starts a literal. -/
def IsLiteral (b : UInt8) : Prop := b.toNat < 32 ∨ 64 ≤ b.toNat ∧ b.toNat < 128

/-- Reading a block comes upon an integer with a prefix of `k` bits at the front of the
octets. -/
inductive Meets (p : Profile) : Table → Bytes → Nat → Bytes → Prop
  | first {t : Table} (b : UInt8) (rest : Bytes) :
      Meets p t (b :: rest) (prefixBits b) (b :: rest)
  | name {t : Table} {b : UInt8} {lead rest : Bytes} (hlit : IsLiteral b)
      (hidx : p.Reads (prefixBits b) (b :: lead) 0) : Meets p t (b :: lead ++ rest) 7 rest
  | value {t : Table} {b : UInt8} {lead named rest : Bytes} {i : Nat} {name : Text}
      (hlit : IsLiteral b) (hidx : p.Reads (prefixBits b) (b :: lead) i)
      (hname : IsName p t i named name) : Meets p t (b :: lead ++ (named ++ rest)) 7 rest
  | next {t t' : Table} {bytes rest octets : Bytes} {out : Option (Text × Text)} {k : Nat}
      (hfield : Field p t bytes out t') (h : Meets p t' rest k octets) :
      Meets p t (bytes ++ rest) k octets

end Rsurl.H2.Rfc
