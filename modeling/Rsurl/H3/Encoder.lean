/-
# `Rsurl.H3.Encoder` — the field sections a request is sent with

`encode_field_section` refers to the static table only.  What it writes is a
field section of RFC 9204 for a table that never had an entry, so what the
decoder makes of it is known already.  A function that pushes to `out` returns
what it pushes.
-/
import Rsurl.H2.EncoderSpec
import Rsurl.H3.Conformance

namespace Rsurl.H3

namespace Qpack

/-- `find_indexed`. -/
def findIndexed (name value : Text) : Option Nat :=
  staticTable.findIdx? fun (n, v) => n.toList == name && v.toList == value

/-- `find_name`. -/
def findName (name : Text) : Option Nat := staticTable.findIdx? fun (n, _) => n.toList == name

/-- `encode_int`; the bytes behind a full prefix are those of the other copy. -/
def encodeInt (value prefixBits : Nat) (prefixHighBits : UInt8) : Bytes :=
  let maxPrefix := 2 ^ prefixBits - 1
  if value < maxPrefix then [prefixHighBits ||| UInt8.ofNat value]
  else (prefixHighBits ||| UInt8.ofNat maxPrefix) :: H2.encodeIntRest (value - maxPrefix)

/-- `encode_string_7bit`. -/
def encodeString7bit (s : Text) : Bytes := encodeInt s.utf8.length 7 0x00 ++ s.utf8

/-- `encode_name_3bit`. -/
def encodeName3bit (s : Text) : Bytes := encodeInt s.utf8.length 3 0x20 ++ s.utf8

/-- `encode_field`. -/
def encodeField (name value : Text) : Bytes :=
  match findIndexed name value with
  | some idx => encodeInt idx 6 0xc0
  | none =>
      match findName name with
      | some idx => encodeInt idx 4 0x50 ++ encodeString7bit value
      | none => encodeName3bit name ++ encodeString7bit value

/-- `encode_field_section`. -/
def encodeFieldSection (fields : Fields) : Bytes :=
  encodeInt 0 8 0x00 ++ encodeInt 0 7 0x00 ++ fields.flatMap fun (n, v) => encodeField n v

end Qpack

open Rfc (Reads IsContent IsString IsLine FieldSection Encodes)
open H2.Rfc (IsInt)
open Qpack

/-! ## Integers -/

/-- The first octet keeps the pattern bits, and the rest follows. -/
theorem encodeInt_eq_cons (value k : Nat) (high : UInt8) :
    ∃ n lead, n < 2 ^ k ∧ encodeInt value k high = (high ||| UInt8.ofNat n) :: lead := by
  have hpos := Nat.two_pow_pos k
  simp only [encodeInt]
  split
  · exact ⟨value, [], by omega, rfl⟩
  · exact ⟨2 ^ k - 1, _, by omega, rfl⟩

/-- Nor does the integer reach into them. -/
theorem and_pattern {k n : Nat} {mask : UInt8} (high : UInt8) (hk : k ≤ 8) (hn : n < 2 ^ k)
    (hmask : mask.toNat % 2 ^ k = 0) : (high ||| UInt8.ofNat n) &&& mask = high &&& mask := by
  have hle : 2 ^ k ≤ 2 ^ 8 := Nat.pow_le_pow_right (by decide) hk
  have hapart : UInt8.ofNat n &&& mask = 0 := by
    rw [← UInt8.toNat_inj, UInt8.toNat_and, H2.toNat_ofNat_of_lt (by omega)]
    refine Nat.eq_of_testBit_eq fun i => ?_
    rw [Nat.testBit_and, UInt8.toNat_zero, Nat.zero_testBit]
    by_cases hi : i < k
    · have hbit := congrArg (Nat.testBit · i) hmask
      simp only [Nat.testBit_mod_two_pow, hi, decide_true, Bool.true_and,
        Nat.zero_testBit] at hbit
      rw [hbit, Bool.and_false]
    · have hpow : 2 ^ k ≤ 2 ^ i := Nat.pow_le_pow_right (by decide) (Nat.le_of_not_lt hi)
      rw [Nat.testBit_lt_two_pow (by omega), Bool.false_and]
  rw [← UInt8.toNat_inj, UInt8.toNat_and, UInt8.toNat_or, Nat.and_or_distrib_right,
    ← UInt8.toNat_and (UInt8.ofNat n), hapart, UInt8.toNat_zero, Nat.or_zero, UInt8.toNat_and]

section Integers

variable {k : Nat} {high : UInt8} (hk : k ≤ 8) (hhigh : high.toNat % 2 ^ k = 0)
include hk hhigh

/-- The pattern bits stay above the prefix. -/
theorem low_bits {n : Nat} (hn : n < 2 ^ k) : (high ||| UInt8.ofNat n).toNat % 2 ^ k = n := by
  have hle : 2 ^ k ≤ 2 ^ 8 := Nat.pow_le_pow_right (by decide) hk
  rw [UInt8.toNat_or, H2.toNat_ofNat_of_lt (by omega), Nat.or_mod_two_pow, hhigh, Nat.zero_or,
    Nat.mod_eq_of_lt hn]

theorem isInt_encodeInt (value : Nat) : IsInt k (encodeInt value k high) value := by
  have hpos := Nat.two_pow_pos k
  by_cases hlt : value < 2 ^ k - 1
  · have hlow : (high ||| UInt8.ofNat value).toNat % 2 ^ k = value :=
      low_bits hk hhigh (by omega)
    have henc : encodeInt value k high = [high ||| UInt8.ofNat value] := if_pos hlt
    have hint : IsInt k [high ||| UInt8.ofNat value] _ := .small (by omega)
    rw [hlow] at hint
    rw [henc]
    exact hint
  · have henc : encodeInt value k high =
        (high ||| UInt8.ofNat (2 ^ k - 1)) :: H2.encodeIntRest (value - (2 ^ k - 1)) := if_neg hlt
    have hint : IsInt k _ (2 ^ k - 1 + (value - (2 ^ k - 1))) :=
      .full (low_bits hk hhigh (by omega)) (H2.intTail_encodeIntRest (value - (2 ^ k - 1)))
    have hvalue : 2 ^ k - 1 + (value - (2 ^ k - 1)) = value := by omega
    rw [hvalue] at hint
    rw [henc]
    exact hint

/-- What is written is an integer of at most ten octets behind its prefix. -/
theorem reads_encodeInt {value : Nat} (hv : value < 2 ^ 64) :
    Reads k (encodeInt value k high) value := by
  refine ⟨isInt_encodeInt hk hhigh value, ?_, hv⟩
  simp only [encodeInt]
  split
  · exact (by decide : 1 ≤ 11)
  · have hrest := @H2.length_encodeIntRest 9 (value - (2 ^ k - 1)) (by omega)
    exact Nat.succ_le_succ hrest

end Integers

/-! ## The static table -/

theorem staticEntry_of_findIndexed {name value : Text} {idx : Nat}
    (h : findIndexed name value = some idx) : staticEntry idx = some (name, value) := by
  obtain ⟨hlt, hmatch, -⟩ := List.findIdx?_eq_some_iff_getElem.mp h
  obtain ⟨hname, hvalue⟩ := Bool.and_eq_true_iff.mp hmatch
  rw [staticEntry, List.getElem?_eq_getElem hlt, Option.map_some]
  exact congrArg some (Prod.ext (eq_of_beq hname) (eq_of_beq hvalue))

theorem staticEntry_of_findName {name : Text} {idx : Nat} (h : findName name = some idx) :
    ∃ value, staticEntry idx = some (name, value) := by
  obtain ⟨hlt, hmatch, -⟩ := List.findIdx?_eq_some_iff_getElem.mp h
  refine ⟨staticTable[idx].2.toList, ?_⟩
  rw [staticEntry, List.getElem?_eq_getElem hlt, Option.map_some]
  exact congrArg some (Prod.ext (eq_of_beq hmatch) rfl)

theorem lt_of_staticEntry {idx : Nat} {e : Text × Text} (h : staticEntry idx = some e) :
    idx < 2 ^ 64 := by
  obtain ⟨e', hget, -⟩ := Option.map_eq_some_iff.mp h
  have hlt : idx < 99 := (List.getElem?_eq_some_iff.mp hget).1
  omega

/-! ## Lines -/

/-- The literals of a field line: the length, and the text as it is. -/
theorem isString_encodeString7bit {s : Text} (h : s.utf8.length < 2 ^ 64) :
    IsString (encodeString7bit s) s := by
  have hread : Reads 7 (encodeInt s.utf8.length 7 0x00) s.utf8.length :=
    reads_encodeInt (by decide) (by decide) h
  obtain ⟨n, lead, hn, henc⟩ := encodeInt_eq_cons s.utf8.length 7 0x00
  rw [henc] at hread
  have hflag : (0x00 ||| UInt8.ofNat n) &&& 0x80 = 0 := by
    rw [and_pattern _ (by decide) hn (by decide)]
    decide
  have hraw : IsContent ((0x00 ||| UInt8.ofNat n) &&& 0x80 ≠ 0) s.utf8 s := by
    rw [decide_eq_false (not_not_intro hflag)]
    exact .raw (fromUtf8_utf8 s)
  rw [encodeString7bit, henc, List.cons_append]
  exact .intro hread hraw

/-- A line for the field that needs no insert. -/
structure Stands (bytes : Bytes) (e : Text × Text) (line : Line) : Prop where
  isLine : IsLine bytes line
  field : ∀ (t : Rfc.Table) (base : Nat), line.field (t.refer base) = some e
  static : ∀ base, line.ref?.bind (Rfc.index base) = none

theorem encodeField_stands {name value : Text} (hname : name.utf8.length < 2 ^ 64)
    (hvalue : value.utf8.length < 2 ^ 64) :
    ∃ line, Stands (encodeField name value) (name, value) line := by
  have hstring := isString_encodeString7bit hvalue
  rw [encodeField]
  split
  · next idx hfind =>
      have hentry := staticEntry_of_findIndexed hfind
      have hread : Reads 6 (encodeInt idx 6 0xc0) idx :=
        reads_encodeInt (by decide) (by decide) (lt_of_staticEntry hentry)
      obtain ⟨n, lead, hn, henc⟩ := encodeInt_eq_cons idx 6 0xc0
      rw [henc] at hread ⊢
      refine ⟨.indexed (.static idx), .indexedStatic ?_ hread, fun t base => hentry, fun _ => rfl⟩
      rw [and_pattern _ (by decide) hn (by decide), and_pattern _ (by decide) hn (by decide)]
      decide
  split
  · next idx hfind =>
      obtain ⟨value', hentry⟩ := staticEntry_of_findName hfind
      have hread : Reads 4 (encodeInt idx 4 0x50) idx :=
        reads_encodeInt (by decide) (by decide) (lt_of_staticEntry hentry)
      obtain ⟨n, lead, hn, henc⟩ := encodeInt_eq_cons idx 4 0x50
      rw [henc] at hread
      rw [henc, List.cons_append]
      refine ⟨.named (.static idx) value, .staticName ?_ hread hstring, fun t base => ?_,
        fun _ => rfl⟩
      · rw [and_pattern _ (by decide) hn (by decide), and_pattern _ (by decide) hn (by decide),
          and_pattern _ (by decide) hn (by decide)]
        decide
      · show (staticEntry idx).map _ = _
        rw [hentry]
        rfl
  · have hread : Reads 3 (encodeInt name.utf8.length 3 0x20) name.utf8.length :=
      reads_encodeInt (by decide) (by decide) hname
    obtain ⟨n, lead, hn, henc⟩ := encodeInt_eq_cons name.utf8.length 3 0x20
    rw [henc] at hread
    rw [encodeName3bit, henc, List.cons_append, List.cons_append, List.append_assoc]
    refine ⟨.literal name value, .literal ?_ hread ?_ hstring, fun t base => rfl, fun _ => rfl⟩
    · rw [and_pattern _ (by decide) hn (by decide), and_pattern _ (by decide) hn (by decide),
        and_pattern _ (by decide) hn (by decide)]
      decide
    · rw [and_pattern _ (by decide) hn (by decide)]
      exact .raw (fromUtf8_utf8 name)

/-- The lines of the fields. -/
theorem encodes_encodeFields {fields : Fields} (h : H2.listSize fields < 2 ^ 64) :
    ∃ lines, Encodes (fields.flatMap fun (n, v) => encodeField n v) lines ∧
      (∀ (t : Rfc.Table) (base : Nat), lines.mapM (Line.field (t.refer base)) = some fields) ∧
      ∀ base, Rfc.requiredInsertCount base lines = 0 := by
  induction fields with
  | nil => exact ⟨[], .nil, fun _ _ => rfl, fun _ => rfl⟩
  | cons e fields ih =>
      have hsize : H2.listSize (e :: fields) = H2.entrySize e + H2.listSize fields := rfl
      have hentry : H2.entrySize e = e.1.utf8.length + e.2.utf8.length + 32 := rfl
      obtain ⟨line, hline, hfield, hstatic⟩ :=
        @encodeField_stands e.1 e.2 (by omega) (by omega)
      obtain ⟨lines, hlines, hfields, hcount⟩ := ih (by omega)
      refine ⟨line :: lines, .cons hline hlines, fun t base => ?_, fun base => ?_⟩
      · rw [List.mapM_cons, hfield, hfields]
        rfl
      · rw [Rfc.requiredInsertCount, hstatic, hcount]
        rfl

/-- Every list of fields that is within the decoder's limit comes back, and no acknowledgement
is owed for it. -/
theorem decode_encodeFieldSection {fields : Fields}
    (hsize : H2.listSize fields ≤ maxDecodedHeaderList) :
    decodeFieldSectionWith (encodeFieldSection fields) .new = .ok fields ∧
      blockReferencesDynamicTable (encodeFieldSection fields) = false := by
  have hlimit : maxDecodedHeaderList < 2 ^ 64 := by decide
  obtain ⟨lines, hlines, hfields, hcount⟩ :=
    encodes_encodeFields (Nat.lt_of_le_of_lt hsize hlimit)
  have hric : Reads 8 [0] (Rfc.encodedInsertCount (Rfc.requiredInsertCount 0 lines)) := by
    rw [hcount]
    exact reads_small (by decide) (by decide)
  have hdelta : Reads 7 [0] 0 := reads_small (by decide) (by decide)
  have hbase : if (0 : UInt8) &&& 0x80 ≠ 0 then Rfc.requiredInsertCount 0 lines = 0 + 0 + 1
      else 0 = Rfc.requiredInsertCount 0 lines + 0 := by
    rw [hcount]
    decide
  have hsection : FieldSection .new (encodeFieldSection fields) fields :=
    .intro hric hdelta (by decide) hbase hlines (hfields _ _)
  exact ⟨decodeFieldSectionWith_of_fieldSection tracks_new (by decide) hsection hsize, rfl⟩

/-- The three kinds of line: indexed, a name of the static table, a literal name. -/
theorem decode_encodeFieldSection_request :
    decodeFieldSectionWith (encodeFieldSection [(":method".toList, "GET".toList),
        (":path".toList, "/index.html".toList), ("x-custom".toList, "hello".toList)]) .new =
      .ok [(":method".toList, "GET".toList), (":path".toList, "/index.html".toList),
        ("x-custom".toList, "hello".toList)] :=
  (decode_encodeFieldSection (by decide)).1

end Rsurl.H3
