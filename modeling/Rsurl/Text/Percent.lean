/-
# `Rsurl.Text.Percent` — percent-encoding

The client decodes the components of a URL after it has cut them apart.  A byte
may be written as the unreserved character that it is, or behind a percent sign
in two hexadecimal digits; in either form it is decoded to itself, and neither
form has a delimiter in it.
-/
import Rsurl.Text.Numerals
import Rsurl.Text.Utf8

namespace Rsurl

/-! ## Decoding -/

/-- A hexadecimal digit. -/
def hexVal (b : UInt8) : Option UInt8 :=
  if 0x30 ≤ b ∧ b ≤ 0x39 then some (b - 0x30)
  else if 0x61 ≤ b ∧ b ≤ 0x66 then some (10 + b - 0x61)
  else if 0x41 ≤ b ∧ b ≤ 0x46 then some (10 + b - 0x41)
  else none

/-- The loop of a decoder; an escape that is none passes as it is. -/
def percentDecodeBytes : Bytes → Bytes
  | 0x25 :: h :: l :: rest =>
      match hexVal h, hexVal l with
      | some h, some l => ((h <<< 4) ||| l) :: percentDecodeBytes rest
      | _, _ => 0x25 :: percentDecodeBytes (h :: l :: rest)
  | b :: rest => b :: percentDecodeBytes rest
  | [] => []

theorem percentDecodeBytes_plain {b : UInt8} (h : b ≠ 0x25) (rest : Bytes) :
    percentDecodeBytes (b :: rest) = b :: percentDecodeBytes rest := by
  rw [percentDecodeBytes]
  rintro h' l rest' rfl -
  exact h rfl

theorem percentDecodeBytes_escape {h l b c : UInt8} (hh : hexVal h = some b) (hl : hexVal l = some c)
    (rest : Bytes) :
    percentDecodeBytes (0x25 :: h :: l :: rest) = ((b <<< 4) ||| c) :: percentDecodeBytes rest := by
  rw [percentDecodeBytes, hh, hl]

/-! ## Encoding -/

/-- The characters that RFC 3986 reserves for nothing. -/
def isUnreserved (c : Char) : Bool :=
  c.isAlphanum || c == '-' || c == '.' || c == '_' || c == '~'

/-- Bytes, and a way to write them in a URL. -/
inductive Escaped : Bytes → Text → Prop
  | nil : Escaped [] []
  | plain {c : Char} {bytes : Bytes} {e : Text} (hc : isUnreserved c = true)
      (hrest : Escaped bytes e) : Escaped (UInt8.ofNat c.toNat :: bytes) (c :: e)
  | escape {h l : Char} {high low : Nat} {bytes : Bytes} {e : Text} (hh : hexDigit h = some high)
      (hl : hexDigit l = some low) (hrest : Escaped bytes e) :
      Escaped (UInt8.ofNat (16 * high + low) :: bytes) ('%' :: h :: l :: e)

/-- A digit as the usual form has it. -/
def upperHex (n : Nat) : Char := Char.ofNat (if n < 10 then 48 + n else 55 + n)

/-- The usual form: whatever is not unreserved is escaped. -/
def percentEncode (t : Text) : Text :=
  t.utf8.flatMap fun b =>
    if isUnreserved (Char.ofNat b.toNat) then [Char.ofNat b.toNat]
    else ['%', upperHex (b.toNat / 16), upperHex (b.toNat % 16)]

theorem hexDigit_upperHex {n : Nat} (h : n < 16) : hexDigit (upperHex n) = some n := by
  have hall : ∀ n : Fin 16, hexDigit (upperHex n.val) = some n.val := by decide +kernel
  exact hall ⟨n, h⟩

theorem escaped_percentEncode (t : Text) : Escaped t.utf8 (percentEncode t) := by
  have hchar : ∀ n : Fin 256, (Char.ofNat n.val).toNat = n.val := by decide +kernel
  rw [percentEncode]
  induction t.utf8 with
  | nil => exact .nil
  | cons b bytes ih =>
      have hlt := b.toNat_lt
      rw [List.flatMap_cons]
      split
      · next hplain =>
          have hstep := Escaped.plain hplain ih
          rwa [hchar ⟨b.toNat, hlt⟩, UInt8.ofNat_toNat] at hstep
      · have hstep := Escaped.escape (hexDigit_upperHex (n := b.toNat / 16) (by omega))
          (hexDigit_upperHex (n := b.toNat % 16) (by omega)) ih
        have hval : 16 * (b.toNat / 16) + b.toNat % 16 = b.toNat := Nat.div_add_mod _ _
        rwa [hval, UInt8.ofNat_toNat] at hstep

/-- The digits of an escape, for the writer and for the decoder. -/
theorem hexVal_of_hexDigit {c : Char} {d : Nat} (h : hexDigit c = some d) :
    c.toNat < 128 ∧ d < 16 ∧ c.isAlphanum = true ∧
      hexVal (UInt8.ofNat c.toNat) = some (UInt8.ofNat d) := by
  have hall : ∀ n : Fin 103, (hexDigit (Char.ofNat n.val)).all (fun d => d < 16 &&
      (Char.ofNat n.val).isAlphanum && hexVal (UInt8.ofNat n.val) == some (UInt8.ofNat d)) = true := by
    decide +kernel
  have hhigh := (hexDigit_bounds h).2
  have hc := hall ⟨c.toNat, Nat.lt_succ_of_le hhigh⟩
  rw [Char.ofNat_toNat, h] at hc
  simp only [Option.all_some, Bool.and_eq_true, decide_eq_true_eq, beq_iff_eq] at hc
  obtain ⟨⟨hd, halpha⟩, hval⟩ := hc
  exact ⟨by omega, hd, halpha, hval⟩

/-- Two digits as the bits of a byte. -/
theorem combine_digits {a b : Nat} (ha : a < 16) (hb : b < 16) :
    (UInt8.ofNat a <<< 4) ||| UInt8.ofNat b = UInt8.ofNat (16 * a + b) := by
  have hall : ∀ a b : Fin 16, (UInt8.ofNat a.val <<< 4) ||| UInt8.ofNat b.val =
      UInt8.ofNat (16 * a.val + b.val) := by decide +kernel
  exact hall ⟨a, ha⟩ ⟨b, hb⟩

theorem isUnreserved_ascii {c : Char} (h : isUnreserved c = true) :
    c.toNat < 128 ∧ UInt8.ofNat c.toNat ≠ 0x25 := by
  have hascii : c.toNat < 128 := by
    simp only [isUnreserved, Bool.or_eq_true, beq_iff_eq] at h
    rcases h with (((h | rfl) | rfl) | rfl) | rfl
    · rw [isAlphanum_iff, isAlpha_iff, isDigit_iff] at h
      omega
    all_goals decide
  refine ⟨hascii, fun hbyte => ?_⟩
  have hval : (UInt8.ofNat c.toNat).toNat = c.toNat := by
    rw [UInt8.toNat_ofNat']
    omega
  rw [hbyte] at hval
  obtain rfl : '%' = c := Char.toNat_inj.mp hval
  cases h

namespace Escaped

variable {bytes : Bytes} {e : Text}

/-- What is decoded does not depend on what comes behind. -/
theorem decode_append (h : Escaped bytes e) (rest : Bytes) :
    percentDecodeBytes (e.utf8 ++ rest) = bytes ++ percentDecodeBytes rest := by
  induction h with
  | nil => rfl
  | plain hc hrest ih =>
      obtain ⟨hascii, hpercent⟩ := isUnreserved_ascii hc
      rw [utf8_cons_ascii hascii, List.cons_append, percentDecodeBytes_plain hpercent, ih]
      rfl
  | escape hh hl hrest ih =>
      obtain ⟨hascii, hlt, -, hval⟩ := hexVal_of_hexDigit hh
      obtain ⟨hascii', hlt', -, hval'⟩ := hexVal_of_hexDigit hl
      rw [utf8_cons_ascii (by decide), utf8_cons_ascii hascii, utf8_cons_ascii hascii',
        List.cons_append, List.cons_append, List.cons_append]
      refine (percentDecodeBytes_escape hval hval' _).trans ?_
      rw [combine_digits hlt hlt', ih]
      rfl

theorem decode (h : Escaped bytes e) : percentDecodeBytes e.utf8 = bytes := by
  have hall := h.decode_append []
  rwa [List.append_nil, percentDecodeBytes, List.append_nil] at hall

/-- An escaped text has no other characters than these. -/
theorem chars (h : Escaped bytes e) : ∀ c ∈ e, isUnreserved c = true ∨ c = '%' := by
  induction h with
  | nil => exact nofun
  | plain hc hrest ih => exact List.forall_mem_cons.mpr ⟨.inl hc, ih⟩
  | escape hh hl hrest ih =>
      have hdigit : ∀ {c : Char} {d : Nat}, hexDigit c = some d → isUnreserved c = true := by
        intro c d hc
        simp [isUnreserved, (hexVal_of_hexDigit hc).2.2.1]
      exact List.forall_mem_cons.mpr ⟨.inr rfl, List.forall_mem_cons.mpr ⟨.inl (hdigit hh),
        List.forall_mem_cons.mpr ⟨.inl (hdigit hl), ih⟩⟩⟩

/-- A delimiter is none of them. -/
theorem not_mem (h : Escaped bytes e) {c : Char} (hc : isUnreserved c = false) (hpercent : c ≠ '%') :
    c ∉ e := by
  intro hmem
  rcases h.chars c hmem with hplain | hescape
  · rw [hc] at hplain
    cases hplain
  · exact hpercent hescape

theorem visible (h : Escaped bytes e) : ∀ c ∈ e, isWhitespace c = false := by
  have hall : ∀ n : Fin 128, isUnreserved (Char.ofNat n.val) = true →
      isWhitespace (Char.ofNat n.val) = false := by decide +kernel
  intro c hc
  rcases h.chars c hc with hplain | rfl
  · have hc := hall ⟨c.toNat, (isUnreserved_ascii hplain).1⟩
    rw [Char.ofNat_toNat] at hc
    exact hc hplain
  · rfl

theorem ne_nil (h : Escaped bytes e) (hne : bytes ≠ []) : e ≠ [] := by
  cases h with
  | nil => exact absurd rfl hne
  | plain => exact List.cons_ne_nil _ _
  | escape => exact List.cons_ne_nil _ _

end Escaped

/-- A component, decoded. -/
theorem decode_escaped {t e : Text} (h : Escaped t.utf8 e) :
    fromUtf8Lossy (percentDecodeBytes e.utf8) = t := by
  rw [h.decode, fromUtf8Lossy_utf8]

end Rsurl
