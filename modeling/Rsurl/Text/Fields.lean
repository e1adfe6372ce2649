/-
# `Rsurl.Text.Fields` — lists of pieces and signed numbers

The `str` operations the line formats use: `split` and `split_whitespace`,
`strip_prefix`, a byte-counted prefix, and `parse` of the signed types.
-/
import Rsurl.Text

namespace Rsurl

/-! ## Pieces -/

/-- `str::split` at a character. -/
def Text.split (c : Char) (t : Text) : List Text := t.splitOn c

/-- `str::split_whitespace`. -/
def Text.splitWhitespace (t : Text) : List Text :=
  (t.splitOnP isWhitespace).filter fun w => !w.isEmpty

/-- `str::strip_prefix`. -/
def Text.stripPrefix (pat t : Text) : Option Text :=
  if pat.isPrefixOf t then some (t.drop pat.length) else none

theorem Text.stripPrefix_eq_some {pat t rest : Text} :
    Text.stripPrefix pat t = some rest ↔ t = pat ++ rest := by
  simp only [Text.stripPrefix]
  split
  · next h =>
      obtain ⟨r, rfl⟩ := List.isPrefixOf_iff_prefix.mp h
      simp [eq_comm]
  · next h =>
      simp only [reduceCtorEq, false_iff]
      rintro rfl
      exact h (List.isPrefixOf_iff_prefix.mpr (List.prefix_append _ _))

/-- `str::get(..n)`: the prefix of `n` bytes, when the cut is between two characters. -/
def Text.takeBytes : Text → Nat → Option Text
  | _, 0 => some []
  | [], _ + 1 => none
  | c :: t, n + 1 =>
      if c.utf8Size ≤ n + 1 then (Text.takeBytes t (n + 1 - c.utf8Size)).map (c :: ·) else none

/-- `str::trim_matches` of a character. -/
def Text.trimMatches (c : Char) (t : Text) : Text :=
  (t.dropWhile (· == c)).rdropWhile (· == c)

/-- `str::trim_start_matches` of a character. -/
def Text.trimStartMatches (c : Char) (t : Text) : Text := t.dropWhile (· == c)

theorem Text.trimStartMatches_eq_self {c : Char} {t : Text} (h : t.head? ≠ some c) :
    Text.trimStartMatches c t = t := by
  cases t with
  | nil => rfl
  | cons a t =>
      have ha : a ≠ c := fun he => h (he ▸ rfl)
      simp [Text.trimStartMatches, ha]

theorem Text.head?_trimStartMatches (c : Char) (t : Text) :
    (Text.trimStartMatches c t).head? ≠ some c := by
  have h := List.head?_dropWhile_not (· == c) t
  rw [Text.trimStartMatches]
  intro hc
  simp [hc] at h

theorem toLower_toLower (c : Char) : c.toLower.toLower = c.toLower := by
  by_cases h : 65 ≤ c.toNat ∧ c.toNat ≤ 90
  · have hlower := toNat_toLower h
    exact toLower_of_not_upper (by omega)
  · rw [toLower_of_not_upper h, toLower_of_not_upper h]

/-- Lower-casing again changes nothing. -/
theorem Text.toAsciiLowercase_idem (t : Text) :
    t.toAsciiLowercase.toAsciiLowercase = t.toAsciiLowercase := by
  simp only [Text.toAsciiLowercase, List.map_map]
  exact List.map_congr_left fun c _ => toLower_toLower c

theorem Text.eqIgnoreAsciiCase_lower (s t : Text) :
    Text.eqIgnoreAsciiCase s.toAsciiLowercase t = Text.eqIgnoreAsciiCase s t := by
  rw [Text.eqIgnoreAsciiCase, Text.toAsciiLowercase_idem, Text.eqIgnoreAsciiCase]

theorem trim_of_digits {t : Text} (h : ∀ c ∈ t, c.isDigit = true) : t.trim = t := by
  have hspace : ∀ c ∈ t, ¬ isWhitespace c = true := by
    intro c hc hspace
    have hdigit := isDigit_iff.mp (h c hc)
    simp only [isWhitespace, Bool.or_eq_true, Bool.and_eq_true, decide_eq_true_eq,
      beq_iff_eq] at hspace
    omega
  have hfront : t.dropWhile isWhitespace = t :=
    List.dropWhile_eq_self_iff.mpr fun _ => hspace _ (List.getElem_mem _)
  rw [Text.trim, hfront]
  exact List.rdropWhile_eq_self_iff.mpr fun hne => hspace _ (List.getLast_mem hne)

/-- What is decoded is the encoding of what comes out. -/
theorem utf8_of_fromUtf8 {bs : Bytes} {t : Text} (h : fromUtf8 bs = some t) : t.utf8 = bs := by
  obtain ⟨chars, hchars, rfl⟩ := Option.map_eq_some_iff.mp h
  have hsome : bs.toByteArray.utf8Decode?.isSome := by rw [hchars]; rfl
  have hencode := ByteArray.utf8Encode_get_utf8Decode? (h := hsome)
  simp only [hchars, Option.get_some] at hencode
  have hdata := congrArg (fun b : ByteArray => b.data.toList) hencode
  simpa [List.utf8Encode, Text.utf8] using hdata

/-! ## Signed numbers -/

/-- `from_str_radix(10)` of a signed type with largest value `max`. -/
def parseSigned (max : Nat) : Text → Option Int
  | '-' :: t => if t = [] then none else (parseDigits 10 (max + 1) 0 t).map fun n => -(n : Int)
  | t => (parseUnsigned 10 max t).map Int.ofNat

/-- `str::parse::<i32>`. -/
def parseI32 (t : Text) : Option Int32 := (parseSigned (2 ^ 31 - 1) t).map Int32.ofInt

/-- `str::parse::<i64>`. -/
def parseI64 (t : Text) : Option Int := parseSigned (2 ^ 63 - 1) t

/-- `str::parse::<u32>`. -/
def parseU32 (t : Text) : Option UInt32 := (parseUnsigned 10 (2 ^ 32 - 1) t).map UInt32.ofNat

/-- `str::parse::<u8>`. -/
def parseU8 (t : Text) : Option UInt8 := (parseUnsigned 10 255 t).map UInt8.ofNat

theorem parseUnsigned_decimal {max n : Nat} (h : n ≤ max) :
    parseUnsigned 10 max (decimal n) = some n := by
  have hd : ∀ c ∈ decimal n, c.isDigit = true := fun c hc => isDigit_of_mem_decimal hc
  have hval : Nat.ofDigitChars 10 (decimal n) 0 = n := Nat.ofDigitChars_ten_toDigits
  rw [parseUnsigned, stripPlus_of_digits hd, if_neg (decimal_ne_nil _),
    parseDigits_ofDigitChars hd (hval.symm ▸ h), hval]

theorem parseUnsigned_decimal_of_lt {max n : Nat} (h : max < n) :
    parseUnsigned 10 max (decimal n) = none := by
  have hd : ∀ c ∈ decimal n, c.isDigit = true := fun c hc => isDigit_of_mem_decimal hc
  have hval : Nat.ofDigitChars 10 (decimal n) 0 = n := Nat.ofDigitChars_ten_toDigits
  rw [parseUnsigned, stripPlus_of_digits hd, if_neg (decimal_ne_nil _)]
  by_contra hsome
  obtain ⟨v, hv⟩ := Option.ne_none_iff_exists'.mp hsome
  obtain ⟨rfl, hle⟩ := parseDigits_eq_some hd (Nat.zero_le _) hv
  omega

/-- A decimal is not a negative number. -/
theorem parseSigned_decimal (max n : Nat) :
    parseSigned max (decimal n) = (parseUnsigned 10 max (decimal n)).map Int.ofNat := by
  unfold parseSigned
  split
  · next t heq =>
      have hdigit := isDigit_of_mem_decimal (n := n) (c := '-') (heq ▸ List.mem_cons_self)
      exact absurd hdigit (by decide)
  · rfl

/-- An unsigned decimal is an `i64` as long as it fits. -/
theorem parseI64_decimal (n : Nat) :
    parseI64 (decimal n) = if n < 2 ^ 63 then some (n : Int) else none := by
  rw [parseI64, parseSigned_decimal]
  split
  · next h => rw [parseUnsigned_decimal (by omega)]; rfl
  · next h => rw [parseUnsigned_decimal_of_lt (by omega)]; rfl

end Rsurl
