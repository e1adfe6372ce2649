/-
# `Rsurl.Text` — the `str` operations the client is written in

A Rust `str` is a sequence of Unicode scalar values, and so is a `List Char`;
`Text` is that list.  Every slice the client takes is at an ASCII delimiter,
where byte positions and character positions cut the same pieces, and every
`bytes().any(..)` test it makes is about ASCII bytes, which occur in a UTF-8
encoding only as the characters they are.  `Text.utf8` is the encoding itself,
`fromUtf8` is `String::from_utf8`.
-/
import Mathlib.Algebra.GroupWithZero.Nat
import Mathlib.Data.List.DropRight
import Rsurl.Base.Cut

namespace Rsurl

abbrev Text := List Char

abbrev Bytes := List UInt8

instance : LawfulBEq Text := inferInstance

/-! ## UTF-8 -/

/-- `str::as_bytes`. -/
def Text.utf8 (t : Text) : Bytes := t.flatMap String.utf8EncodeChar

/-- `String::from_utf8`, with the error dropped. -/
def fromUtf8 (bs : Bytes) : Option Text :=
  bs.toByteArray.utf8Decode?.map Array.toList

theorem fromUtf8_utf8 (t : Text) : fromUtf8 t.utf8 = some t := by
  have h : t.utf8.toByteArray = List.utf8Encode t := rfl
  simp [fromUtf8, h, List.utf8Decode?_utf8Encode]

@[simp] theorem Text.utf8_nil : Text.utf8 [] = [] := rfl

@[simp] theorem Text.utf8_append (s t : Text) :
    Text.utf8 (s ++ t) = Text.utf8 s ++ Text.utf8 t := by
  simp [Text.utf8]

theorem Text.utf8_cons (c : Char) (t : Text) :
    Text.utf8 (c :: t) = String.utf8EncodeChar c ++ Text.utf8 t := rfl

theorem Text.utf8_eq_nil {t : Text} : t.utf8 = [] ↔ t = [] := by
  cases t with
  | nil => simp
  | cons c t => simp [Text.utf8_cons, String.utf8EncodeChar_ne_nil]

theorem toNat_of_mem_utf8EncodeChar {c : Char} {b : UInt8}
    (h : b ∈ String.utf8EncodeChar c) (hb : b.toNat < 128) : c.toNat = b.toNat := by
  have hc : c.toNat ≤ 0x10ffff := by
    have hvalid := c.valid
    simp only [UInt32.isValidChar, Nat.isValidChar] at hvalid
    simp only [Char.toNat]
    omega
  simp only [Char.toNat] at hc ⊢
  unfold String.utf8EncodeChar at h
  dsimp only at h
  split at h
  · next hv =>
      obtain rfl := List.mem_singleton.mp h
      rw [UInt8.toNat_ofNat']
      exact (Nat.mod_eq_of_lt (by omega)).symm
  -- the bytes of a longer encoding all have the top bit set
  split at h
  · simp only [List.mem_cons, List.not_mem_nil, or_false] at h
    rcases h with rfl | rfl <;> simp at hb <;> omega
  split at h
  · simp only [List.mem_cons, List.not_mem_nil, or_false] at h
    rcases h with rfl | rfl | rfl <;> simp at hb <;> omega
  · simp only [List.mem_cons, List.not_mem_nil, or_false] at h
    rcases h with rfl | rfl | rfl | rfl <;> simp at hb <;> omega

/-- An ASCII byte occurs in an encoding only as the character it is. -/
theorem Text.not_mem_utf8 {t : Text} {c : Char} (hc : c.toNat < 128) (h : c ∉ t) :
    UInt8.ofNat c.toNat ∉ t.utf8 := by
  intro hmem
  obtain ⟨d, hd, hb⟩ := List.mem_flatMap.mp hmem
  have hval : (UInt8.ofNat c.toNat).toNat = c.toNat := by
    rw [UInt8.toNat_ofNat']
    exact Nat.mod_eq_of_lt (by omega)
  have hlt : (UInt8.ofNat c.toNat).toNat < 128 := by
    rw [hval]
    exact hc
  have hdc : d.toNat = c.toNat := (toNat_of_mem_utf8EncodeChar hb hlt).trans hval
  exact h (Char.toNat_inj.mp hdc ▸ hd)

/-- A UTF-8 sequence that has begun: how many bytes are missing, the bits so far, and the range
the next byte must be in. -/
structure Begun where
  missing : Nat
  bits : Nat
  low : UInt8
  high : UInt8

/-- What a byte is at the start of a sequence: a character, the replacement of one, or the first
of several bytes. -/
def startSequence (b : UInt8) : Sum Char Begun :=
  if b < 0x80 then .inl (Char.ofNat b.toNat)
  else if 0xC2 ≤ b ∧ b ≤ 0xDF then .inr ⟨1, b.toNat % 32, 0x80, 0xBF⟩
  else if 0xE0 ≤ b ∧ b ≤ 0xEF then
    .inr ⟨2, b.toNat % 16, if b = 0xE0 then 0xA0 else 0x80, if b = 0xED then 0x9F else 0xBF⟩
  else if 0xF0 ≤ b ∧ b ≤ 0xF4 then
    .inr ⟨3, b.toNat % 8, if b = 0xF0 then 0x90 else 0x80, if b = 0xF4 then 0x8F else 0xBF⟩
  else .inl '\uFFFD'

/-- `String::from_utf8_lossy`, from inside a sequence or between two: each longest piece of a
sequence that breaks off is one replacement character. -/
def lossyFrom : Option Begun → Bytes → Text
  | none, [] => []
  | some _, [] => ['\uFFFD']
  | none, b :: bs =>
      match startSequence b with
      | .inl c => c :: lossyFrom none bs
      | .inr s => lossyFrom (some s) bs
  | some s, b :: bs =>
      if s.low ≤ b ∧ b ≤ s.high then
        let bits := s.bits * 64 + b.toNat % 64
        if s.missing ≤ 1 then Char.ofNat bits :: lossyFrom none bs
        else lossyFrom (some ⟨s.missing - 1, bits, 0x80, 0xBF⟩) bs
      else
        '\uFFFD' ::
          match startSequence b with
          | .inl c => c :: lossyFrom none bs
          | .inr s => lossyFrom (some s) bs

def fromUtf8Lossy (bs : Bytes) : Text := lossyFrom none bs

/-- `str::len`: the length of the encoding. -/
def Text.len (t : Text) : Nat := t.utf8.length

/-! ## ASCII letters and digits -/

theorem isUpper_iff {c : Char} : c.isUpper = true ↔ 65 ≤ c.toNat ∧ c.toNat ≤ 90 :=
  decide_eq_true_iff

theorem isLower_iff {c : Char} : c.isLower = true ↔ 97 ≤ c.toNat ∧ c.toNat ≤ 122 :=
  (Bool.and_eq_true _ _).to_iff.trans (and_congr decide_eq_true_iff decide_eq_true_iff)

theorem isDigit_iff {c : Char} : c.isDigit = true ↔ 48 ≤ c.toNat ∧ c.toNat ≤ 57 :=
  (Bool.and_eq_true _ _).to_iff.trans (and_congr decide_eq_true_iff decide_eq_true_iff)

theorem isAlpha_iff {c : Char} :
    c.isAlpha = true ↔ (65 ≤ c.toNat ∧ c.toNat ≤ 90) ∨ (97 ≤ c.toNat ∧ c.toNat ≤ 122) :=
  (Bool.or_eq_true _ _).to_iff.trans (or_congr isUpper_iff isLower_iff)

theorem isAlphanum_iff {c : Char} :
    c.isAlphanum = true ↔ c.isAlpha = true ∨ c.isDigit = true :=
  (Bool.or_eq_true _ _).to_iff

theorem toLower_of_not_upper {c : Char} (h : ¬(65 ≤ c.toNat ∧ c.toNat ≤ 90)) : c.toLower = c :=
  dif_neg h

theorem toNat_toLower {c : Char} (h : 65 ≤ c.toNat ∧ c.toNat ≤ 90) :
    c.toLower.toNat = c.toNat + 32 := by
  have hlower : c.toLower.val = c.val + 32 := congrArg Char.val (dif_pos h)
  have hvalue : c.val.toNat ≤ 90 := h.2
  rw [Char.toNat, hlower, UInt32.toNat_add]
  exact Nat.mod_eq_of_lt (by change c.val.toNat + 32 < 2 ^ 32; omega)

theorem toUpper_of_not_lower {c : Char} (h : ¬(97 ≤ c.toNat ∧ c.toNat ≤ 122)) : c.toUpper = c :=
  dif_neg h

theorem toNat_toUpper {c : Char} (h : 97 ≤ c.toNat ∧ c.toNat ≤ 122) :
    c.toUpper.toNat = c.toNat - 32 := by
  have hupper : c.toUpper.val = c.val + ('A'.val - 'a'.val) := by
    rw [show c.toUpper = _ from dif_pos h]
  have hvalue : 97 ≤ c.val.toNat ∧ c.val.toNat ≤ 122 := h
  rw [Char.toNat, hupper, UInt32.toNat_add]
  change (c.val.toNat + 4294967264) % 4294967296 = c.val.toNat - 32
  omega

/-! ## ASCII case -/

/-- `str::to_ascii_lowercase`. -/
def Text.toAsciiLowercase (t : Text) : Text := t.map Char.toLower

/-- `str::to_ascii_uppercase`. -/
def Text.toAsciiUppercase (t : Text) : Text := t.map Char.toUpper

/-- Lower-casing makes no letter out of anything else. -/
theorem isAlpha_of_toLower {c : Char} (h : c.toLower.isAlpha = true) : c.isAlpha = true := by
  by_cases hupper : 65 ≤ c.toNat ∧ c.toNat ≤ 90
  · exact isAlpha_iff.mpr (.inl hupper)
  · rwa [toLower_of_not_upper hupper] at h

/-- `str::eq_ignore_ascii_case`. -/
def Text.eqIgnoreAsciiCase (s t : Text) : Bool :=
  s.toAsciiLowercase == t.toAsciiLowercase

theorem toUpper_toLower (c : Char) : c.toLower.toUpper = c.toUpper := by
  by_cases h : 65 ≤ c.toNat ∧ c.toNat ≤ 90
  · have hlower := toNat_toLower h
    rw [toUpper_of_not_lower (by omega : ¬(97 ≤ c.toNat ∧ c.toNat ≤ 122))]
    refine Char.toNat_inj.mp ?_
    rw [toNat_toUpper (by omega), hlower, Nat.add_sub_cancel]
  · rw [toLower_of_not_upper h]

theorem toUpper_toUpper (c : Char) : c.toUpper.toUpper = c.toUpper := by
  by_cases h : 97 ≤ c.toNat ∧ c.toNat ≤ 122
  · have hupper := toNat_toUpper h
    exact toUpper_of_not_lower (by omega)
  · rw [toUpper_of_not_lower h, toUpper_of_not_lower h]

theorem Text.toAsciiUppercase_lowercase (t : Text) :
    t.toAsciiLowercase.toAsciiUppercase = t.toAsciiUppercase := by
  simp only [Text.toAsciiLowercase, Text.toAsciiUppercase, List.map_map]
  exact List.map_congr_left fun c _ => toUpper_toLower c

theorem Text.toAsciiUppercase_idem (t : Text) :
    t.toAsciiUppercase.toAsciiUppercase = t.toAsciiUppercase := by
  simp only [Text.toAsciiUppercase, List.map_map]
  exact List.map_congr_left fun c _ => toUpper_toUpper c

/-- Among upper-case texts, equality up to case is equality. -/
theorem Text.eq_of_eqIgnoreAsciiCase {s t : Text} (hs : s.toAsciiUppercase = s)
    (ht : t.toAsciiUppercase = t) (h : Text.eqIgnoreAsciiCase s t = true) : s = t := by
  have hlow : s.toAsciiLowercase = t.toAsciiLowercase := by
    simpa [Text.eqIgnoreAsciiCase] using h
  calc s = s.toAsciiUppercase := hs.symm
    _ = s.toAsciiLowercase.toAsciiUppercase := (Text.toAsciiUppercase_lowercase s).symm
    _ = t.toAsciiLowercase.toAsciiUppercase := by rw [hlow]
    _ = t.toAsciiUppercase := Text.toAsciiUppercase_lowercase t
    _ = t := ht

/-! ## White space -/

/-- The Unicode `White_Space` property, which `str::trim` uses. -/
def isWhitespace (c : Char) : Bool :=
  (9 ≤ c.toNat && c.toNat ≤ 13) || c.toNat == 0x20 || c.toNat == 0x85 ||
    c.toNat == 0xA0 || c.toNat == 0x1680 ||
    (0x2000 ≤ c.toNat && c.toNat ≤ 0x200A) || c.toNat == 0x2028 ||
    c.toNat == 0x2029 || c.toNat == 0x202F || c.toNat == 0x205F ||
    c.toNat == 0x3000

/-- `str::trim`. -/
def Text.trim (t : Text) : Text :=
  (t.dropWhile isWhitespace).rdropWhile isWhitespace

/-- `str::trim_end_matches(['\r', '\n'])`. -/
def Text.trimEndCrlf (t : Text) : Text :=
  t.rdropWhile fun c => c == '\r' || c == '\n'

/-! ## Delimiters -/

/-- `str::split_once` at a character. -/
def Text.splitOnce (c : Char) (t : Text) : Option (Text × Text) :=
  (Base.cut (· == c) t).map fun (a, _, b) => (a, b)

/-- `str::rsplit_once` at a character. -/
def Text.rsplitOnce (c : Char) (t : Text) : Option (Text × Text) :=
  (Base.rcut (· == c) t).map fun (a, _, b) => (a, b)

/-- `str::split_once` at a string. -/
def Text.splitOnceStr (pat t : Text) : Option (Text × Text) := Base.cutSub pat t

theorem Text.splitOnce_eq_some {c : Char} {t a b : Text} :
    Text.splitOnce c t = some (a, b) ↔ t = a ++ c :: b ∧ c ∉ a := by
  simp only [Text.splitOnce, Option.map_eq_some_iff, Prod.exists, Prod.mk.injEq]
  constructor
  · rintro ⟨a', x, b', hcut, rfl, rfl⟩
    obtain ⟨rfl, hx, ha⟩ := Base.cut_eq_some.mp hcut
    obtain rfl : x = c := by simpa using hx
    exact ⟨rfl, fun hc => by simpa using ha _ hc⟩
  · rintro ⟨rfl, ha⟩
    refine ⟨a, c, b, Base.cut_append (fun y hy => ?_) (by simp), rfl, rfl⟩
    have hne : y ≠ c := fun h => ha (h ▸ hy)
    simpa using hne

theorem Text.splitOnce_eq_none {c : Char} {t : Text} :
    Text.splitOnce c t = none ↔ c ∉ t := by
  simp only [Text.splitOnce, Option.map_eq_none_iff, Base.cut_eq_none]
  constructor
  · intro h hc
    simpa using h c hc
  · intro h x hx
    have hne : x ≠ c := fun he => h (he ▸ hx)
    simpa using hne

theorem Text.rsplitOnce_eq_some {c : Char} {t a b : Text} :
    Text.rsplitOnce c t = some (a, b) ↔ t = a ++ c :: b ∧ c ∉ b := by
  simp only [Text.rsplitOnce, Option.map_eq_some_iff, Prod.exists, Prod.mk.injEq]
  constructor
  · rintro ⟨a', x, b', hcut, rfl, rfl⟩
    obtain ⟨rfl, hx, hb⟩ := Base.rcut_eq_some.mp hcut
    obtain rfl : x = c := by simpa using hx
    exact ⟨rfl, fun hc => by simpa using hb _ hc⟩
  · rintro ⟨rfl, hb⟩
    refine ⟨a, c, b, Base.rcut_append (by simp) (fun y hy => ?_), rfl, rfl⟩
    have hne : y ≠ c := fun h => hb (h ▸ hy)
    simpa using hne

theorem Text.rsplitOnce_eq_none {c : Char} {t : Text} :
    Text.rsplitOnce c t = none ↔ c ∉ t := by
  simp only [Text.rsplitOnce, Option.map_eq_none_iff, Base.rcut_eq_none]
  constructor
  · intro h hc
    simpa using h c hc
  · intro h x hx
    have hne : x ≠ c := fun he => h (he ▸ hx)
    simpa using hne

/-! ## Numbers -/

/-- `{}` of an unsigned integer. -/
def decimal (n : Nat) : Text := Nat.toDigits 10 n

theorem isDigit_of_mem_decimal {n : Nat} {c : Char} (h : c ∈ decimal n) :
    c.isDigit = true :=
  Nat.isDigit_of_mem_toDigits (by decide) (by decide) h

theorem not_mem_decimal {n : Nat} {c : Char} (hc : c.isDigit = false) : c ∉ decimal n := by
  intro hmem
  rw [isDigit_of_mem_decimal hmem] at hc
  contradiction

theorem decimal_ne_nil (n : Nat) : decimal n ≠ [] := Nat.toDigits_ne_nil

/-- `char::to_digit(16)`. -/
def hexDigit (c : Char) : Option Nat :=
  if '0' ≤ c ∧ c ≤ '9' then some (c.toNat - '0'.toNat)
  else if 'a' ≤ c ∧ c ≤ 'f' then some (c.toNat - 'a'.toNat + 10)
  else if 'A' ≤ c ∧ c ≤ 'F' then some (c.toNat - 'A'.toNat + 10)
  else none

/-- `char::to_digit(radix)` for a radix of at most 16. -/
def toDigit (radix : Nat) (c : Char) : Option Nat :=
  (hexDigit c).filter (· < radix)

/-- The digits of `from_str_radix`: every character a digit, every partial
value at most `max`. -/
def parseDigits (radix max : Nat) : Nat → Text → Option Nat
  | acc, [] => some acc
  | acc, c :: t =>
      match toDigit radix c with
      | none => none
      | some d =>
          if acc * radix + d ≤ max then parseDigits radix max (acc * radix + d) t
          else none

/-- The digits after an optional `+`. -/
def stripPlus : Text → Text
  | '+' :: t => t
  | t => t

/-- `from_str_radix` of an unsigned type with largest value `max`: an optional
`+`, then at least one digit. -/
def parseUnsigned (radix max : Nat) (t : Text) : Option Nat :=
  if stripPlus t = [] then none else parseDigits radix max 0 (stripPlus t)

/-- `str::parse::<u16>`. -/
def parseU16 (t : Text) : Option UInt16 :=
  (parseUnsigned 10 65535 t).map UInt16.ofNat

theorem toDigit_ten_of_isDigit {c : Char} (h : c.isDigit = true) :
    toDigit 10 c = some (c.toNat - '0'.toNat) := by
  have hr := isDigit_iff.mp h
  have hd : '0' ≤ c ∧ c ≤ '9' := by
    simpa [Char.le_def, UInt32.le_iff_toNat_le] using hr
  have hlt : c.toNat - '0'.toNat < 10 := by
    have : '0'.toNat = 48 := rfl
    omega
  rw [toDigit, hexDigit, if_pos hd, Option.filter_some, if_pos (by simpa using hlt)]

/-- Every partial value of a digit loop is at most its result. -/
theorem parseDigits_eq_some {max acc n : Nat} {t : Text}
    (hd : ∀ c ∈ t, c.isDigit = true) (hacc : acc ≤ max)
    (h : parseDigits 10 max acc t = some n) :
    n = Nat.ofDigitChars 10 t acc ∧ n ≤ max := by
  induction t generalizing acc with
  | nil =>
      obtain rfl : acc = n := by simpa [parseDigits] using h
      exact ⟨rfl, hacc⟩
  | cons c t ih =>
      have hc := toDigit_ten_of_isDigit (hd c List.mem_cons_self)
      simp only [parseDigits, hc] at h
      split at h
      · next hle =>
          rw [Nat.ofDigitChars_cons, Nat.mul_comm 10 acc]
          exact ih (fun x hx => hd x (List.mem_cons_of_mem _ hx)) hle h
      · cases h

theorem isSome_toDigit_of_parseDigits {radix max acc n : Nat} {t : Text}
    (h : parseDigits radix max acc t = some n) :
    ∀ c ∈ t, (toDigit radix c).isSome = true := by
  induction t generalizing acc with
  | nil => simp
  | cons c t ih =>
      simp only [parseDigits] at h
      split at h
      · cases h
      next d hd =>
      split at h
      · intro x hx
        rcases List.mem_cons.mp hx with rfl | hx
        · simp [hd]
        · exact ih h x hx
      · cases h

/-- A number is an optional `+` and at least one digit. -/
theorem parseUnsigned_eq_some {radix max v : Nat} {t : Text}
    (h : parseUnsigned radix max t = some v) :
    ∃ digits, (t = '+' :: digits ∨ t = digits) ∧ digits ≠ [] ∧
      parseDigits radix max 0 digits = some v := by
  have hstrip : t = '+' :: stripPlus t ∨ t = stripPlus t := by
    unfold stripPlus
    split
    · exact .inl rfl
    · exact .inr rfl
  simp only [parseUnsigned] at h
  split at h
  · cases h
  · next hne => exact ⟨stripPlus t, hstrip, hne, h⟩

theorem mem_of_parseU16 {t : Text} {n : UInt16} (h : parseU16 t = some n) {c : Char}
    (hc : c ∈ t) : c = '+' ∨ (toDigit 10 c).isSome = true := by
  obtain ⟨v, hv, -⟩ := Option.map_eq_some_iff.mp h
  obtain ⟨digits, ht, -, hparse⟩ := parseUnsigned_eq_some hv
  have hall := isSome_toDigit_of_parseDigits hparse
  rcases ht with rfl | rfl
  · rcases List.mem_cons.mp hc with rfl | hc
    · exact .inl rfl
    · exact .inr (hall c hc)
  · exact .inr (hall c hc)

/-- A port made of digits is the number they write. -/
theorem parseU16_digits {t : Text} {n : UInt16} (hd : ∀ c ∈ t, c.isDigit = true)
    (h : parseU16 t = some n) : t ≠ [] ∧ n.toNat = Nat.ofDigitChars 10 t 0 := by
  obtain ⟨v, hv, rfl⟩ := Option.map_eq_some_iff.mp h
  obtain ⟨digits, ht, hne, hparse⟩ := parseUnsigned_eq_some hv
  rcases ht with rfl | rfl
  · exact absurd (hd '+' List.mem_cons_self) (by decide)
  · obtain ⟨rfl, hle⟩ := parseDigits_eq_some hd (Nat.zero_le _) hparse
    exact ⟨hne, by simpa using Nat.lt_succ_of_le hle⟩

theorem parseDigits_ofDigitChars {max : Nat} {t : Text} {acc : Nat}
    (hd : ∀ c ∈ t, c.isDigit = true) (hmax : Nat.ofDigitChars 10 t acc ≤ max) :
    parseDigits 10 max acc t = some (Nat.ofDigitChars 10 t acc) := by
  induction t generalizing acc with
  | nil => simp [parseDigits]
  | cons c t ih =>
      have hc := toDigit_ten_of_isDigit (hd c List.mem_cons_self)
      have htail : ∀ x ∈ t, x.isDigit = true :=
        fun x hx => hd x (List.mem_cons_of_mem _ hx)
      rw [Nat.ofDigitChars_cons] at hmax ⊢
      have hle : acc * 10 + (c.toNat - '0'.toNat) ≤ max := by
        refine le_trans ?_ hmax
        rw [Nat.ofDigitChars_eq_ofDigitChars_zero, Nat.mul_comm acc 10]
        refine le_trans ?_ (Nat.le_add_right _ _)
        exact Nat.le_mul_of_pos_left _ (Nat.pow_pos (by decide))
      simp only [parseDigits, hc, if_pos hle]
      rw [Nat.mul_comm acc 10]
      exact ih htail hmax

theorem stripPlus_of_digits {t : Text} (hd : ∀ c ∈ t, c.isDigit = true) :
    stripPlus t = t := by
  unfold stripPlus
  split
  · exact absurd (hd '+' List.mem_cons_self) (by decide)
  · rfl

/-- A port survives printing. -/
theorem parseU16_decimal (n : UInt16) : parseU16 (decimal n.toNat) = some n := by
  have hd : ∀ c ∈ decimal n.toNat, c.isDigit = true := fun c hc => isDigit_of_mem_decimal hc
  have hval : Nat.ofDigitChars 10 (decimal n.toNat) 0 = n.toNat :=
    Nat.ofDigitChars_ten_toDigits
  have hle : Nat.ofDigitChars 10 (decimal n.toNat) 0 ≤ 65535 := by
    rw [hval]
    exact Nat.le_of_lt_succ n.toNat_lt
  rw [parseU16, parseUnsigned, stripPlus_of_digits hd, if_neg (decimal_ne_nil _),
    parseDigits_ofDigitChars hd hle, hval, Option.map_some, UInt16.ofNat_toNat]

end Rsurl
