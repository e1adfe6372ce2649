/-
# `Rsurl.Text.Utf8` — bytes of a text

An ASCII byte of an encoding is the character it is, and the lossy decoder
leaves what is valid as it was.
-/
import Mathlib.Tactic.IntervalCases
import Rsurl.Text

namespace Rsurl

/-! ## ASCII -/

theorem utf8Size_of_ascii {c : Char} (h : c.toNat < 128) : c.utf8Size = 1 :=
  Char.utf8Size_eq_one_iff.mpr (UInt32.le_iff_toNat_le.mpr (Nat.le_of_lt_succ h))

/-- A text whose first byte is ASCII begins with that character. -/
theorem exists_cons_of_ascii {t : Text} {b : UInt8} {bs : Bytes} (h : t.utf8 = b :: bs)
    (hb : b.toNat < 128) : ∃ (c : Char) (t' : Text), t = c :: t' ∧ c.toNat = b.toNat ∧ bs = t'.utf8 := by
  cases t with
  | nil => cases h
  | cons c t' =>
      rw [Text.utf8_cons] at h
      obtain ⟨b', bs', hbytes⟩ := List.exists_cons_of_ne_nil (String.utf8EncodeChar_ne_nil (c := c))
      rw [hbytes, List.cons_append] at h
      obtain ⟨rfl, hrest⟩ := List.cons.inj h
      have hc := toNat_of_mem_utf8EncodeChar (hbytes ▸ List.mem_cons_self) hb
      have hone : (String.utf8EncodeChar c).length = 1 := by
        rw [String.length_utf8EncodeChar, utf8Size_of_ascii (hc.trans_lt hb)]
      rw [hbytes, List.length_cons] at hone
      obtain rfl : bs' = [] := List.eq_nil_of_length_eq_zero (Nat.succ.inj hone)
      exact ⟨c, t', rfl, hc, hrest.symm⟩

theorem utf8_cons_ascii {c : Char} (h : c.toNat < 128) (t : Text) :
    Text.utf8 (c :: t) = UInt8.ofNat c.toNat :: t.utf8 := by
  rw [Text.utf8_cons, String.utf8EncodeChar_eq_singleton (utf8Size_of_ascii h)]
  rfl

/-! ## Lossy decoding -/

/-- A byte that goes on with a sequence. -/
theorem lossyFrom_continue {low high : UInt8} {n : Nat} (hlow : low.toNat ≤ n % 64 + 0x80)
    (hhigh : n % 64 + 0x80 ≤ high.toNat) (missing bits : Nat) (bs : Bytes) :
    lossyFrom (some ⟨missing, bits, low, high⟩) (UInt8.ofNat (n % 64 + 0x80) :: bs) =
      if missing ≤ 1 then Char.ofNat (bits * 64 + n % 64) :: lossyFrom none bs
      else lossyFrom (some ⟨missing - 1, bits * 64 + n % 64, 0x80, 0xBF⟩) bs := by
  have hval : (UInt8.ofNat (n % 64 + 0x80)).toNat = n % 64 + 0x80 := by
    rw [UInt8.toNat_ofNat']
    omega
  have hin : low ≤ UInt8.ofNat (n % 64 + 0x80) ∧ UInt8.ofNat (n % 64 + 0x80) ≤ high := by
    rw [UInt8.le_iff_toNat_le, UInt8.le_iff_toNat_le, hval]
    exact ⟨hlow, hhigh⟩
  have hbits : (UInt8.ofNat (n % 64 + 0x80)).toNat % 64 = n % 64 := by
    rw [hval]
    omega
  rw [lossyFrom, if_pos hin, hbits]

theorem startSequence_two {n : Nat} (hlow : 0xC2 ≤ n) (hhigh : n ≤ 0xDF) :
    startSequence (UInt8.ofNat n) = .inr ⟨1, n % 32, 0x80, 0xBF⟩ := by
  interval_cases n <;> rfl

theorem startSequence_three {n : Nat} (hlow : 0xE0 ≤ n) (hhigh : n ≤ 0xEF) :
    startSequence (UInt8.ofNat n) = .inr ⟨2, n % 16, if n = 0xE0 then 0xA0 else 0x80,
      if n = 0xED then 0x9F else 0xBF⟩ := by
  interval_cases n <;> rfl

theorem startSequence_four {n : Nat} (hlow : 0xF0 ≤ n) (hhigh : n ≤ 0xF4) :
    startSequence (UInt8.ofNat n) = .inr ⟨3, n % 8, if n = 0xF0 then 0x90 else 0x80,
      if n = 0xF4 then 0x8F else 0xBF⟩ := by
  interval_cases n <;> rfl

theorem lossyFrom_start {b : UInt8} {s : Begun} (h : startSequence b = .inr s) (bs : Bytes) :
    lossyFrom none (b :: bs) = lossyFrom (some s) bs := by
  rw [lossyFrom, h]

/-- A byte behind the first that any may follow. -/
theorem lossyFrom_any (missing bits n : Nat) (bs : Bytes) :
    lossyFrom (some ⟨missing, bits, 0x80, 0xBF⟩) (UInt8.ofNat (n % 64 + 0x80) :: bs) =
      if missing ≤ 1 then Char.ofNat (bits * 64 + n % 64) :: lossyFrom none bs
      else lossyFrom (some ⟨missing - 1, bits * 64 + n % 64, 0x80, 0xBF⟩) bs := by
  have hlt : n % 64 < 64 := Nat.mod_lt _ (by decide)
  have h80 : (0x80 : UInt8).toNat = 128 := rfl
  have hBF : (0xBF : UInt8).toNat = 191 := rfl
  exact lossyFrom_continue (by omega) (by omega) missing bits bs

theorem lossyFrom_two {v : Nat} (hlow : 0x7F < v) (hhigh : v ≤ 0x7FF) (bs : Bytes) :
    lossyFrom none (UInt8.ofNat (v / 64 % 32 + 0xC0) :: UInt8.ofNat (v % 64 + 0x80) :: bs) =
      Char.ofNat v :: lossyFrom none bs := by
  have hbits : (v / 64 % 32 + 0xC0) % 32 * 64 + v % 64 = v := by omega
  rw [lossyFrom_start (startSequence_two (by omega) (by omega)), lossyFrom_any,
    if_pos (Nat.le_refl 1), hbits]

/-- The second of three bytes rules out what is too long, and the surrogates. -/
theorem second_of_three {q : Nat} (hlow : 32 ≤ q) (hhigh : q < 1024) (h : q < 864 ∨ 896 ≤ q) :
    (if q / 64 % 16 + 0xE0 = 0xE0 then 0xA0 else 0x80 : UInt8).toNat ≤ q % 64 + 0x80 ∧
      q % 64 + 0x80 ≤ (if q / 64 % 16 + 0xE0 = 0xED then 0x9F else 0xBF : UInt8).toNat := by
  have h80 : (0x80 : UInt8).toNat = 128 := rfl
  have h9F : (0x9F : UInt8).toNat = 159 := rfl
  have hA0 : (0xA0 : UInt8).toNat = 160 := rfl
  have hBF : (0xBF : UInt8).toNat = 191 := rfl
  constructor
  · split
    · rw [hA0]
      omega
    · rw [h80]
      omega
  · split
    · rw [h9F]
      omega
    · rw [hBF]
      omega

/-- The second of four bytes rules out what is too long, and what is too large. -/
theorem second_of_four {q : Nat} (hlow : 16 ≤ q) (hhigh : q < 272) :
    (if q / 64 % 8 + 0xF0 = 0xF0 then 0x90 else 0x80 : UInt8).toNat ≤ q % 64 + 0x80 ∧
      q % 64 + 0x80 ≤ (if q / 64 % 8 + 0xF0 = 0xF4 then 0x8F else 0xBF : UInt8).toNat := by
  have h80 : (0x80 : UInt8).toNat = 128 := rfl
  have h8F : (0x8F : UInt8).toNat = 143 := rfl
  have h90 : (0x90 : UInt8).toNat = 144 := rfl
  have hBF : (0xBF : UInt8).toNat = 191 := rfl
  constructor
  · split
    · rw [h90]
      omega
    · rw [h80]
      omega
  · split
    · rw [h8F]
      omega
    · rw [hBF]
      omega

theorem lossyFrom_three {v : Nat} (hlow : 0x7FF < v) (hhigh : v ≤ 0xFFFF)
    (hvalid : v < 0xD800 ∨ 0xDFFF < v) (bs : Bytes) :
    lossyFrom none (UInt8.ofNat (v / 4096 % 16 + 0xE0) :: UInt8.ofNat (v / 64 % 64 + 0x80) ::
      UInt8.ofNat (v % 64 + 0x80) :: bs) = Char.ofNat v :: lossyFrom none bs := by
  have hq : v / 4096 = v / 64 / 64 := (Nat.div_div_eq_div_mul v 64 64).symm
  have hsecond := second_of_three (q := v / 64) (by omega) (by omega) (by omega)
  have hstart : startSequence (UInt8.ofNat (v / 64 / 64 % 16 + 0xE0)) = _ :=
    startSequence_three (by omega) (by omega)
  have hbits : ((v / 64 / 64 % 16 + 0xE0) % 16 * 64 + v / 64 % 64) * 64 + v % 64 = v := by omega
  rw [hq, lossyFrom_start hstart, lossyFrom_continue hsecond.1 hsecond.2, if_neg (by decide),
    lossyFrom_any, if_pos (Nat.le_refl 1), hbits]

theorem lossyFrom_four {v : Nat} (hlow : 0xFFFF < v) (hhigh : v < 0x110000) (bs : Bytes) :
    lossyFrom none (UInt8.ofNat (v / 262144 % 8 + 0xF0) :: UInt8.ofNat (v / 4096 % 64 + 0x80) ::
      UInt8.ofNat (v / 64 % 64 + 0x80) :: UInt8.ofNat (v % 64 + 0x80) :: bs) =
      Char.ofNat v :: lossyFrom none bs := by
  have hq : v / 262144 = v / 4096 / 64 := (Nat.div_div_eq_div_mul v 4096 64).symm
  have hsecond := second_of_four (q := v / 4096) (by omega) (by omega)
  have hstart : startSequence (UInt8.ofNat (v / 4096 / 64 % 8 + 0xF0)) = _ :=
    startSequence_four (by omega) (by omega)
  have hbits : (((v / 4096 / 64 % 8 + 0xF0) % 8 * 64 + v / 4096 % 64) * 64 + v / 64 % 64) * 64 +
      v % 64 = v := by omega
  rw [hq, lossyFrom_start hstart, lossyFrom_continue hsecond.1 hsecond.2, if_neg (by decide),
    lossyFrom_any, if_neg (by decide), lossyFrom_any, if_pos (Nat.le_refl 1), hbits]

/-- A character that is there completely is decoded. -/
theorem lossyFrom_utf8EncodeChar (c : Char) (bs : Bytes) :
    lossyFrom none (String.utf8EncodeChar c ++ bs) = c :: lossyFrom none bs := by
  have hvalid : c.toNat < 0xD800 ∨ (0xDFFF < c.toNat ∧ c.toNat < 0x110000) := c.valid
  have hof : Char.ofNat c.toNat = c := Char.ofNat_toNat c
  have hnat : c.val.toNat = c.toNat := rfl
  unfold String.utf8EncodeChar
  dsimp only
  rw [hnat]
  generalize c.toNat = v at hvalid hof
  by_cases h1 : v ≤ 0x7F
  · have hstart : startSequence (UInt8.ofNat v) = .inl (Char.ofNat v) := by
      interval_cases v <;> rfl
    rw [if_pos h1, List.singleton_append, lossyFrom, hstart, hof]
  rw [if_neg h1]
  by_cases h2 : v ≤ 0x7FF
  · rw [if_pos h2, ← hof]
    exact lossyFrom_two (Nat.lt_of_not_le h1) h2 bs
  rw [if_neg h2]
  by_cases h3 : v ≤ 0xFFFF
  · rw [if_pos h3, ← hof]
    exact lossyFrom_three (Nat.lt_of_not_le h2) h3 (hvalid.imp_right And.left) bs
  · rw [if_neg h3, ← hof]
    exact lossyFrom_four (Nat.lt_of_not_le h3) (by omega) bs

theorem fromUtf8Lossy_utf8_append (t : Text) (bs : Bytes) :
    fromUtf8Lossy (t.utf8 ++ bs) = t ++ fromUtf8Lossy bs := by
  induction t with
  | nil => rfl
  | cons c t ih =>
      rw [Text.utf8_cons, List.append_assoc, fromUtf8Lossy, lossyFrom_utf8EncodeChar]
      exact congrArg (c :: ·) ih

/-- Lossy decoding of valid UTF-8 is its decoding. -/
theorem fromUtf8Lossy_utf8 (t : Text) : fromUtf8Lossy t.utf8 = t := by
  have h := fromUtf8Lossy_utf8_append t []
  have hnil : fromUtf8Lossy [] = [] := rfl
  rwa [List.append_nil, hnil, List.append_nil] at h

end Rsurl
