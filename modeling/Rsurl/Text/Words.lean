/-
# `Rsurl.Text.Words` — words, pieces and padded numbers

What `split_whitespace` and `split` make of a text that was put together from
words and pieces, and how `parse` reads a number that was padded with zeros.
-/
import Rsurl.Text.Fields

namespace Rsurl

/-! ## Words -/

theorem splitWhitespace_sep (t rest : Text) {c : Char} (hc : isWhitespace c = true) :
    Text.splitWhitespace (t ++ c :: rest) = t.splitWhitespace ++ Text.splitWhitespace rest := by
  rw [Text.splitWhitespace, List.splitOnP_append_cons _ _ hc, List.filter_append]
  rfl

theorem splitWhitespace_last {w : Text} (hw : ∀ c ∈ w, isWhitespace c = false) (hne : w ≠ []) :
    w.splitWhitespace = [w] := by
  rw [Text.splitWhitespace, List.splitOnP_eq_singleton hw, List.filter_cons_of_pos]
  · rfl
  · rw [Bool.not_eq_true', List.isEmpty_eq_false_iff]
    exact hne

/-- The first word and those behind it. -/
theorem splitWhitespace_word {w : Text} (hw : ∀ c ∈ w, isWhitespace c = false) (hne : w ≠ [])
    (rest : Text) :
    Text.splitWhitespace (w ++ ' ' :: rest) = w :: Text.splitWhitespace rest := by
  rw [splitWhitespace_sep w rest (by decide), splitWhitespace_last hw hne, List.singleton_append]

theorem splitWhitespace_blank {c : Char} (hc : isWhitespace c = true) (rest : Text) :
    Text.splitWhitespace (c :: rest) = Text.splitWhitespace rest := splitWhitespace_sep [] rest hc

/-- Blanks around the words make no difference. -/
theorem splitWhitespace_trim (t : Text) : t.trim.splitWhitespace = t.splitWhitespace := by
  have hback : ∀ t : Text,
      Text.splitWhitespace (t.rdropWhile isWhitespace) = t.splitWhitespace := by
    intro t
    induction t using List.reverseRecOn with
    | nil => rfl
    | append_singleton t c ih =>
        by_cases hc : isWhitespace c = true
        · rw [List.rdropWhile_concat_pos _ _ _ hc, ih, splitWhitespace_sep t [] hc]
          exact (List.append_nil _).symm
        · rw [List.rdropWhile_concat_neg _ _ _ hc]
  have hfront : ∀ t : Text, Text.splitWhitespace (t.dropWhile isWhitespace) = t.splitWhitespace := by
    intro t
    induction t with
    | nil => rfl
    | cons c t ih =>
        by_cases hc : isWhitespace c = true
        · rw [List.dropWhile_cons_of_pos hc, ih, splitWhitespace_blank hc]
        · rw [List.dropWhile_cons_of_neg hc]
  rw [Text.trim, hback, hfront]

/-- Nothing is trimmed off a text that begins and ends with something visible. -/
theorem trim_of_ends {t : Text} (hfront : ∀ c ∈ t.head?, isWhitespace c = false)
    (hback : ∀ c ∈ t.getLast?, isWhitespace c = false) : t.trim = t := by
  have hdrop : t.dropWhile isWhitespace = t := by
    cases t with
    | nil => rfl
    | cons c t =>
        rw [List.dropWhile_cons_of_neg]
        rw [hfront c rfl]
        exact Bool.false_ne_true
  rw [Text.trim, hdrop, List.rdropWhile_eq_self_iff]
  intro hne hlast
  rw [hback _ (List.getLast?_eq_some_getLast hne)] at hlast
  cases hlast

/-! ## Pieces -/

theorem split_piece {w : Text} {c : Char} (h : c ∉ w) (rest : Text) :
    Text.split c (w ++ c :: rest) = w :: Text.split c rest := by
  have hw : ∀ x ∈ w, (x == c) = false := fun x hx => beq_eq_false_iff_ne.mpr fun he => h (he ▸ hx)
  rw [Text.split, List.splitOn_eq_splitOnP, List.splitOnP_append_cons_of_forall_mem hw c BEq.rfl]
  rfl

theorem split_last {w : Text} {c : Char} (h : c ∉ w) : Text.split c w = [w] := by
  have hw : ∀ x ∈ w, (x == c) = false := fun x hx => beq_eq_false_iff_ne.mpr fun he => h (he ▸ hx)
  rw [Text.split, List.splitOn_eq_splitOnP, List.splitOnP_eq_singleton hw]

/-! ## Padded numbers -/

/-- The last `k` decimal digits of a number. -/
def padded : Nat → Nat → Text
  | 0, _ => []
  | k + 1, n => padded k (n / 10) ++ [Nat.digitChar (n % 10)]

theorem padded_ne_nil (k n : Nat) : padded (k + 1) n ≠ [] := by simp [padded]

theorem isDigit_padded {k n : Nat} {c : Char} (h : c ∈ padded k n) : c.isDigit = true := by
  induction k generalizing n with
  | zero => cases h
  | succ k ih =>
      rcases List.mem_append.mp h with h | h
      · exact ih h
      · rw [List.mem_singleton.mp h, Nat.isDigit_digitChar]
        exact decide_eq_true (Nat.mod_lt _ (by decide))

theorem not_mem_padded {k n : Nat} {c : Char} (hc : c.isDigit = false) : c ∉ padded k n := by
  intro hmem
  rw [isDigit_padded hmem] at hc
  cases hc

theorem visible_of_isDigit {c : Char} (h : c.isDigit = true) : isWhitespace c = false := by
  have htrim := trim_of_digits (t := [c]) fun x hx => List.mem_singleton.mp hx ▸ h
  by_contra hspace
  rw [Bool.not_eq_false] at hspace
  rw [Text.trim, List.dropWhile_cons_of_pos hspace] at htrim
  cases htrim

theorem visible_padded {k n : Nat} : ∀ c ∈ padded k n, isWhitespace c = false :=
  fun _ hc => visible_of_isDigit (isDigit_padded hc)

theorem ofDigitChars_padded (k n : Nat) : Nat.ofDigitChars 10 (padded k n) 0 = n % 10 ^ k := by
  induction k generalizing n with
  | zero => exact (Nat.mod_one n).symm
  | succ k ih =>
      rw [padded, Nat.ofDigitChars_append, ih,
        Nat.ofDigitChars_cons_digitChar_of_lt_ten (Nat.mod_lt _ (by decide)), Nat.ofDigitChars_nil,
        Nat.pow_succ, Nat.mul_comm (10 ^ k), Nat.mod_mul]
      omega

theorem parseUnsigned_padded {max k n : Nat} (hn : n < 10 ^ (k + 1)) (hmax : n ≤ max) :
    parseUnsigned 10 max (padded (k + 1) n) = some n := by
  have hd : ∀ c ∈ padded (k + 1) n, c.isDigit = true := fun c hc => isDigit_padded hc
  have hval := ofDigitChars_padded (k + 1) n
  rw [Nat.mod_eq_of_lt hn] at hval
  rw [parseUnsigned, stripPlus_of_digits hd, if_neg (padded_ne_nil k n),
    parseDigits_ofDigitChars hd (hval.symm ▸ hmax), hval]

theorem parseSigned_of_unsigned {t : Text} (max : Nat) (h : '-' ∉ t) :
    parseSigned max t = (parseUnsigned 10 max t).map Int.ofNat := by
  unfold parseSigned
  split
  · exact absurd List.mem_cons_self h
  · rfl

end Rsurl
