/-
# `Rsurl.Text.Numerals` — the numbers that `parse` reads

`numeral` is one or more digits and nothing else.  `from_str_radix` reads more
than that: a `+` in front.  And what is handed to it has been trimmed of every
Unicode white space.  `numeral_core_iff` says when a number that is read so is a
numeral already.
-/
import Rsurl.Text.Words

namespace Rsurl

/-! ## Numerals -/

/-- The number that one or more digits of a base write, of any size. -/
def numeral (radix : Nat) (t : Text) : Option Nat :=
  if t = [] then none
  else (t.mapM (toDigit radix)).map fun digits => digits.foldl (fun acc d => acc * radix + d) 0

theorem hexDigit_bounds {c : Char} {d : Nat} (h : hexDigit c = some d) :
    48 ≤ c.toNat ∧ c.toNat ≤ 102 := by
  have hlow : ∀ {a b : Char}, a ≤ c ∧ c ≤ b → a.toNat ≤ c.toNat ∧ c.toNat ≤ b.toNat := id
  unfold hexDigit at h
  split at h
  · next hc => exact ⟨(hlow hc).1, Nat.le_trans (hlow hc).2 (by decide)⟩
  split at h
  · next hc => exact ⟨Nat.le_trans (by decide) (hlow hc).1, (hlow hc).2⟩
  split at h
  · next hc => exact ⟨Nat.le_trans (by decide) (hlow hc).1, Nat.le_trans (hlow hc).2 (by decide)⟩
  · cases h

/-- A digit is neither white space nor a sign. -/
theorem visible_of_toDigit {radix : Nat} {c : Char} {d : Nat} (h : toDigit radix c = some d) :
    isWhitespace c = false ∧ c ≠ '+' := by
  obtain ⟨hlow, hhigh⟩ := hexDigit_bounds (Option.eq_some_of_filter_eq_some h)
  constructor
  · rw [Bool.eq_false_iff]
    intro hspace
    simp only [isWhitespace, Bool.or_eq_true, Bool.and_eq_true, decide_eq_true_eq,
      beq_iff_eq] at hspace
    omega
  · rintro rfl
    exact absurd hlow (by decide)

theorem toDigit_of_mem_numeral {radix n : Nat} {t : Text} (h : numeral radix t = some n) :
    ∀ c ∈ t, ∃ d, toDigit radix c = some d := by
  obtain ⟨digits, hdigits⟩ : ∃ digits, t.mapM (toDigit radix) = some digits := by
    unfold numeral at h
    split at h
    · cases h
    · obtain ⟨digits, hdigits, -⟩ := Option.map_eq_some_iff.mp h
      exact ⟨digits, hdigits⟩
  clear h
  induction t generalizing digits with
  | nil => nofun
  | cons c t ih =>
      intro x hx
      rw [List.mapM_cons] at hdigits
      obtain ⟨d, hd, hdigits⟩ := Option.bind_eq_some_iff.mp hdigits
      obtain ⟨more, hmore, -⟩ := Option.bind_eq_some_iff.mp hdigits
      rcases List.mem_cons.mp hx with rfl | hx
      · exact ⟨d, hd⟩
      · exact ih more hmore x hx

theorem le_foldl_digits {radix : Nat} (hradix : 1 ≤ radix) (digits : List Nat) (acc : Nat) :
    acc ≤ digits.foldl (fun acc d => acc * radix + d) acc := by
  induction digits generalizing acc with
  | nil => exact Nat.le_refl _
  | cons d digits ih =>
      calc acc ≤ acc * radix := Nat.le_mul_of_pos_right _ hradix
        _ ≤ acc * radix + d := Nat.le_add_right _ _
        _ ≤ _ := ih (acc * radix + d)

/-- No partial value of the loop is larger than the last. -/
theorem parseDigits_iff {radix max acc n : Nat} (hradix : 1 ≤ radix) (hacc : acc ≤ max) {t : Text} :
    parseDigits radix max acc t = some n ↔
      (t.mapM (toDigit radix)).map (fun ds => ds.foldl (fun acc d => acc * radix + d) acc) = some n ∧
        n ≤ max := by
  induction t generalizing acc with
  | nil =>
      constructor
      · intro h
        obtain rfl : acc = n := Option.some.inj h
        exact ⟨rfl, hacc⟩
      · exact fun h => h.1
  | cons c t ih =>
      rw [parseDigits, List.mapM_cons]
      cases hd : toDigit radix c with
      | none =>
          constructor
          · intro h
            cases h
          · rintro ⟨h, -⟩
            cases h
      | some d =>
          dsimp only
          by_cases hroom : acc * radix + d ≤ max
          · rw [if_pos hroom, ih hroom]
            cases t.mapM (toDigit radix) with
            | none => exact Iff.rfl
            | some ds => exact Iff.rfl
          · rw [if_neg hroom]
            constructor
            · intro h
              cases h
            · rintro ⟨h, hn⟩
              cases hds : t.mapM (toDigit radix) with
              | none =>
                  rw [hds] at h
                  cases h
              | some ds =>
                  rw [hds] at h
                  obtain rfl : ds.foldl (fun acc d => acc * radix + d) (acc * radix + d) = n :=
                    Option.some.inj h
                  exact absurd (Nat.le_trans (le_foldl_digits hradix ds _) hn) hroom

/-- `from_str_radix` of an unsigned type: a numeral, behind a `+` if there is one. -/
theorem parseUnsigned_iff {radix max n : Nat} (hradix : 1 ≤ radix) {t : Text} :
    parseUnsigned radix max t = some n ↔ numeral radix (stripPlus t) = some n ∧ n ≤ max := by
  rw [parseUnsigned, numeral]
  by_cases hne : stripPlus t = []
  · rw [if_pos hne, if_pos hne]
    simp
  · rw [if_neg hne, if_neg hne]
    exact parseDigits_iff hradix (Nat.zero_le _)

/-! ## White space -/

/-- What a prefix of white space and a suffix of white space stand around. -/
theorem dropWhile_front {p : Char → Bool} (t : Text) :
    ∃ w, t = w ++ t.dropWhile p ∧ ∀ c ∈ w, p c = true :=
  ⟨t.takeWhile p, List.takeWhile_append_dropWhile.symm, fun _ hc => List.mem_takeWhile_imp hc⟩

theorem rdropWhile_back {p : Char → Bool} (t : Text) :
    ∃ w, t = t.rdropWhile p ++ w ∧ ∀ c ∈ w, p c = true := by
  obtain ⟨w, hw, hall⟩ := dropWhile_front (p := p) t.reverse
  refine ⟨w.reverse, ?_, fun c hc => hall c (List.mem_reverse.mp hc)⟩
  rw [List.rdropWhile, ← List.reverse_append, ← hw, List.reverse_reverse]

theorem rdropWhile_append_of_all {p : Char → Bool} {w : Text} (hw : ∀ c ∈ w, p c = true) (t : Text) :
    (t ++ w).rdropWhile p = t.rdropWhile p := by
  rw [List.rdropWhile, List.reverse_append,
    List.dropWhile_append_of_pos fun c hc => hw c (List.mem_reverse.mp hc)]
  rfl

theorem trim_space_append {w : Text} (hw : ∀ c ∈ w, isWhitespace c = true) (t : Text) :
    Text.trim (w ++ t) = t.trim := by
  rw [Text.trim, Text.trim, List.dropWhile_append_of_pos hw]

theorem trim_append_space {w : Text} (hw : ∀ c ∈ w, isWhitespace c = true) (t : Text) :
    Text.trim (t ++ w) = t.trim := by
  rw [Text.trim, List.dropWhile_append]
  by_cases hempty : (t.dropWhile isWhitespace).isEmpty = true
  · have hspace : w.dropWhile isWhitespace = [] := List.dropWhile_eq_nil_iff.mpr hw
    rw [if_pos hempty, hspace, Text.trim, List.isEmpty_iff.mp hempty]
  · rw [if_neg hempty, rdropWhile_append_of_all hw, Text.trim]

/-- Nothing goes in front of a character that ends no line. -/
theorem trimEndCrlf_append (t : Text) {c : Char} (hc : (c == '\r' || c == '\n') = false)
    (more : Text) : Text.trimEndCrlf (t ++ c :: more) = t ++ c :: more.trimEndCrlf := by
  induction more using List.reverseRecOn with
  | nil => exact List.rdropWhile_concat_neg _ _ _ (by simpa using hc)
  | append_singleton more x ih =>
      have hsplit : t ++ c :: (more ++ [x]) = t ++ c :: more ++ [x] := by simp
      rw [hsplit, Text.trimEndCrlf, Text.trimEndCrlf]
      by_cases hx : (x == '\r' || x == '\n') = true
      · rw [List.rdropWhile_concat_pos (fun c => c == '\r' || c == '\n') _ _ hx,
          List.rdropWhile_concat_pos (fun c => c == '\r' || c == '\n') _ _ hx]
        exact ih
      · rw [List.rdropWhile_concat_neg (fun c => c == '\r' || c == '\n') _ _ hx,
          List.rdropWhile_concat_neg (fun c => c == '\r' || c == '\n') _ _ hx]
        exact hsplit.symm

/-- A numeral with white space around it is what is trimmed, so what is in the middle of a text
can be read from the text. -/
theorem numeral_core_iff {radix n : Nat} {t core : Text}
    (h : ∃ w w', t = w ++ (core ++ w') ∧ (∀ c ∈ w, isWhitespace c = true) ∧
      ∀ c ∈ w', isWhitespace c = true) :
    numeral radix core = some n ↔
      numeral radix (stripPlus t.trim) = some n ∧ t.trim = core ∧ core.head? ≠ some '+' := by
  obtain ⟨w, w', rfl, hw, hw'⟩ := h
  rw [trim_space_append hw, trim_append_space hw']
  constructor
  · intro hnum
    have hdigit := toDigit_of_mem_numeral hnum
    have hvisible : ∀ c ∈ core, isWhitespace c = false := fun c hc => by
      obtain ⟨d, hd⟩ := hdigit c hc
      exact (visible_of_toDigit hd).1
    have htrim : core.trim = core :=
      trim_of_ends (fun c hc => hvisible c (List.mem_of_mem_head? hc))
        fun c hc => hvisible c (List.mem_of_mem_getLast? hc)
    have hsign : core.head? ≠ some '+' := by
      intro hc
      obtain ⟨d, hd⟩ := hdigit '+' (List.mem_of_mem_head? hc)
      exact (visible_of_toDigit hd).2 rfl
    have hplus : stripPlus core = core := by
      unfold stripPlus
      split
      · exact absurd rfl hsign
      · rfl
    rw [htrim, hplus]
    exact ⟨hnum, rfl, hsign⟩
  · rintro ⟨hnum, htrim, hsign⟩
    have hplus : stripPlus core = core := by
      unfold stripPlus
      split
      · exact absurd rfl hsign
      · rfl
    rwa [htrim, hplus] at hnum

end Rsurl
