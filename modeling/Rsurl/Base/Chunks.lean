/-
# `Rsurl.Base.Chunks` — a list cut into pieces of one length

`List.toChunks` is a loop over two accumulators.  What is used of it is its
equation: the first piece, then the pieces of the rest.
-/
import Mathlib.Data.List.Basic

namespace Rsurl.Base

variable {α : Type*} {n : Nat}

/-- The finished pieces stay in front. -/
theorem toChunks_go_append (n : Nat) (l : List α) (piece : Array α) (done : Array (List α)) :
    List.toChunks.go n l piece done = done.toList ++ List.toChunks.go n l piece #[] := by
  induction l generalizing piece done with
  | nil => simp [List.toChunks.go]
  | cons x l ih =>
      simp only [List.toChunks.go]
      split
      · rw [ih, ih _ (Array.push #[] piece.toList)]
        simp
      · exact ih _ _

/-- The piece in progress is completed first. -/
theorem toChunks_go_eq (hn : 0 < n) (l : List α) {piece : Array α} (h : piece.size ≤ n) :
    List.toChunks.go n l piece #[] =
      (piece.toList ++ l).take n :: ((piece.toList ++ l).drop n).toChunks n := by
  have hlen : piece.toList.length = piece.size := Array.length_toList
  induction l generalizing piece with
  | nil =>
      rw [List.append_nil, List.take_of_length_le (hlen ▸ h), List.drop_of_length_le (hlen ▸ h)]
      simp [List.toChunks.go, List.toChunks]
  | cons x l ih =>
      simp only [List.toChunks.go]
      split
      · next hfull =>
          have hsize : piece.toList.length = n := hlen.trans (by simpa using hfull)
          rw [toChunks_go_append, List.take_left' hsize, List.drop_left' hsize]
          obtain ⟨m, rfl⟩ := Nat.exists_eq_add_of_lt hn
          simp [List.toChunks]
      · next hroom =>
          have hlt : piece.size < n := Nat.lt_of_le_of_ne h (by simpa using hroom)
          rw [ih (by rw [Array.size_push]; exact hlt) Array.length_toList]
          simp [Array.toList_push]

/-- One piece is taken, the rest is cut on. -/
theorem toChunks_eq (hn : 0 < n) {l : List α} (hl : l ≠ []) :
    l.toChunks n = l.take n :: (l.drop n).toChunks n := by
  obtain ⟨x, l, rfl⟩ := List.exists_cons_of_ne_nil hl
  have hgo : (x :: l).toChunks n = List.toChunks.go n l #[x] #[] := by
    obtain ⟨m, rfl⟩ := Nat.exists_eq_add_of_lt hn
    simp [List.toChunks]
  have hone : (#[x] : Array α).size ≤ n := hn
  rw [hgo, toChunks_go_eq hn l hone]
  rfl

/-- No piece is longer than the length asked for, nor than the list. -/
theorem length_of_mem_toChunks (hn : 0 < n) {l piece : List α} (h : piece ∈ l.toChunks n) :
    piece.length ≤ n ∧ piece.length ≤ l.length := by
  induction hlen : l.length using Nat.strongRecOn generalizing l with
  | ind len ih =>
      by_cases hl : l = []
      · subst hl
        simp [List.toChunks] at h
      · rw [toChunks_eq hn hl] at h
        rcases List.mem_cons.mp h with rfl | h
        · rw [List.length_take]
          omega
        · have hpos : 0 < l.length := List.length_pos_of_ne_nil hl
          have hdrop : (l.drop n).length = l.length - n := List.length_drop
          have hpiece := ih _ (by omega) h rfl
          omega

/-- The pieces are the list. -/
theorem flatten_toChunks (hn : 0 < n) (l : List α) : (l.toChunks n).flatten = l := by
  induction hlen : l.length using Nat.strongRecOn generalizing l with
  | ind len ih =>
      by_cases hl : l = []
      · subst hl
        simp [List.toChunks]
      · have hpos : 0 < l.length := List.length_pos_of_ne_nil hl
        have hdrop : (l.drop n).length = l.length - n := List.length_drop
        rw [toChunks_eq hn hl, List.flatten_cons, ih _ (by omega) _ rfl, List.take_append_drop]

end Rsurl.Base
