/-
# `Rsurl.Base.Scan` — reading one at a time up to a mark

A reader that must not take anything behind a mark reads one element at a time,
looks at what it has, and gives up beyond a limit.  What it has read when it stops
is the shortest prefix that the mark ends.
-/
import Mathlib.Data.List.Infix

namespace Rsurl.Base

variable {α : Type*}

/-- How the reading ends: at the mark, beyond the limit, or with the elements. -/
inductive Scan (α : Type*) where
  | found (seen rest : List α)
  | tooLong (seen rest : List α)
  | ended (seen : List α)

/-- What has been read. -/
def Scan.seen : Scan α → List α
  | .found seen _ => seen
  | .tooLong seen _ => seen
  | .ended seen => seen

/-- Read behind `seen` until `stop` holds of all that has been read. -/
def scan (stop : List α → Bool) (limit : Nat) : List α → List α → Scan α
  | seen, [] => .ended seen
  | seen, a :: rest =>
      if stop (seen ++ [a]) then .found (seen ++ [a]) rest
      else if limit < (seen ++ [a]).length then .tooLong (seen ++ [a]) rest
      else scan stop limit (seen ++ [a]) rest

/-- The mark ends these elements, and none of their prefixes before. -/
structure EndsFirst (stop : List α → Bool) (seen : List α) : Prop where
  ends : stop seen = true
  first : ∀ front, front <+: seen → front ≠ seen → stop front = false

/-- What a scan says of the elements it began with. -/
def Scan.Correct (stop : List α → Bool) (limit : Nat) (whole : List α) : Scan α → Prop
  | .found seen rest => whole = seen ++ rest ∧ seen.length ≤ limit + 1 ∧ EndsFirst stop seen
  | .tooLong seen rest => whole = seen ++ rest ∧ seen.length = limit + 1 ∧
      ∀ front, front <+: seen → stop front = false
  | .ended seen => whole = seen ∧ seen.length ≤ limit ∧
      ∀ front, front <+: seen → stop front = false

/-- Nothing behind the mark is read, and no more than one beyond the limit. -/
theorem correct_scan {stop : List α → Bool} {limit : Nat} {seen rest : List α}
    (hseen : ∀ front, front <+: seen → stop front = false) (hlimit : seen.length ≤ limit) :
    (scan stop limit seen rest).Correct stop limit (seen ++ rest) := by
  induction rest generalizing seen with
  | nil =>
      rw [scan, List.append_nil]
      exact ⟨rfl, hlimit, hseen⟩
  | cons a rest ih =>
      have hwhole : seen ++ a :: rest = seen ++ [a] ++ rest := by simp
      have hlength : (seen ++ [a]).length = seen.length + 1 := List.length_append
      have hfront : ∀ front, front <+: seen ++ [a] → front ≠ seen ++ [a] → stop front = false := by
        intro front hpre hne
        exact hseen front ((List.prefix_concat_iff.mp hpre).resolve_left hne)
      rw [scan, hwhole]
      by_cases hstop : stop (seen ++ [a]) = true
      · rw [if_pos hstop]
        exact ⟨rfl, by omega, hstop, hfront⟩
      rw [if_neg hstop]
      have hall : ∀ front, front <+: seen ++ [a] → stop front = false := by
        intro front hpre
        by_cases heq : front = seen ++ [a]
        · rw [heq, Bool.eq_false_iff]
          exact hstop
        · exact hfront front hpre heq
      by_cases hlong : limit < (seen ++ [a]).length
      · rw [if_pos hlong]
        exact ⟨rfl, by omega, hall⟩
      · rw [if_neg hlong]
        exact ih hall (Nat.not_lt.mp hlong)

end Rsurl.Base
