/-
# `Rsurl.Base.Cut` — cutting a list at a delimiter

The three searches every text protocol is built from: the first element
satisfying a predicate (`cut`), the last one (`rcut`), and the first
occurrence of a sublist (`cutSub`).  Each returns the pieces instead of an
index, so a caller never slices by position, and each is characterised by
the equation its pieces satisfy together with the side condition that makes
the equation have one solution.
-/
import Mathlib.Data.List.Basic

namespace Rsurl.Base

variable {α : Type*}

/-! ## The first element satisfying a predicate -/

/-- The part before the first element satisfying `p`, that element, and the
part after it. -/
def cut (p : α → Bool) : List α → Option (List α × α × List α)
  | [] => none
  | x :: l =>
      if p x then some ([], x, l)
      else (cut p l).map fun (a, y, b) => (x :: a, y, b)

theorem cut_eq_none {p : α → Bool} {l : List α} :
    cut p l = none ↔ ∀ x ∈ l, p x = false := by
  induction l with
  | nil => simp [cut]
  | cons x l ih =>
      by_cases hx : p x = true
      · simp [cut, hx]
      · simp [cut, hx, ih]

theorem cut_append {p : α → Bool} {a b : List α} {x : α}
    (ha : ∀ y ∈ a, p y = false) (hx : p x = true) :
    cut p (a ++ x :: b) = some (a, x, b) := by
  induction a with
  | nil => simp [cut, hx]
  | cons y a ih =>
      have hy : p y = false := ha y List.mem_cons_self
      have hrec := ih fun z hz => ha z (List.mem_cons_of_mem _ hz)
      simp [cut, hy, hrec]

theorem cut_eq_some {p : α → Bool} {l a b : List α} {x : α} :
    cut p l = some (a, x, b) ↔
      l = a ++ x :: b ∧ p x = true ∧ ∀ y ∈ a, p y = false := by
  constructor
  · intro h
    induction l generalizing a with
    | nil => simp [cut] at h
    | cons y l ih =>
        by_cases hy : p y = true
        · simp only [cut, hy, if_true, Option.some.injEq, Prod.mk.injEq] at h
          obtain ⟨rfl, rfl, rfl⟩ := h
          simp [hy]
        · simp only [cut, hy, Option.map_eq_some_iff, Bool.false_eq_true,
            if_false] at h
          obtain ⟨⟨a', x', b'⟩, hcut, heq⟩ := h
          simp only [Prod.mk.injEq] at heq
          obtain ⟨rfl, rfl, rfl⟩ := heq
          obtain ⟨rfl, hx, ha⟩ := ih hcut
          refine ⟨rfl, hx, fun z hz => ?_⟩
          rcases List.mem_cons.mp hz with rfl | hz
          · simpa using hy
          · exact ha z hz
  · rintro ⟨rfl, hx, ha⟩
    exact cut_append ha hx

/-! ## The last element satisfying a predicate -/

/-- The part before the last element satisfying `p`, that element, and the
part after it. -/
def rcut (p : α → Bool) (l : List α) : Option (List α × α × List α) :=
  (cut p l.reverse).map fun (a, x, b) => (b.reverse, x, a.reverse)

theorem rcut_eq_none {p : α → Bool} {l : List α} :
    rcut p l = none ↔ ∀ x ∈ l, p x = false := by
  simp [rcut, cut_eq_none]

theorem rcut_eq_some {p : α → Bool} {l a b : List α} {x : α} :
    rcut p l = some (a, x, b) ↔
      l = a ++ x :: b ∧ p x = true ∧ ∀ y ∈ b, p y = false := by
  simp only [rcut, Option.map_eq_some_iff]
  constructor
  · rintro ⟨⟨a', x', b'⟩, hcut, heq⟩
    simp only [Prod.mk.injEq] at heq
    obtain ⟨rfl, rfl, rfl⟩ := heq
    obtain ⟨hl, hx, ha⟩ := cut_eq_some.mp hcut
    refine ⟨?_, hx, by simpa using ha⟩
    simpa using congrArg List.reverse hl
  · rintro ⟨rfl, hx, hb⟩
    refine ⟨(b.reverse, x, a.reverse), cut_eq_some.mpr ⟨by simp, hx, ?_⟩, by simp⟩
    simpa using hb

theorem rcut_append {p : α → Bool} {a b : List α} {x : α}
    (hx : p x = true) (hb : ∀ y ∈ b, p y = false) :
    rcut p (a ++ x :: b) = some (a, x, b) :=
  rcut_eq_some.mpr ⟨rfl, hx, hb⟩

/-! ## The first occurrence of a sublist -/

/-- The parts before and after the first occurrence of `pat`. -/
def cutSub [BEq α] (pat : List α) : List α → Option (List α × List α)
  | [] => if pat.isEmpty then some ([], []) else none
  | x :: l =>
      if pat.isPrefixOf (x :: l) then some ([], (x :: l).drop pat.length)
      else (cutSub pat l).map fun (a, b) => (x :: a, b)

section CutSub

variable [BEq α] [LawfulBEq α]

theorem eq_of_cutSub {pat l a b : List α} (h : cutSub pat l = some (a, b)) :
    l = a ++ (pat ++ b) := by
  induction l generalizing a with
  | nil =>
      simp only [cutSub, List.isEmpty_iff] at h
      split at h
      · next hp => cases h; simp [hp]
      · cases h
  | cons x l ih =>
      simp only [cutSub] at h
      split at h
      · next hp =>
          obtain ⟨t, ht⟩ := List.isPrefixOf_iff_prefix.mp hp
          simp only [Option.some.injEq, Prod.mk.injEq] at h
          obtain ⟨rfl, rfl⟩ := h
          simp [← ht]
      · obtain ⟨⟨a', b'⟩, hcut, heq⟩ := Option.map_eq_some_iff.mp h
        simp only [Prod.mk.injEq] at heq
        obtain ⟨rfl, rfl⟩ := heq
        rw [ih hcut, List.cons_append]

/-- When the head of the pattern does not occur in `a`, the occurrence right
after `a` is the first one. -/
theorem cutSub_append {x : α} {pat a b : List α} (ha : x ∉ a) :
    cutSub (x :: pat) (a ++ (x :: pat ++ b)) = some (a, b) := by
  induction a with
  | nil => simp [cutSub]
  | cons y a ih =>
      have hne : ¬ x = y := fun h => ha (h ▸ List.mem_cons_self)
      have hrec := ih fun h => ha (List.mem_cons_of_mem _ h)
      simp only [List.cons_append] at hrec
      simp [cutSub, hne, hrec]

end CutSub

/-! ## Splitting at a two-element delimiter -/

/-- The pieces between the occurrences of `x, y`. -/
def splitPair [DecidableEq α] (x y : α) : List α → List (List α)
  | [] => [[]]
  | [a] => [[a]]
  | a :: b :: l =>
      if a = x ∧ b = y then [] :: splitPair x y l
      else (splitPair x y (b :: l)).modifyHead (a :: ·)

section SplitPair

variable [DecidableEq α] {x y : α}

/-- A piece without `x` ends at the next delimiter. -/
theorem splitPair_append {piece rest : List α} (h : x ∉ piece) :
    splitPair x y (piece ++ x :: y :: rest) = piece :: splitPair x y rest := by
  induction piece with
  | nil => simp [splitPair]
  | cons a piece ih =>
      have ha : a ≠ x := fun he => h (he ▸ List.mem_cons_self)
      have hrec := ih fun hx => h (List.mem_cons_of_mem _ hx)
      cases piece with
      | nil =>
          simp only [List.nil_append] at hrec
          simp [splitPair, ha]
      | cons b piece =>
          simp only [List.cons_append] at hrec ⊢
          rw [splitPair, if_neg fun hab => ha hab.1, hrec]
          rfl

theorem splitPair_flatMap {pieces : List (List α)} (h : ∀ p ∈ pieces, x ∉ p) (rest : List α) :
    splitPair x y (pieces.flatMap (· ++ [x, y]) ++ rest) = pieces ++ splitPair x y rest := by
  induction pieces with
  | nil => rfl
  | cons p pieces ih =>
      have hp : x ∉ p := h p List.mem_cons_self
      have hrec := ih fun q hq => h q (List.mem_cons_of_mem _ hq)
      rw [List.flatMap_cons, List.append_assoc, List.append_assoc]
      exact (splitPair_append hp).trans (congrArg (p :: ·) hrec)

end SplitPair

end Rsurl.Base
