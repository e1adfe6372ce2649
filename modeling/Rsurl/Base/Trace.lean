/-
# `Rsurl.Base.Trace` — runs that leave events behind

A system whose steps are labelled with the events they make, its runs with the
events of the whole run in order, and sums over events: over all of them, or
over those since the last one of a kind.
-/
import Mathlib.Algebra.BigOperators.Group.List.Basic
import Mathlib.Algebra.GroupWithZero.Nat

namespace Rsurl.Base

/-! ## Runs -/

section

variable {σ ε : Type} {step : σ → List ε → σ → Prop}

/-- The runs from `s`, by what happened and where they have come to. -/
inductive Trace (step : σ → List ε → σ → Prop) (s : σ) : List ε → σ → Prop
  | nil : Trace step s [] s
  | snoc {evs new : List ε} {s' s'' : σ} (h : Trace step s evs s') (hstep : step s' new s'') :
      Trace step s (evs ++ new) s''

namespace Trace

theorem single {s s' : σ} {new : List ε} (h : step s new s') : Trace step s new s' :=
  .snoc .nil h

theorem trans {s s' s'' : σ} {evs evs' : List ε} (h : Trace step s evs s')
    (h' : Trace step s' evs' s'') : Trace step s (evs ++ evs') s'' := by
  induction h' with
  | nil =>
      rw [List.append_nil]
      exact h
  | snoc _ hstep ih =>
      rw [← List.append_assoc]
      exact .snoc ih hstep

/-- A run of steps that are all steps of a second kind. -/
theorem mono {step' : σ → List ε → σ → Prop} (hsub : ∀ {s new s'}, step s new s' → step' s new s')
    {s s' : σ} {evs : List ε} (h : Trace step s evs s') : Trace step' s evs s' := by
  induction h with
  | nil => exact .nil
  | snoc _ hstep ih => exact .snoc ih (hsub hstep)

/-- What holds at the start and is kept by every step holds after every run. -/
theorem invariant {I : List ε → σ → Prop} {s : σ} (hinit : I [] s)
    (hstep : ∀ {evs new s' s''}, I evs s' → step s' new s'' → I (evs ++ new) s'')
    {evs : List ε} {s' : σ} (h : Trace step s evs s') : I evs s' := by
  induction h with
  | nil => exact hinit
  | snoc _ hact ih => exact hstep ih hact

/-- A run whose steps are all of a second kind, or its first step that is not. -/
theorem first_failure (step' : σ → List ε → σ → Prop) {s s' : σ} {evs : List ε}
    (h : Trace step s evs s') :
    Trace step' s evs s' ∨ ∃ before s₁ new s₂ rest, evs = before ++ (new ++ rest) ∧
      Trace step' s before s₁ ∧ step s₁ new s₂ ∧ ¬ step' s₁ new s₂ ∧ Trace step s₂ rest s' := by
  induction h with
  | nil => exact .inl .nil
  | @snoc evs new s₁ s₂ _ hstep ih =>
      rcases ih with hgood | ⟨before, t, bad, t', rest, rfl, hbefore, hbad, hnot, hrest⟩
      · by_cases hgood' : step' s₁ new s₂
        · exact .inl (.snoc hgood hgood')
        · exact .inr ⟨evs, s₁, new, s₂, [], by rw [List.append_nil], hgood, hstep, hgood', .nil⟩
      · refine .inr ⟨before, t, bad, t', rest ++ new, ?_, hbefore, hbad, hnot, .snoc hrest hstep⟩
        rw [List.append_assoc, List.append_assoc]

end Trace

end

/-! ## Events in a row -/

/-- An event of two rows after each other is in the first or in the second. -/
theorem append_eq_split {ε : Type} {evs new pre post : List ε} {e : ε}
    (h : evs ++ new = pre ++ e :: post) :
    (∃ post', evs = pre ++ e :: post' ∧ post = post' ++ new) ∨
      ∃ pre', pre = evs ++ pre' ∧ new = pre' ++ e :: post := by
  rcases List.append_eq_append_iff.mp h with ⟨mid, hpre, hnew⟩ | ⟨mid, hevs, hpost⟩
  · exact .inr ⟨mid, hpre, hnew⟩
  · cases mid with
    | nil =>
        rw [List.append_nil] at hevs
        exact .inr ⟨[], by rw [List.append_nil, hevs], hpost.symm⟩
    | cons e' mid =>
        obtain ⟨rfl, rfl⟩ := List.cons.inj hpost
        exact .inl ⟨mid, hevs, rfl⟩

/-! ## Sums over events -/

section

variable {ε : Type}

/-- What the events weigh together. -/
def total (w : ε → Nat) (evs : List ε) : Nat := (evs.map w).sum

@[simp] theorem total_nil (w : ε → Nat) : total w [] = 0 := rfl

@[simp] theorem total_cons (w : ε → Nat) (e : ε) (evs : List ε) :
    total w (e :: evs) = w e + total w evs := by
  rw [total, List.map_cons, List.sum_cons]
  rfl

@[simp] theorem total_append (w : ε → Nat) (evs evs' : List ε) :
    total w (evs ++ evs') = total w evs + total w evs' := by
  rw [total, List.map_append, List.sum_append]
  rfl

theorem total_eq_zero_iff {w : ε → Nat} {evs : List ε} :
    total w evs = 0 ↔ ∀ e ∈ evs, w e = 0 := by
  rw [total, List.sum_eq_zero_iff_forall_eq_nat]
  exact List.forall_mem_map

theorem total_eq_zero {w : ε → Nat} {evs : List ε} (h : ∀ e ∈ evs, w e = 0) :
    total w evs = 0 := total_eq_zero_iff.mpr h

/-- Events that weigh as two weights do together. -/
theorem total_add {w w₁ w₂ : ε → Nat} (h : ∀ e, w e = w₁ e + w₂ e) (evs : List ε) :
    total w evs = total w₁ evs + total w₂ evs := by
  induction evs with
  | nil => rfl
  | cons e evs ih =>
      rw [total_cons, total_cons, total_cons, h, ih]
      omega

/-- The events after the last one with the mark, or all of them. -/
def since (mark : ε → Bool) (evs : List ε) : List ε :=
  (evs.reverse.takeWhile fun e => !mark e).reverse

@[simp] theorem since_nil (mark : ε → Bool) : since mark [] = [] := rfl

theorem since_append {mark : ε → Bool} (evs : List ε) {new : List ε}
    (h : ∀ e ∈ new, mark e = false) : since mark (evs ++ new) = since mark evs ++ new := by
  have hnew : ∀ e ∈ new.reverse, (!mark e) = true := by
    intro e he
    rw [h e (List.mem_reverse.mp he)]
    rfl
  rw [since, List.reverse_append, List.takeWhile_append_of_pos hnew, List.reverse_append,
    List.reverse_reverse, since]

theorem since_mark {mark : ε → Bool} (evs : List ε) {e : ε} (h : mark e = true) :
    since mark (evs ++ [e]) = [] := by
  rw [since, List.reverse_append, List.reverse_singleton, List.singleton_append,
    List.takeWhile_cons_of_neg (by rw [h]; exact Bool.false_ne_true), List.reverse_nil]

end

end Rsurl.Base
