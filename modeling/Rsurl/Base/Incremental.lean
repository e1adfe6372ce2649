/-
# `Rsurl.Base.Incremental` — a reader fed in pieces

A reader looks at the front of a buffer and asks for more, fails, or takes some
elements and goes on in a new state.  It is run on a buffer until it does not
take any more, and fed by appending pieces to what is left.  What it has taken
stays taken; it is fed as if everything had been there at once when its errors
stay errors at the ends of the pieces.
-/
import Mathlib.Data.List.Basic

namespace Rsurl.Base

/-- A reader over states `σ`. -/
structure Reader (α σ ε : Type*) where
  step : σ → List α → Except ε (Option (Nat × σ))
  /-- An empty buffer is no error. -/
  idle : ∀ s, step s [] = .ok none
  /-- What is taken is there. -/
  takes : ∀ {s buf n s'}, step s buf = .ok (some (n, s')) → 0 < n ∧ n ≤ buf.length
  /-- What is behind what is taken is not looked at. -/
  front : ∀ {s buf n s'}, step s buf = .ok (some (n, s')) → ∀ more,
    step s (buf.take n ++ more) = .ok (some (n, s'))

namespace Reader

variable {α σ ε : Type*} (R : Reader α σ ε)

/-- `fuel` steps at most: what is left of the buffer, or the error, and the state. -/
def loop : Nat → σ → List α → Except ε (List α) × σ
  | 0, s, buf => (.ok buf, s)
  | fuel + 1, s, buf =>
      match R.step s buf with
      | .error e => (.error e, s)
      | .ok none => (.ok buf, s)
      | .ok (some (n, s)) => loop fuel s (buf.drop n)

/-- As many steps as there are. -/
def run (s : σ) (buf : List α) : Except ε (List α) × σ := R.loop buf.length s buf

/-- Pieces that arrive one after the other. -/
def feed : List (List α) → σ → List α → Except ε (List α) × σ
  | [], s, buf => (.ok buf, s)
  | piece :: pieces, s, buf =>
      match R.run s (buf ++ piece) with
      | (.error e, s) => (.error e, s)
      | (.ok buf, s) => feed pieces s buf

/-- `taken` is taken step by step, which leads from one state to another. -/
inductive Takes : σ → List α → σ → Prop
  | nil (s : σ) : Takes s [] s
  | cons {s s' s'' : σ} {taken rest : List α}
      (hstep : R.step s taken = .ok (some (taken.length, s'))) (hrest : Takes s' rest s'') :
      Takes s (taken ++ rest) s''

/-- The error at `buf` stays, whatever comes behind. -/
def Firm (s : σ) (buf : List α) : Prop :=
  ∀ e, R.step s buf = .error e → ∀ more, R.step s (buf ++ more) = .error e

variable {R}

/-! ## Running -/

theorem steady {s s' : σ} {buf : List α} {n : Nat} (h : R.step s buf = .ok (some (n, s')))
    (more : List α) : R.step s (buf ++ more) = .ok (some (n, s')) := by
  have hfront := R.front h (buf.drop n ++ more)
  rwa [← List.append_assoc, List.take_append_drop] at hfront

theorem loop_nil (fuel : Nat) (s : σ) : R.loop fuel s [] = (.ok [], s) := by
  cases fuel with
  | zero => rfl
  | succ n => rw [loop, R.idle]

theorem loop_fuel {fuel fuel' : Nat} {s : σ} {buf : List α} (h : buf.length ≤ fuel)
    (h' : buf.length ≤ fuel') : R.loop fuel s buf = R.loop fuel' s buf := by
  induction fuel generalizing fuel' s buf with
  | zero =>
      have hnil : buf = [] := List.length_eq_zero_iff.mp (Nat.le_zero.mp h)
      rw [hnil, loop_nil, loop_nil]
  | succ fuel ih =>
      cases fuel' with
      | zero =>
          have hnil : buf = [] := List.length_eq_zero_iff.mp (Nat.le_zero.mp h')
          rw [hnil, loop_nil, loop_nil]
      | succ fuel' =>
          rw [loop, loop]
          cases hstep : R.step s buf with
          | error e => rfl
          | ok out =>
              cases out with
              | none => rfl
              | some x =>
                  have htakes := R.takes hstep
                  have hlen : (buf.drop x.1).length = buf.length - x.1 := List.length_drop
                  exact ih (by omega) (by omega)

theorem run_eq (s : σ) (buf : List α) :
    R.run s buf =
      match R.step s buf with
      | .error e => (.error e, s)
      | .ok none => (.ok buf, s)
      | .ok (some (n, s)) => R.run s (buf.drop n) := by
  have hfuel : R.run s buf = R.loop (buf.length + 1) s buf :=
    loop_fuel (Nat.le_refl _) (Nat.le_succ _)
  rw [hfuel, loop]
  cases R.step s buf with
  | error e => rfl
  | ok out =>
      cases out with
      | none => rfl
      | some x =>
          have hlen : (buf.drop x.1).length ≤ buf.length := by
            rw [List.length_drop]
            exact Nat.sub_le _ _
          exact loop_fuel hlen (Nat.le_refl _)

theorem run_of_none {s : σ} {buf : List α} (h : R.step s buf = .ok none) :
    R.run s buf = (.ok buf, s) := by
  rw [run_eq, h]

theorem run_of_error {s : σ} {buf : List α} {e : ε} (h : R.step s buf = .error e) :
    R.run s buf = (.error e, s) := by
  rw [run_eq, h]

/-- A run goes on behind what has been taken. -/
theorem run_of_takes {s s' : σ} {taken : List α} (h : R.Takes s taken s') (rest : List α) :
    R.run s (taken ++ rest) = R.run s' rest := by
  induction h with
  | nil s => rfl
  | @cons s s₁ s' taken₁ taken₂ hstep hrest ih =>
      rw [List.append_assoc, run_eq, steady hstep, ← ih]
      show R.run s₁ ((taken₁ ++ (taken₂ ++ rest)).drop taken₁.length) = _
      rw [List.drop_left]

theorem Takes.append {s s' s'' : σ} {a b : List α} (ha : R.Takes s a s')
    (hb : R.Takes s' b s'') : R.Takes s (a ++ b) s'' := by
  induction ha with
  | nil s => exact hb
  | cons hstep hrest ih =>
      rw [List.append_assoc]
      exact .cons hstep (ih hb)

/-- Every buffer splits into what is taken and a rest that is no step. -/
theorem exists_takes (s : σ) (buf : List α) :
    ∃ taken rest s', buf = taken ++ rest ∧ R.Takes s taken s' ∧
      ∀ x, R.step s' rest ≠ .ok (some x) := by
  induction hlen : buf.length using Nat.strongRecOn generalizing s buf with
  | ind len ih =>
      by_cases hstep : ∃ n s', R.step s buf = .ok (some (n, s'))
      · obtain ⟨n, s₁, hstep⟩ := hstep
        obtain ⟨hpos, hle⟩ := R.takes hstep
        have hdrop : (buf.drop n).length < len := by
          rw [List.length_drop]
          omega
        obtain ⟨taken, rest, s', heq, htakes, hstop⟩ := ih _ hdrop s₁ (buf.drop n) rfl
        have hfront : R.step s (buf.take n) = .ok (some ((buf.take n).length, s₁)) := by
          rw [List.length_take, Nat.min_eq_left hle, ← List.append_nil (buf.take n)]
          exact R.front hstep []
        refine ⟨buf.take n ++ taken, rest, s', ?_, .cons hfront htakes, hstop⟩
        rw [List.append_assoc, ← heq, List.take_append_drop]
      · exact ⟨[], buf, s, rfl, .nil s, fun x hx => hstep ⟨x.1, x.2, hx⟩⟩

/-- How a run ends: with a rest that needs more, or in an error. -/
theorem run_cases (s : σ) (buf : List α) :
    ∃ taken rest s', buf = taken ++ rest ∧ R.Takes s taken s' ∧
      (R.step s' rest = .ok none ∧ R.run s buf = (.ok rest, s') ∨
        ∃ e, R.step s' rest = .error e ∧ R.run s buf = (.error e, s')) := by
  obtain ⟨taken, rest, s', rfl, htakes, hstop⟩ := R.exists_takes s buf
  refine ⟨taken, rest, s', rfl, htakes, ?_⟩
  rw [run_of_takes htakes]
  cases hstep : R.step s' rest with
  | error e => exact .inr ⟨e, rfl, run_of_error hstep⟩
  | ok out =>
      cases out with
      | none => exact .inl ⟨rfl, run_of_none hstep⟩
      | some x => exact absurd hstep (hstop x)

/-! ## Feeding -/

/-- One piece is run on. -/
theorem feed_singleton (piece : List α) (s : σ) : R.feed [piece] s [] = R.run s piece := by
  rw [feed, List.nil_append]
  cases R.run s piece with
  | mk res s' => cases res <;> rfl

/-- What is left by feeding needs more. -/
theorem step_of_feed {pieces : List (List α)} {s s' : σ} {buf rest : List α}
    (hwait : R.step s buf = .ok none) (h : R.feed pieces s buf = (.ok rest, s')) :
    R.step s' rest = .ok none := by
  induction pieces generalizing s buf with
  | nil =>
      cases h
      exact hwait
  | cons piece pieces ih =>
      rw [feed] at h
      obtain ⟨taken, rest₁, s₁, -, -, ⟨hnone, hrun⟩ | ⟨e, -, hrun⟩⟩ := R.run_cases s (buf ++ piece)
      · rw [hrun] at h
        exact ih hnone h
      · rw [hrun] at h
        cases h

/-- Feeding is running on everything at once, if the errors at the ends of the pieces are
errors for good. -/
theorem feed_eq_run {pieces : List (List α)} {s : σ} {buf : List α}
    (hwait : R.step s buf = .ok none)
    (hfirm : ∀ k taken rest s', buf ++ (pieces.take k).flatten = taken ++ rest →
      R.Takes s taken s' → R.Firm s' rest) :
    R.feed pieces s buf = R.run s (buf ++ pieces.flatten) := by
  induction pieces generalizing s buf with
  | nil => rw [feed, List.flatten_nil, List.append_nil, run_of_none hwait]
  | cons piece pieces ih =>
      have hcut : ∀ k, ((piece :: pieces).take (k + 1)).flatten =
          piece ++ (pieces.take k).flatten := fun k => by
        rw [List.take_succ_cons, List.flatten_cons]
      rw [feed, List.flatten_cons, ← List.append_assoc]
      obtain ⟨taken, rest, s₁, heq, htakes, ⟨hnone, hrun⟩ | ⟨e, herr, hrun⟩⟩ :=
        R.run_cases s (buf ++ piece)
      · rw [hrun, heq, List.append_assoc, run_of_takes htakes]
        refine ih hnone fun k taken' rest' s' heq' htakes' => ?_
        refine hfirm (k + 1) (taken ++ taken') rest' s' ?_ (htakes.append htakes')
        rw [hcut, ← List.append_assoc, heq, List.append_assoc, heq', List.append_assoc]
      · have hend : R.Firm s₁ rest := by
          refine hfirm 1 taken rest s₁ ?_ htakes
          rw [hcut 0, List.take_zero, List.flatten_nil, List.append_nil, heq]
        rw [hrun, heq, List.append_assoc, run_of_takes htakes,
          run_of_error (hend e herr pieces.flatten)]

end Reader

end Rsurl.Base
