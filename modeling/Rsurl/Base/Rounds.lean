/-
# `Rsurl.Base.Rounds` — dialogues in lock step

A client that gets one event in each round, numbered from where it starts, and
after each goes on or ends.  If its states are known round by round up to the
one it ends in, there is such a dialogue, and all of them have one outcome.
-/
import Mathlib.Order.Basic

namespace Rsurl.Base

variable {σ ε ρ : Type} {ev : Nat → ε} {next : σ → Nat → σ → Prop} {done : σ → Nat → Prop}

/-- The events of a dialogue that starts in round `k`: the client goes on by `next` until it is
`done`. -/
inductive Rounds (ev : Nat → ε) (next : σ → Nat → σ → Prop) (done : σ → Nat → Prop) :
    σ → Nat → List ε → Prop
  | last {s : σ} {k : Nat} (h : done s k) : Rounds ev next done s k [ev k]
  | round {s s' : σ} {k : Nat} {evs : List ε} (h : next s k s')
      (hrest : Rounds ev next done s' (k + 1) evs) : Rounds ev next done s k (ev k :: evs)

namespace Rounds

/-- A client that goes on in each round before the `n`-th and ends there has a dialogue. -/
theorem exists_of_bound {At : σ → Nat → Prop} {n : Nat}
    (hnext : ∀ s k, k < n → At s k → ∃ s', next s k s' ∧ At s' (k + 1))
    (hdone : ∀ s, At s n → done s n) {s : σ} {k : Nat} (h : At s k) (hk : k ≤ n) :
    ∃ evs, Rounds ev next done s k evs := by
  obtain ⟨m, hm⟩ := Nat.exists_eq_add_of_le hk
  induction m generalizing s k with
  | zero =>
      obtain rfl : n = k := hm
      exact ⟨[ev n], .last (hdone s h)⟩
  | succ m ih =>
      obtain ⟨s', hs', h'⟩ := hnext s k (by omega) h
      obtain ⟨evs, hevs⟩ := ih h' (by omega) (by omega)
      exact ⟨ev k :: evs, .round hs' hevs⟩

/-- What holds round by round decides the outcome of a loop over the events. -/
theorem outcome {At : σ → Nat → Prop} {run : σ → List ε → Option ρ} {res : ρ}
    (hnext : ∀ s k s', At s k → next s k s' → At s' (k + 1) ∧
      ∀ evs, run s (ev k :: evs) = run s' evs)
    (hdone : ∀ s k, At s k → done s k → run s [ev k] = some res) {s : σ} {k : Nat} {evs : List ε}
    (h : At s k) (hevs : Rounds ev next done s k evs) : run s evs = some res := by
  induction hevs with
  | last hend => exact hdone _ _ h hend
  | round hgo _ ih =>
      obtain ⟨h', hrun⟩ := hnext _ _ _ h hgo
      rw [hrun]
      exact ih h'

end Rounds

end Rsurl.Base
