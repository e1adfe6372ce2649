/-
# `Rsurl.Base.Checked` — computations that can stop the program

A checked computation ends with a value or an error, or not at all: an index or
a slice out of range, a subtraction below zero, a loop that is out of fuel.
`ofExcept` is a computation that always ends.
-/
import Mathlib.Algebra.GroupWithZero.Nat
import Mathlib.Data.List.Basic

namespace Rsurl.Base

/-- A computation that may panic. -/
abbrev Checked (ε α : Type) := ExceptT ε Option α

namespace Checked

variable {ε α β γ : Type}

/-- No value and no error. -/
def panic : Checked ε α := ExceptT.mk none

/-- What has ended. -/
def ofExcept (x : Except ε α) : Checked ε α := ExceptT.mk (some x)

/-- `l[i]`. -/
def get (l : List α) (i : Nat) : Checked ε α :=
  match l[i]? with
  | some a => pure a
  | none => panic

/-- `l[i..j]`. -/
def slice (l : List α) (i j : Nat) : Checked ε (List α) :=
  if i ≤ j ∧ j ≤ l.length then pure ((l.drop i).take (j - i)) else panic

/-- `l[i..]`. -/
def sliceFrom (l : List α) (i : Nat) : Checked ε (List α) := slice l i l.length

/-- `a - b`. -/
def sub (a b : Nat) : Checked ε Nat := if b ≤ a then pure (a - b) else panic

/-- `a << b` of `u64`s. -/
def shl64 (a b : Nat) : Checked ε Nat := if b < 64 then pure (a <<< b % 2 ^ 64) else panic

theorem pure_eq (a : α) : (pure a : Checked ε α) = ofExcept (.ok a) := rfl

theorem throw_eq (e : ε) : (throw e : Checked ε α) = ofExcept (.error e) := rfl

@[simp] theorem ofExcept_ok_bind (a : α) (f : α → Checked ε β) :
    ofExcept (.ok a) >>= f = f a := rfl

theorem get_eq {l : List α} {i : Nat} {a : α} (h : l[i]? = some a) :
    (get l i : Checked ε α) = ofExcept (.ok a) := by
  rw [get, h]
  rfl

theorem slice_eq {l : List α} {i j : Nat} (hij : i ≤ j) (hj : j ≤ l.length) :
    (slice l i j : Checked ε (List α)) = ofExcept (.ok ((l.drop i).take (j - i))) :=
  if_pos ⟨hij, hj⟩

theorem sliceFrom_eq {l : List α} {i : Nat} (h : i ≤ l.length) :
    (sliceFrom l i : Checked ε (List α)) = ofExcept (.ok (l.drop i)) := by
  rw [sliceFrom, slice_eq h (Nat.le_refl _), ← List.length_drop, List.take_length]

theorem sub_eq {a b : Nat} (h : b ≤ a) : (sub a b : Checked ε Nat) = ofExcept (.ok (a - b)) :=
  if_pos h

theorem shl64_eq {a b : Nat} (h : b < 64) :
    (shl64 a b : Checked ε Nat) = ofExcept (.ok (a <<< b % 2 ^ 64)) := if_pos h

/-- Behind what has ended, each value goes on with what has ended. -/
theorem ofExcept_bind {x : Except ε α} {f : α → Checked ε β} {g : α → Except ε β}
    (h : ∀ a, x = .ok a → f a = ofExcept (g a)) : ofExcept x >>= f = ofExcept (x >>= g) := by
  cases x with
  | error e => rfl
  | ok a => exact h a rfl

theorem ofExcept_bind_map {x : Except ε α} {f : α → Checked ε γ} {g : α → Except ε β}
    {k : β → γ} (h : ∀ a, x = .ok a → f a = ofExcept ((g a).map k)) :
    ofExcept x >>= f = ofExcept ((x >>= g).map k) := by
  cases x with
  | error e => rfl
  | ok a => exact h a rfl

/-! ## Simulation -/

/-- `x` ends as `y` does, with a value that is related to that of `y`. -/
def Simulates (R : α → β → Prop) (x : Checked ε α) (y : Except ε β) : Prop :=
  match y with
  | .ok b => ∃ a, x = ofExcept (.ok a) ∧ R a b
  | .error e => x = ofExcept (.error e)

namespace Simulates

variable {α' β' : Type} {R : α → β → Prop} {S : α' → β' → Prop}

theorem pure {a : α} {b : β} (h : R a b) : Simulates R (pure a : Checked ε α) (.ok b) :=
  ⟨a, rfl, h⟩

theorem throw (e : ε) : Simulates R (throw e) (.error e) := rfl

theorem refl (x : Except ε α) : Simulates (· = ·) (ofExcept x) x := by
  cases x with
  | error e => rfl
  | ok a => exact ⟨a, rfl, rfl⟩

/-- One step behind another. -/
theorem bind {x : Checked ε α} {y : Except ε β} {f : α → Checked ε α'} {g : β → Except ε β'}
    (h : Simulates R x y) (hf : ∀ a b, y = .ok b → R a b → Simulates S (f a) (g b)) :
    Simulates S (x >>= f) (y >>= g) := by
  cases y with
  | error e =>
      cases h
      rfl
  | ok b =>
      obtain ⟨a, rfl, hab⟩ := h
      exact hf a b rfl hab

/-- A step that is the same on both sides. -/
theorem bind_same {x : Except ε α} {f : α → Checked ε α'} {g : α → Except ε β'}
    (hf : ∀ a, x = .ok a → Simulates S (f a) (g a)) : Simulates S (ofExcept x >>= f) (x >>= g) :=
  bind (refl x) fun _ b hb hab => hab ▸ hf b hb

/-- There is an end. -/
theorem exists_run {x : Checked ε α} {y : Except ε β} (h : Simulates R x y) :
    ∃ r, x.run = some r := by
  cases y with
  | error e => exact ⟨.error e, congrArg ExceptT.run h⟩
  | ok b =>
      obtain ⟨a, rfl, -⟩ := h
      exact ⟨.ok a, rfl⟩

end Simulates
end Checked
end Rsurl.Base
