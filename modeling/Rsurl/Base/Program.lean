/-
# `Rsurl.Base.Program` — programs over a state, and triples about them

A program ends with a value or an error, in the state it had reached; the
state survives an error.  `Triple P m Q E`: from a state in which `P` holds,
`m` ends with a value and in a state that `Q` relates, or with an error in a
state in which `E` holds.
-/
import Mathlib.Init

namespace Rsurl.Base

/-- A program over a state, with errors. -/
abbrev Program (σ ε α : Type) := ExceptT ε (StateM σ) α

namespace Program

variable {σ ε α β : Type}

/-- Run from a state. -/
def exec (m : Program σ ε α) (s : σ) : Except ε α × σ := m s

/-- Run, and look at how it ended. -/
def attempt (m : Program σ ε α) : Program σ ε (Except ε α) :=
  fun s => (.ok (m.exec s).1, (m.exec s).2)

/-- Fail if the value is an error. -/
def ofExcept : Except ε α → Program σ ε α
  | .ok a => pure a
  | .error e => throw e

@[simp] theorem exec_pure (a : α) (s : σ) : (pure a : Program σ ε α).exec s = (.ok a, s) := rfl

@[simp] theorem exec_throw (e : ε) (s : σ) :
    (throw e : Program σ ε α).exec s = (.error e, s) := rfl

@[simp] theorem exec_modify (f : σ → σ) (s : σ) :
    (modify f : Program σ ε PUnit).exec s = (.ok ⟨⟩, f s) := rfl

@[simp] theorem exec_get (s : σ) : (get : Program σ ε σ).exec s = (.ok s, s) := rfl

@[simp] theorem exec_attempt (m : Program σ ε α) (s : σ) :
    m.attempt.exec s = (.ok (m.exec s).1, (m.exec s).2) := rfl

theorem exec_bind (m : Program σ ε α) (f : α → Program σ ε β) (s : σ) :
    (m >>= f).exec s =
      match m.exec s with
      | (.ok a, s') => (f a).exec s'
      | (.error e, s') => (.error e, s') := by
  show (ExceptT.bindCont f (m s).1 (m s).2) = _
  unfold exec
  obtain ⟨res, s'⟩ := m s
  cases res <;> rfl

@[simp] theorem exec_bind_ok {m : Program σ ε α} {f : α → Program σ ε β} {s s' : σ} {a : α}
    (h : m.exec s = (.ok a, s')) : (m >>= f).exec s = (f a).exec s' := by
  rw [exec_bind, h]

/-- Partial correctness; every program ends. -/
def Triple (P : σ → Prop) (m : Program σ ε α) (Q : α → σ → Prop) (E : σ → Prop) : Prop :=
  ∀ s, P s → match m.exec s with
    | (.ok a, s') => Q a s'
    | (.error _, s') => E s'

namespace Triple

variable {P P' : σ → Prop} {Q Q' : α → σ → Prop} {R : β → σ → Prop} {E E' : σ → Prop}
  {m : Program σ ε α} {f : α → Program σ ε β}

theorem weaken (h : Triple P m Q E) (hP : ∀ s, P' s → P s) (hQ : ∀ a s, Q a s → Q' a s)
    (hE : ∀ s, E s → E' s) : Triple P' m Q' E' := by
  intro s hs
  have hm := h s (hP s hs)
  revert hm
  rcases m.exec s with ⟨res | res, s'⟩
  · exact hE s'
  · exact hQ res s'

theorem pre (h : Triple P m Q E) (hP : ∀ s, P' s → P s) : Triple P' m Q E :=
  h.weaken hP (fun _ _ => id) fun _ => id

theorem pure {a : α} (h : ∀ s, P s → Q a s) : Triple P (pure a : Program σ ε α) Q E := h

theorem throw {e : ε} (h : ∀ s, P s → E s) : Triple P (throw e : Program σ ε α) Q E := h

theorem bind (hm : Triple P m Q E) (hf : ∀ a, Triple (Q a) (f a) R E) :
    Triple P (m >>= f) R E := by
  intro s hs
  have hq := hm s hs
  rw [exec_bind]
  revert hq
  rcases m.exec s with ⟨res | a, s'⟩
  · exact id
  · exact hf a s'

theorem modify {g : σ → σ} {Q : PUnit → σ → Prop} (h : ∀ s, P s → Q ⟨⟩ (g s)) :
    Triple P (modify g : Program σ ε PUnit) Q E := h

theorem get {Q : σ → σ → Prop} (h : ∀ s, P s → Q s s) : Triple P (get : Program σ ε σ) Q E := h

theorem attempt {Q : Except ε α → σ → Prop}
    (hm : Triple P m (fun a => Q (.ok a)) fun s => ∀ e, Q (.error e) s) :
    Triple P m.attempt Q E := by
  intro s hs
  have hq := hm s hs
  rw [exec_attempt]
  revert hq
  rcases m.exec s with ⟨e | a, s'⟩
  · exact fun hq => hq e
  · exact id

theorem ofExcept {x : Except ε α} (hok : ∀ a, x = .ok a → ∀ s, P s → Q a s)
    (herr : ∀ s, P s → E s) : Triple P (ofExcept x : Program σ ε α) Q E := by
  cases x with
  | error e => exact throw herr
  | ok a => exact pure (hok a rfl)

/-- A fact that does not speak of the state. -/
theorem assume {φ : Prop} (h : φ → Triple P m Q E) : Triple (fun s => P s ∧ φ) m Q E :=
  fun s hs => h hs.2 s hs.1

/-- A fact about the state that holds however the program ends. -/
theorem of_state (h : ∀ s, P s → E (m.exec s).2) : Triple P m (fun _ => E) E := by
  intro s hs
  have hE := h s hs
  revert hE
  rcases m.exec s with ⟨res | res, s'⟩
  · exact id
  · exact id

/-- What holds of a run that went well. -/
theorem ok (h : Triple P m Q E) {s s' : σ} {a : α} (hs : P s) (hm : m.exec s = (.ok a, s')) :
    Q a s' := by
  have hq := h s hs
  rwa [hm] at hq

/-- Nothing holds before: nothing to show. -/
theorem absurd (h : ∀ s, ¬ P s) : Triple P m Q E := fun s hs => (h s hs).elim

end Triple
end Program
end Rsurl.Base
