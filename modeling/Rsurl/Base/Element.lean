/-
# `Rsurl.Base.Element` — BER elements in any definite form

A tagged value with its length octets in whatever definite form, up to a number
of them; and the reader of a content that is items of one kind up to its end.
What a reader of one item accepts decides what the reader of all of them does
(`many_iff`).
-/
import Mathlib.Data.List.Forall2
import Rsurl.Base.Ber

namespace Rsurl.Base

/-! ## One item after another -/

section

variable {α γ ε : Type}

/-- Items up to the end of the input; each takes something of it. -/
def many (item : List γ → Except ε (α × List γ)) : Nat → List γ → Except ε (List α)
  | 0, _ => .ok []
  | fuel + 1, r =>
      if r.isEmpty then .ok []
      else do
        let (a, r) ← item r
        return a :: (← many item fuel r)

/-- What is read is exactly what is items of the kind, one after another. -/
theorem many_iff {item : List γ → Except ε (α × List γ)} {P : α → List γ → Prop}
    (hitem : ∀ {r a rest}, item r = .ok (a, rest) ↔ ∃ e, P a e ∧ r = e ++ rest)
    (hne : ∀ {a e}, P a e → e ≠ []) {fuel : Nat} {r : List γ} (hfuel : r.length ≤ fuel)
    {as : List α} :
    many item fuel r = .ok as ↔ ∃ es, List.Forall₂ P as es ∧ r = es.flatten := by
  have hempty : ∀ {as : List α}, (.ok [] : Except ε (List α)) = .ok as ↔
      ∃ es, List.Forall₂ P as es ∧ ([] : List γ) = es.flatten := by
    intro as
    constructor
    · intro h
      obtain rfl := Except.ok.inj h
      exact ⟨[], .nil, rfl⟩
    · rintro ⟨es, hes, hnil⟩
      cases hes with
      | nil => rfl
      | cons he => exact absurd (List.append_eq_nil_iff.mp hnil.symm).1 (hne he)
  induction fuel generalizing r as with
  | zero =>
      obtain rfl := List.length_eq_zero_iff.mp (Nat.le_zero.mp hfuel)
      exact hempty
  | succ fuel ih =>
      cases r with
      | nil => exact hempty
      | cons b r =>
          have hshorter : ∀ {a e rest}, P a e → b :: r = e ++ rest → rest.length ≤ fuel := by
            intro a e rest he heq
            have hlen := congrArg List.length heq
            have hpos := List.length_pos_of_ne_nil (hne he)
            rw [List.length_append] at hlen
            omega
          show (item (b :: r) >>= fun x => many item fuel x.2 >>= fun as => pure (x.1 :: as)) = _ ↔ _
          constructor
          · intro h
            cases hx : item (b :: r) with
            | error e =>
                rw [hx] at h
                cases h
            | ok x =>
                obtain ⟨a, rest⟩ := x
                obtain ⟨e, he, heq⟩ := hitem.mp hx
                rw [hx] at h
                cases hrest : many item fuel rest with
                | error e' =>
                    simp only [bind, Except.bind, hrest] at h
                    cases h
                | ok as' =>
                    simp only [bind, Except.bind, hrest] at h
                    obtain rfl := Except.ok.inj h
                    obtain ⟨es, hes, rfl⟩ := (ih (hshorter he heq)).mp hrest
                    exact ⟨e :: es, .cons he hes, heq⟩
          · rintro ⟨es, hes, heq⟩
            cases hes with
            | nil => cases heq
            | @cons a e as' es' he hes' =>
                have hx : item (b :: r) = .ok (a, es'.flatten) := hitem.mpr ⟨e, he, heq⟩
                have hrest := (ih (hshorter he heq)).mpr ⟨es', hes', rfl⟩
                simp only [bind, Except.bind, hx, hrest]
                rfl

end

/-! ## Elements -/

namespace Ber

/-- A tag, length octets, at most `k` of them behind the first, and the value. -/
inductive IsElement (k : Nat) (tag : UInt8) (value : List UInt8) : List UInt8 → Prop
  | mk {hdr : List UInt8} (h : IsLength hdr value.length) (hk : hdr.length ≤ k + 1) :
      IsElement k tag value (tag :: hdr ++ value)

theorem IsElement.ne_nil {k : Nat} {tag : UInt8} {value e : List UInt8}
    (h : IsElement k tag value e) : e ≠ [] := by
  cases h
  exact List.cons_ne_nil _ _

theorem IsElement.length_lt {k : Nat} {tag : UInt8} {value e : List UInt8}
    (h : IsElement k tag value e) : value.length < e.length := by
  cases h
  rw [List.length_append, List.length_cons]
  omega

end Ber

end Rsurl.Base
