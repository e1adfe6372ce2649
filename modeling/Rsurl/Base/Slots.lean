/-
# `Rsurl.Base.Slots` — results that are still out

A list of slots, each filled at most once, and the list of those still to be
filled.
-/
import Mathlib.Data.List.Perm.Basic
import Mathlib.Data.List.Nodup
import Mathlib.Data.List.Range

namespace Rsurl.Base

variable {α : Type*}

/-- `out` lists the slots that are not filled, once each. -/
structure Slots (out : List Nat) (slots : List (Option α)) : Prop where
  nodup : out.Nodup
  mem_iff : ∀ i, i ∈ out ↔ slots[i]? = some none

/-- What was filled in `slots` has the same value in `slots'`. -/
def Keeps (slots slots' : List (Option α)) : Prop :=
  ∀ ⦃i : Nat⦄ ⦃a : α⦄, slots[i]? = some (some a) → slots'[i]? = some (some a)

theorem Keeps.refl (slots : List (Option α)) : Keeps slots slots := fun _ _ h => h

theorem Keeps.trans {slots slots' slots'' : List (Option α)} (h : Keeps slots slots')
    (h' : Keeps slots' slots'') : Keeps slots slots'' :=
  fun _ _ hi => h' (h hi)

namespace Slots

variable {out out' : List Nat} {slots : List (Option α)} {i : Nat}

/-- Nothing is filled yet. -/
theorem init {β : Type*} (l : List β) :
    Slots (List.range l.length) (l.map fun _ => (none : Option α)) where
  nodup := List.nodup_range
  mem_iff i := by
    rw [List.mem_range, List.getElem?_map, Option.map_eq_some_iff]
    constructor
    · intro hi
      exact ⟨l[i], List.getElem?_eq_getElem hi, rfl⟩
    · rintro ⟨a, ha, -⟩
      exact (List.getElem?_eq_some_iff.mp ha).1

theorem perm (h : Slots out slots) (hperm : out.Perm out') : Slots out' slots where
  nodup := hperm.nodup h.nodup
  mem_iff i := by rw [← hperm.mem_iff, h.mem_iff]

theorem lt_length (h : Slots out slots) (hi : i ∈ out) : i < slots.length :=
  (List.getElem?_eq_some_iff.mp ((h.mem_iff i).mp hi)).1

/-- A slot is filled. -/
theorem fill (h : Slots (i :: out) slots) (a : α) : Slots out (slots.set i (some a)) where
  nodup := h.nodup.of_cons
  mem_iff j := by
    have hi : i ∉ out := (List.nodup_cons.mp h.nodup).1
    by_cases hj : i = j
    · subst hj
      rw [List.getElem?_set_self (h.lt_length List.mem_cons_self)]
      exact ⟨fun hmem => absurd hmem hi, nofun⟩
    · rw [List.getElem?_set_ne hj, ← h.mem_iff, List.mem_cons]
      exact ⟨.inr, fun hmem => hmem.resolve_left (Ne.symm hj)⟩

/-- Filling a slot that is out overwrites nothing. -/
theorem keeps_fill (h : Slots out slots) (hi : i ∈ out) (a : α) :
    Keeps slots (slots.set i (some a)) := by
  intro j b hj
  have hne : i ≠ j := by
    rintro rfl
    rw [(h.mem_iff i).mp hi] at hj
    cases hj
  rw [List.getElem?_set_ne hne]
  exact hj

/-- Nothing is out exactly when every slot is filled. -/
theorem eq_nil_iff (h : Slots out slots) : out = [] ↔ slots.any Option.isNone = false := by
  rw [List.eq_nil_iff_forall_not_mem, List.any_eq_false]
  constructor
  · intro hnone slot hslot hisNone
    obtain ⟨i, hi⟩ := List.mem_iff_getElem?.mp hslot
    rw [Option.isNone_iff_eq_none] at hisNone
    exact hnone i ((h.mem_iff i).mpr (hisNone ▸ hi))
  · intro hall i hi
    have hslot := List.mem_of_getElem? ((h.mem_iff i).mp hi)
    exact hall none hslot rfl

end Slots
end Rsurl.Base
