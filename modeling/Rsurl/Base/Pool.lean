/-
# `Rsurl.Base.Pool` — idle values parked under keys

A table of stacks.  What is taken out under a key was parked under it; parking
drops the value where a stack, or all of them together, are full.
-/
import Mathlib.Algebra.BigOperators.Group.List.Basic
import Mathlib.Algebra.GroupWithZero.Nat
import Rsurl.Base.Table

namespace Rsurl.Base

variable {κ ν : Type} [DecidableEq κ]

/-- Stacks of parked values, the last one parked at the end. -/
abbrev Pool (κ ν : Type) := Table κ (List ν)

namespace Pool

/-- How many values are parked. -/
def total (p : Pool κ ν) : Nat := (p.entries.map fun x => x.2.length).sum

/-- Take the last value parked under `key`; a stack that is empty then is removed. -/
def checkout (p : Pool κ ν) (key : κ) : Option ν × Pool κ ν :=
  match p.lookup key with
  | none => (none, p)
  | some bucket =>
      let rest := bucket.dropLast
      (bucket.getLast?, if rest = [] then p.erase key else p.insert key rest)

/-- Park a value, unless the pool or its stack is full. -/
def release (perKey global : Nat) (p : Pool κ ν) (key : κ) (v : ν) : Pool κ ν :=
  if global ≤ total p then p
  else
    let bucket := (p.lookup key).getD []
    if perKey ≤ bucket.length then p else p.insert key (bucket ++ [v])

/-- A value is parked under a key. -/
def Parked (p : Pool κ ν) (key : κ) (v : ν) : Prop :=
  ∃ bucket, p.lookup key = some bucket ∧ v ∈ bucket

theorem not_parked_empty {key : κ} {v : ν} : ¬ Parked (∅ : Pool κ ν) key v := by
  rintro ⟨bucket, hlookup, -⟩
  rw [AList.lookup_empty] at hlookup
  cases hlookup

/-- What is taken out was parked. -/
theorem parked_of_checkout {p : Pool κ ν} {key : κ} {v : ν} (h : (p.checkout key).1 = some v) :
    Parked p key v := by
  unfold checkout at h
  split at h
  · cases h
  · next bucket hlookup => exact ⟨bucket, hlookup, List.mem_of_getLast? h⟩

/-- What is left was parked before. -/
theorem parked_checkout {p : Pool κ ν} {key k : κ} {u : ν} (h : Parked (p.checkout key).2 k u) :
    Parked p k u := by
  unfold checkout at h
  split at h
  · exact h
  · next bucket hlookup =>
      obtain ⟨b, hb, hu⟩ := h
      simp only at hb
      split at hb
      · exact ⟨b, (Table.lookup_of_erase hb).2, hu⟩
      · rcases Table.lookup_insert_cases hb with ⟨rfl, rfl⟩ | ⟨-, hb⟩
        · exact ⟨bucket, hlookup, (List.dropLast_sublist _).subset hu⟩
        · exact ⟨b, hb, hu⟩

/-- What is parked after parking a value is that value, or was parked before. -/
theorem parked_release {perKey global : Nat} {p : Pool κ ν} {key k : κ} {v u : ν}
    (h : Parked (p.release perKey global key v) k u) : Parked p k u ∨ k = key ∧ u = v := by
  unfold release at h
  split at h
  · exact .inl h
  simp only at h
  split at h
  · exact .inl h
  · obtain ⟨b, hb, hu⟩ := h
    rcases Table.lookup_insert_cases hb with ⟨rfl, rfl⟩ | ⟨-, hb⟩
    · rcases List.mem_append.mp hu with hu | hu
      · cases hlookup : p.lookup k with
        | none =>
            rw [hlookup] at hu
            cases hu
        | some bucket =>
            rw [hlookup] at hu
            exact .inl ⟨bucket, hlookup, hu⟩
      · exact .inr ⟨rfl, List.mem_singleton.mp hu⟩
    · exact .inl ⟨b, hb, hu⟩

end Pool
end Rsurl.Base
