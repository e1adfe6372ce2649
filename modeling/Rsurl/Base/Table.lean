/-
# `Rsurl.Base.Table` — changing the values of an association list

Updates of all values of an `AList` at once: `mapValues`, `mapUntil` with a
step that may fail on the way, and `retain`.
-/
import Mathlib.Data.List.AList

namespace Rsurl.Base

variable {κ : Type*} {ν : Type*} {ε : Type*}

/-- A table from keys to values. -/
abbrev Table (κ ν : Type*) := AList fun _ : κ => ν

/-- Update the values one after another until an update fails. -/
def updateEntries (f : κ → ν → Except ε ν) :
    List (Σ _ : κ, ν) → Except ε Unit × List (Σ _ : κ, ν)
  | [] => (.ok (), [])
  | ⟨k, v⟩ :: l =>
      match f k v with
      | .error e => (.error e, ⟨k, v⟩ :: l)
      | .ok v' =>
          let (res, l) := updateEntries f l
          (res, ⟨k, v'⟩ :: l)

theorem keys_updateEntries (f : κ → ν → Except ε ν) (l : List (Σ _ : κ, ν)) :
    (updateEntries f l).2.keys = l.keys := by
  induction l with
  | nil => rfl
  | cons x l ih =>
      obtain ⟨k, v⟩ := x
      simp only [updateEntries]
      split
      · rfl
      · simp only [List.keys_cons, ih]

namespace Table

variable [DecidableEq κ]

/-- Update every value. -/
def mapValues (f : κ → ν → ν) (t : Table κ ν) : Table κ ν where
  entries := t.entries.map fun x => ⟨x.1, f x.1 x.2⟩
  nodupKeys := by
    have h : (t.entries.map fun x : (Σ _ : κ, ν) => (⟨x.1, f x.1 x.2⟩ : Σ _ : κ, ν)).keys =
        t.entries.keys := by
      rw [List.keys, List.map_map]
      rfl
    rw [List.NodupKeys, h]
    exact t.nodupKeys

/-- Update every value until an update fails. -/
def mapUntil (f : κ → ν → Except ε ν) (t : Table κ ν) : Except ε Unit × Table κ ν :=
  ((updateEntries f t.entries).1, {
    entries := (updateEntries f t.entries).2
    nodupKeys := by
      rw [List.NodupKeys, keys_updateEntries]
      exact t.nodupKeys })

/-- Keep the entries that satisfy `p`. -/
def retain (p : κ → ν → Bool) (t : Table κ ν) : Table κ ν where
  entries := t.entries.filter fun x => p x.1 x.2
  nodupKeys := List.NodupKeys.sublist List.filter_sublist t.nodupKeys

@[simp] theorem lookup_mapValues (f : κ → ν → ν) (t : Table κ ν) (k : κ) :
    AList.lookup k (t.mapValues f) = (AList.lookup k t).map (f k) := by
  obtain ⟨l, h⟩ := t
  simp only [AList.lookup, mapValues]
  induction l with
  | nil => rfl
  | cons x l ih =>
      obtain ⟨k', v⟩ := x
      have hl : l.NodupKeys := (List.nodupKeys_cons.mp h).2
      by_cases hk : k = k'
      · subst hk
        simp
      · simp [hk, ih hl]

/-- A value after an update that may have broken off: the old one or the updated one. -/
theorem lookup_mapUntil (f : κ → ν → Except ε ν) (t : Table κ ν) (k : κ) :
    AList.lookup k (t.mapUntil f).2 = AList.lookup k t ∨
      ∃ v v', AList.lookup k t = some v ∧ f k v = .ok v' ∧
        AList.lookup k (t.mapUntil f).2 = some v' := by
  obtain ⟨l, h⟩ := t
  simp only [AList.lookup, mapUntil]
  induction l with
  | nil => exact .inl rfl
  | cons x l ih =>
      obtain ⟨k', v⟩ := x
      have hl : l.NodupKeys := (List.nodupKeys_cons.mp h).2
      simp only [updateEntries]
      split
      · exact .inl rfl
      · next v' hf =>
          by_cases hk : k = k'
          · subst hk
            exact .inr ⟨v, v', by simp, hf, by simp⟩
          · simpa [hk] using ih hl

/-- When no update fails, every value is an updated one. -/
theorem lookup_mapUntil_of_ok {f : κ → ν → Except ε ν} {t : Table κ ν}
    (hok : (t.mapUntil f).1 = .ok ()) {k : κ} {v' : ν}
    (hv' : AList.lookup k (t.mapUntil f).2 = some v') :
    ∃ v, AList.lookup k t = some v ∧ f k v = .ok v' := by
  obtain ⟨l, h⟩ := t
  simp only [AList.lookup, mapUntil] at hok hv' ⊢
  clear h
  induction l with
  | nil => cases hv'
  | cons x l ih =>
      obtain ⟨k', v⟩ := x
      simp only [updateEntries] at hok hv'
      split at hok
      · cases hok
      next w hf =>
      rw [hf] at hv'
      by_cases hk : k = k'
      · subst hk
        rw [List.dlookup_cons_eq] at hv' ⊢
        obtain rfl := Option.some.inj hv'
        exact ⟨v, rfl, hf⟩
      · rw [List.dlookup_cons_ne _ _ hk] at hv' ⊢
        exact ih hok hv'

/-- Taking an entry out, up to order. -/
theorem perm_cons_erase {t : Table κ ν} {k : κ} {v : ν} (h : AList.lookup k t = some v) :
    List.Perm t.entries (⟨k, v⟩ :: (AList.erase k t).entries) := by
  obtain ⟨l, hl⟩ := t
  change List.Perm l (⟨k, v⟩ :: l.kerase k)
  change l.dlookup k = some v at h
  clear hl
  induction l with
  | nil => cases h
  | cons x l ih =>
      obtain ⟨k', v'⟩ := x
      by_cases hk : k = k'
      · subst hk
        rw [List.dlookup_cons_eq] at h
        obtain rfl := Option.some.inj h
        have hrest : List.kerase k (⟨k, v'⟩ :: l) = l := List.kerase_cons_eq rfl
        rw [hrest]
      · rw [List.dlookup_cons_ne l ⟨k', v'⟩ hk] at h
        rw [List.kerase_cons_ne hk]
        exact ((ih h).cons _).trans (List.Perm.swap _ _ _)

theorem lookup_retain (p : κ → ν → Bool) (t : Table κ ν) (k : κ) :
    AList.lookup k (t.retain p) = (AList.lookup k t).filter (p k) := by
  obtain ⟨l, h⟩ := t
  simp only [AList.lookup, retain]
  induction l with
  | nil => rfl
  | cons x l ih =>
      obtain ⟨k', v⟩ := x
      obtain ⟨hnot, hl⟩ := List.nodupKeys_cons.mp h
      by_cases hk : k = k'
      · subst hk
        have hrest : List.dlookup k l = none := List.dlookup_eq_none.mpr hnot
        cases hp : p k v with
        | true => simp [hp, Option.filter]
        | false => simp [hp, ih hl, hrest, Option.filter]
      · cases hp : p k' v with
        | true => simp [hp, hk, ih hl]
        | false => simp [hp, hk, ih hl]

/-- What is found once a value was put in is that value, or was there before. -/
theorem lookup_insert_cases {t : Table κ ν} {k k' : κ} {v v' : ν}
    (h : (t.insert k v).lookup k' = some v') :
    k' = k ∧ v' = v ∨ k' ≠ k ∧ t.lookup k' = some v' := by
  by_cases hk : k' = k
  · subst hk
    rw [AList.lookup_insert] at h
    exact .inl ⟨rfl, (Option.some.inj h).symm⟩
  · rw [AList.lookup_insert_ne hk] at h
    exact .inr ⟨hk, h⟩

/-- What is found once a key was taken out is under another key, and was there before. -/
theorem lookup_of_erase {t : Table κ ν} {k k' : κ} {v' : ν}
    (h : (t.erase k).lookup k' = some v') : k' ≠ k ∧ t.lookup k' = some v' := by
  have hk : k' ≠ k := by
    rintro rfl
    rw [AList.lookup_erase] at h
    cases h
  rw [AList.lookup_erase_ne hk] at h
  exact ⟨hk, h⟩

end Table
end Rsurl.Base
