/-
# `Rsurl.Base.Keyed` — a list used as a map

A list whose elements carry their own key, changed by the updates such a list
is kept with: drop what is under a key, replace it, keep what satisfies a test.
`Holds` says which map the list is, and every update of the list is the
pointwise update of the map.
-/
import Mathlib.Data.List.Induction
import Mathlib.Data.List.Nodup
import Mathlib.Logic.Function.Basic

namespace Rsurl.Base.Keyed

variable {α κ : Type*} (key : α → κ)

/-- Drop what is stored under a key. -/
def remove [DecidableEq κ] (k : κ) (l : List α) : List α := l.filter fun x => key x ≠ k

/-- Store an element in place of what was under its key. -/
def put [DecidableEq κ] (a : α) (l : List α) : List α := remove key (key a) l ++ [a]

/-- No two elements have the same key. -/
def Distinct (l : List α) : Prop := (l.map key).Nodup

/-- The map a list of writes leaves: the last write of a key wins. -/
def lastWrites [DecidableEq κ] (l : List α) : κ → Option α :=
  l.foldl (fun m a => Function.update m (key a) (some a)) fun _ => none

/-- The list holds the map `m`, each key once. -/
structure Holds (l : List α) (m : κ → Option α) : Prop where
  distinct : Distinct key l
  lookup_iff : ∀ k a, m k = some a ↔ a ∈ l ∧ key a = k

variable {key}

theorem mem_remove [DecidableEq κ] {k : κ} {l : List α} {x : α} : x ∈ remove key k l ↔ x ∈ l ∧ key x ≠ k := by
  simp [remove]

theorem Distinct.filter {l : List α} (h : Distinct key l) (p : α → Bool) :
    Distinct key (l.filter p) :=
  h.sublist (List.filter_sublist.map key)

theorem Distinct.put [DecidableEq κ] {l : List α} (h : Distinct key l) (a : α) : Distinct key (put key a l) := by
  have hrest : Distinct key (remove key (key a) l) := h.filter _
  rw [Distinct, Keyed.put, List.map_append, List.map_singleton, List.nodup_append]
  refine ⟨hrest, List.nodup_singleton _, ?_⟩
  intro k hk k' hk' he
  obtain ⟨x, hx, rfl⟩ := List.mem_map.mp hk
  exact (mem_remove.mp hx).2 (he.trans (List.mem_singleton.mp hk'))

namespace Holds

variable {l : List α} {m : κ → Option α}

theorem nil : Holds key ([] : List α) fun _ => none :=
  ⟨List.nodup_nil, by simp⟩

/-- An element of the list is what the map has under its key. -/
theorem lookup_of_mem (h : Holds key l m) {a : α} (ha : a ∈ l) : m (key a) = some a :=
  (h.lookup_iff _ _).mpr ⟨ha, rfl⟩

theorem remove [DecidableEq κ] (h : Holds key l m) (k : κ) :
    Holds key (remove key k l) (Function.update m k none) := by
  refine ⟨h.distinct.filter _, ?_⟩
  intro k' a
  by_cases hk : k' = k
  · subst hk
    simp [mem_remove]
  · rw [Function.update_of_ne hk, h.lookup_iff, mem_remove]
    constructor
    · rintro ⟨ha, rfl⟩
      exact ⟨⟨ha, hk⟩, rfl⟩
    · rintro ⟨⟨ha, -⟩, rfl⟩
      exact ⟨ha, rfl⟩

theorem put [DecidableEq κ] (h : Holds key l m) (a : α) :
    Holds key (put key a l) (Function.update m (key a) (some a)) := by
  refine ⟨h.distinct.put a, ?_⟩
  intro k b
  rw [Keyed.put, List.mem_append, mem_remove, List.mem_singleton]
  by_cases hk : k = key a
  · subst hk
    rw [Function.update_self, Option.some.injEq]
    constructor
    · rintro rfl
      exact ⟨.inr rfl, rfl⟩
    · rintro ⟨⟨-, hne⟩ | rfl, hb⟩
      · exact absurd hb hne
      · rfl
  · rw [Function.update_of_ne hk, h.lookup_iff]
    constructor
    · rintro ⟨hb, rfl⟩
      exact ⟨.inl ⟨hb, hk⟩, rfl⟩
    · rintro ⟨⟨hb, -⟩ | rfl, rfl⟩
      · exact ⟨hb, rfl⟩
      · exact absurd rfl hk

theorem filter (h : Holds key l m) (p : α → Bool) :
    Holds key (l.filter p) fun k => (m k).filter p := by
  refine ⟨h.distinct.filter p, ?_⟩
  intro k a
  rw [Option.filter_eq_some_iff, h.lookup_iff, List.mem_filter]
  tauto

end Holds

/-- Without a repeated key the writes are all there. -/
theorem holds_lastWrites [DecidableEq κ] {l : List α} (h : Distinct key l) : Holds key l (lastWrites key l) := by
  induction l using List.reverseRecOn with
  | nil => exact .nil
  | append_singleton l a ih =>
      rw [Distinct, List.map_append, List.nodup_append] at h
      have hold := ih h.1
      have hfresh : Keyed.remove key (key a) l = l := by
        refine List.filter_eq_self.mpr fun x hx => ?_
        have hne : key x ≠ key a := h.2.2 _ (List.mem_map_of_mem hx) _ (by simp)
        simpa using hne
      have hput := hold.put a
      rw [Keyed.put, hfresh] at hput
      simpa [lastWrites, List.foldl_append] using hput

end Rsurl.Base.Keyed
