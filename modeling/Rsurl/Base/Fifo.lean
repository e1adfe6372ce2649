/-
# `Rsurl.Base.Fifo` — a first-in first-out table with a weight limit

Entries newest first, with a running total of their weights that the
structure ties to them.  Making room drops the oldest entries one by one;
what remains is the longest prefix that fits, so of two tables one of which is
a prefix of the other, the prefix relation survives every operation done to
both.
-/
import Mathlib.Data.List.Infix
import Mathlib.Algebra.GroupWithZero.Nat
import Mathlib.Algebra.Order.BigOperators.Group.List

namespace Rsurl.Base

variable {α : Type*}

/-- Entries newest first, with the sum of their weights. -/
@[ext]
structure Fifo (α : Type*) (weight : α → Nat) where
  entries : List α
  size : Nat
  size_eq : size = (entries.map weight).sum

/-- Drop entries from the head of `oldest` while `size + incoming` exceeds `cap`. -/
def dropOldest (weight : α → Nat) (cap incoming : Nat) : List α → Nat → List α × Nat
  | [], size => ([], size)
  | e :: oldest, size =>
      if cap < size + incoming then dropOldest weight cap incoming oldest (size - weight e)
      else (e :: oldest, size)

theorem dropOldest_size {weight : α → Nat} {cap incoming : Nat} {oldest : List α} {size : Nat}
    (h : size = (oldest.map weight).sum) :
    (dropOldest weight cap incoming oldest size).2 =
      ((dropOldest weight cap incoming oldest size).1.map weight).sum := by
  induction oldest generalizing size with
  | nil => exact h
  | cons e oldest ih =>
      simp only [dropOldest]
      split
      · refine ih ?_
        rw [h, List.map_cons, List.sum_cons, Nat.add_sub_cancel_left]
      · exact h

theorem dropOldest_suffix (weight : α → Nat) (cap incoming : Nat) (oldest : List α)
    (size : Nat) : (dropOldest weight cap incoming oldest size).1 <:+ oldest := by
  induction oldest generalizing size with
  | nil => exact List.suffix_refl _
  | cons e oldest ih =>
      simp only [dropOldest]
      split
      · exact (ih _).trans (List.suffix_cons e oldest)
      · exact List.suffix_refl _

/-- Something is left over only when it fits. -/
theorem dropOldest_fits {weight : α → Nat} {cap incoming : Nat} {oldest : List α} {size : Nat}
    (h : (dropOldest weight cap incoming oldest size).1 ≠ []) :
    (dropOldest weight cap incoming oldest size).2 + incoming ≤ cap := by
  induction oldest generalizing size with
  | nil => exact absurd rfl h
  | cons e oldest ih =>
      simp only [dropOldest] at h ⊢
      split
      · next hover =>
          rw [if_pos hover] at h
          exact ih h
      · next hfit => exact Nat.le_of_not_lt hfit

/-- Whatever suffix fits is left. -/
theorem suffix_dropOldest {weight : α → Nat} {cap incoming : Nat} {oldest kept : List α}
    {size : Nat} (h : size = (oldest.map weight).sum) (hk : kept <:+ oldest)
    (hfit : (kept.map weight).sum + incoming ≤ cap) :
    kept <:+ (dropOldest weight cap incoming oldest size).1 := by
  induction oldest generalizing size with
  | nil => exact hk
  | cons e oldest ih =>
      simp only [dropOldest]
      split
      · next hover =>
          rcases List.suffix_cons_iff.mp hk with rfl | hk
          · omega
          · refine ih ?_ hk
            rw [h, List.map_cons, List.sum_cons, Nat.add_sub_cancel_left]
      · exact hk

/-- `dropOldest` as a loop that takes the last of `entries`, newest first. -/
def popToFit (weight : α → Nat) (cap incoming : Nat) (entries : List α) (size : Nat) :
    List α × Nat :=
  match _ : entries.getLast? with
  | none => (entries, size)
  | some e =>
      if cap < size + incoming then
        popToFit weight cap incoming entries.dropLast (size - weight e)
      else (entries, size)
termination_by entries.length
decreasing_by
  have hlast : entries.getLast? = some e := ‹_›
  have hne : entries ≠ [] := by
    rintro rfl
    cases hlast
  have hpos := List.length_pos_of_ne_nil hne
  rw [List.length_dropLast]
  omega

theorem popToFit_reverse (weight : α → Nat) (cap incoming : Nat) (oldest : List α) (size : Nat) :
    popToFit weight cap incoming oldest.reverse size =
      ((dropOldest weight cap incoming oldest size).1.reverse,
        (dropOldest weight cap incoming oldest size).2) := by
  induction oldest generalizing size with
  | nil =>
      rw [popToFit]
      rfl
  | cons e oldest ih =>
      rw [popToFit, dropOldest, List.reverse_cons]
      split
      · next hnone => simp at hnone
      next last hlast =>
      obtain rfl : e = last := by simpa using hlast
      by_cases hover : cap < size + incoming
      · rw [if_pos hover, if_pos hover, List.dropLast_concat, ih]
      · rw [if_neg hover, if_neg hover, List.reverse_cons]

namespace Fifo

variable {weight : α → Nat}

/-- The empty table. -/
def empty : Fifo α weight := ⟨[], 0, rfl⟩

/-- Drop the oldest entries until `incoming` more fits under `cap`. -/
def evict (f : Fifo α weight) (cap incoming : Nat) : Fifo α weight where
  entries := (dropOldest weight cap incoming f.entries.reverse f.size).1.reverse
  size := (dropOldest weight cap incoming f.entries.reverse f.size).2
  size_eq := by
    rw [List.map_reverse, List.sum_reverse]
    exact dropOldest_size (by rw [List.map_reverse, List.sum_reverse, f.size_eq])

/-- Put `x` in front. -/
def push (f : Fifo α weight) (x : α) : Fifo α weight where
  entries := x :: f.entries
  size := f.size + weight x
  size_eq := by rw [List.map_cons, List.sum_cons, f.size_eq, Nat.add_comm]

/-- Make room for `x` and put it in front; an entry heavier than the whole table
empties it. -/
def insert (f : Fifo α weight) (cap : Nat) (x : α) : Fifo α weight :=
  if cap < weight x then empty else (f.evict cap (weight x)).push x

/-- The loop from the back of the entries evicts. -/
theorem popToFit_entries (f : Fifo α weight) (cap incoming : Nat) :
    popToFit weight cap incoming f.entries f.size =
      ((f.evict cap incoming).entries, (f.evict cap incoming).size) := by
  rw [← List.reverse_reverse f.entries, popToFit_reverse]
  rfl

theorem evict_prefix_self (f : Fifo α weight) (cap incoming : Nat) :
    (f.evict cap incoming).entries <+: f.entries := by
  have h := dropOldest_suffix weight cap incoming f.entries.reverse f.size
  rw [← List.reverse_prefix, List.reverse_reverse] at h
  exact h

theorem evict_size_le (f : Fifo α weight) {cap incoming : Nat} (h : incoming ≤ cap) :
    (f.evict cap incoming).size + incoming ≤ cap := by
  by_cases hne : (f.evict cap incoming).entries = []
  · rw [(f.evict cap incoming).size_eq, hne]
    simpa using h
  · refine dropOldest_fits fun hnil => hne ?_
    simp only [evict, hnil, List.reverse_nil]

/-- Whatever prefix of the table fits survives. -/
theorem prefix_evict {f : Fifo α weight} {kept : List α} {cap incoming : Nat}
    (hk : kept <+: f.entries) (hfit : (kept.map weight).sum + incoming ≤ cap) :
    kept <+: (f.evict cap incoming).entries := by
  have hrev : kept.reverse <:+ f.entries.reverse := List.reverse_suffix.mpr hk
  have hsize : f.size = (f.entries.reverse.map weight).sum := by
    rw [List.map_reverse, List.sum_reverse, f.size_eq]
  have hfit' : (kept.reverse.map weight).sum + incoming ≤ cap := by
    rwa [List.map_reverse, List.sum_reverse]
  have h := suffix_dropOldest hsize hrev hfit'
  rw [← List.reverse_prefix, List.reverse_reverse] at h
  exact h

/-- Making the same room in a table and in a prefix of it keeps the prefix. -/
theorem evict_mono {f g : Fifo α weight} (h : f.entries <+: g.entries) {cap incoming : Nat}
    (hin : incoming ≤ cap) :
    (f.evict cap incoming).entries <+: (g.evict cap incoming).entries := by
  refine prefix_evict ((f.evict_prefix_self cap incoming).trans h) ?_
  rw [← (f.evict cap incoming).size_eq]
  exact f.evict_size_le hin

theorem insert_mono {f g : Fifo α weight} (h : f.entries <+: g.entries) (cap : Nat) (x : α) :
    (f.insert cap x).entries <+: (g.insert cap x).entries := by
  unfold insert
  split
  · exact List.prefix_refl _
  · next hle =>
      exact List.cons_prefix_cons.mpr ⟨rfl, evict_mono h (Nat.le_of_not_lt hle)⟩

theorem insert_size_le (f : Fifo α weight) (cap : Nat) (x : α) :
    (f.insert cap x).size ≤ cap := by
  unfold insert
  split
  · exact Nat.zero_le cap
  · next hle => exact f.evict_size_le (Nat.le_of_not_lt hle)

/-- The entries settle the size. -/
theorem ext_entries {f g : Fifo α weight} (h : f.entries = g.entries) : f = g :=
  Fifo.ext h (by rw [f.size_eq, g.size_eq, h])

/-- Nothing is dropped from a table that fits. -/
theorem evict_of_fits {f : Fifo α weight} {cap : Nat} (h : f.size ≤ cap) : f.evict cap 0 = f := by
  have hkept : f.entries <+: (f.evict cap 0).entries := by
    refine prefix_evict List.prefix_rfl ?_
    rw [← f.size_eq]
    exact h
  exact ext_entries ((f.evict_prefix_self cap 0).eq_of_length
    (Nat.le_antisymm (f.evict_prefix_self cap 0).length_le hkept.length_le))

/-! ## Several caps in a row -/

/-- Evict under one cap after another. -/
def evictAll (f : Fifo α weight) (caps : List Nat) : Fifo α weight :=
  caps.foldl (fun f cap => f.evict cap 0) f

theorem evictAll_append (f : Fifo α weight) (caps caps' : List Nat) :
    f.evictAll (caps ++ caps') = (f.evictAll caps).evictAll caps' := List.foldl_append

theorem evictAll_prefix_self (f : Fifo α weight) (caps : List Nat) :
    (f.evictAll caps).entries <+: f.entries := by
  induction caps generalizing f with
  | nil => exact List.prefix_refl _
  | cons cap caps ih => exact (ih _).trans (f.evict_prefix_self cap 0)

theorem size_le_of_initial {f g : Fifo α weight} (h : f.entries <+: g.entries) :
    f.size ≤ g.size := by
  obtain ⟨rest, hrest⟩ := h
  rw [f.size_eq, g.size_eq, ← hrest, List.map_append, List.sum_append]
  exact Nat.le_add_right _ _

/-- What is left fits under each of the caps. -/
theorem evictAll_size_le {f : Fifo α weight} {caps : List Nat} {cap : Nat} (h : cap ∈ caps) :
    (f.evictAll caps).size ≤ cap := by
  induction caps generalizing f with
  | nil => cases h
  | cons c caps ih =>
      rcases List.mem_cons.mp h with rfl | h
      · exact (size_le_of_initial (evictAll_prefix_self (f.evict cap 0) caps)).trans
          (f.evict_size_le (Nat.zero_le cap))
      · exact ih h

/-- Whatever prefix fits under all of the caps is left. -/
theorem prefix_evictAll {f : Fifo α weight} {kept : List α} {caps : List Nat}
    (hk : kept <+: f.entries) (hfit : ∀ cap ∈ caps, (kept.map weight).sum ≤ cap) :
    kept <+: (f.evictAll caps).entries := by
  induction caps generalizing f with
  | nil => exact hk
  | cons cap caps ih =>
      refine ih (prefix_evict hk ?_) fun c hc => hfit c (List.mem_cons_of_mem cap hc)
      exact hfit cap List.mem_cons_self

/-- The last of several caps leaves what all of them do if and only if what it leaves fits
under each. -/
theorem evictAll_eq_iff {f : Fifo α weight} {caps : List Nat} {last : Nat} (h : last ∈ caps) :
    f.evictAll caps = f.evict last 0 ↔ ∀ cap ∈ caps, (f.evict last 0).size ≤ cap := by
  constructor
  · intro heq cap hcap
    rw [← heq]
    exact evictAll_size_le hcap
  · intro hfit
    have hto : (f.evict last 0).entries <+: (f.evictAll caps).entries := by
      refine prefix_evictAll (f.evict_prefix_self last 0) fun cap hcap => ?_
      rw [← (f.evict last 0).size_eq]
      exact hfit cap hcap
    have hfrom : (f.evictAll caps).entries <+: (f.evict last 0).entries := by
      refine prefix_evict (f.evictAll_prefix_self caps) ?_
      rw [← (f.evictAll caps).size_eq]
      exact evictAll_size_le h
    have hentries := hfrom.eq_of_length (Nat.le_antisymm hfrom.length_le hto.length_le)
    exact ext_entries hentries

end Fifo
end Rsurl.Base
