/-
# `Rsurl.Base.Segments` — reading a stream that arrives in segments

A read returns no more than it asks for and no more than the first segment that
has arrived.  A buffered reader reads behind what it holds until it finds what
it looks for (`pull`).  When what it looks for is found in the same place
whatever comes behind (`Stable`), where the segments end does not matter: the
reader finds what there is to find in the whole stream, and what it has not used
is the rest of the stream.
-/
import Mathlib.Data.List.Basic
import Rsurl.Base.Cut

namespace Rsurl.Base

variable {α β : Type*}

/-- A piece of a stream as it arrives, never empty. -/
abbrev Segment (α : Type*) := {l : List α // l ≠ []}

namespace Segment

/-- The stream the segments make up. -/
def stream (ps : List (Segment α)) : List α := (ps.map Subtype.val).flatten

@[simp] theorem stream_nil : stream ([] : List (Segment α)) = [] := rfl

@[simp] theorem stream_cons (p : Segment α) (ps : List (Segment α)) :
    stream (p :: ps) = p.val ++ stream ps := rfl

@[simp] theorem stream_append (ps qs : List (Segment α)) :
    stream (ps ++ qs) = stream ps ++ stream qs := by
  rw [stream, List.map_append, List.flatten_append]
  rfl

theorem stream_eq_nil {ps : List (Segment α)} : stream ps = [] ↔ ps = [] := by
  cases ps with
  | nil => simp
  | cons p ps => simp [p.property]

/-! ## One read -/

/-- A read of at most `n` elements, and what is left to read. -/
def read (n : Nat) : List (Segment α) → List α × List (Segment α)
  | [] => ([], [])
  | p :: ps =>
      if h : p.val.length ≤ n then (p.val, ps)
      else (p.val.take n, ⟨p.val.drop n, by simpa using h⟩ :: ps)

/-- Nothing is lost and nothing changes places. -/
theorem read_append (n : Nat) (ps : List (Segment α)) :
    (read n ps).1 ++ stream (read n ps).2 = stream ps := by
  cases ps with
  | nil => rfl
  | cons p ps =>
      by_cases h : p.val.length ≤ n
      · rw [read, dif_pos h, stream_cons]
      · rw [read, dif_neg h, stream_cons, stream_cons, ← List.append_assoc, List.take_append_drop]

/-- A read that asks for something returns something until the end. -/
theorem read_eq_nil {n : Nat} (hn : 0 < n) {ps : List (Segment α)} :
    (read n ps).1 = [] ↔ ps = [] := by
  cases ps with
  | nil => simp [read]
  | cons p ps =>
      by_cases h : p.val.length ≤ n
      · rw [read, dif_pos h]
        simp [p.property]
      · rw [read, dif_neg h]
        simp [p.property, Nat.ne_of_gt hn]

theorem length_read_lt {n : Nat} {ps : List (Segment α)} (h : (read n ps).1 ≠ []) :
    (stream (read n ps).2).length < (stream ps).length := by
  have hpos : 0 < (read n ps).1.length := List.length_pos_of_ne_nil h
  have hlength := congrArg List.length (read_append n ps)
  rw [List.length_append] at hlength
  omega

/-! ## Reading until something is found -/

/-- Read behind what is held, `size` at most each time, until `find` finds something in it.
What is found, what is held behind it, and what is left to read. -/
def pull (size : List α → Nat) (find : List α → Option (β × List α)) (held : List α)
    (ps : List (Segment α)) : Option β × List α × List (Segment α) :=
  match find held with
  | some (x, rest) => (some x, rest, ps)
  | none =>
      if (read (size held) ps).1 = [] then (none, held, ps)
      else pull size find (held ++ (read (size held) ps).1) (read (size held) ps).2
termination_by (stream ps).length
decreasing_by exact length_read_lt ‹_›

/-- What is found stays found, whatever comes behind. -/
def Stable (find : List α → Option (β × List α)) : Prop :=
  ∀ {l x rest}, find l = some (x, rest) → ∀ more, find (l ++ more) = some (x, rest ++ more)

section Pull

variable {size : List α → Nat} {find : List α → Option (β × List α)}

/-- The reader finds what there is in the whole stream, or reads all of it. -/
theorem pull_spec (hstable : Stable find) (hsize : ∀ l, find l = none → 0 < size l)
    (held : List α) (ps : List (Segment α)) :
    (∃ x held' ps', pull size find held ps = (some x, held', ps') ∧
        find (held ++ stream ps) = some (x, held' ++ stream ps')) ∨
      (pull size find held ps = (none, held ++ stream ps, []) ∧
        find (held ++ stream ps) = none) := by
  fun_induction pull size find held ps with
  | case1 held ps x rest h => exact .inl ⟨x, rest, ps, rfl, hstable h (stream ps)⟩
  | case2 held ps h hread =>
      obtain rfl : ps = [] := (read_eq_nil (hsize held h)).mp hread
      refine .inr ⟨by rw [stream_nil, List.append_nil], ?_⟩
      rwa [stream_nil, List.append_nil]
  | case3 held ps h hread ih =>
      rwa [List.append_assoc, read_append] at ih

theorem pull_of_find (hstable : Stable find) (hsize : ∀ l, find l = none → 0 < size l)
    {held : List α} {ps : List (Segment α)} {x : β} {rest : List α}
    (h : find (held ++ stream ps) = some (x, rest)) :
    ∃ held' ps', pull size find held ps = (some x, held', ps') ∧ held' ++ stream ps' = rest := by
  rcases pull_spec hstable hsize held ps with ⟨y, held', ps', hpull, hfind⟩ | ⟨-, hnone⟩
  · obtain ⟨rfl, rfl⟩ := Prod.mk.inj (Option.some.inj (h.symm.trans hfind))
    exact ⟨held', ps', hpull, rfl⟩
  · rw [h] at hnone
    cases hnone

theorem pull_of_not_find (hstable : Stable find) (hsize : ∀ l, find l = none → 0 < size l)
    {held : List α} {ps : List (Segment α)} (h : find (held ++ stream ps) = none) :
    pull size find held ps = (none, held ++ stream ps, []) := by
  rcases pull_spec hstable hsize held ps with ⟨_, _, _, -, hfind⟩ | ⟨hpull, -⟩
  · rw [h] at hfind
    cases hfind
  · exact hpull

theorem read_extend (n : Nat) {ps : List (Segment α)} (h : ps ≠ []) (qs : List (Segment α)) :
    read n (ps ++ qs) = ((read n ps).1, (read n ps).2 ++ qs) := by
  obtain ⟨p, ps, rfl⟩ := List.exists_cons_of_ne_nil h
  rw [List.cons_append, read, read]
  split
  · rfl
  · rfl

/-- What is found in the segments that are there is found without looking at those behind. -/
theorem pull_extend (hsize : ∀ l, find l = none → 0 < size l) {held : List α}
    {ps : List (Segment α)} (h : find (held ++ stream ps) ≠ none) (qs : List (Segment α)) :
    pull size find held (ps ++ qs) =
      ((pull size find held ps).1, (pull size find held ps).2.1,
        (pull size find held ps).2.2 ++ qs) := by
  fun_induction pull size find held ps with
  | case1 held ps x rest hfind => rw [pull, hfind]
  | case2 held ps hfind hread =>
      obtain rfl : ps = [] := (read_eq_nil (hsize held hfind)).mp hread
      rw [stream_nil, List.append_nil] at h
      exact absurd hfind h
  | case3 held ps hfind hread ih =>
      have hne : ps ≠ [] := fun hnil => hread (by rw [hnil]; rfl)
      rw [List.append_assoc, read_append] at ih
      rw [pull, hfind]
      simp only [read_extend _ hne, if_neg hread]
      exact ih h

/-- Reads that take whole segments leave whole segments. -/
theorem pull_suffix {held : List α} {ps : List (Segment α)}
    (hwhole : ∀ p ∈ ps, ∀ l, p.val.length ≤ size l) :
    (pull size find held ps).2.2 <:+ ps := by
  fun_induction pull size find held ps with
  | case1 held ps x rest hfind => exact List.suffix_refl ps
  | case2 held ps hfind hread => exact List.suffix_refl ps
  | case3 held ps hfind hread ih =>
      cases ps with
      | nil => exact absurd rfl hread
      | cons p ps =>
          have hall : read (size held) (p :: ps) = (p.val, ps) := by
            rw [read, dif_pos (hwhole p List.mem_cons_self held)]
          rw [hall] at ih ⊢
          exact (ih fun q hq => hwhole q (List.mem_cons_of_mem _ hq)).trans (List.suffix_cons p ps)

end Pull

/-! ## What is looked for -/

/-- The first `n` elements. -/
def front (n : Nat) (l : List α) : Option (List α × List α) :=
  if n ≤ l.length then some (l.take n, l.drop n) else none

theorem front_append (a b : List α) : front a.length (a ++ b) = some (a, b) := by
  rw [front, if_pos (by simp), List.take_left, List.drop_left]

theorem front_eq_some {n : Nat} {l a b : List α} (h : front n l = some (a, b)) :
    l = a ++ b ∧ a.length = n := by
  rw [front] at h
  split at h
  · next hn =>
      obtain ⟨rfl, rfl⟩ := Prod.mk.inj (Option.some.inj h)
      exact ⟨(List.take_append_drop n l).symm, List.length_take_of_le hn⟩
  · cases h

theorem front_eq_none {n : Nat} {l : List α} : front n l = none ↔ l.length < n := by
  rw [front]
  split
  · next hn => exact ⟨nofun, fun h => absurd hn (Nat.not_le_of_lt h)⟩
  · next hn => exact ⟨fun _ => Nat.lt_of_not_le hn, fun _ => rfl⟩

theorem front_stable (n : Nat) : Stable (front (α := α) n) := by
  intro l a rest h more
  obtain ⟨rfl, rfl⟩ := front_eq_some h
  rw [List.append_assoc]
  exact front_append a (rest ++ more)

/-- An element that satisfies `p` and everything before it. -/
def through (p : α → Bool) (l : List α) : Option (List α × List α) :=
  (cut p l).map fun (a, x, b) => (a ++ [x], b)

theorem through_eq_some {p : α → Bool} {l a b : List α} (h : through p l = some (a, b)) :
    l = a ++ b ∧ ∃ a' x, a = a' ++ [x] ∧ p x = true ∧ ∀ y ∈ a', p y = false := by
  obtain ⟨⟨a', x, b'⟩, hcut, heq⟩ := Option.map_eq_some_iff.mp h
  obtain ⟨rfl, rfl⟩ := Prod.mk.inj heq
  obtain ⟨rfl, hx, ha⟩ := cut_eq_some.mp hcut
  exact ⟨(List.append_cons _ _ _), a', x, rfl, hx, ha⟩

theorem through_append {p : α → Bool} {a b : List α} {x : α} (ha : ∀ y ∈ a, p y = false)
    (hx : p x = true) : through p (a ++ x :: b) = some (a ++ [x], b) := by
  rw [through, cut_append ha hx]
  rfl

theorem through_stable (p : α → Bool) : Stable (through p) := by
  intro l a rest h more
  obtain ⟨rfl, a', x, rfl, hx, ha⟩ := through_eq_some h
  have hassoc : a' ++ [x] ++ rest ++ more = a' ++ x :: (rest ++ more) := by simp
  rw [hassoc]
  exact through_append ha hx

section CutSub

variable [BEq α] [LawfulBEq α]

theorem cutSub_stable (pat : List α) : Stable (cutSub (α := α) pat) := by
  intro l a rest h more
  induction l generalizing a with
  | nil =>
      simp only [cutSub, List.isEmpty_iff] at h
      split at h
      · next hp =>
          obtain ⟨rfl, rfl⟩ := Prod.mk.inj (Option.some.inj h)
          subst hp
          cases more with
          | nil => rfl
          | cons y more => simp [cutSub]
      · cases h
  | cons x l ih =>
      simp only [cutSub] at h
      split at h
      · next hp =>
          obtain ⟨t, ht⟩ := List.isPrefixOf_iff_prefix.mp hp
          obtain ⟨rfl, rfl⟩ := Prod.mk.inj (Option.some.inj h)
          have hmore : pat.isPrefixOf (x :: (l ++ more)) = true :=
            List.isPrefixOf_iff_prefix.mpr ⟨t ++ more, by
              rw [← List.append_assoc, ht, List.cons_append]⟩
          rw [List.cons_append, cutSub, if_pos hmore, ← List.cons_append, ← ht]
          simp
      · next hp =>
          obtain ⟨⟨a', b'⟩, hcut, heq⟩ := Option.map_eq_some_iff.mp h
          obtain ⟨rfl, rfl⟩ := Prod.mk.inj heq
          -- The pattern fits into what is there, so it is not found here through what comes behind.
          have hlength : pat.length ≤ (x :: l).length := by
            rw [eq_of_cutSub hcut]
            simp only [List.length_cons, List.length_append]
            omega
          have hno : ¬pat.isPrefixOf (x :: (l ++ more)) = true := by
            intro hpre
            refine hp (List.isPrefixOf_iff_prefix.mpr ?_)
            exact List.prefix_of_prefix_length_le (List.isPrefixOf_iff_prefix.mp hpre)
              (List.prefix_append (x :: l) more) hlength
          rw [List.cons_append, cutSub, if_neg hno, ih hcut]
          rfl

end CutSub

end Segment
end Rsurl.Base
