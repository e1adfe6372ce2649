/-
# `Rsurl.Base.Framed` — contents between delimiter lines

The framing of RFC 2046 over any alphabet: a delimiter stands at the beginning
of a line, in front of every content and, closed, behind the last.  A content
is read up to the first end of line with a delimiter behind it, so contents
without one are read back (`Frame.read_framed`).  Within a content there are
lines, an empty one, and whatever follows (`Frame.headLines_headed`).
-/
import Mathlib.Data.List.Infix
import Rsurl.Base.Cut

namespace Rsurl.Base

variable {α : Type*} [BEq α] [LawfulBEq α]

theorem dropPrefix?_append (p s : List α) : (p ++ s).dropPrefix? p = some s :=
  List.dropPrefix?_eq_some_iff.mpr ⟨p, rfl, BEq.rfl⟩

theorem dropPrefix?_cons_of_ne {x y : α} (h : x ≠ y) (p s : List α) :
    (x :: s).dropPrefix? (y :: p) = none := by
  rw [List.dropPrefix?, if_neg (by simpa using h)]

/-- When the head of the pattern does not occur again in it, and the pattern not in `a`, the
occurrence right after `a` is the first one. -/
theorem cutSub_append_of_not_infix {x : α} {pat a b : List α} (hx : x ∉ pat)
    (ha : ¬ x :: pat <:+: a) : cutSub (x :: pat) (a ++ (x :: pat ++ b)) = some (a, b) := by
  induction a with
  | nil => exact cutSub_append List.not_mem_nil
  | cons y a ih =>
      have hrec := ih fun h => ha (h.trans (List.suffix_cons y a).isInfix)
      have hfirst : ¬ (x :: pat).isPrefixOf (y :: (a ++ (x :: pat ++ b))) = true := by
        intro h
        obtain ⟨rfl, t, ht⟩ := List.cons_prefix_cons.mp (List.isPrefixOf_iff_prefix.mp h)
        rcases List.append_eq_append_iff.mp ht with ⟨s, rfl, -⟩ | ⟨s, hpat, hs⟩
        · exact ha (List.prefix_append (x :: pat) s).isInfix
        · cases s with
          | nil =>
              rw [List.append_nil] at hpat
              exact ha (hpat ▸ List.infix_rfl)
          | cons z s =>
              obtain ⟨rfl, -⟩ := List.cons_eq_cons.mp hs
              exact hx (hpat ▸ List.mem_append_right a List.mem_cons_self)
      rw [List.cons_append, cutSub, if_neg hfirst, hrec]
      rfl

/-- What a delimiter is, what closes it, and the end of a line, which begins as none of them. -/
structure Frame (α : Type*) where
  dash : List α
  delimiter : List α
  first : α
  second : List α
  first_not_mem : first ∉ second ++ delimiter
  dash_ne : ∃ d ds, dash = d :: ds ∧ first ≠ d

namespace Frame

variable (f : Frame α)

def eol : List α := f.first :: f.second

/-! ## Contents -/

/-- The contents behind a delimiter, up to the closed one. -/
def contents : Nat → List α → Option (List (List α))
  | 0, _ => none
  | n + 1, input =>
      match input.dropPrefix? f.dash with
      | some _ => some []
      | none => do
          let input ← input.dropPrefix? f.eol
          let (content, rest) ← cutSub (f.eol ++ f.delimiter) input
          let others ← contents n rest
          return content :: others

def read (input : List α) : Option (List (List α)) := do
  let rest ← input.dropPrefix? f.delimiter
  f.contents input.length rest

/-- What is written behind a delimiter. -/
def behind : List (List α) → List α
  | [] => f.dash ++ f.eol
  | c :: cs => f.eol ++ (c ++ (f.eol ++ f.delimiter ++ behind cs))

def framed (cs : List (List α)) : List α := f.delimiter ++ f.behind cs

variable {f}

theorem contents_behind {cs : List (List α)} (h : ∀ c ∈ cs, ¬ f.eol ++ f.delimiter <:+: c) {n : Nat}
    (hn : cs.length < n) : f.contents n (f.behind cs) = some cs := by
  induction cs generalizing n with
  | nil =>
      obtain ⟨n, rfl⟩ := Nat.exists_eq_succ_of_ne_zero (Nat.ne_zero_of_lt hn)
      rw [contents, behind, dropPrefix?_append]
  | cons c cs ih =>
      obtain ⟨hc, hcs⟩ := List.forall_mem_cons.mp h
      obtain ⟨n, rfl⟩ := Nat.exists_eq_succ_of_ne_zero (Nat.ne_zero_of_lt hn)
      obtain ⟨d, ds, hdash, hne⟩ := f.dash_ne
      have hopen : (f.behind (c :: cs)).dropPrefix? f.dash = none := by
        rw [hdash]
        exact dropPrefix?_cons_of_ne hne _ _
      have hcut : cutSub (f.eol ++ f.delimiter) (c ++ (f.eol ++ f.delimiter ++ f.behind cs)) =
          some (c, f.behind cs) := cutSub_append_of_not_infix f.first_not_mem hc
      rw [contents, hopen]
      simp only [behind, dropPrefix?_append, Option.bind_eq_bind, Option.bind_some, hcut,
        ih hcs (Nat.lt_of_succ_lt_succ hn)]
      rfl

omit [BEq α] [LawfulBEq α] in
theorem length_lt_behind (cs : List (List α)) : cs.length < (f.behind cs).length := by
  induction cs with
  | nil =>
      simp only [behind, eol, List.length_append, List.length_cons, List.length_nil]
      omega
  | cons c cs ih =>
      simp only [behind, eol, List.length_append, List.length_cons]
      omega

/-- Contents without a delimiter are read back. -/
theorem read_framed {cs : List (List α)} (h : ∀ c ∈ cs, ¬ f.eol ++ f.delimiter <:+: c) :
    f.read (f.framed cs) = some cs := by
  have hlength := length_lt_behind (f := f) cs
  rw [read, framed, dropPrefix?_append]
  exact contents_behind h (by rw [List.length_append]; omega)

/-! ## Lines in front of a body -/

variable (f) in
/-- The lines up to an empty one, and what is behind it. -/
def headLines : Nat → List α → Option (List (List α) × List α)
  | 0, _ => none
  | n + 1, input => do
      let (line, rest) ← cutSub f.eol input
      if line.isEmpty then return ([], rest)
      else
        let (lines, body) ← headLines n rest
        return (line :: lines, body)

variable (f) in
/-- Lines, an empty one and a body. -/
def headed (lines : List (List α)) (body : List α) : List α :=
  lines.flatMap (· ++ f.eol) ++ (f.eol ++ body)

omit [BEq α] [LawfulBEq α] in
theorem headed_cons (l : List α) (lines : List (List α)) (body : List α) :
    f.headed (l :: lines) body = l ++ (f.eol ++ f.headed lines body) := by
  rw [headed, List.flatMap_cons, List.append_assoc, List.append_assoc, headed]

omit [BEq α] [LawfulBEq α] in
theorem length_lt_headed (lines : List (List α)) (body : List α) :
    lines.length < (f.headed lines body).length := by
  induction lines with
  | nil =>
      simp only [headed, eol, List.length_append, List.length_cons, List.length_nil]
      omega
  | cons l lines ih =>
      rw [headed_cons]
      simp only [eol, List.length_append, List.length_cons]
      omega

theorem headLines_headed {lines : List (List α)} (h : ∀ l ∈ lines, l ≠ [] ∧ f.first ∉ l)
    (body : List α) {n : Nat} (hn : lines.length < n) :
    f.headLines n (f.headed lines body) = some (lines, body) := by
  induction lines generalizing n with
  | nil =>
      obtain ⟨n, rfl⟩ := Nat.exists_eq_succ_of_ne_zero (Nat.ne_zero_of_lt hn)
      have hcut : cutSub f.eol (f.headed [] body) = some ([], body) :=
        cutSub_append List.not_mem_nil
      rw [headLines, hcut]
      rfl
  | cons l lines ih =>
      obtain ⟨⟨hne, hl⟩, hlines⟩ := List.forall_mem_cons.mp h
      obtain ⟨n, rfl⟩ := Nat.exists_eq_succ_of_ne_zero (Nat.ne_zero_of_lt hn)
      have hcut : ∀ rest, cutSub f.eol (l ++ (f.eol ++ rest)) = some (l, rest) :=
        fun _ => cutSub_append hl
      rw [headLines, headed_cons, hcut]
      simp only [Option.bind_eq_bind, Option.bind_some, ih hlines (Nat.lt_of_succ_lt_succ hn)]
      rw [if_neg (by simpa using hne)]
      rfl

omit [BEq α] [LawfulBEq α] in
/-- A pattern begins behind what does not have its head. -/
theorem infix_of_infix_append {x : α} {pat l rest : List α} (hl : x ∉ l)
    (h : x :: pat <:+: l ++ rest) : x :: pat <:+: rest := by
  induction l with
  | nil => exact h
  | cons y l ih =>
      obtain ⟨hy, hl⟩ := not_or.mp (mt List.mem_cons.mpr hl)
      rcases List.infix_cons_iff.mp h with hpre | htail
      · exact absurd (List.cons_prefix_cons.mp hpre).1 hy
      · exact ih hl htail

omit [BEq α] [LawfulBEq α] in
/-- Lines that do not begin as a delimiter add none to a body. -/
theorem not_infix_headed {d : α} {ds body : List α} {lines : List (List α)}
    (hd : f.delimiter = d :: ds) (hbody : ¬ f.eol ++ f.delimiter <:+: f.eol ++ body)
    (h : ∀ l ∈ lines, f.first ∉ l ∧ ∃ a t, l = a :: t ∧ d ≠ a) :
    ¬ f.eol ++ f.delimiter <:+: f.headed lines body := by
  induction lines with
  | nil => exact hbody
  | cons l lines ih =>
      obtain ⟨⟨hl, -⟩, hlines⟩ := List.forall_mem_cons.mp h
      obtain ⟨hsecond, hdelimiter⟩ := not_or.mp (mt List.mem_append.mpr f.first_not_mem)
      have hopen : ¬ f.delimiter <+: f.headed lines body := by
        rw [hd]
        cases lines with
        | nil =>
            intro hpre
            refine hdelimiter ?_
            rw [hd, (List.cons_prefix_cons.mp hpre).1]
            exact List.mem_cons_self
        | cons l' lines =>
            obtain ⟨a, t, rfl, hne⟩ := (hlines l' List.mem_cons_self).2
            exact fun hpre => hne (List.cons_prefix_cons.mp hpre).1
      intro hinfix
      rw [headed_cons] at hinfix
      rcases List.infix_cons_iff.mp (infix_of_infix_append hl hinfix) with hpre | htail
      · exact hopen ((List.prefix_append_right_inj f.eol).mp hpre)
      · exact ih hlines (infix_of_infix_append hsecond htail)

end Frame

end Rsurl.Base
