/-
# `Rsurl.Base.Reference` — reference resolution of RFC 3986 §5

A reference is split at its delimiters (Appendix B), resolved against the
components of a base (§5.2.2) and written out again (§5.3).  The split is total:
every text has components, and writing them out gives the text back
(`recompose_components`).

The resolution takes the path normaliser as a parameter.  The RFC's own is
`removeDotSegments` (§5.2.4); with the identity in its place the dot segments
stay, and the two agree on a target path that has none
(`transform_removeDotSegments`).
-/
import Mathlib.Data.List.DropRight
import Rsurl.Base.Uri

namespace Rsurl.Base.Uri

/-! ## Components -/

/-- The five components of a URI reference.  An absent component is not an empty
one: `http://a` has no query and `http://a?` an empty one. -/
structure Reference where
  scheme : Option (List Char)
  authority : Option (List Char)
  path : List Char
  query : Option (List Char)
  fragment : Option (List Char)
deriving DecidableEq, Repr

/-- Neither of the two delimiters that end a path. -/
def isPathChar (c : Char) : Bool := c != '?' && c != '#'

/-- `(([^:/?#]+):)?` -/
def splitScheme (s : List Char) : Option (List Char) × List Char :=
  match cut (fun c => c == ':' || endsAuthority c) s with
  | some (d :: name, ':', rest) => (some (d :: name), rest)
  | _ => (none, s)

/-- `(//([^/?#]*))?` -/
def splitNetwork : List Char → Option (List Char) × List Char
  | '/' :: '/' :: rest => (some (authorityOf rest), rest.dropWhile fun c => !endsAuthority c)
  | s => (none, s)

/-- `([^?#]*)` -/
def splitPath (s : List Char) : List Char × List Char :=
  (s.takeWhile isPathChar, s.dropWhile isPathChar)

/-- `(\?([^#]*))?` -/
def splitQuery : List Char → Option (List Char) × List Char
  | '?' :: rest => (some (rest.takeWhile (· != '#')), rest.dropWhile (· != '#'))
  | s => (none, s)

/-- `(#(.*))?` -/
def splitFragment : List Char → Option (List Char)
  | '#' :: rest => some rest
  | _ => none

/-- The components of a reference (Appendix B). -/
def components (s : List Char) : Reference :=
  let (scheme, s) := splitScheme s
  let (authority, s) := splitNetwork s
  let (path, s) := splitPath s
  let (query, s) := splitQuery s
  { scheme, authority, path, query, fragment := splitFragment s }

/-- A component behind the mark that introduces it. -/
def marked (mark : List Char) : Option (List Char) → List Char
  | none => []
  | some x => mark ++ x

/-- `scheme ":"`, when there is a scheme. -/
def schemePrefix : Option (List Char) → List Char
  | none => []
  | some x => x ++ [':']

/-- The path and what follows it, up to the fragment. -/
def Reference.pathQuery (r : Reference) : List Char := r.path ++ marked ['?'] r.query

/-- §5.3: the components, written out. -/
def recompose (r : Reference) : List Char :=
  schemePrefix r.scheme ++ (marked ['/', '/'] r.authority ++
    (r.pathQuery ++ marked ['#'] r.fragment))

/-! ## Resolution -/

/-- §5.2.3: the reference's path behind the base's, less its last segment. -/
def merge (base : Reference) (path : List Char) : List Char :=
  if base.authority.isSome ∧ base.path = [] then '/' :: path
  else base.path.rdropWhile (· != '/') ++ path

/-- The output buffer without its last segment and the `/` before it. -/
def dropSegment (output : List Char) : List Char :=
  (output.rdropWhile (· != '/')).dropLast

/-- The loop of §5.2.4, rules A to E: `input` shrinks, `output` grows. -/
def removeDots : Nat → List Char → List Char → List Char
  | 0, _, output => output
  | fuel + 1, input, output =>
      match input with
      | [] => output
      | '.' :: '.' :: '/' :: rest => removeDots fuel rest output
      | '.' :: '/' :: rest => removeDots fuel rest output
      | '/' :: '.' :: '/' :: rest => removeDots fuel ('/' :: rest) output
      | ['/', '.'] => removeDots fuel ['/'] output
      | '/' :: '.' :: '.' :: '/' :: rest => removeDots fuel ('/' :: rest) (dropSegment output)
      | ['/', '.', '.'] => removeDots fuel ['/'] (dropSegment output)
      | ['.'] => output
      | ['.', '.'] => output
      | c :: rest => removeDots fuel (rest.dropWhile (· != '/'))
          (output ++ c :: rest.takeWhile (· != '/'))

/-- §5.2.4.  No rule keeps the length of the input, so its length is fuel enough. -/
def removeDotSegments (path : List Char) : List Char := removeDots path.length path []

/-- §5.2.2: the target of the reference `r` against `base`. -/
def transform (normal : List Char → List Char) (base r : Reference) : Reference :=
  match r.scheme, r.authority with
  | some _, _ => { r with path := normal r.path }
  | none, some _ => { r with scheme := base.scheme, path := normal r.path }
  | none, none =>
      if r.path = [] then
        { base with query := r.query <|> base.query, fragment := r.fragment }
      else
        let path := if r.path.head? = some '/' then r.path else merge base r.path
        { base with path := normal path, query := r.query, fragment := r.fragment }

/-! ## The split and its inverse -/

/-- What the split promises of the components. -/
structure Reference.WellFormed (r : Reference) : Prop where
  scheme_ok : ∀ x ∈ r.scheme, x ≠ [] ∧ ∀ c ∈ x, c ≠ ':' ∧ endsAuthority c = false
  authority_ok : ∀ a ∈ r.authority, ∀ c ∈ a, endsAuthority c = false
  path_ok : ∀ c ∈ r.path, isPathChar c = true
  path_rooted : r.authority.isSome → r.path = [] ∨ ∃ t, r.path = '/' :: t
  query_ok : ∀ q ∈ r.query, '#' ∉ q

theorem splitScheme_spec (s : List Char) :
    schemePrefix (splitScheme s).1 ++ (splitScheme s).2 = s ∧
      ∀ x ∈ (splitScheme s).1, x ≠ [] ∧ ∀ c ∈ x, c ≠ ':' ∧ endsAuthority c = false := by
  unfold splitScheme
  split
  · next d name rest hcut =>
      obtain ⟨rfl, -, hname⟩ := cut_eq_some.mp hcut
      refine ⟨by simp [schemePrefix], ?_⟩
      rintro x ⟨⟩
      exact ⟨List.cons_ne_nil _ _, fun c hc => by simpa using hname c hc⟩
  · exact ⟨rfl, by simp⟩

/-- A name before a `:` is taken for the scheme. -/
theorem splitScheme_append {name : List Char} (hne : name ≠ [])
    (hname : ∀ c ∈ name, c ≠ ':' ∧ endsAuthority c = false) (rest : List Char) :
    splitScheme (name ++ ':' :: rest) = (some name, rest) := by
  have hcut : cut (fun c => c == ':' || endsAuthority c) (name ++ ':' :: rest) =
      some (name, ':', rest) :=
    cut_append (fun c hc => by simp [hname c hc]) (by simp)
  cases name with
  | nil => exact absurd rfl hne
  | cons d name => simp only [splitScheme, hcut]

theorem splitNetwork_spec (s : List Char) :
    marked ['/', '/'] (splitNetwork s).1 ++ (splitNetwork s).2 = s ∧
      (∀ a ∈ (splitNetwork s).1, ∀ c ∈ a, endsAuthority c = false) ∧
      ((splitNetwork s).1.isSome → ∀ c ∈ (splitNetwork s).2.head?, endsAuthority c = true) := by
  unfold splitNetwork
  split
  · next rest =>
      refine ⟨?_, ?_, fun _ c hc => ?_⟩
      · simp only [marked, List.cons_append, List.nil_append]
        rw [authorityOf, List.takeWhile_append_dropWhile]
      · rintro a ⟨⟩ c hc
        exact not_mem_authorityOf hc
      · have hhead := List.head?_dropWhile_not (fun c => !endsAuthority c) rest
        rw [Option.mem_def.mp hc] at hhead
        simpa using hhead
  · exact ⟨rfl, by simp, by simp⟩

theorem splitPath_spec (s : List Char) :
    (splitPath s).1 ++ (splitPath s).2 = s ∧ (∀ c ∈ (splitPath s).1, isPathChar c = true) ∧
      ∀ c ∈ (splitPath s).2.head?, c = '?' ∨ c = '#' := by
  refine ⟨List.takeWhile_append_dropWhile, fun c hc => List.mem_takeWhile_imp hc, fun c hc => ?_⟩
  have hhead := List.head?_dropWhile_not isPathChar s
  rw [show (s.dropWhile isPathChar).head? = some c from hc] at hhead
  simp only [isPathChar, Bool.and_eq_false_iff, bne_eq_false_iff_eq] at hhead
  exact hhead

theorem splitQuery_spec {s : List Char} (hs : ∀ c ∈ s.head?, c = '?' ∨ c = '#') :
    marked ['?'] (splitQuery s).1 ++ marked ['#'] (splitFragment (splitQuery s).2) = s ∧
      ∀ q ∈ (splitQuery s).1, '#' ∉ q := by
  have hfragment : ∀ t : List Char, (∀ c ∈ t.head?, c = '#') →
      marked ['#'] (splitFragment t) = t := by
    intro t ht
    cases t with
    | nil => rfl
    | cons c t =>
        obtain rfl : c = '#' := ht c rfl
        rfl
  unfold splitQuery
  split
  · next rest =>
      refine ⟨?_, ?_⟩
      · rw [hfragment]
        · simp [marked]
        · intro c hc
          have hhead := List.head?_dropWhile_not (· != '#') rest
          rw [show (rest.dropWhile (· != '#')).head? = some c from hc] at hhead
          simpa using hhead
      · rintro q ⟨⟩ hmem
        simpa using List.mem_takeWhile_imp hmem
  · next hquery =>
      refine ⟨hfragment s fun c hc => ?_, by simp⟩
      refine (hs c hc).resolve_left ?_
      rintro rfl
      obtain ⟨t, rfl⟩ := List.head?_eq_some_iff.mp hc
      exact hquery t rfl

/-- Written out, the components of a reference are the reference. -/
theorem recompose_components (s : List Char) : recompose (components s) = s := by
  have hquery := (splitQuery_spec (splitPath_spec (splitNetwork (splitScheme s).2).2).2.2).1
  simp only [recompose, components, Reference.pathQuery, List.append_assoc]
  rw [hquery, (splitPath_spec _).1, (splitNetwork_spec _).1, (splitScheme_spec s).1]

theorem components_wellFormed (s : List Char) : (components s).WellFormed where
  scheme_ok := (splitScheme_spec s).2
  authority_ok := (splitNetwork_spec (splitScheme s).2).2.1
  path_ok := (splitPath_spec (splitNetwork (splitScheme s).2).2).2.1
  path_rooted := by
    intro hsome
    have hhead := (splitNetwork_spec (splitScheme s).2).2.2 hsome
    simp only [components, splitPath]
    cases hrest : (splitNetwork (splitScheme s).2).2 with
    | nil => exact .inl rfl
    | cons c rest =>
        have hc := hhead c (by simp [hrest])
        simp only [endsAuthority, Bool.or_eq_true, beq_iff_eq] at hc
        obtain (rfl | rfl) | rfl := hc
        · exact .inr ⟨rest.takeWhile isPathChar, by simp [isPathChar]⟩
        · exact .inl (by simp [isPathChar])
        · exact .inl (by simp [isPathChar])
  query_ok := (splitQuery_spec (splitPath_spec (splitNetwork (splitScheme s).2).2).2.2).2

theorem Reference.WellFormed.not_mem_pathQuery {r : Reference} (h : r.WellFormed) :
    '#' ∉ r.pathQuery := by
  rw [Reference.pathQuery, List.mem_append, not_or]
  refine ⟨fun hc => absurd (h.path_ok _ hc) (by decide), fun hc => ?_⟩
  cases hq : r.query with
  | none => simp [hq, marked] at hc
  | some q =>
      simp only [hq, marked, List.cons_append, List.nil_append, List.mem_cons] at hc
      exact h.query_ok q hq (hc.resolve_left (by decide))

/-! ## Paths without dot segments -/

/-- No segment of the path is `.` or `..`. -/
def DotFree (path : List Char) : Prop :=
  ∀ segment ∈ path.splitOn '/', segment ≠ ['.'] ∧ segment ≠ ['.', '.']

instance (path : List Char) : Decidable (DotFree path) :=
  inferInstanceAs (Decidable (∀ segment ∈ path.splitOn '/', _))

theorem dotFree_append {a b : List Char} (ha : '/' ∉ a) :
    DotFree (a ++ '/' :: b) ↔ (a ≠ ['.'] ∧ a ≠ ['.', '.']) ∧ DotFree b := by
  have hall : ∀ c ∈ a, (c == '/') = false := fun c hc => by
    rw [beq_eq_false_iff_ne]
    rintro rfl
    exact ha hc
  have hsplit : (a ++ '/' :: b).splitOn '/' = a :: b.splitOn '/' :=
    List.splitOnP_append_cons_of_forall_mem hall '/' (by decide) b
  simp only [DotFree, hsplit, List.forall_mem_cons]

/-- What follows the first segment of a dot-free path, if a `/` is moved with it. -/
theorem DotFree.dropWhile {c : Char} {rest : List Char} (h : DotFree (c :: rest)) :
    DotFree (rest.dropWhile (· != '/')) := by
  have hseg : '/' ∉ rest.takeWhile (· != '/') := fun hc => by
    simpa using List.mem_takeWhile_imp hc
  have hsplit := List.takeWhile_append_dropWhile (p := (· != '/')) (l := rest)
  cases hdrop : rest.dropWhile (· != '/') with
  | nil => decide
  | cons d b =>
      have hd : d = '/' := by
        have hhead := List.head?_dropWhile_not (· != '/') rest
        simpa [hdrop] using hhead
      subst hd
      rw [hdrop] at hsplit
      have hb : DotFree b := by
        rw [← hsplit] at h
        by_cases hc : c = '/'
        · subst hc
          have htail := ((dotFree_append (a := []) (by simp)).mp h).2
          exact ((dotFree_append hseg).mp htail).2
        · refine ((dotFree_append (a := c :: rest.takeWhile (· != '/')) ?_).mp h).2
          simp only [List.mem_cons, not_or]
          exact ⟨Ne.symm hc, hseg⟩
      exact (dotFree_append (a := []) (by simp)).mpr ⟨by simp, hb⟩

/-- On a dot-free input only rule E applies, and it moves the input over. -/
theorem removeDots_of_dotFree {input : List Char} (h : DotFree input) {fuel : Nat}
    (hfuel : input.length ≤ fuel) (output : List Char) :
    removeDots fuel input output = output ++ input := by
  induction fuel generalizing input output with
  | zero =>
      rw [List.length_eq_zero_iff.mp (Nat.le_zero.mp hfuel)]
      simp [removeDots]
  | succ fuel ih =>
      unfold removeDots
      split
      · simp
      · next rest => exact absurd rfl ((dotFree_append (a := ['.', '.']) (by decide)).mp h).1.2
      · next rest => exact absurd rfl ((dotFree_append (a := ['.']) (by decide)).mp h).1.1
      · next rest =>
          have htail := ((dotFree_append (a := []) (by simp)).mp h).2
          exact absurd rfl ((dotFree_append (a := ['.']) (by decide)).mp htail).1.1
      · exact absurd h (by decide)
      · next rest =>
          have htail := ((dotFree_append (a := []) (by simp)).mp h).2
          exact absurd rfl ((dotFree_append (a := ['.', '.']) (by decide)).mp htail).1.2
      · exact absurd h (by decide)
      · exact absurd h (by decide)
      · exact absurd h (by decide)
      · next c rest _ _ _ _ _ _ _ _ =>
          have hlength : (rest.dropWhile (· != '/')).length ≤ fuel :=
            (List.length_dropWhile_le _ _).trans (Nat.le_of_succ_le_succ hfuel)
          rw [ih h.dropWhile hlength]
          simp [List.takeWhile_append_dropWhile]

theorem removeDotSegments_of_dotFree {path : List Char} (h : DotFree path) :
    removeDotSegments path = path :=
  removeDots_of_dotFree h (Nat.le_refl _) []

/-- Dot segments left in place are the whole difference. -/
theorem transform_removeDotSegments {base r : Reference}
    (h : DotFree (transform id base r).path) :
    transform removeDotSegments base r = transform id base r := by
  cases hscheme : r.scheme with
  | some x =>
      simp only [transform, hscheme, id_eq] at h ⊢
      rw [removeDotSegments_of_dotFree h]
  | none =>
      cases hauthority : r.authority with
      | some a =>
          simp only [transform, hscheme, hauthority, id_eq] at h ⊢
          rw [removeDotSegments_of_dotFree h]
      | none =>
          simp only [transform, hscheme, hauthority, id_eq] at h ⊢
          by_cases hpath : r.path = []
          · rw [if_pos hpath, if_pos hpath]
          · rw [if_neg hpath] at h ⊢
            rw [if_neg hpath, removeDotSegments_of_dotFree h]

/-- Two of the examples of §5.4, one of them with more `..` than the base has levels. -/
example :
    let base := components "http://a/b/c/d;p?q".toList
    recompose (transform removeDotSegments base (components "./g/../h?y#s".toList)) =
        "http://a/b/c/h?y#s".toList ∧
      recompose (transform removeDotSegments base (components "../../../g".toList)) =
        "http://a/g".toList := by
  decide +kernel

end Rsurl.Base.Uri
