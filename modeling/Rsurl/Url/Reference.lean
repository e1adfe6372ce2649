/-
# `Rsurl.Url.Reference` — `resolve` and the resolution of RFC 3986

`resolve` is compared with §5.2 on components: the base's are read off its
fields, the reference's off its text, and the target, written out, is parsed as
`resolve` parses what it composes.

On the four forms the source names (an absolute URL, `//host…`, `/path` and a
relative path) the two agree, except that `resolve` keeps dot segments and does
not hand the base's userinfo on.  An empty reference is refused.
-/
import Rsurl.Base.Reference
import Rsurl.Url.Resolve

namespace Rsurl.Url

open Base.Uri (Reference components recompose transform removeDotSegments marked DotFree)

/-! ## The target of a reference -/

/-- The authority of a URL, its port always written; a `file` URL has an empty one. -/
def authorityText (u : Url) : Text :=
  if u.host = [] then []
  else Base.Uri.renderAuthority u.userinfo u.host (some (decimal u.port.toNat))

/-- The components of a base: `path` holds the query too. -/
def reference (u : Url) : Reference :=
  let (path, rest) := Base.Uri.splitPath u.path
  { scheme := some u.scheme, authority := some u.authorityText, path,
    query := (Base.Uri.splitQuery rest).1, fragment := none }

/-- The URL a text resolves to against `base`: the target of §5.2.2, fragment
dropped and written out, as `parse` reads it. -/
def target (normal : Text → Text) (base : Url) (text : Text) : Option Url :=
  (parse (recompose
    { transform normal base.reference (components text) with fragment := none })).toOption

/-- The base, without its userinfo. -/
def anonymous (base : Url) : Url := { base with userinfo := none }

/-- The forms `resolve` tells apart: with a scheme and an authority, with an
authority, or with a path.  A fragment stands behind a path, as `parse` looks for
it only there. -/
structure IsLocated (r : Reference) : Prop where
  scheme_ok : ∀ x ∈ r.scheme, x.all isSchemeChar = true ∧ r.authority.isSome
  fragment_ok : r.authority.isSome → r.path = [] → r.fragment = none
  path_ne : r.authority = none → r.path ≠ []

instance (r : Reference) : Decidable (IsLocated r) :=
  decidable_of_iff ((∀ x ∈ r.scheme, x.all isSchemeChar = true ∧ r.authority.isSome) ∧
      (r.authority.isSome → r.path = [] → r.fragment = none) ∧
      (r.authority = none → r.path ≠ []))
    ⟨fun ⟨h₁, h₂, h₃⟩ => ⟨h₁, h₂, h₃⟩, fun ⟨h₁, h₂, h₃⟩ => ⟨h₁, h₂, h₃⟩⟩

/-- An unbracketed host with a `:`, whose port `resolve` leaves out. -/
structure ElidesPort (base : Url) : Prop where
  port_default : defaultPort base.scheme = some base.port
  not_literal : base.host.head? ≠ some '['
  colon : ':' ∈ base.host

/-! ## The branch a reference takes -/

theorem isAbsolute_marker {x : Text} (hne : x ≠ []) (hx : x.all isSchemeChar = true)
    (rest : Text) : isAbsolute (x ++ "://".toList ++ rest) = true := by
  have hcolon : ':' ∉ x := fun hc => absurd (List.all_eq_true.mp hx _ hc) (by decide)
  rw [isAbsolute, marker_append hcolon]
  simp [hne, hx]

/-- A text without a scheme is not taken for an absolute URL. -/
theorem isAbsolute_of_no_scheme {text : Text} (h : (components text).scheme = none) :
    isAbsolute text = false := by
  rw [Bool.eq_false_iff]
  intro habs
  unfold isAbsolute at habs
  split at habs
  · next raw rest hmark =>
      simp only [Bool.and_eq_true, Bool.not_eq_true', List.isEmpty_eq_false_iff] at habs
      have hname : ∀ c ∈ raw, c ≠ ':' ∧ Base.Uri.endsAuthority c = false := by
        intro c hc
        have hchar := List.all_eq_true.mp habs.2 c hc
        refine ⟨?_, Bool.eq_false_iff.mpr fun hend => ?_⟩
        · rintro rfl
          exact absurd hchar (by decide)
        · simp only [Base.Uri.endsAuthority, Bool.or_eq_true, beq_iff_eq] at hend
          obtain (rfl | rfl) | rfl := hend <;> exact absurd hchar (by decide)
      have hscheme : (components text).scheme = some raw := by
        rw [Base.eq_of_cutSub hmark]
        exact congrArg Prod.fst (Base.Uri.splitScheme_append habs.1 hname _)
      simp [h] at hscheme
  · cases habs

/-- Without a scheme, an authority stands behind a leading `//` and only there. -/
theorem authority_iff {text : Text} (h : (components text).scheme = none) :
    (components text).authority.isSome ↔ "//".toList <+: text := by
  have hrest : (Base.Uri.splitScheme text).2 = text := by
    have hspec := (Base.Uri.splitScheme_spec text).1
    rw [show (Base.Uri.splitScheme text).1 = none from h] at hspec
    exact hspec
  have hauthority : (components text).authority = (Base.Uri.splitNetwork text).1 :=
    congrArg (fun t => (Base.Uri.splitNetwork t).1) hrest
  rw [hauthority]
  constructor
  · intro hsome
    obtain ⟨a, ha⟩ := Option.isSome_iff_exists.mp hsome
    have hspec := (Base.Uri.splitNetwork_spec text).1
    rw [ha] at hspec
    exact ⟨a ++ (Base.Uri.splitNetwork text).2, by simpa [marked] using hspec⟩
  · rintro ⟨t, rfl⟩
    rfl

theorem recompose_authority {r : Reference} {x a : Text} (hx : r.scheme = some x)
    (ha : r.authority = some a) : recompose r =
      x ++ "://".toList ++ (a ++ (r.pathQuery ++ marked ['#'] r.fragment)) := by
  simp [recompose, hx, ha, marked, Base.Uri.schemePrefix]

theorem recompose_network {r : Reference} {a : Text} (hx : r.scheme = none)
    (ha : r.authority = some a) : recompose r =
      "//".toList ++ (a ++ (r.pathQuery ++ marked ['#'] r.fragment)) := by
  simp [recompose, hx, ha, marked, Base.Uri.schemePrefix]

theorem recompose_path {r : Reference} (hx : r.scheme = none) (ha : r.authority = none) :
    recompose r = r.pathQuery ++ marked ['#'] r.fragment := by
  simp [recompose, hx, ha, marked, Base.Uri.schemePrefix]

/-! ## Fragments -/

theorem stripFragment_append {t : Text} (ht : '#' ∉ t) (fragment : Option Text) :
    stripFragment (t ++ marked ['#'] fragment) = t := by
  cases fragment with
  | none =>
      rw [marked, List.append_nil]
      exact beforeFirst_eq_self ht
  | some f =>
      have hcut : Text.splitOnce '#' (t ++ '#' :: f) = some (t, f) :=
        Text.splitOnce_eq_some.mpr ⟨rfl, ht⟩
      simp only [stripFragment, beforeFirst, marked, List.cons_append, List.nil_append, hcut]

theorem toOption_eq {α : Type} {x y : Result α} (h : ∀ a, x = .ok a ↔ y = .ok a) :
    x.toOption = y.toOption := by
  cases x with
  | ok a => rw [(h a).mp rfl]
  | error e =>
      cases y with
      | ok b => exact absurd ((h b).mpr rfl) (by simp)
      | error e' => rfl

/-- Behind the authority's `/` only what precedes the fragment is read. -/
theorem parse_of_stripFragment {x a t t' : Text} {u : Url} (hx : ':' ∉ x) (ha : '/' ∉ a)
    (ht : stripFragment ('/' :: t) = stripFragment ('/' :: t'))
    (hu : parse (x ++ "://".toList ++ (a ++ '/' :: t)) = .ok u) :
    parse (x ++ "://".toList ++ (a ++ '/' :: t')) = .ok u := by
  have hmark := marker_append hx (a ++ '/' :: t)
  have hmark' := marker_append hx (a ++ '/' :: t')
  have hsplit := splitAuthority_append (t := t) ha
  have hsplit' := splitAuthority_append (t := t') ha
  obtain ⟨p, hp⟩ | ⟨raw, rest, hm, hlow, hfile⟩ := reads_of_parse hu
  · obtain ⟨hraw, hrest⟩ := Prod.mk.inj (Option.some.inj (hmark.symm.trans hp.marker))
    refine parse_of_reads (p := { p with rest := a ++ '/' :: t' }) ?_
    have hauthority : splitAuthority p.rest = (a, '/' :: t) := hrest ▸ hsplit
    exact {
      marker := by rw [hmark', hraw]
      rawScheme_ne := hp.rawScheme_ne
      scheme := hp.scheme
      scheme_ne := hp.scheme_ne
      authority_ne := by
        rw [hsplit']
        simpa [hauthority] using hp.authority_ne
      path := by rw [hsplit', ← ht, hp.path, hauthority]
      default := hp.default
      userinfo := by
        rw [hsplit']
        simpa [hauthority] using hp.userinfo
      hostport := hp.hostport
      host_ne := hp.host_ne
      port_ne := hp.port_ne
      host_ok := hp.host_ok
      name_ok := hp.name_ok
      userinfo_ok := hp.userinfo_ok
      path_ok := hp.path_ok }
  · obtain ⟨path, hs, rfl⟩ := parseFile_eq_ok.mp hfile
    have hcolon : ':' ∉ "file".toList := by decide
    have hfileMark := marker_append hcolon ('/' :: path)
    rw [show "file".toList ++ "://".toList ++ '/' :: path =
      x ++ "://".toList ++ (a ++ '/' :: t) from hs.symm, hmark] at hfileMark
    obtain ⟨rfl, hrest⟩ := Prod.mk.inj (Option.some.inj hfileMark)
    -- nothing stands between the marker and the path
    obtain rfl : a = [] := by
      cases a with
      | nil => rfl
      | cons c a =>
          obtain ⟨rfl, -⟩ := List.cons.inj hrest
          exact absurd List.mem_cons_self ha
    obtain rfl : t = path := (List.cons.inj hrest).2
    have hparse : parse ("file".toList ++ "://".toList ++ ([] ++ '/' :: t')) =
        parseFile ("file".toList ++ "://".toList ++ ([] ++ '/' :: t')) := by
      simp only [parse, hmark']
      rw [if_neg (by decide), if_pos (by decide)]
    rw [hparse]
    exact parseFile_eq_ok.mpr ⟨t', rfl, by rw [ht]⟩

/-- A fragment behind a path is not looked at. -/
theorem parse_fragment {x a t : Text} {fragment : Option Text} (hx : ':' ∉ x) (ha : '/' ∉ a)
    (ht : '#' ∉ t) (hfragment : fragment = none ∨ ∃ t', t = '/' :: t') :
    (parse (x ++ "://".toList ++ (a ++ (t ++ marked ['#'] fragment)))).toOption =
      (parse (x ++ "://".toList ++ (a ++ t))).toOption := by
  obtain rfl | ⟨t', rfl⟩ := hfragment
  · rw [marked, List.append_nil]
  · have hstrip : stripFragment ('/' :: (t' ++ marked ['#'] fragment)) =
        stripFragment ('/' :: t') := by
      rw [← List.cons_append, stripFragment_append ht]
      exact (beforeFirst_eq_self ht).symm
    exact toOption_eq fun u => ⟨parse_of_stripFragment hx ha hstrip,
      parse_of_stripFragment hx ha hstrip.symm⟩

/-! ## Paths behind the base's authority -/

theorem stripQuery_eq {path : Text} (h : '#' ∉ path) :
    stripQuery path = (Base.Uri.splitPath path).1 := by
  obtain ⟨heq, hchars, hhead⟩ := Base.Uri.splitPath_spec path
  have hno : '?' ∉ (Base.Uri.splitPath path).1 := fun hc => absurd (hchars _ hc) (by decide)
  cases hrest : (Base.Uri.splitPath path).2 with
  | nil =>
      rw [hrest, List.append_nil] at heq
      rw [heq] at hno
      rw [heq, stripQuery, beforeFirst_eq_self hno]
  | cons c rest =>
      rw [hrest] at heq
      have hc : c = '?' := by
        refine (hhead c (by rw [hrest]; rfl)).resolve_right ?_
        rintro rfl
        exact h (heq ▸ List.mem_append_right _ List.mem_cons_self)
      subst hc
      have hcut : Text.splitOnce '?' path = some ((Base.Uri.splitPath path).1, rest) :=
        Text.splitOnce_eq_some.mpr ⟨heq.symm, hno⟩
      simp only [stripQuery, beforeFirst, hcut]

/-- `dir` is the base path without its last segment. -/
theorem baseDir_eq {path t : Text} (hpath : path = '/' :: t) (h : '#' ∉ path) :
    baseDir path = (Base.Uri.splitPath path).1.rdropWhile (· != '/') := by
  rw [← stripQuery_eq h]
  obtain ⟨q, hq⟩ : ∃ q, stripQuery path = '/' :: q := hpath ▸ beforeFirst_slash (by decide) t
  simp only [baseDir]
  cases hcut : Text.rsplitOnce '/' (stripQuery path) with
  | none => exact absurd (Text.rsplitOnce_eq_none.mp hcut) (by simp [hq])
  | some ab =>
      obtain ⟨a, b⟩ := ab
      obtain ⟨heq, hb⟩ := Text.rsplitOnce_eq_some.mp hcut
      have hall : ∀ c ∈ b, (c != '/') = true := fun c hc => by
        rw [bne_iff_ne]
        rintro rfl
        exact hb hc
      rw [heq, List.append_cons, List.rdropWhile, List.reverse_append,
        List.dropWhile_append_of_pos (fun c hc => hall c (List.mem_reverse.mp hc))]
      simp

section Located

variable {s location : Text} {base : Url} {r : Reference}

theorem scheme_colon_of_parse (hb : parse s = .ok base) : ':' ∉ base.scheme := by
  obtain ⟨p, hr⟩ | ⟨-, -, -, -, hf⟩ := reads_of_parse hb
  · exact hr.scheme_colon
  · obtain ⟨path, -, rfl⟩ := parseFile_eq_ok.mp hf
    exact (by decide : ':' ∉ "file".toList)

theorem path_of_parse (hb : parse s = .ok base) :
    (∃ t, base.path = '/' :: t) ∧ '#' ∉ base.path := by
  obtain ⟨p, hr⟩ | ⟨-, -, -, -, hf⟩ := reads_of_parse hb
  · exact hr.path_slash
  · obtain ⟨path, -, rfl⟩ := parseFile_eq_ok.mp hf
    exact ⟨beforeFirst_slash (by decide) path, not_mem_beforeFirst _ _⟩

/-- The authority `resolve` prints is read as the one with the port written. -/
theorem parse_authorityText (hb : parse s = .ok base) (hport : ¬ ElidesPort base) (tail : Text) :
    (parse (base.scheme ++ "://".toList ++ (printAuthority base ++ '/' :: tail))).toOption =
      (parse (base.scheme ++ "://".toList ++
        ((anonymous base).authorityText ++ '/' :: tail))).toOption := by
  obtain ⟨p, hr⟩ | ⟨-, -, -, -, hf⟩ := reads_of_parse hb
  · have htext : (anonymous base).authorityText = base.host ++ ':' :: decimal base.port.toNat := by
      rw [authorityText, if_neg (show (anonymous base).host ≠ [] from hr.host_ne)]
      rfl
    have hsafe : base.host.head? = some '[' ∨ ':' ∉ base.host ∨ base.port ≠ p.default := by
      by_contra hno
      simp only [not_or, not_not] at hno
      exact hport ⟨hno.2.2 ▸ hr.default, hno.1, hno.2.1⟩
    have hnot : ∀ d : Char, d.isDigit = false → d ≠ ':' → d ∉ base.host →
        d ∉ base.host ++ ':' :: decimal base.port.toNat := by
      intro d hd hc hhost
      simp [hhost, hc, not_mem_decimal hd]
    rw [htext]
    refine toOption_eq fun u => ?_
    rw [hr.parse_composed, hr.parse_behind (by simp [hr.host_ne])
      (hnot '/' (by decide) (by decide) fun hc => (hr.host_mem hc).2.1 rfl)
      (hnot '@' (by decide) (by decide) fun hc => (hr.host_mem hc).2.2 rfl),
      hr.splitHostport_printAuthority hsafe, hr.splitHostport_port]
  · obtain ⟨path, -, rfl⟩ := parseFile_eq_ok.mp hf
    rfl

/-- The path `resolve` composes is the target's path and query. -/
theorem refPath_pathQuery {t : Text} (hpath : base.path = '/' :: t) (hhash : '#' ∉ base.path)
    (hne : r.path ≠ []) :
    refPath base r.pathQuery =
      (if r.path.head? = some '/' then r.path else Base.Uri.merge base.reference r.path) ++
        marked ['?'] r.query := by
  have hhead : r.pathQuery.head? = r.path.head? := List.head?_append_of_ne_nil _ hne
  have hslash : base.reference.path ≠ [] := by
    obtain ⟨q, hq⟩ : ∃ q, stripQuery base.path = '/' :: q :=
      hpath ▸ beforeFirst_slash (by decide) t
    rw [stripQuery_eq hhash] at hq
    exact ne_of_eq_of_ne hq (List.cons_ne_nil _ _)
  rw [refPath, hhead]
  by_cases hroot : r.path.head? = some '/'
  · rw [if_pos hroot, if_pos hroot]
    rfl
  · rw [if_neg hroot, if_neg hroot, Base.Uri.merge, if_neg (fun h => hslash h.2),
      baseDir_eq hpath hhash, List.append_assoc]
    rfl

/-! ## The four forms -/

/-- An authority behind a scheme: nothing is read of the fragment. -/
theorem parse_located {x a : Text} (hwf : r.WellFormed) (hloc : IsLocated r)
    (ha : r.authority = some a) (hx : ':' ∉ x) :
    (parse (x ++ "://".toList ++ (a ++ (r.pathQuery ++ marked ['#'] r.fragment)))).toOption =
      (parse (recompose { r with scheme := some x, fragment := none })).toOption := by
  have hslash : '/' ∉ a := fun hc => absurd (hwf.authority_ok a ha _ hc) (by decide)
  have hfragment : r.fragment = none ∨ ∃ t, r.pathQuery = '/' :: t := by
    have hsome : r.authority.isSome := by simp [ha]
    obtain hnil | ⟨t, ht⟩ := hwf.path_rooted hsome
    · exact .inl (hloc.fragment_ok hsome hnil)
    · exact .inr ⟨t ++ marked ['?'] r.query, by rw [Reference.pathQuery, ht]; rfl⟩
  have hwritten := recompose_authority (r := { r with scheme := some x, fragment := none }) rfl ha
  rw [hwritten, marked, List.append_nil]
  exact parse_fragment hx hslash hwf.not_mem_pathQuery hfragment

/-- With a scheme: the reference is parsed as it stands. -/
theorem resolve_scheme {x : Text} (hx : (components location.trim).scheme = some x)
    (hloc : IsLocated (components location.trim)) :
    (resolve base location).toOption = target id base location.trim := by
  have hwf := Base.Uri.components_wellFormed location.trim
  obtain ⟨hchars, hsome⟩ := hloc.scheme_ok x hx
  obtain ⟨hne, hplain⟩ := hwf.scheme_ok x hx
  obtain ⟨a, ha⟩ := Option.isSome_iff_exists.mp hsome
  have htext := recompose_authority hx ha
  rw [Base.Uri.recompose_components] at htext
  have habs : isAbsolute location.trim = true := by
    rw [htext]
    exact isAbsolute_marker hne hchars _
  have hnil : location.trim ≠ [] := by
    rw [htext]
    simp [hne]
  have hresolve : resolve base location = parse location.trim := by
    simp only [resolve, if_neg hnil, if_pos habs]
  have htarget : transform id base.reference (components location.trim) =
      { components location.trim with scheme := some x } := by
    simp only [transform, hx, id_eq]
  rw [hresolve, target, htarget, ← parse_located hwf hloc ha fun hc => (hplain _ hc).1 rfl, ← htext]

/-- Behind `//`: the base's scheme is put in front. -/
theorem resolve_network {a : Text} (hb : parse s = .ok base)
    (hx : (components location.trim).scheme = none)
    (ha : (components location.trim).authority = some a)
    (hloc : IsLocated (components location.trim)) :
    (resolve base location).toOption = target id base location.trim := by
  have hwf := Base.Uri.components_wellFormed location.trim
  have htext := recompose_network hx ha
  rw [Base.Uri.recompose_components] at htext
  have hprefix : "//".toList.isPrefixOf location.trim = true :=
    List.isPrefixOf_iff_prefix.mpr ((authority_iff hx).mp (by simp [ha]))
  have hnil : location.trim ≠ [] := by
    rw [htext]
    simp
  have hresolve : resolve base location =
      parse (base.scheme ++ "://".toList ++ location.trim.drop 2) := by
    simp only [resolve, if_neg hnil, isAbsolute_of_no_scheme hx, if_pos hprefix,
      Bool.false_eq_true, if_false]
  have hdrop : location.trim.drop 2 = a ++ ((components location.trim).pathQuery ++
      marked ['#'] (components location.trim).fragment) := by
    conv_lhs => rw [htext]
    rfl
  have htarget : transform id base.reference (components location.trim) =
      { components location.trim with scheme := some base.scheme } := by
    simp only [transform, hx, ha, id_eq]
    rfl
  rw [hresolve, target, htarget, hdrop, parse_located hwf hloc ha (scheme_colon_of_parse hb)]

/-- A path: the base's scheme, host and port are put in front. -/
theorem resolve_path (hb : parse s = .ok base) (hport : ¬ ElidesPort base)
    (hx : (components location.trim).scheme = none)
    (ha : (components location.trim).authority = none)
    (hloc : IsLocated (components location.trim)) :
    (resolve base location).toOption = target id (anonymous base) location.trim := by
  have hwf := Base.Uri.components_wellFormed location.trim
  have hpath := hloc.path_ne ha
  obtain ⟨⟨t, ht⟩, hhash⟩ := path_of_parse hb
  have htext := recompose_path hx ha
  rw [Base.Uri.recompose_components] at htext
  have hnil : location.trim ≠ [] := by
    rw [htext, Reference.pathQuery]
    simp [hpath]
  have hslash : ¬ "//".toList <+: location.trim := fun h => by
    simpa [ha] using (authority_iff hx).mpr h
  have hstrip : stripFragment location.trim = (components location.trim).pathQuery := by
    conv_lhs => rw [htext]
    exact stripFragment_append hwf.not_mem_pathQuery _
  have hwritten : recompose { transform id (anonymous base).reference (components location.trim)
      with fragment := none } = base.scheme ++ "://".toList ++ ((anonymous base).authorityText ++
        refPath base (components location.trim).pathQuery) := by
    rw [refPath_pathQuery ht hhash hpath]
    simp only [transform, hx, ha, if_neg hpath, id_eq]
    rw [recompose_authority (x := base.scheme) (a := (anonymous base).authorityText) rfl rfl]
    simp only [marked, List.append_nil]
    rfl
  obtain ⟨tail, htail⟩ := refPath_slash ht (components location.trim).pathQuery
  rw [resolve_composed hnil (isAbsolute_of_no_scheme hx) hslash, hstrip, target, hwritten, htail]
  exact parse_authorityText hb hport tail

/-- On a reference of one of the four forms `resolve` gives the target of RFC 3986,
dot segments kept and userinfo left behind; without dot segments in the target's
path that is the RFC's own target.  An empty reference has none. -/
theorem resolve_eq_target (hb : parse s = .ok base) (hport : ¬ ElidesPort base) :
    (location.trim = [] → (resolve base location).toOption = none) ∧
      (IsLocated (components location.trim) →
        (resolve base location).toOption = target id (anonymous base) location.trim ∧
        (DotFree (transform id (anonymous base).reference (components location.trim)).path →
          (resolve base location).toOption =
            target removeDotSegments (anonymous base) location.trim)) := by
  refine ⟨fun hnil => by simp only [resolve, if_pos hnil]; rfl, fun hloc => ?_⟩
  have hid : (resolve base location).toOption = target id (anonymous base) location.trim := by
    cases hx : (components location.trim).scheme with
    | some x =>
        have htarget : target id (anonymous base) location.trim =
            target id base location.trim := by
          simp only [target, transform, hx]
        rw [htarget, resolve_scheme hx hloc]
    | none =>
        cases ha : (components location.trim).authority with
        | some a =>
            have htarget : target id (anonymous base) location.trim =
                target id base location.trim := by
              simp only [target, transform, hx, ha]
              rfl
            rw [htarget, resolve_network hb hx ha hloc]
        | none => exact resolve_path hb hport hx ha hloc
  refine ⟨hid, fun hdots => ?_⟩
  rw [hid, target, target, Base.Uri.transform_removeDotSegments hdots]

end Located

/-- A relative path with a query and a fragment, in white space, against a base with
a port, a query and userinfo. -/
theorem resolve_eq_target_relative :
    let base : Url := ⟨"http".toList, some "u:p".toList, "[::1]".toList, 8080, "/b/c?q/r".toList⟩
    parse "http://u:p@[::1]:8080/b/c?q/r".toList = .ok base ∧ ¬ ElidesPort base ∧
      IsLocated (components (Text.trim " d/e?x#f".toList)) ∧
      (resolve base " d/e?x#f".toList).toOption =
        target removeDotSegments (anonymous base) (Text.trim " d/e?x#f".toList) := by
  have hport : ¬ ElidesPort
      ⟨"http".toList, some "u:p".toList, "[::1]".toList, 8080, "/b/c?q/r".toList⟩ :=
    fun h => h.not_literal (by decide)
  have hparse : parse "http://u:p@[::1]:8080/b/c?q/r".toList =
      .ok ⟨"http".toList, some "u:p".toList, "[::1]".toList, 8080, "/b/c?q/r".toList⟩ := by
    decide
  have hloc : IsLocated (components (Text.trim " d/e?x#f".toList)) := by decide
  exact ⟨hparse, hport, hloc,
    ((@resolve_eq_target _ " d/e?x#f".toList _ hparse hport).2 hloc).2 (by decide)⟩

/-- Against `http://a/b/c?q`: dot segments stay, an empty reference is refused, a query
or a fragment alone is taken for a path, and so is a scheme without `//`; white space
around a reference is dropped; the fragment of a bare authority joins the host.
Userinfo is left behind, and a host that holds a `:` loses what follows it. -/
theorem resolve_target_fails :
    let base : Url := ⟨"http".toList, none, "a".toList, 80, "/b/c?q".toList⟩
    parse "http://a/b/c?q".toList = .ok base ∧
      (resolve base "../d".toList).toOption =
        some ⟨"http".toList, none, "a".toList, 80, "/b/../d".toList⟩ ∧
      target removeDotSegments base "../d".toList =
        some ⟨"http".toList, none, "a".toList, 80, "/d".toList⟩ ∧
      (∀ text ∈ ["", "?y", "#f", "mailto:x", " d", "//h#f"],
        (resolve base text.toList).toOption ≠ target removeDotSegments base text.toList) ∧
      (∃ u, parse "http://u@a/b/c?q".toList = .ok u ∧
        (resolve u "d".toList).toOption ≠ target removeDotSegments u "d".toList) ∧
      ∃ u, parse "http://a:8080:80/b".toList = .ok u ∧
        (resolve u "d".toList).toOption ≠ target removeDotSegments u "d".toList := by
  refine ⟨by decide, by decide, by decide, by decide, ?_, ?_⟩
  · exact ⟨⟨"http".toList, some "u".toList, "a".toList, 80, "/b/c?q".toList⟩, by decide, by decide⟩
  · exact ⟨⟨"http".toList, none, "a:8080".toList, 80, "/b".toList⟩, by decide, by decide⟩

end Rsurl.Url
