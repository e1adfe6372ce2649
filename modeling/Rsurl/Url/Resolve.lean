/-
# `Rsurl.Url.Resolve` — the origin of a resolved reference

`resolve` prints the base's scheme, host and port in front of a relative
reference and parses the result.  The printed authority is read back as it
was, except in one case: a host that itself contains a `:`, printed without a
port because the port is the scheme's default.  Then the tail of the host is
read as the port.
-/
import Rsurl.Url.Parse

namespace Rsurl.Url

open Base.Uri (portSuffix)

/-! ## Bases, references and origins -/

/-- The URLs a redirect chain can have as a base. -/
inductive Obtained : Url → Prop where
  | parse {s : Text} {u : Url} (h : Url.parse s = .ok u) : Obtained u
  | resolve {base u : Url} {location : Text} (hb : Obtained base)
      (h : Url.resolve base location = .ok u) : Obtained u

/-- The scheme, host and port of a URL. -/
def origin (u : Url) : Text × Text × UInt16 := (u.scheme, u.host, u.port)

/-- A `Location` value, read without the white space around it, that has no
scheme and does not start with `//`. -/
structure IsRelative (location : Text) : Prop where
  no_scheme : Base.Uri.scheme? location.trim = none
  no_authority : ¬ "//".toList <+: location.trim

/-- A `Location` value `resolve` does not refuse for its own text: not empty, not
taken for an absolute URL, and without a control character, DEL or space before
its fragment. -/
structure Sendable (location : Text) : Prop where
  ne_nil : location.trim ≠ []
  not_absolute : isAbsolute location.trim = false
  plain : ∀ c ∈ stripFragment location.trim, isForbidden c = false

/-- The host is a name that ends in `:port`, and the URL's own port is the
default that `resolve` leaves out. -/
structure ColonHost (base : Url) : Prop where
  port_default : defaultPort base.scheme = some base.port
  not_literal : base.host.head? ≠ some '['
  splits : ∃ name p port, base.host = name ++ ':' :: p ∧ ':' ∉ p ∧ name ≠ [] ∧
    parseU16 p = some port ∧ port ≠ 0

/-- `resolve` returns only what `parse` returns. -/
theorem parse_of_resolve {base u : Url} {location : Text}
    (h : resolve base location = .ok u) : ∃ s, parse s = .ok u := by
  simp only [resolve] at h
  split at h
  · cases h
  split at h
  · exact ⟨_, h⟩
  split at h
  · exact ⟨_, h⟩
  split at h
  · exact ⟨_, h⟩
  · exact ⟨_, h⟩

theorem Obtained.parsed {u : Url} (h : Obtained u) : ∃ s, Url.parse s = .ok u := by
  cases h with
  | parse h => exact ⟨_, h⟩
  | resolve _ h => exact parse_of_resolve h

/-! ## The string `resolve` parses -/

/-- The path `resolve` puts after the base's authority. -/
def refPath (base : Url) (reference : Text) : Text :=
  if reference.head? = some '/' then reference else baseDir base.path ++ reference

theorem marker_append {scheme : Text} (h : ':' ∉ scheme) (rest : Text) :
    Text.splitOnceStr "://".toList (scheme ++ "://".toList ++ rest) = some (scheme, rest) := by
  rw [List.append_assoc]
  exact Base.cutSub_append h

/-- Every known scheme starts with a letter, so the generic syntax sees it. -/
theorem isScheme_of_known {raw : Text} (hne : raw ≠ []) (hall : raw.all isSchemeChar = true)
    (hknown : (∃ port, defaultPort raw.toAsciiLowercase = some port) ∨
      raw.toAsciiLowercase = "file".toList) : Base.Uri.isScheme raw = true := by
  obtain ⟨c, l, rfl⟩ := List.exists_cons_of_ne_nil hne
  have hheads : schemePorts.all (fun e => e.1.head?.all Char.isAlpha) = true := by decide +kernel
  have hlow : c.toLower.isAlpha = true := by
    rcases hknown with ⟨port, hport⟩ | hfile
    · obtain ⟨l₁, l₂, heq, -⟩ := List.lookup_eq_some_iff.mp hport
      exact List.all_eq_true.mp hheads (_, port) (heq ▸ List.mem_append_right _ List.mem_cons_self)
    · have hc : c.toLower = 'f' := (List.cons.inj hfile).1
      rw [hc]
      decide
  simp only [List.all_cons, Bool.and_eq_true] at hall
  simp only [Base.Uri.isScheme, Bool.and_eq_true]
  exact ⟨isAlpha_of_toLower hlow, hall.2⟩

/-- What `resolve` takes for an absolute URL although it has no scheme names no
scheme `parse` knows. -/
theorem parse_absolute_error {loc : Text} {u : Url} (hno : Base.Uri.scheme? loc = none)
    (habs : isAbsolute loc = true) : parse loc ≠ .ok u := by
  intro h
  unfold isAbsolute at habs
  split at habs
  · next raw rest hmark =>
      simp only [Bool.and_eq_true, Bool.not_eq_true', List.isEmpty_eq_false_iff] at habs
      obtain ⟨hne, hall⟩ := habs
      have hcut : Base.cut (· == ':') loc = some (raw, ':', '/' :: '/' :: rest) := by
        rw [Base.eq_of_cutSub hmark]
        refine Base.cut_append (fun c hc => ?_) (by decide)
        have hchar := List.all_eq_true.mp hall c hc
        rw [beq_eq_false_iff_ne]
        rintro rfl
        exact absurd hchar (by decide)
      have hscheme : Base.Uri.isScheme raw = false := by
        simpa [Base.Uri.scheme?, hcut] using hno
      have hknown : (∃ port, defaultPort raw.toAsciiLowercase = some port) ∨
          raw.toAsciiLowercase = "file".toList := by
        obtain ⟨p, hr⟩ | ⟨raw', rest', hmark', hfile, -⟩ := reads_of_parse h
        · obtain ⟨rfl, -⟩ := Prod.mk.inj (Option.some.inj (hmark.symm.trans hr.marker))
          exact .inl ⟨p.default, hr.scheme ▸ hr.default⟩
        · obtain ⟨rfl, -⟩ := Prod.mk.inj (Option.some.inj (hmark.symm.trans hmark'))
          exact .inr hfile
      simp [isScheme_of_known hne hall hknown] at hscheme
  · cases habs

/-- What is neither taken for an absolute URL nor starts with `//` is parsed behind
the base's printed authority. -/
theorem resolve_composed {base : Url} {location : Text} (hne : location.trim ≠ [])
    (habs : isAbsolute location.trim = false) (hslash : ¬ "//".toList <+: location.trim) :
    resolve base location = parse (base.scheme ++ "://".toList ++
      (printAuthority base ++ refPath base (stripFragment location.trim))) := by
  have hslash' : ¬ "//".toList.isPrefixOf location.trim = true := fun h =>
    hslash (List.isPrefixOf_iff_prefix.mp h)
  simp only [resolve, if_neg hne, habs, if_neg hslash', Bool.false_eq_true, if_false]
  simp only [refPath]
  split <;> simp only [List.append_assoc]

/-- A relative reference is parsed behind the base's printed authority. -/
theorem resolve_relative {base u : Url} {location : Text} (hloc : IsRelative location) :
    resolve base location = .ok u ↔ location.trim ≠ [] ∧
      isAbsolute location.trim = false ∧
      parse (base.scheme ++ "://".toList ++
        (printAuthority base ++ refPath base (stripFragment location.trim))) = .ok u := by
  by_cases hne : location.trim = []
  · simp [resolve, hne]
  by_cases habs : isAbsolute location.trim = true
  · simp [resolve, hne, habs, parse_absolute_error hloc.no_scheme habs]
  · rw [resolve_composed hne (Bool.eq_false_iff.mpr habs) hloc.no_authority]
    simp [hne, Bool.eq_false_iff.mpr habs]

/-! ## The printed authority, read back -/

section Printed

variable {s : Text} {base : Url} {p : Pieces}

theorem Reads.scheme_colon (h : Reads s base p) : ':' ∉ base.scheme := fun hc =>
  absurd ((scheme_chars h.default).2 ':' hc).1 (by decide)

/-- `resolve` prints the port when it is not the scheme's default. -/
theorem Reads.printAuthority_eq (h : Reads s base p) : ∃ portText,
    printAuthority base = base.host ++ portSuffix portText ∧
      (portText = none ∧ base.port = p.default ∨
        portText = some (decimal base.port.toNat) ∧ base.port ≠ p.default) := by
  simp only [printAuthority, h.default, Option.getD_some]
  by_cases hport : base.port = p.default
  · exact ⟨none, by simp [hport, portSuffix], .inl ⟨rfl, hport⟩⟩
  · exact ⟨some (decimal base.port.toNat), by simp [hport, portSuffix], .inr ⟨rfl, hport⟩⟩

/-- What is printed after the host is digits behind a colon. -/
theorem Reads.not_mem_printAuthority (h : Reads s base p) {d : Char}
    (hd : d.isDigit = false) (hc : d ≠ ':') (hhost : d ∉ base.host) :
    d ∉ printAuthority base := by
  obtain ⟨portText, heq, hport⟩ := h.printAuthority_eq
  rw [heq, List.mem_append, not_or]
  refine ⟨hhost, ?_⟩
  rcases hport with ⟨rfl, -⟩ | ⟨rfl, -⟩
  · simp [portSuffix]
  · simp [portSuffix, hc, not_mem_decimal hd]

/-- A printed port is read back, whatever the host. -/
theorem Reads.splitHostport_port (h : Reads s base p) :
    splitHostport p.default (base.host ++ ':' :: decimal base.port.toNat) =
      some (base.host, base.port, p.bracketed) := by
  rcases (splitHostport_eq_some.mp h.hostport).host h.host_ne with
    ⟨inner, hb, hhost, hinner⟩ | ⟨hb, hopen, hclose⟩
  · rw [hb, hhost, splitHostport_literal hinner]
    simp [portAfterBracket, parseU16_decimal]
  · have hopen' : (base.host ++ ':' :: decimal base.port.toNat).head? ≠ some '[' := by
      rwa [List.head?_append_of_ne_nil _ h.host_ne]
    have hclose' : ']' ∉ base.host ++ ':' :: decimal base.port.toNat := by
      simp [hclose, not_mem_decimal]
    rw [hb, splitHostport_name hopen' hclose' (not_mem_decimal (by decide)),
      parseU16_decimal, Option.map_some]

/-- A bracketed host, or one without a `:`, or one behind a printed port, is read
back with the port it was printed with. -/
theorem Reads.splitHostport_printAuthority (h : Reads s base p)
    (hsafe : base.host.head? = some '[' ∨ ':' ∉ base.host ∨ base.port ≠ p.default) :
    splitHostport p.default (printAuthority base) =
      some (base.host, base.port, p.bracketed) := by
  obtain ⟨portText, heq, ⟨rfl, hdef⟩ | ⟨rfl, -⟩⟩ := h.printAuthority_eq
  · rw [heq, portSuffix, List.append_nil]
    rcases (splitHostport_eq_some.mp h.hostport).host h.host_ne with
      ⟨inner, hb, hhost, hinner⟩ | ⟨hb, hopen, hclose⟩
    · have hread := @splitHostport_literal p.default inner [] hinner
      rw [List.append_nil] at hread
      rw [hb, hhost, hread, hdef]
      rfl
    · have hcolon : ':' ∉ base.host := by
        rcases hsafe with hbr | hc | hne
        · exact absurd hbr hopen
        · exact hc
        · exact absurd hdef hne
      rw [hb, splitHostport_bare hopen hclose hcolon, hdef]
  · rw [heq, portSuffix, h.splitHostport_port]

/-- Otherwise nothing is printed after the host and its own tail is read as the
port. -/
theorem Reads.splitHostport_colon (h : Reads s base p) {name t : Text}
    (hopen : base.host.head? ≠ some '[') (hdef : base.port = p.default)
    (hhost : base.host = name ++ ':' :: t) (ht : ':' ∉ t) :
    splitHostport p.default (printAuthority base) =
      (parseU16 t).map fun port => (name, port, false) := by
  obtain ⟨portText, heq, ⟨rfl, -⟩ | ⟨-, hne⟩⟩ := h.printAuthority_eq
  · rcases (splitHostport_eq_some.mp h.hostport).host h.host_ne with
      ⟨inner, -, hbr, -⟩ | ⟨-, -, hclose⟩
    · exact absurd (by rw [hbr]; rfl) hopen
    · rw [heq, portSuffix, List.append_nil]
      rw [hhost] at hopen hclose ⊢
      exact splitHostport_name hopen hclose ht
  · exact absurd hdef hne

/-! ## The composed string, parsed -/

/-- What `parse` makes of the base's scheme in front of an authority without
userinfo and a path. -/
theorem Reads.parse_behind (h : Reads s base p) {authority : Text} (hne : authority ≠ [])
    (hslash : '/' ∉ authority) (hat : '@' ∉ authority) (tail : Text) {u : Url} :
    parse (base.scheme ++ "://".toList ++ (authority ++ '/' :: tail)) = .ok u ↔
      ∃ b, splitHostport p.default authority = some (u.host, u.port, b) ∧
        u.scheme = base.scheme ∧ u.userinfo = none ∧
        u.path = stripFragment ('/' :: tail) ∧ u.host ≠ [] ∧ u.port ≠ 0 ∧
        (∀ c ∈ u.host, isForbidden c = false) ∧
        (b = false → '\\' ∉ u.host ∧ '%' ∉ u.host) ∧
        ∀ c ∈ u.path, isForbidden c = false := by
  have hmark := marker_append h.scheme_colon (authority ++ '/' :: tail)
  have hsplit := splitAuthority_append (t := tail) hslash
  have hlow := toLowercase_scheme h.default
  constructor
  · intro hu
    obtain ⟨q, hq⟩ | ⟨raw, rest, hm, hf, -⟩ := reads_of_parse hu
    · obtain ⟨hraw, hrest⟩ := Prod.mk.inj (Option.some.inj (hmark.symm.trans hq.marker))
      have hscheme : u.scheme = base.scheme := by rw [hq.scheme, ← hraw, hlow]
      have hdef : q.default = p.default :=
        Option.some.inj (hq.default.symm.trans (hscheme ▸ h.default))
      have hinfo := hq.userinfo
      rw [← hrest, hsplit, splitUserinfo_of_not_mem hat] at hinfo
      obtain ⟨hnone, hhp⟩ := Prod.mk.inj hinfo
      refine ⟨q.bracketed, ?_, hscheme, hnone.symm, ?_, hq.host_ne, hq.port_ne,
        hq.host_ok, hq.name_ok, hq.path_ok⟩
      · rw [hhp, ← hdef, hq.hostport]
      · rw [hq.path, ← hrest, hsplit]
    · obtain ⟨rfl, -⟩ := Prod.mk.inj (Option.some.inj (hmark.symm.trans hm))
      exact absurd (hlow ▸ hf) h.scheme_ne
  · rintro ⟨b, hhp, hscheme, hinfo, hpath, hhost, hport, hok, hname, hpok⟩
    refine parse_of_reads (p := ⟨base.scheme, authority ++ '/' :: tail,
      p.default, authority, b⟩) ?_
    exact {
      marker := hmark
      rawScheme_ne := (scheme_chars h.default).1
      scheme := by rw [hscheme, hlow]
      scheme_ne := hscheme ▸ h.scheme_ne
      authority_ne := by rw [hsplit]; exact hne
      path := by rw [hpath, hsplit]
      default := hscheme ▸ h.default
      userinfo := by rw [hsplit, splitUserinfo_of_not_mem hat, hinfo]
      hostport := hhp
      host_ne := hhost
      port_ne := hport
      host_ok := hok
      name_ok := hname
      userinfo_ok := by simp [hinfo]
      path_ok := hpok }

/-- What `parse` makes of the base's scheme and printed authority in front of a path. -/
theorem Reads.parse_composed (h : Reads s base p) (tail : Text) {u : Url} :
    parse (base.scheme ++ "://".toList ++ (printAuthority base ++ '/' :: tail)) = .ok u ↔
      ∃ b, splitHostport p.default (printAuthority base) = some (u.host, u.port, b) ∧
        u.scheme = base.scheme ∧ u.userinfo = none ∧
        u.path = stripFragment ('/' :: tail) ∧ u.host ≠ [] ∧ u.port ≠ 0 ∧
        (∀ c ∈ u.host, isForbidden c = false) ∧
        (b = false → '\\' ∉ u.host ∧ '%' ∉ u.host) ∧
        ∀ c ∈ u.path, isForbidden c = false := by
  have hne : printAuthority base ≠ [] := by
    obtain ⟨portText, heq, -⟩ := h.printAuthority_eq
    simp [heq, h.host_ne]
  exact h.parse_behind hne
    (h.not_mem_printAuthority (by decide) (by decide) fun hc => (h.host_mem hc).2.1 rfl)
    (h.not_mem_printAuthority (by decide) (by decide) fun hc => (h.host_mem hc).2.2 rfl) tail

theorem Reads.path_slash (h : Reads s base p) :
    (∃ t, base.path = '/' :: t) ∧ '#' ∉ base.path := by
  obtain ⟨-, t, ht, -⟩ := splitAuthority_spec p.rest
  rw [h.path, ht]
  exact ⟨beforeFirst_slash (by decide) t, not_mem_beforeFirst _ _⟩

theorem baseDir_spec {path t : Text} (hpath : path = '/' :: t) :
    (∃ t', baseDir path = '/' :: t') ∧ ∀ c ∈ baseDir path, c ∈ path := by
  obtain ⟨q, hq⟩ : ∃ q, stripQuery path = '/' :: q :=
    hpath ▸ beforeFirst_slash (by decide) t
  have hsub : ∀ c ∈ stripQuery path, c ∈ path :=
    fun c hc => (beforeFirst_isPrefix '?' path).subset hc
  simp only [baseDir]
  cases hcut : Text.rsplitOnce '/' (stripQuery path) with
  | none => exact absurd (Text.rsplitOnce_eq_none.mp hcut) (by simp [hq])
  | some ab =>
      obtain ⟨a, b⟩ := ab
      obtain ⟨heq, -⟩ := Text.rsplitOnce_eq_some.mp hcut
      refine ⟨?_, fun c hc => hsub c ?_⟩
      · cases a with
        | nil => exact ⟨[], rfl⟩
        | cons d a =>
            have hd : d = '/' := (List.cons.inj (heq.symm.trans hq)).1
            exact ⟨a ++ ['/'], by simp [hd]⟩
      · rw [heq]
        rcases List.mem_append.mp hc with hc | hc
        · exact List.mem_append_left _ hc
        · exact List.mem_append_right _ (by simpa using Or.inl (List.mem_singleton.mp hc))

/-- The path behind the authority starts with `/`. -/
theorem refPath_slash {t : Text} (hpath : base.path = '/' :: t) (reference : Text) :
    ∃ t', refPath base reference = '/' :: t' := by
  obtain ⟨⟨d, hd⟩, -⟩ := baseDir_spec hpath
  rw [refPath]
  split
  · next hhead => exact List.head?_eq_some_iff.mp hhead
  · exact ⟨d ++ reference, by rw [hd]; rfl⟩

/-- It is made of the base's path and the reference. -/
theorem Reads.refPath_spec (h : Reads s base p) (reference : Text) :
    (∃ t, refPath base reference = '/' :: t) ∧
      (∀ c ∈ reference, c ∈ refPath base reference) ∧
      ∀ c ∈ refPath base reference, c ∈ base.path ∨ c ∈ reference := by
  obtain ⟨⟨t, ht⟩, -⟩ := h.path_slash
  refine ⟨refPath_slash ht reference, ?_⟩
  simp only [refPath]
  split
  · exact ⟨fun _ hc => hc, fun _ hc => .inr hc⟩
  · refine ⟨fun c hc => List.mem_append_right _ hc, fun c hc => ?_⟩
    exact (List.mem_append.mp hc).imp ((baseDir_spec ht).2 c) id

end Printed

/-! ## Origins of resolved references -/

/-- The origin of every relative reference against a base read off a string. -/
theorem Reads.resolve_origin {s : Text} {base : Url} {p : Pieces} (h : Reads s base p)
    {location : Text} (hloc : IsRelative location) :
    (∀ u, resolve base location = .ok u → origin u = origin base) ↔
      ¬ (ColonHost base ∧ Sendable location) := by
  obtain ⟨⟨tail, htail⟩, hsub, hmem⟩ := h.refPath_spec (stripFragment location.trim)
  have hnohash : '#' ∉ ('/' :: tail : Text) := fun hc => by
    rcases hmem '#' (htail ▸ hc) with hc | hc
    · exact h.path_slash.2 hc
    · exact not_mem_beforeFirst '#' location.trim hc
  have hstrip : stripFragment ('/' :: tail) = '/' :: tail := beforeFirst_eq_self hnohash
  simp only [resolve_relative hloc, htail, h.parse_composed, hstrip]
  constructor
  · rintro hall ⟨hcolon, hsend⟩
    obtain ⟨name, t, port, hhost, ht, hname, hport, hne⟩ := hcolon.splits
    have hdef : base.port = p.default :=
      Option.some.inj (hcolon.port_default.symm.trans h.default)
    have hhp := h.splitHostport_colon hcolon.not_literal hdef hhost ht
    have hname_mem : ∀ c ∈ name, c ∈ base.host := fun c hc => by
      rw [hhost]
      exact List.mem_append_left _ hc
    have hbr : p.bracketed = false := by
      rcases (splitHostport_eq_some.mp h.hostport).host h.host_ne with
        ⟨inner, -, hlit, -⟩ | ⟨hb, -⟩
      · exact absurd (by rw [hlit]; rfl) hcolon.not_literal
      · exact hb
    have horigin := hall ⟨base.scheme, none, name, port, '/' :: tail⟩
      ⟨hsend.ne_nil, hsend.not_absolute, false, by rw [hhp, hport]; rfl, rfl, rfl, rfl,
        hname, hne, fun c hc => h.host_ok c (hname_mem c hc),
        fun _ => ⟨fun hc => (h.name_ok hbr).1 (hname_mem _ hc),
          fun hc => (h.name_ok hbr).2 (hname_mem _ hc)⟩,
        fun c hc => (hmem c (htail ▸ hc)).elim (h.path_ok c) (hsend.plain c)⟩
    have hlen : name = base.host := (Prod.mk.inj (Prod.mk.inj horigin).2).1
    have := congrArg List.length (hlen.trans hhost)
    simp at this
  · rintro hno u ⟨hne, habs, b, hhp, hscheme, -, hpath, hhost, hport, -, -, hpok⟩
    by_cases hsafe : base.host.head? = some '[' ∨ ':' ∉ base.host ∨ base.port ≠ p.default
    · have hhp' := h.splitHostport_printAuthority hsafe
      obtain ⟨hh, hrest⟩ := Prod.mk.inj (Option.some.inj (hhp.symm.trans hhp'))
      obtain ⟨hp, -⟩ := Prod.mk.inj hrest
      simp only [origin, hscheme, hh, hp]
    · simp only [not_or, not_not] at hsafe
      obtain ⟨hopen, hcolon, hdef⟩ := hsafe
      obtain ⟨⟨name, t⟩, hcut⟩ : ∃ x, Text.rsplitOnce ':' base.host = some x := by
        cases hcut : Text.rsplitOnce ':' base.host with
        | none => exact absurd hcolon (Text.rsplitOnce_eq_none.mp hcut)
        | some x => exact ⟨x, rfl⟩
      obtain ⟨hsplit, ht⟩ := Text.rsplitOnce_eq_some.mp hcut
      rw [h.splitHostport_colon hopen hdef hsplit ht] at hhp
      obtain ⟨port, hparse, heq⟩ := Option.map_eq_some_iff.mp hhp
      simp only [Prod.mk.injEq] at heq
      obtain ⟨rfl, rfl, -⟩ := heq
      refine absurd ⟨⟨hdef ▸ h.default, hopen, u.host, t, u.port, hsplit, ht, hhost, hparse, hport⟩,
        ⟨hne, habs, fun c hc => ?_⟩⟩ hno
      exact hpok c (hpath ▸ htail ▸ hsub c hc)

/-- A `file` base keeps its origin: no host, no port. -/
theorem resolve_origin_file {s : Text} {base : Url} (h : parseFile s = .ok base)
    {location : Text} (hloc : IsRelative location) :
    (∀ u, resolve base location = .ok u → origin u = origin base) ∧ ¬ ColonHost base := by
  obtain ⟨path, -, rfl⟩ := parseFile_eq_ok.mp h
  have hunknown : defaultPort "file".toList = none := by decide
  refine ⟨fun u hu => ?_, fun hc => absurd (hc.port_default.symm.trans hunknown) (by simp)⟩
  obtain ⟨-, -, hparse⟩ := (resolve_relative hloc).mp hu
  have hcolon : ':' ∉ "file".toList := by decide
  have hmark := marker_append hcolon
    (printAuthority ⟨"file".toList, none, [], 0, stripFragment ('/' :: path)⟩ ++
      refPath ⟨"file".toList, none, [], 0, stripFragment ('/' :: path)⟩
        (stripFragment location.trim))
  obtain ⟨q, hq⟩ | ⟨-, -, -, -, hf⟩ := reads_of_parse hparse
  · obtain ⟨hraw, -⟩ := Prod.mk.inj (Option.some.inj (hmark.symm.trans hq.marker))
    exact absurd (by rw [hq.scheme, ← hraw]; decide) hq.scheme_ne
  · obtain ⟨path', -, rfl⟩ := parseFile_eq_ok.mp hf
    rfl

/-- For every base and every relative `Location`, `resolve` errs or keeps the base's
origin, unless the base's host ends in a port of its own behind an elided one. -/
theorem resolve_origin_iff {base : Url} {location : Text} (hb : Obtained base)
    (hloc : IsRelative location) :
    (∀ u, resolve base location = .ok u → origin u = origin base) ↔
      ¬ (ColonHost base ∧ Sendable location) := by
  obtain ⟨s, hs⟩ := hb.parsed
  obtain ⟨p, hr⟩ | ⟨-, -, -, -, hf⟩ := reads_of_parse hs
  · exact hr.resolve_origin hloc
  · obtain ⟨hsame, hno⟩ := resolve_origin_file hf hloc
    exact ⟨fun _ hc => hno hc.1, fun _ => hsame⟩

/-- A bracketed host with a port of its own keeps both. -/
theorem resolve_origin_of_literal :
    let base : Url := ⟨"https".toList, none, "[::1]".toList, 8443, "/a/b?c".toList⟩
    parse "https://[::1]:8443/a/b?c".toList = .ok base ∧
      ∀ u, resolve base "d#e".toList = .ok u → origin u = origin base := by
  refine ⟨by decide, (resolve_origin_iff (.parse (s := "https://[::1]:8443/a/b?c".toList)
    (by decide)) ⟨by decide, by decide⟩).mpr ?_⟩
  exact fun h => absurd h.1.port_default (by decide)

/-- The redirect from `http://a:8080:80/`, whose host is read as `a:8080`, to the
path `/x` goes to port 8080 of the host `a`. -/
theorem resolve_origin_changes :
    let base : Url := ⟨"http".toList, none, "a:8080".toList, 80, "/".toList⟩
    parse "http://a:8080:80/".toList = .ok base ∧ IsRelative "/x".toList ∧
      ∃ u, resolve base "/x".toList = .ok u ∧ u.host = "a".toList ∧ u.port = 8080 ∧
        origin u ≠ origin base :=
  ⟨by decide, ⟨by decide, by decide⟩,
    ⟨"http".toList, none, "a".toList, 8080, "/x".toList⟩, by decide, rfl, rfl, by decide⟩

end Rsurl.Url
