/-
# `Rsurl.Url.Parse` — what `parse` accepts

One inversion of `Url::parse`, used by every later fact about URLs: an
accepted string either takes the `file://` branch or is cut into the pieces
`Reads` lists, each with the check the source makes on it.
-/
import Rsurl.Base.Uri
import Rsurl.Url

namespace Rsurl.Url

open Base.Uri (userinfoPrefix portSuffix)

/-! ## Guards -/

theorem rejectForbidden_eq_ok {field original : Text} :
    rejectForbidden field original = .ok () ↔ ∀ c ∈ field, isForbidden c = false := by
  simp only [rejectForbidden]
  by_cases h : field.any isForbidden = true
  · rw [if_pos h]
    obtain ⟨c, hc, hbad⟩ := List.any_eq_true.mp h
    constructor
    · intro he
      cases he
    · intro hall
      exact absurd (hall c hc) (by simp [hbad])
  · rw [if_neg h]
    refine ⟨fun _ c hc => ?_, fun _ => rfl⟩
    by_contra hbad
    exact h (List.any_eq_true.mpr ⟨c, hc, by simpa using hbad⟩)

theorem checkUserinfo_eq_ok {userinfo : Option Text} {s : Text} :
    checkUserinfo userinfo s = .ok () ↔
      ∀ info ∈ userinfo, (∀ c ∈ info, isForbidden c = false) ∧ '\\' ∉ info := by
  cases userinfo with
  | none => simp [checkUserinfo]
  | some info =>
      simp only [checkUserinfo, Result.guard_eq_ok, rejectForbidden_eq_ok]
      by_cases h : '\\' ∈ info
      · simp [h]
      · simp [h]

/-! ## The accepted strings -/

/-- The pieces `parse` cuts a string into, off the `file` branch. -/
structure Pieces where
  rawScheme : Text
  rest : Text
  default : UInt16
  hostport : Text
  bracketed : Bool

/-- `parse` reads the URL `u` off `s` through the pieces `p`. -/
structure Reads (s : Text) (u : Url) (p : Pieces) : Prop where
  marker : Text.splitOnceStr "://".toList s = some (p.rawScheme, p.rest)
  rawScheme_ne : p.rawScheme ≠ []
  scheme : u.scheme = p.rawScheme.toAsciiLowercase
  scheme_ne : u.scheme ≠ "file".toList
  authority_ne : (splitAuthority p.rest).1 ≠ []
  path : u.path = stripFragment (splitAuthority p.rest).2
  default : defaultPort u.scheme = some p.default
  userinfo : splitUserinfo (splitAuthority p.rest).1 = (u.userinfo, p.hostport)
  hostport : splitHostport p.default p.hostport = some (u.host, u.port, p.bracketed)
  host_ne : u.host ≠ []
  port_ne : u.port ≠ 0
  host_ok : ∀ c ∈ u.host, isForbidden c = false
  name_ok : p.bracketed = false → '\\' ∉ u.host ∧ '%' ∉ u.host
  userinfo_ok : ∀ info ∈ u.userinfo, (∀ c ∈ info, isForbidden c = false) ∧ '\\' ∉ info
  path_ok : ∀ c ∈ u.path, isForbidden c = false

/-- The checks after the port, in the source's order. -/
theorem guards_eq_ok {bracketed : Bool} {host path s : Text} {userinfo : Option Text}
    {u v : Url} :
    (do
      rejectForbidden host s
      if !bracketed && (host.contains '\\' || host.contains '%') then
        Except.error (.invalidUrl (.ofText s))
      else do
        checkUserinfo userinfo s
        rejectForbidden path s
        .ok v) = Except.ok u ↔
      (∀ c ∈ host, isForbidden c = false) ∧
      (bracketed = false → '\\' ∉ host ∧ '%' ∉ host) ∧
      (∀ info ∈ userinfo, (∀ c ∈ info, isForbidden c = false) ∧ '\\' ∉ info) ∧
      (∀ c ∈ path, isForbidden c = false) ∧ v = u := by
  rw [Result.guard_eq_ok, rejectForbidden_eq_ok]
  refine and_congr_right fun _ => ?_
  by_cases hbad : (!bracketed && (host.contains '\\' || host.contains '%')) = true
  · rw [if_pos hbad]
    constructor
    · intro h
      cases h
    rintro ⟨hname, _⟩
    simp only [Bool.and_eq_true, Bool.not_eq_true', Bool.or_eq_true,
      List.contains_iff_mem] at hbad
    exact absurd hbad.2 (by simp [hname hbad.1])
  · have hname : bracketed = false → '\\' ∉ host ∧ '%' ∉ host := by
      intro hb
      simpa [hb] using hbad
    rw [if_neg hbad]
    simp only [Result.guard_eq_ok, checkUserinfo_eq_ok, rejectForbidden_eq_ok,
      Except.ok.injEq]
    exact (and_iff_right hname).symm

/-- Off the `file` branch the pieces are all `parse` needs. -/
theorem parse_of_reads {s : Text} {u : Url} {p : Pieces} (h : Reads s u p) :
    parse s = .ok u := by
  have hscheme := h.scheme
  have hfile : ¬ p.rawScheme.toAsciiLowercase = "file".toList := hscheme ▸ h.scheme_ne
  have hdef : defaultPort p.rawScheme.toAsciiLowercase = some p.default :=
    hscheme ▸ h.default
  simp only [parse, h.marker, if_neg h.rawScheme_ne, if_neg hfile,
    if_neg h.authority_ne, hdef, h.userinfo, h.hostport, if_neg h.host_ne,
    if_neg h.port_ne]
  refine guards_eq_ok.mpr ⟨h.host_ok, h.name_ok, h.userinfo_ok, h.path ▸ h.path_ok, ?_⟩
  simp [Url.ext_iff, h.scheme, h.path]

/-- Conversely an accepted string is cut into pieces, or is a `file://` URL. -/
theorem reads_of_parse {s : Text} {u : Url} (h : parse s = .ok u) :
    (∃ p, Reads s u p) ∨
      ∃ rawScheme rest, Text.splitOnceStr "://".toList s = some (rawScheme, rest) ∧
        rawScheme.toAsciiLowercase = "file".toList ∧ parseFile s = .ok u := by
  unfold parse at h
  split at h
  · cases h
  next rawScheme rest hmark =>
  split at h
  · cases h
  next hraw =>
  dsimp only at h
  split at h
  · next hfile => exact .inr ⟨rawScheme, rest, hmark, hfile, h⟩
  next hfile =>
  split at h
  · cases h
  next hauth =>
  split at h
  · cases h
  next default hdef =>
  split at h
  · cases h
  next host port bracketed hhp =>
  split at h
  · cases h
  next hhost =>
  split at h
  · cases h
  next hport =>
  obtain ⟨hok, hname, hinfo, hpath, rfl⟩ := guards_eq_ok.mp h
  exact .inl ⟨⟨rawScheme, rest, default, _, bracketed⟩,
    { marker := hmark, rawScheme_ne := hraw, scheme := rfl, scheme_ne := hfile,
      authority_ne := hauth, path := rfl, default := hdef, userinfo := rfl,
      hostport := hhp, host_ne := hhost, port_ne := hport, host_ok := hok,
      name_ok := hname, userinfo_ok := hinfo, path_ok := hpath }⟩

theorem parseFile_eq_ok {s : Text} {u : Url} :
    parseFile s = .ok u ↔
      ∃ path, s = "file://".toList ++ '/' :: path ∧
        u = ⟨"file".toList, none, [], 0, stripFragment ('/' :: path)⟩ := by
  simp only [parseFile]
  constructor
  · intro h
    split at h
    · next hp =>
        obtain ⟨t, rfl⟩ := List.isPrefixOf_iff_prefix.mp hp.1
        have hhead := hp.2
        rw [List.drop_left] at hhead h
        obtain ⟨path, rfl⟩ : ∃ path, t = '/' :: path := by
          cases t with
          | nil => simp at hhead
          | cons c t => exact ⟨t, by simpa using hhead⟩
        exact ⟨path, rfl, by simpa using h.symm⟩
    · cases h
  · rintro ⟨path, rfl, rfl⟩
    rw [if_pos]
    · rw [List.drop_left]
    · exact ⟨List.isPrefixOf_iff_prefix.mpr (List.prefix_append _ _), by
        rw [List.drop_left]; rfl⟩

/-! ## The pieces of an accepted string -/

/-- `splitAuthority` ends the authority at the first `/`. -/
theorem splitAuthority_spec (rest : Text) :
    '/' ∉ (splitAuthority rest).1 ∧ ∃ t, (splitAuthority rest).2 = '/' :: t ∧
      (rest = (splitAuthority rest).1 ++ '/' :: t ∨ rest = (splitAuthority rest).1) := by
  simp only [splitAuthority]
  cases hcut : Text.splitOnce '/' rest with
  | none => exact ⟨Text.splitOnce_eq_none.mp hcut, [], rfl, .inr rfl⟩
  | some ab =>
      obtain ⟨rfl, hno⟩ := Text.splitOnce_eq_some.mp hcut
      exact ⟨hno, ab.2, rfl, .inl rfl⟩

theorem splitAuthority_append {a t : Text} (ha : '/' ∉ a) :
    splitAuthority (a ++ '/' :: t) = (a, '/' :: t) := by
  have hcut : Text.splitOnce '/' (a ++ '/' :: t) = some (a, t) :=
    Text.splitOnce_eq_some.mpr ⟨rfl, ha⟩
  simp only [splitAuthority, hcut]

theorem beforeFirst_isPrefix (c : Char) (t : Text) : beforeFirst c t <+: t := by
  simp only [beforeFirst]
  split
  · next a b hcut =>
      obtain ⟨rfl, -⟩ := Text.splitOnce_eq_some.mp hcut
      exact List.prefix_append _ _
  · exact List.prefix_refl t

theorem not_mem_beforeFirst (c : Char) (t : Text) : c ∉ beforeFirst c t := by
  simp only [beforeFirst]
  split
  · next a b hcut => exact (Text.splitOnce_eq_some.mp hcut).2
  · next hcut => exact Text.splitOnce_eq_none.mp hcut

theorem beforeFirst_eq_self {c : Char} {t : Text} (h : c ∉ t) : beforeFirst c t = t := by
  simp only [beforeFirst, Text.splitOnce_eq_none.mpr h]

/-- A path keeps its leading `/` when its fragment or query goes. -/
theorem beforeFirst_slash {c : Char} (hc : c ≠ '/') (t : Text) :
    ∃ t', beforeFirst c ('/' :: t) = '/' :: t' := by
  simp only [beforeFirst]
  cases hcut : Text.splitOnce c ('/' :: t) with
  | none => exact ⟨t, rfl⟩
  | some ab =>
      obtain ⟨a, b⟩ := ab
      obtain ⟨heq, -⟩ := Text.splitOnce_eq_some.mp hcut
      cases a with
      | nil => exact absurd (List.cons.inj heq).1.symm hc
      | cons d a =>
          obtain ⟨rfl, -⟩ := List.cons.inj heq
          exact ⟨a, rfl⟩

/-- Userinfo ends at the last `@`. -/
theorem splitUserinfo_spec {authority hostport : Text} {info : Option Text}
    (h : splitUserinfo authority = (info, hostport)) :
    '@' ∉ hostport ∧ authority = userinfoPrefix info ++ hostport := by
  simp only [splitUserinfo] at h
  cases hcut : Text.rsplitOnce '@' authority with
  | none =>
      rw [hcut] at h
      obtain ⟨rfl, rfl⟩ := Prod.mk.inj h
      exact ⟨Text.rsplitOnce_eq_none.mp hcut, rfl⟩
  | some ab =>
      rw [hcut] at h
      obtain ⟨rfl, rfl⟩ := Prod.mk.inj h
      obtain ⟨rfl, hno⟩ := Text.rsplitOnce_eq_some.mp hcut
      exact ⟨hno, by simp [userinfoPrefix]⟩

theorem splitUserinfo_of_not_mem {authority : Text} (h : '@' ∉ authority) :
    splitUserinfo authority = (none, authority) := by
  simp only [splitUserinfo, Text.rsplitOnce_eq_none.mpr h]

theorem splitUserinfo_append (info : Text) {hostport : Text} (h : '@' ∉ hostport) :
    splitUserinfo (info ++ '@' :: hostport) = (some info, hostport) := by
  have hcut : Text.rsplitOnce '@' (info ++ '@' :: hostport) = some (info, hostport) :=
    Text.rsplitOnce_eq_some.mpr ⟨rfl, h⟩
  simp only [splitUserinfo, hcut]

/-- The host, port text and bracketing that `splitHostport` finds. -/
inductive HostportShape (default : UInt16) : Text → Text → UInt16 → Bool → Prop where
  | literal {inner : Text} {portText : Option Text} {port : UInt16}
      (hinner : ']' ∉ inner)
      (hport : portAfterBracket default (portSuffix portText) = some port) :
      HostportShape default ('[' :: (inner ++ [']']) ++ portSuffix portText)
        ('[' :: (inner ++ [']'])) port true
  | name {name p : Text} {port : UInt16} (hopen : (name ++ ':' :: p).head? ≠ some '[')
      (hclose : ']' ∉ name ++ ':' :: p) (hp : ':' ∉ p) (hport : parseU16 p = some port) :
      HostportShape default (name ++ ':' :: p) name port false
  | bare {name : Text} (hopen : name.head? ≠ some '[') (hclose : ']' ∉ name)
      (hcolon : ':' ∉ name) :
      HostportShape default name name default false

theorem portAfterBracket_suffix {default port : UInt16} {after : Text}
    (h : portAfterBracket default after = some port) :
    ∃ portText, after = portSuffix portText := by
  unfold portAfterBracket at h
  split at h
  · exact ⟨none, rfl⟩
  · next p => exact ⟨some p, rfl⟩
  · cases h

theorem splitHostport_literal {default : UInt16} {inner after : Text} (h : ']' ∉ inner) :
    splitHostport default ('[' :: (inner ++ [']']) ++ after) =
      (portAfterBracket default after).map fun p => ('[' :: (inner ++ [']']), p, true) := by
  have hcut : Text.splitOnce ']' ('[' :: (inner ++ [']']) ++ after)
      = some ('[' :: inner, after) :=
    Text.splitOnce_eq_some.mpr ⟨by simp, by simpa using h⟩
  rw [splitHostport, hcut]
  simp

theorem splitHostport_name {default : UInt16} {name p : Text}
    (hopen : (name ++ ':' :: p).head? ≠ some '[') (hclose : ']' ∉ name ++ ':' :: p)
    (hp : ':' ∉ p) :
    splitHostport default (name ++ ':' :: p) =
      (parseU16 p).map fun port => (name, port, false) := by
  simp only [splitHostport, Text.splitOnce_eq_none.mpr hclose, if_neg hopen,
    Text.rsplitOnce_eq_some.mpr ⟨rfl, hp⟩]

theorem splitHostport_bare {default : UInt16} {name : Text}
    (hopen : name.head? ≠ some '[') (hclose : ']' ∉ name) (hcolon : ':' ∉ name) :
    splitHostport default name = some (name, default, false) := by
  simp only [splitHostport, Text.splitOnce_eq_none.mpr hclose, if_neg hopen,
    Text.rsplitOnce_eq_none.mpr hcolon]

theorem splitHostport_eq_some {default port : UInt16} {hostport host : Text} {b : Bool} :
    splitHostport default hostport = some (host, port, b) ↔
      HostportShape default hostport host port b := by
  constructor
  · intro h
    simp only [splitHostport] at h
    cases hclose : Text.splitOnce ']' hostport with
    | some ab =>
        obtain ⟨inner, after⟩ := ab
        obtain ⟨rfl, hno⟩ := Text.splitOnce_eq_some.mp hclose
        simp only [hclose] at h
        split at h
        · next hopen =>
            obtain ⟨port', hport, heq⟩ := Option.map_eq_some_iff.mp h
            simp only [Prod.mk.injEq] at heq
            obtain ⟨rfl, rfl, rfl⟩ := heq
            obtain ⟨portText, rfl⟩ := portAfterBracket_suffix hport
            cases inner with
            | nil => simp at hopen
            | cons c inner =>
                obtain rfl : c = '[' := by simpa using hopen
                have hno' : ']' ∉ inner := fun hc => hno (List.mem_cons_of_mem _ hc)
                have hshape := HostportShape.literal hno' hport
                simpa using hshape
        · cases h
    | none =>
        have hno := Text.splitOnce_eq_none.mp hclose
        simp only [hclose] at h
        split at h
        · cases h
        next hopen =>
        cases hcolon : Text.rsplitOnce ':' hostport with
        | none =>
            simp only [hcolon, Option.some.injEq, Prod.mk.injEq] at h
            obtain ⟨rfl, rfl, rfl⟩ := h
            exact .bare hopen hno (Text.rsplitOnce_eq_none.mp hcolon)
        | some ab =>
            obtain ⟨name, p⟩ := ab
            obtain ⟨rfl, hp⟩ := Text.rsplitOnce_eq_some.mp hcolon
            simp only [hcolon] at h
            obtain ⟨port', hport, heq⟩ := Option.map_eq_some_iff.mp h
            simp only [Prod.mk.injEq] at heq
            obtain ⟨rfl, rfl, rfl⟩ := heq
            exact .name hopen hno hp hport
  · intro h
    cases h with
    | literal hinner hport => rw [splitHostport_literal hinner, hport, Option.map_some]
    | name hopen hclose hp hport => simp [splitHostport_name hopen hclose hp, hport]
    | bare hopen hclose hcolon => exact splitHostport_bare hopen hclose hcolon

/-! ## Schemes -/

/-- Every scheme with a port is written in lower-case letters and digits. -/
theorem scheme_chars {scheme : Text} {port : UInt16} (h : defaultPort scheme = some port) :
    scheme ≠ [] ∧ ∀ c ∈ scheme, c.isAlphanum = true ∧ c.toLower = c := by
  have hall : schemePorts.all (fun e => !e.1.isEmpty && e.1.all fun c =>
      c.isAlphanum && c.toLower == c) = true := by
    decide +kernel
  have hmem : (scheme, port) ∈ schemePorts := by
    obtain ⟨l₁, l₂, heq, -⟩ := List.lookup_eq_some_iff.mp h
    rw [heq]
    simp
  have hscheme := List.all_eq_true.mp hall _ hmem
  simpa only [Bool.and_eq_true, Bool.not_eq_true', List.isEmpty_eq_false_iff, List.all_eq_true,
    beq_iff_eq] using hscheme

theorem toLowercase_scheme {scheme : Text} {port : UInt16}
    (h : defaultPort scheme = some port) : scheme.toAsciiLowercase = scheme := by
  have hmap : scheme.map Char.toLower = scheme.map id :=
    List.map_congr_left fun c hc => ((scheme_chars h).2 c hc).2
  rw [Text.toAsciiLowercase, hmap, List.map_id]

/-- No delimiter hides in a raw scheme: lower-casing leaves it in place. -/
theorem not_mem_rawScheme {raw : Text} {port : UInt16} {d : Char}
    (h : defaultPort raw.toAsciiLowercase = some port) (hd : d.toLower.isAlphanum = false) :
    d ∉ raw := fun hmem => by
  have hlow : d.toLower ∈ raw.toAsciiLowercase := List.mem_map_of_mem hmem
  simp [((scheme_chars h).2 _ hlow).1] at hd

/-! ## Facts about every accepted string -/

section Accepted

variable {s : Text} {u : Url} {p : Pieces}

theorem Reads.text (h : Reads s u p) : s = p.rawScheme ++ ':' :: '/' :: '/' :: p.rest :=
  Base.eq_of_cutSub h.marker

theorem Reads.default_raw (h : Reads s u p) :
    defaultPort p.rawScheme.toAsciiLowercase = some p.default :=
  h.scheme ▸ h.default

/-- The text of the host and port, whatever the host's shape. -/
theorem HostportShape.text {default port : UInt16} {hostport host : Text} {b : Bool}
    (h : HostportShape default hostport host port b) :
    ∃ portText, hostport = host ++ portSuffix portText ∧
      (∀ t ∈ portText, parseU16 t = some port) ∧ (portText = none → port = default) := by
  cases h with
  | @literal inner portText _ hinner hport =>
      refine ⟨portText, rfl, ?_, ?_⟩
      · rintro t ⟨⟩
        exact hport
      · rintro rfl
        simpa [portAfterBracket, portSuffix] using hport.symm
  | @name name t _ hopen hclose ht hport =>
      refine ⟨some t, rfl, ?_, fun he => by cases he⟩
      rintro t' ⟨⟩
      exact hport
  | bare => exact ⟨none, by simp [portSuffix], by simp, fun _ => rfl⟩

/-- A nonempty host is a bracketed literal, or holds no closing bracket and does
not start with an opening one. -/
theorem HostportShape.host {default port : UInt16} {hostport host : Text} {b : Bool}
    (h : HostportShape default hostport host port b) (hne : host ≠ []) :
    (∃ inner, b = true ∧ host = '[' :: (inner ++ [']']) ∧ ']' ∉ inner) ∨
      (b = false ∧ host.head? ≠ some '[' ∧ ']' ∉ host) := by
  cases h with
  | literal hinner hport => exact .inl ⟨_, rfl, rfl, hinner⟩
  | name hopen hclose hp hport =>
      refine .inr ⟨rfl, ?_, fun hc => hclose (List.mem_append_left _ hc)⟩
      rwa [List.head?_append_of_ne_nil _ hne] at hopen
  | bare hopen hclose hcolon => exact .inr ⟨rfl, hopen, hclose⟩

/-- The host holds no `/` and no `@`, and a `?` or `#` only if the authority
`parse` took does. -/
theorem Reads.host_mem (h : Reads s u p) {c : Char} (hc : c ∈ u.host) :
    c ∈ (splitAuthority p.rest).1 ∧ c ≠ '/' ∧ c ≠ '@' := by
  obtain ⟨hat, htext⟩ := splitUserinfo_spec h.userinfo
  obtain ⟨portText, hport, -⟩ := (splitHostport_eq_some.mp h.hostport).text
  have hmem : c ∈ p.hostport := hport ▸ List.mem_append_left _ hc
  have hauth : c ∈ (splitAuthority p.rest).1 := htext ▸ List.mem_append_right _ hmem
  refine ⟨hauth, ?_, fun he => hat (he ▸ hmem)⟩
  exact fun he => (splitAuthority_spec p.rest).1 (he ▸ hauth)

end Accepted

end Rsurl.Url
