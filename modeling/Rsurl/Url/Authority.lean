/-
# `Rsurl.Url.Authority` — the authority `parse` reads against RFC 3986

`parse` ends the authority at the first `/` only.  RFC 3986 ends it at the
first of `/`, `?` and `#`; where one of the other two comes first, the text
behind it is read as part of the userinfo or the host.  And `parse` takes
authorities that RFC 3986 has no reading for: a second `@`, a colon in a name,
a sign in front of the port.  On the other strings the two agree.
-/
import Rsurl.Base.Uri
import Rsurl.Url.Parse

namespace Rsurl.Url

open Base.Uri (authority? authorityOf renderAuthority userinfoPrefix portSuffix
  IsAuthority IsHost isDelimiter endsAuthority)

/-! ## The law -/

/-- The port that port text stands for (RFC 3986 §3.2.3): absent or empty text
leaves the scheme's default. -/
def rfcPort (default : UInt16) : Option Text → Nat
  | none => default.toNat
  | some [] => default.toNat
  | some (c :: p) => Nat.ofDigitChars 10 (c :: p) 0

/-- `u` is what RFC 3986 makes of the authority of `s`: `u`'s pieces are a reading of it, and
the only one, and the host holds no delimiter. -/
structure AuthorityLaw (s : Text) (u : Url) (a : Text) (portText : Option Text) : Prop where
  authority : authority? s = some a
  reading : IsAuthority a u.userinfo u.host portText
  port : u.port.toNat = rfcPort ((defaultPort u.scheme).getD 0) portText
  host_plain : ∀ c ∈ u.host, c ∉ ['/', '?', '#', '@']
  only : ∀ {info host port}, IsAuthority a info host port →
    u.userinfo = info ∧ u.host = host ∧
      u.port.toNat = rfcPort ((defaultPort u.scheme).getD 0) port

/-- A `?` or `#` stands between `://` and the first `/` after it. -/
def queryBeforeSlash (s : Text) : Bool :=
  match Text.splitOnceStr "://".toList s with
  | some (_, rest) => (rest.takeWhile (· != '/')).any fun c => c == '?' || c == '#'
  | none => false

/-- RFC 3986 has a reading for the authority of `s`. -/
def HasReading (s : Text) : Prop :=
  ∃ a info host port, authority? s = some a ∧ IsAuthority a info host port

/-! ## The authority of an accepted string -/

section Accepted

variable {s : Text} {u : Url} {p : Pieces}

/-- The scheme of an accepted string holds no delimiter, so the generic syntax
finds its authority where `parse` does: after the first `://`. -/
theorem Reads.authority? (h : Reads s u p) : authority? s = some (authorityOf p.rest) := by
  have hno : ∀ d : Char, d.toLower.isAlphanum = false → d ∉ p.rawScheme :=
    fun d hd => not_mem_rawScheme h.default_raw hd
  rw [h.text]
  refine Base.Uri.authority?_eq h.rawScheme_ne fun c hc => ⟨?_, ?_⟩
  · rintro rfl
    exact hno ':' (by decide) hc
  · simp only [endsAuthority, Bool.or_eq_false_iff, beq_eq_false_iff_ne]
    refine ⟨⟨?_, ?_⟩, ?_⟩ <;> rintro rfl
    · exact hno '/' (by decide) hc
    · exact hno '?' (by decide) hc
    · exact hno '#' (by decide) hc

theorem takeWhile_eq_splitAuthority (rest : Text) :
    rest.takeWhile (· != '/') = (splitAuthority rest).1 := by
  obtain ⟨hno, t, -, hrest⟩ := splitAuthority_spec rest
  have hall : ∀ c ∈ (splitAuthority rest).1, (c != '/') = true := by
    intro c hc
    have hne : c ≠ '/' := fun he => hno (he ▸ hc)
    simpa using hne
  rcases hrest with hrest | hrest
  · conv_lhs => rw [hrest]
    rw [List.takeWhile_append_of_pos hall]
    simp
  · conv_lhs => rw [hrest]
    exact List.takeWhile_eq_self_iff.mpr hall

theorem Reads.queryBeforeSlash (h : Reads s u p) :
    queryBeforeSlash s = false ↔ '?' ∉ (splitAuthority p.rest).1 ∧
      '#' ∉ (splitAuthority p.rest).1 := by
  simp only [Url.queryBeforeSlash, h.marker, takeWhile_eq_splitAuthority]
  rw [Bool.eq_false_iff, ne_eq, List.any_eq_true]
  constructor
  · intro hany
    exact ⟨fun hq => hany ⟨'?', hq, by decide⟩, fun hh => hany ⟨'#', hh, by decide⟩⟩
  · rintro ⟨hq, hh⟩ ⟨c, hc, hmark⟩
    simp only [Bool.or_eq_true, beq_iff_eq] at hmark
    rcases hmark with rfl | rfl
    · exact hq hc
    · exact hh hc

/-- Without a `?` or `#` in it, the text up to the first `/` is the authority. -/
theorem authorityOf_eq_splitAuthority {rest : Text} (hq : '?' ∉ (splitAuthority rest).1)
    (hh : '#' ∉ (splitAuthority rest).1) : authorityOf rest = (splitAuthority rest).1 := by
  obtain ⟨hno, t, -, hrest⟩ := splitAuthority_spec rest
  have hplain : ∀ c ∈ (splitAuthority rest).1, endsAuthority c = false := by
    intro c hc
    simp only [endsAuthority, Bool.or_eq_false_iff, beq_eq_false_iff_ne]
    exact ⟨⟨fun he => hno (he ▸ hc), fun he => hq (he ▸ hc)⟩, fun he => hh (he ▸ hc)⟩
  rcases hrest with hrest | hrest
  · conv_lhs => rw [hrest]
    exact Base.Uri.authorityOf_append hplain (by simp [endsAuthority])
  · conv_lhs => rw [hrest, ← List.append_nil (splitAuthority rest).1]
    exact Base.Uri.authorityOf_append hplain (by simp)

/-- A character of an authority is userinfo, host, port, or a delimiter between
them. -/
theorem mem_renderAuthority {info portText : Option Text} {host : Text} {d : Char}
    (hd : d ≠ '@' ∧ d ≠ ':') (h : d ∈ renderAuthority info host portText) :
    (∃ i, info = some i ∧ d ∈ i) ∨ d ∈ host ∨ ∃ t, portText = some t ∧ d ∈ t := by
  rcases List.mem_append.mp h with h | h
  · cases info with
    | none => simp [userinfoPrefix] at h
    | some i => exact .inl ⟨i, rfl, by simpa [userinfoPrefix, hd.1] using h⟩
  · rcases List.mem_append.mp h with h | h
    · exact .inr (.inl h)
    · cases portText with
      | none => simp [portSuffix] at h
      | some t => exact .inr (.inr ⟨t, rfl, by simpa [portSuffix, hd.2] using h⟩)

/-- The pieces `parse` returns rebuild the text it took for the authority. -/
theorem Reads.rebuild (h : Reads s u p) :
    ∃ portText, (splitAuthority p.rest).1 = renderAuthority u.userinfo u.host portText ∧
      (∀ t ∈ portText, parseU16 t = some u.port) ∧
      (portText = none → defaultPort u.scheme = some u.port) := by
  obtain ⟨portText, hport, hparse, hdefault⟩ :=
    (splitHostport_eq_some.mp h.hostport).text
  refine ⟨portText, ?_, hparse, fun hn => by rw [h.default, hdefault hn]⟩
  rw [renderAuthority, ← hport]
  exact (splitUserinfo_spec h.userinfo).2

/-! ## Readings of the authority -/

theorem portSuffix_not_mem {portText : Option Text} {d : Char}
    (hp : ∀ t ∈ portText, ∀ c ∈ t, c.isDigit = true) (hd : d.isDigit = false)
    (hc : d ≠ ':') : d ∉ portSuffix portText := by
  cases portText with
  | none => simp [portSuffix]
  | some t =>
      simp only [portSuffix, List.mem_cons, not_or]
      exact ⟨hc, Base.Uri.isDigit_not_delimiter (hp t rfl) hd⟩

/-- A reading splits at its own `@`: neither host nor port holds one. -/
theorem splitUserinfo_reading {a host : Text} {info portText : Option Text}
    (h : IsAuthority a info host portText) :
    splitUserinfo a = (info, host ++ portSuffix portText) := by
  have hat : '@' ∉ host ++ portSuffix portText := by
    simp only [List.mem_append, not_or]
    exact ⟨h.host_ok.not_at, portSuffix_not_mem h.port_ok (by decide) (by decide)⟩
  rw [h.render, renderAuthority]
  cases info with
  | none => exact splitUserinfo_of_not_mem hat
  | some i => simpa [userinfoPrefix] using splitUserinfo_append i hat

theorem not_delimiter {d : Char} {l : Text} (h : ∀ c ∈ l, isDelimiter c = false)
    (hd : isDelimiter d = true) : d ∉ l :=
  fun hmem => by simp [h d hmem] at hd

theorem rfcPort_of_parse {default port : UInt16} {t : Text}
    (hd : ∀ c ∈ t, c.isDigit = true) (h : parseU16 t = some port) :
    port.toNat = rfcPort default (some t) := by
  obtain ⟨hne, hval⟩ := parseU16_digits hd h
  cases t with
  | nil => exact absurd rfl hne
  | cons c t => exact hval

/-- `splitHostport` finds the host and port of every reading it accepts. -/
theorem splitHostport_reading {default port : UInt16} {host host' : Text} {b : Bool}
    {portText : Option Text} (hhost : IsHost host)
    (hport : ∀ t ∈ portText, ∀ c ∈ t, c.isDigit = true)
    (h : splitHostport default (host ++ portSuffix portText) = some (host', port, b)) :
    host' = host ∧ port.toNat = rfcPort default portText := by
  have hdigits : ∀ t ∈ portText, ':' ∉ t := fun t ht =>
    Base.Uri.isDigit_not_delimiter (hport t ht) (by decide)
  cases hhost with
  | @literal inner hinner =>
      rw [splitHostport_literal (not_delimiter (Base.Uri.literal_plain hinner) (by decide))] at h
      obtain ⟨port', hafter, heq⟩ := Option.map_eq_some_iff.mp h
      simp only [Prod.mk.injEq] at heq
      obtain ⟨rfl, rfl, rfl⟩ := heq
      refine ⟨rfl, ?_⟩
      cases portText with
      | none =>
          simp only [portSuffix, portAfterBracket, Option.some.injEq] at hafter
          simp [rfcPort, hafter]
      | some t => exact rfcPort_of_parse (hport t rfl) hafter
  | name hregular =>
      have hname := Base.Uri.isRegName_plain hregular
      have hcolon := Base.Uri.isRegName_no_colon hregular
      have hopen : (host ++ portSuffix portText).head? ≠ some '[' := fun he =>
        absurd (List.mem_of_head? he) <| by
          simp only [List.mem_append, not_or]
          exact ⟨not_delimiter hname (by decide),
            portSuffix_not_mem hport (by decide) (by decide)⟩
      have hclose : ']' ∉ host ++ portSuffix portText := by
        simp only [List.mem_append, not_or]
        exact ⟨not_delimiter hname (by decide),
          portSuffix_not_mem hport (by decide) (by decide)⟩
      cases portText with
      | none =>
          simp only [portSuffix, List.append_nil] at h hopen hclose
          rw [splitHostport_bare hopen hclose hcolon] at h
          simp only [Option.some.injEq, Prod.mk.injEq] at h
          obtain ⟨rfl, rfl, -⟩ := h
          exact ⟨rfl, rfl⟩
      | some t =>
          simp only [portSuffix] at h hopen hclose
          rw [splitHostport_name hopen hclose (hdigits t rfl)] at h
          obtain ⟨port', hparse, heq⟩ := Option.map_eq_some_iff.mp h
          simp only [Prod.mk.injEq] at heq
          obtain ⟨rfl, rfl, -⟩ := heq
          exact ⟨rfl, rfcPort_of_parse (hport t rfl) hparse⟩

/-- Every reading of the authority `parse` took is the one it returned. -/
theorem Reads.reading (h : Reads s u p) {info portText : Option Text} {host : Text}
    (ha : IsAuthority (splitAuthority p.rest).1 info host portText) :
    u.userinfo = info ∧ u.host = host ∧
      u.port.toNat = rfcPort ((defaultPort u.scheme).getD 0) portText := by
  have hsplit := h.userinfo
  rw [splitUserinfo_reading ha] at hsplit
  obtain ⟨rfl, hhostport⟩ := Prod.mk.inj hsplit
  have hhp := h.hostport
  rw [← hhostport] at hhp
  obtain ⟨hhost, hport⟩ := splitHostport_reading ha.host_ok ha.port_ok hhp
  exact ⟨rfl, hhost, by simpa [h.default] using hport⟩

end Accepted

/-! ## When `parse` follows the generic syntax -/

/-- What `parse` returns has no `?` and no `#` in it if it is a reading of the authority. -/
theorem Reads.not_mem_of_reading {s : Text} {u : Url} {p : Pieces} (hr : Reads s u p) {a : Text}
    {portText : Option Text} (law : AuthorityLaw s u a portText) {d : Char}
    (hd : d = '?' ∨ d = '#') : d ∉ (splitAuthority p.rest).1 := by
  obtain ⟨written, hrebuild, hparse, -⟩ := hr.rebuild
  have ha : a = authorityOf p.rest := by simpa [hr.authority?] using law.authority.symm
  intro hmem
  rw [hrebuild] at hmem
  have hsep : d ≠ '@' ∧ d ≠ ':' := by
    rcases hd with rfl | rfl <;> decide
  rcases mem_renderAuthority hsep hmem with ⟨i, hi, hinfo⟩ | hhost | ⟨t, ht, htext⟩
  · -- the userinfo is part of the authority, which ends before `d`
    have hda : d ∈ a := by
      rw [law.reading.render, hi]
      simp [renderAuthority, userinfoPrefix, hinfo]
    have hends := Base.Uri.not_mem_authorityOf (ha ▸ hda)
    rcases hd with rfl | rfl <;> simp [endsAuthority] at hends
  · have hplain := law.host_plain d hhost
    rcases hd with rfl | rfl <;> simp at hplain
  · have hdigit := mem_of_parseU16 (hparse t ht) htext
    rcases hd with rfl | rfl <;> exact absurd hdigit (by decide)

/-- For every accepted string off the `file` branch, the URL is the one RFC 3986 names exactly
when no `?` or `#` stands before the first `/` and RFC 3986 has a reading for the authority. -/
theorem authorityLaw_iff {s : Text} {u : Url} (h : parse s = .ok u)
    (hfile : u.scheme ≠ "file".toList) :
    (∃ a portText, AuthorityLaw s u a portText) ↔ queryBeforeSlash s = false ∧ HasReading s := by
  obtain ⟨p, hr⟩ | ⟨raw, rest, -, -, hf⟩ := reads_of_parse h
  · rw [hr.queryBeforeSlash]
    constructor
    · rintro ⟨a, portText, law⟩
      exact ⟨⟨hr.not_mem_of_reading law (.inl rfl), hr.not_mem_of_reading law (.inr rfl)⟩,
        a, _, _, _, law.authority, law.reading⟩
    · rintro ⟨⟨hq, hh⟩, a, info, host, portText, hauthority, hreading⟩
      obtain rfl : a = (splitAuthority p.rest).1 := by
        rw [hr.authority?, authorityOf_eq_splitAuthority hq hh] at hauthority
        exact (Option.some.inj hauthority).symm
      obtain ⟨hinfo, hhost, hport⟩ := hr.reading hreading
      refine ⟨(splitAuthority p.rest).1, portText, ?_⟩
      exact {
        authority := hauthority
        reading := hinfo ▸ hhost ▸ hreading
        port := hport
        host_plain := fun c hc => by
          obtain ⟨hmem, hslash, hat⟩ := hr.host_mem hc
          simp only [List.mem_cons, List.not_mem_nil, or_false, not_or]
          exact ⟨hslash, fun he => hq (he ▸ hmem), fun he => hh (he ▸ hmem), hat⟩
        only := fun ha => hr.reading ha }
  · obtain ⟨path, -, rfl⟩ := parseFile_eq_ok.mp hf
    exact absurd rfl hfile

/-- A host with a colon in it, which is no host of RFC 3986. -/
example : (parse "http://a:8080:80/".toList).toOption.map Url.host = some "a:8080".toList := by
  decide

theorem isIpv6_loopback : Base.Uri.IsIpv6 "::1".toList :=
  @Base.Uri.IsIpv6.elidedLast [] ['1'] (by decide) (by decide) (by decide)

/-- The law holds of an ordinary URL with every part present. -/
theorem authorityLaw_of_full_url :
    let s := "https://me:p%77@[::1]:8443/a?b=/c#d".toList
    ∃ u, parse s = .ok u ∧ ∃ a portText, AuthorityLaw s u a portText := by
  have hreading : IsAuthority "me:p%77@[::1]:8443".toList (some "me:p%77".toList) "[::1]".toList
      (some "8443".toList) := by
    refine ⟨by decide, by decide, .literal (.inl isIpv6_loopback), ?_⟩
    rintro port ⟨⟩
    exact List.all_eq_true.mp (by decide : "8443".toList.all Char.isDigit = true)
  exact ⟨⟨"https".toList, some "me:p%77".toList, "[::1]".toList, 8443, "/a?b=/c".toList⟩,
    by decide, (authorityLaw_iff (by decide) (by decide)).mpr
      ⟨by decide, _, _, _, _, by decide, hreading⟩⟩

/-- The text before a query mark becomes userinfo and the query's `@` decides the
host: RFC 3986 names `good.example`, the URL names `evil.example`. -/
theorem authorityLaw_fails_at_query :
    let s := "http://good.example?@evil.example/".toList
    ∃ u, parse s = .ok u ∧ u.scheme ≠ "file".toList ∧
      authority? s = some "good.example".toList ∧ HasReading s ∧
      u.host = "evil.example".toList ∧ ¬ ∃ a portText, AuthorityLaw s u a portText := by
  have hauthority : authority? "http://good.example?@evil.example/".toList =
      some "good.example".toList := by decide
  have hreading : IsAuthority "good.example".toList none "good.example".toList none :=
    ⟨by decide, by decide, .name (by decide), by decide⟩
  refine ⟨⟨"http".toList, some "good.example?".toList, "evil.example".toList, 80,
    "/".toList⟩, by decide, by decide, hauthority, ⟨_, _, _, _, hauthority, hreading⟩, rfl, ?_⟩
  rintro ⟨a, portText, law⟩
  obtain rfl := Option.some.inj (hauthority.symm.trans law.authority)
  exact absurd (law.only hreading).2.1 (by decide)

end Rsurl.Url
