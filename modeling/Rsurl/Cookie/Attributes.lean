/-
# `Rsurl.Cookie.Attributes` — what a `Set-Cookie` line can store

One inversion of the attribute loop: `Sets` is everything one attribute can do,
with the guards of the source.  What every stored cookie has in common is read
off it once (`Stored`).
-/
import Rsurl.Cookie

namespace Rsurl.Cookies

/-! ## One attribute -/

/-- What one attribute does to the settings so far. -/
inductive Sets (requestHost : Text) (a : Attrs) : Attrs → Prop
  | keep : Sets requestHost a a
  | domain (v : Text) (hname : isIpLiteral requestHost = false)
      (hscope : isScopableCookieDomain v.toAsciiLowercase = true)
      (hmatch : domainMatch requestHost v.toAsciiLowercase false = true) :
      Sets requestHost a { a with domain := v.toAsciiLowercase, hostOnly := false }
  | path (v : Text) (habs : v.head? = some '/') : Sets requestHost a { a with path := v }
  | expires (exp : Option Nat) : Sets requestHost a { a with expires := exp }
  | maxAge (age : Option Int) : Sets requestHost a { a with maxAge := age }
  | secure : Sets requestHost a { a with secure := true }
  | httpOnly : Sets requestHost a { a with httpOnly := true }

theorem sets_of_setDomain {requestHost v : Text} {a a' : Attrs}
    (h : a.setDomain requestHost v = some a') : Sets requestHost a a' := by
  simp only [Attrs.setDomain] at h
  split at h
  · exact Option.some.inj h ▸ .keep
  split at h
  · exact Option.some.inj h ▸ .keep
  next hname =>
  split at h
  · cases h
  next hscope =>
  split at h
  · cases h
  next hmatch =>
  rw [← Option.some.inj h]
  exact .domain (stripDot v) (by simpa using hname) (by simpa using hscope) (by simpa using hmatch)

theorem sets_of_apply {requestHost attr : Text} {a a' : Attrs}
    (h : a.apply requestHost attr = some a') : Sets requestHost a a' := by
  simp only [Attrs.apply] at h
  split at h
  · exact Option.some.inj h ▸ .keep
  split at h
  · cases hv : (splitAttr attr.trim).2 with
    | none => exact Option.some.inj (hv ▸ h) ▸ .keep
    | some v => exact sets_of_setDomain (hv ▸ h)
  split at h
  · cases hv : (splitAttr attr.trim).2 with
    | none => exact Option.some.inj (hv ▸ h) ▸ .keep
    | some v =>
        rw [hv] at h
        rw [← Option.some.inj h]
        split
        · next habs => exact .path v habs
        · exact .keep
  split at h
  · cases hv : (splitAttr attr.trim).2 with
    | none => exact Option.some.inj (hv ▸ h) ▸ .keep
    | some v => exact Option.some.inj (hv ▸ h) ▸ .expires _
  split at h
  · cases hv : (splitAttr attr.trim).2 with
    | none => exact Option.some.inj (hv ▸ h) ▸ .keep
    | some v => exact Option.some.inj (hv ▸ h) ▸ .maxAge _
  split at h
  · exact Option.some.inj h ▸ .secure
  split at h
  · exact Option.some.inj h ▸ .httpOnly
  · exact Option.some.inj h ▸ .keep

/-- What every attribute keeps holds after all of them. -/
theorem Attrs.foldlM_invariant {requestHost : Text} {I : Attrs → Prop}
    (hstep : ∀ {a a'}, I a → Sets requestHost a a' → I a') {parts : List Text} {a a' : Attrs}
    (hinit : I a) (h : parts.foldlM (Attrs.apply requestHost) a = some a') : I a' := by
  induction parts generalizing a with
  | nil => exact Option.some.inj h ▸ hinit
  | cons attr parts ih =>
      rw [List.foldlM_cons] at h
      obtain ⟨b, hb, hrest⟩ := Option.bind_eq_some_iff.mp h
      exact ih (hstep hinit (sets_of_apply hb)) hrest

/-! ## The domain -/

/-- `domain` is the host itself, or a domain above a host that is no address. -/
inductive Covers (host : Text) : Text → Bool → Prop
  | exact : Covers host host true
  | above {domain : Text} (hname : isIpLiteral host = false)
      (hlow : domain.toAsciiLowercase = domain)
      (hscope : isScopableCookieDomain domain = true)
      (hmatch : domainMatch host domain false = true) : Covers host domain false

theorem covers_of_sets {host : Text} {a a' : Attrs} (h : Covers host a.domain a.hostOnly)
    (hset : Sets host a a') : Covers host a'.domain a'.hostOnly := by
  cases hset with
  | keep | path | expires | maxAge | secure | httpOnly => exact h
  | domain v hname hscope hmatch => exact .above hname (Text.toAsciiLowercase_idem _) hscope hmatch

theorem Covers.lower {host domain : Text} {hostOnly : Bool}
    (h : Covers host.toAsciiLowercase domain hostOnly) : domain.toAsciiLowercase = domain := by
  cases h with
  | exact => exact Text.toAsciiLowercase_idem host
  | above _ hlow _ _ => exact hlow

theorem Covers.scopable {host domain : Text} {hostOnly : Bool} (h : Covers host domain hostOnly)
    (hhost : hostOnly = false) : isScopableCookieDomain domain = true := by
  cases h with
  | exact => cases hhost
  | above _ _ hscope _ => exact hscope

theorem domainMatch_iff {host domain : Text} :
    domainMatch host domain false = true ↔
      host.toAsciiLowercase = domain.toAsciiLowercase ∨
        '.' :: domain.toAsciiLowercase <:+ host.toAsciiLowercase := by
  simp only [domainMatch, Bool.false_eq_true, if_false]
  split
  · next h => simp [h]
  · next h => simp [h, List.isSuffixOf_iff_suffix]

theorem domainMatch_hostOnly_iff {host domain : Text} :
    domainMatch host domain true = true ↔ host.toAsciiLowercase = domain.toAsciiLowercase := by
  simp [domainMatch]

/-! ## The stored cookie -/

/-- What the cookie read off a `Set-Cookie` line from `url` satisfies. -/
structure Stored (url : Url) (c : Cookie) : Prop where
  name_ne : c.name ≠ []
  name_ok : hasForbiddenCookieChar c.name = false
  value_ok : hasForbiddenCookieChar c.value = false
  domain : Covers url.host.toAsciiLowercase c.domain c.hostOnly

theorem parseNameValue_eq_some {nv name value : Text} (h : parseNameValue nv = some (name, value)) :
    name ≠ [] ∧ hasForbiddenCookieChar name = false ∧ hasForbiddenCookieChar value = false := by
  obtain ⟨parts, -, h⟩ := Option.bind_eq_some_iff.mp h
  dsimp only at h
  split at h
  · cases h
  next hne =>
  split at h
  · cases h
  next hok =>
  obtain ⟨rfl, rfl⟩ := Prod.mk.inj (Option.some.inj h)
  simp only [Bool.or_eq_true, not_or, Bool.not_eq_true] at hok
  exact ⟨hne, hok.1, hok.2⟩

/-- A line is a name and a value, then attributes. -/
theorem parseSetCookie_eq_some {line : Text} {url : Url} {now : Nat} {c : Cookie}
    (h : parseSetCookie line url now = some c) :
    ∃ nv parts a, line.split ';' = nv :: parts ∧ parseNameValue nv = some (c.name, c.value) ∧
      parts.foldlM (Attrs.apply url.host.toAsciiLowercase) (Attrs.init url) = some a ∧
      c = ⟨c.name, c.value, a.domain, a.path, a.expiry now, a.secure, a.httpOnly, a.hostOnly⟩ := by
  simp only [parseSetCookie] at h
  split at h
  · cases h
  next nv parts hsplit =>
  obtain ⟨pair, hnv, h⟩ := Option.bind_eq_some_iff.mp h
  obtain ⟨a, ha, h⟩ := Option.bind_eq_some_iff.mp h
  obtain rfl := Option.some.inj h
  exact ⟨nv, parts, a, hsplit, hnv, ha, rfl⟩

theorem stored_of_parse {line : Text} {url : Url} {now : Nat} {c : Cookie}
    (h : parseSetCookie line url now = some c) : Stored url c := by
  obtain ⟨nv, parts, a, -, hnv, ha, hc⟩ := parseSetCookie_eq_some h
  obtain ⟨hne, hname, hvalue⟩ := parseNameValue_eq_some hnv
  refine ⟨hne, hname, hvalue, ?_⟩
  rw [hc]
  exact Attrs.foldlM_invariant
    (I := fun a => Covers url.host.toAsciiLowercase a.domain a.hostOnly) covers_of_sets .exact ha

end Rsurl.Cookies
