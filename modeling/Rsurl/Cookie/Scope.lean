/-
# `Rsurl.Cookie.Scope` — which hosts a cookie is sent to

The law of scoping over whole histories of a jar.  A stored domain is the host
of the response or a domain above it, whatever door the other cookies came in
by; a `Secure` cookie travels over TLS only.  The domain test at send time knows
no addresses: the suffix rule is applied to an IP literal as it is to a name, so
the law holds up to the cookies whose domain happens to be a suffix of one.
-/
import Rsurl.Cookie.Attributes
import Rsurl.Cookie.Jar

namespace Rsurl.Cookies

/-- The domain is above the host: a proper suffix of its labels, up to case. -/
def isParentOf (domain host : Text) : Prop :=
  '.' :: domain.toAsciiLowercase <:+ host.toAsciiLowercase

/-- The cookie may go to the URL. -/
structure Scoped (c : Cookie) (url : Url) : Prop where
  host : url.host.eqIgnoreAsciiCase c.domain = true ∨
    (c.hostOnly = false ∧ isIpLiteral url.host = false ∧ isParentOf c.domain url.host)
  secure : c.secure = true → url.isTls = true

/-- A history and a request: what is sent is in scope, and what each response stored is for its
host or a domain above it. -/
structure ScopeLaw (ops : List Op) (url : Url) (now : Nat) : Prop where
  sent : ∀ c ∈ (runOps ops).sent url now, Scoped c url
  stored : ∀ origin line time, .setCookie origin line time ∈ ops →
    ∀ c, parseSetCookie line origin time = some c →
      origin.host.eqIgnoreAsciiCase c.domain = true ∨ isParentOf c.domain origin.host

/-! ## Leaving the jar -/

theorem matchesRequest_iff {c : Cookie} {url : Url} {now : Nat} :
    matchesRequest c url now = true ↔
      c.expired now = false ∧ (c.secure = true → url.isTls = true) ∧
        domainMatch url.host c.domain c.hostOnly = true ∧ pathMatch url.path c.path = true := by
  simp only [matchesRequest]
  cases c.expired now <;> cases c.secure <;> cases url.isTls <;>
    cases domainMatch url.host c.domain c.hostOnly <;> cases pathMatch url.path c.path <;> simp

theorem CookieJar.mem_sent {jar : CookieJar} {url : Url} {now : Nat} {c : Cookie} :
    c ∈ jar.sent url now ↔
      c ∈ jar.cookies ∧ matchesRequest c url now = true ∧
        hasForbiddenCookieChar c.name = false ∧ hasForbiddenCookieChar c.value = false := by
  simp only [CookieJar.sent, List.mem_mergeSort, List.mem_filter, Bool.and_eq_true,
    Bool.not_eq_true']
  tauto

/-- What the tests apart from the domain say. -/
structure Offered (c : Cookie) (url : Url) (now : Nat) : Prop where
  fresh : c.expired now = false
  secure : c.secure = true → url.isTls = true
  path : pathMatch url.path c.path = true
  name_ok : hasForbiddenCookieChar c.name = false
  value_ok : hasForbiddenCookieChar c.value = false

theorem CookieJar.mem_sent_iff_offered {jar : CookieJar} {url : Url} {now : Nat} {c : Cookie} :
    c ∈ jar.sent url now ↔
      c ∈ jar.cookies ∧ Offered c url now ∧ domainMatch url.host c.domain c.hostOnly = true := by
  rw [CookieJar.mem_sent, matchesRequest_iff]
  constructor
  · rintro ⟨hmem, ⟨hfresh, hsec, hdom, hpath⟩, hname, hvalue⟩
    exact ⟨hmem, ⟨hfresh, hsec, hpath, hname, hvalue⟩, hdom⟩
  · rintro ⟨hmem, ⟨hfresh, hsec, hpath, hname, hvalue⟩, hdom⟩
    exact ⟨hmem, ⟨hfresh, hsec, hdom, hpath⟩, hname, hvalue⟩

theorem eqIgnoreAsciiCase_iff {s t : Text} :
    s.eqIgnoreAsciiCase t = true ↔ s.toAsciiLowercase = t.toAsciiLowercase := by
  simp [Text.eqIgnoreAsciiCase]

/-- The domain test is the host rule without its exception for addresses. -/
theorem domainMatch_eq_true {host domain : Text} {hostOnly : Bool} :
    domainMatch host domain hostOnly = true ↔
      host.eqIgnoreAsciiCase domain = true ∨ (hostOnly = false ∧ isParentOf domain host) := by
  rw [eqIgnoreAsciiCase_iff]
  cases hostOnly with
  | true => simp [domainMatch_hostOnly_iff]
  | false => simp [domainMatch_iff, isParentOf]

/-! ## Entering the jar -/

theorem Covers.host_or_parent {host domain : Text} {hostOnly : Bool}
    (h : Covers host.toAsciiLowercase domain hostOnly) :
    host.eqIgnoreAsciiCase domain = true ∨ isParentOf domain host := by
  cases h with
  | exact =>
      left
      rw [eqIgnoreAsciiCase_iff, Text.toAsciiLowercase_idem]
  | above _ _ _ hmatch =>
      rw [domainMatch_eq_true, Text.eqIgnoreAsciiCase_lower, isParentOf,
        Text.toAsciiLowercase_idem] at hmatch
      exact hmatch.imp_right And.right

/-! ## The law -/

/-- The law holds of a history and a request exactly when the host is no address, or no cookie
that would be sent has a domain that is a proper suffix of it. -/
theorem scopeLaw_iff (ops : List Op) (url : Url) (now : Nat) :
    ScopeLaw ops url now ↔
      isIpLiteral url.host = false ∨
        ∀ c ∈ (runOps ops).cookies, c.hostOnly = false → Offered c url now →
          url.host.eqIgnoreAsciiCase c.domain = false → ¬ isParentOf c.domain url.host := by
  have hstored : ∀ origin line time, Op.setCookie origin line time ∈ ops →
      ∀ c, parseSetCookie line origin time = some c →
        origin.host.eqIgnoreAsciiCase c.domain = true ∨ isParentOf c.domain origin.host :=
    fun origin line time _ c hparse => (stored_of_parse hparse).domain.host_or_parent
  constructor
  · intro h
    by_cases hip : isIpLiteral url.host = false
    · exact .inl hip
    right
    intro c hmem hhost hoffer hne hparent
    have hsent : c ∈ (runOps ops).sent url now := by
      rw [CookieJar.mem_sent_iff_offered, domainMatch_eq_true]
      exact ⟨hmem, hoffer, .inr ⟨hhost, hparent⟩⟩
    rcases (h.sent c hsent).host with heq | ⟨-, hname, -⟩
    · rw [heq] at hne
      cases hne
    · exact hip hname
  · intro h
    refine ⟨fun c hsent => ?_, hstored⟩
    rw [CookieJar.mem_sent_iff_offered, domainMatch_eq_true] at hsent
    obtain ⟨hmem, hoffer, heq | ⟨hhost, hparent⟩⟩ := hsent
    · exact ⟨.inl heq, hoffer.secure⟩
    refine ⟨?_, hoffer.secure⟩
    by_cases heq : url.host.eqIgnoreAsciiCase c.domain = true
    · exact .inl heq
    rcases h with hip | hno
    · exact .inr ⟨hhost, hip, hparent⟩
    · exact absurd hparent (hno c hmem hhost hoffer (by simpa using heq))

/-- A host whose last labels are those of an address. -/
def sampleOrigin : Url where
  scheme := "http".toList
  userinfo := none
  host := "a.0.0.1".toList
  port := 80
  path := ['/']

/-- The loopback address. -/
def sampleAddress : Url := { sampleOrigin with host := "127.0.0.1".toList }

/-- What `a.0.0.1` stores for the suffix it shares with it. -/
def sampleSuffixCookie : Cookie where
  name := "x".toList
  value := "1".toList
  domain := "0.0.1".toList
  path := ['/']
  expires := none
  secure := false
  httpOnly := false
  hostOnly := false

/-- A cookie of `a.0.0.1` goes to `127.0.0.1`. -/
theorem sent_to_address :
    ¬ ScopeLaw [.setCookie sampleOrigin "x=1; Domain=0.0.1".toList 0] sampleAddress 0 := by
  intro h
  have hjar : (runOps [.setCookie sampleOrigin "x=1; Domain=0.0.1".toList 0]).cookies =
      [sampleSuffixCookie] := by
    decide +kernel
  have hsent : sampleSuffixCookie ∈
      (runOps [.setCookie sampleOrigin "x=1; Domain=0.0.1".toList 0]).sent sampleAddress 0 := by
    rw [CookieJar.mem_sent, hjar]
    refine ⟨List.mem_singleton.mpr rfl, ?_⟩
    decide +kernel
  rcases (h.sent _ hsent).host with heq | ⟨-, hname, -⟩
  · exact absurd heq (by decide +kernel)
  · exact absurd hname (by decide +kernel)

end Rsurl.Cookies
