/-
# `Rsurl.Cookie.Path` — the query and the path of a cookie

A `Url` keeps path and query in one text, and neither `default_path` nor
`path_match` cuts it.  `PathLaw` says that only the path component counts: what
a line stores does not depend on the query, and a cookie goes where the path
component path-matches.  What breaks it is a `/` behind the `?` on one side,
and on the other a cookie path that ends at the `?` or reaches beyond it.
-/
import Rsurl.Cookie.Scope

namespace Rsurl.Cookies

/-! ## Path-match -/

/-- Path-match of RFC 6265, section 5.1.4, by its three conditions. -/
inductive PathMatches (requestPath cookiePath : Text) : Prop
  | identical (h : requestPath = cookiePath)
  | directory (h : cookiePath <+: requestPath) (hslash : cookiePath.getLast? = some '/')
  | boundary (rest : Text) (h : requestPath = cookiePath ++ '/' :: rest)

/-- The code's test is path-match of the two texts it is given. -/
theorem pathMatch_iff {requestPath cookiePath : Text} :
    pathMatch requestPath cookiePath = true ↔ PathMatches requestPath cookiePath := by
  simp only [pathMatch]
  split
  · next heq => exact ⟨fun _ => .identical heq, fun _ => rfl⟩
  next hne =>
  cases hstrip : Text.stripPrefix cookiePath requestPath with
  | none =>
      have hno : ¬ cookiePath <+: requestPath := by
        rintro ⟨rest, rfl⟩
        rw [Text.stripPrefix_eq_some.mpr rfl] at hstrip
        cases hstrip
      refine ⟨fun h => (Bool.false_ne_true h).elim, fun h => ?_⟩
      cases h with
      | identical h => exact absurd h hne
      | directory h _ => exact absurd h hno
      | boundary rest h => exact absurd ⟨_, h.symm⟩ hno
  | some rest =>
      obtain rfl := Text.stripPrefix_eq_some.mp hstrip
      dsimp only
      by_cases hslash : cookiePath.getLast? = some '/'
      · rw [if_pos hslash]
        exact ⟨fun _ => .directory (List.prefix_append _ _) hslash, fun _ => rfl⟩
      · rw [if_neg hslash, decide_eq_true_eq]
        constructor
        · intro hhead
          obtain ⟨tail, rfl⟩ := List.head?_eq_some_iff.mp hhead
          exact .boundary tail rfl
        · intro h
          cases h with
          | identical h => exact absurd h hne
          | directory _ h => exact absurd h hslash
          | boundary tail h =>
              rw [List.append_cancel_left_eq] at h
              rw [h]
              rfl

/-! ## The two components -/

/-- The path, with the query when there is one. -/
theorem stripQuery_cases (path : Text) :
    ('?' ∉ path ∧ Url.stripQuery path = path) ∨
      ∃ query, path = Url.stripQuery path ++ '?' :: query ∧ '?' ∉ Url.stripQuery path := by
  rw [Url.stripQuery, Url.beforeFirst]
  cases hcut : Text.splitOnce '?' path with
  | none => exact .inl ⟨Text.splitOnce_eq_none.mp hcut, rfl⟩
  | some parts =>
      obtain ⟨hpath, hno⟩ := Text.splitOnce_eq_some.mp hcut
      exact .inr ⟨parts.2, hpath, hno⟩

/-- The URL without its query. -/
def cutQuery (url : Url) : Url := { url with path := Url.stripQuery url.path }

/-! ## Sending -/

/-- A query that does not change what is sent under `cookiePath`: the cookie path is not the
whole path component, unless that ends in `/`, and it does not go on past the `?`. -/
def SendsBlind (path cookiePath : Text) : Prop :=
  '?' ∉ path ∨
    (¬ (cookiePath = Url.stripQuery path ∧ cookiePath.getLast? ≠ some '/') ∧
      ¬ (Url.stripQuery path ++ ['?'] <+: cookiePath ∧ PathMatches path cookiePath))

theorem PathMatches.append {path cookiePath : Text} (h : PathMatches path cookiePath)
    (hne : cookiePath ≠ path ∨ cookiePath.getLast? = some '/') (query : Text) :
    PathMatches (path ++ query) cookiePath := by
  cases h with
  | identical h =>
      subst h
      rcases hne with hne | hslash
      · exact absurd rfl hne
      · exact .directory (List.prefix_append _ _) hslash
  | directory h hslash => exact .directory (h.trans (List.prefix_append _ _)) hslash
  | boundary rest h => exact .boundary (rest ++ query) (by simp [h])

/-- A cookie path within the path component matches it when it matches the longer text. -/
theorem PathMatches.of_append {path query cookiePath : Text}
    (h : PathMatches (path ++ '?' :: query) cookiePath) (hin : ¬ path ++ ['?'] <+: cookiePath) :
    PathMatches path cookiePath := by
  have hwithin : cookiePath <+: path ++ '?' :: query → cookiePath <+: path := by
    intro hp
    rcases List.prefix_or_prefix_of_prefix hp (List.prefix_append path ('?' :: query)) with
      hshort | ⟨tail, rfl⟩
    · exact hshort
    cases tail with
    | nil =>
        exact ⟨[], by rw [List.append_nil, List.append_nil]⟩
    | cons c tail =>
        rw [List.prefix_append_right_inj, List.cons_prefix_cons] at hp
        obtain ⟨rfl, -⟩ := hp
        exact absurd ⟨tail, by simp⟩ hin
  cases h with
  | identical h => exact absurd ⟨query, by simpa using h⟩ hin
  | directory h hslash => exact .directory (hwithin h) hslash
  | boundary rest h =>
      obtain ⟨tail, rfl⟩ := hwithin ⟨_, h.symm⟩
      rw [List.append_assoc, List.append_cancel_left_eq] at h
      cases tail with
      | nil =>
          rw [List.nil_append, List.cons.injEq] at h
          exact absurd h.1 (by decide)
      | cons c tail =>
          rw [List.cons_append, List.cons.injEq] at h
          obtain ⟨rfl, -⟩ := h
          exact .boundary tail rfl

theorem sendsBlind_iff {path cookiePath : Text} :
    (PathMatches path cookiePath ↔ PathMatches (Url.stripQuery path) cookiePath) ↔
      SendsBlind path cookiePath := by
  rw [SendsBlind]
  rcases stripQuery_cases path with ⟨hno, heq⟩ | ⟨query, hpath, hno⟩
  · rw [heq]
    exact ⟨fun _ => .inl hno, fun _ => Iff.rfl⟩
  generalize Url.stripQuery path = p at hpath hno ⊢
  subst hpath
  have hmark : ¬ '?' ∉ p ++ '?' :: query := by simp
  rw [or_iff_right hmark]
  constructor
  · intro h
    constructor
    · rintro ⟨rfl, hslash⟩
      -- the whole path component, and the text goes on
      cases h.mpr (.identical rfl) with
      | identical h => simp at h
      | directory _ h => exact hslash h
      | boundary rest h => simp at h
    · rintro ⟨⟨tail, rfl⟩, hmatch⟩
      have hlonger : ¬ p ++ ['?'] ++ tail <+: p := by
        intro hp
        have hlen := hp.length_le
        simp only [List.length_append, List.length_singleton] at hlen
        omega
      cases h.mp hmatch with
      | identical h => exact hlonger ⟨[], by simpa using h.symm⟩
      | directory h _ => exact hlonger h
      | boundary rest h => exact hlonger ⟨_, h.symm⟩
  · rintro ⟨hwhole, hpast⟩
    constructor
    · intro hmatch
      exact hmatch.of_append fun hin => hpast ⟨hin, hmatch⟩
    · intro hmatch
      refine hmatch.append ?_ _
      by_cases heq : cookiePath = p
      · exact .inr (by_contra fun hslash => hwhole ⟨heq, hslash⟩)
      · exact .inl heq

/-! ## Storing -/

/-- A query that does not change the default path: no `/` behind the `?`, unless the path has no
`/` in front. -/
def StoresBlind (path : Text) : Prop :=
  path.head? ≠ some '/' ∨ ∀ query, path = Url.stripQuery path ++ '?' :: query → '/' ∉ query

theorem defaultPath_of_head_ne {path : Text} (h : path.head? ≠ some '/') :
    defaultPath path = ['/'] := by
  rw [defaultPath, if_pos (.inr h)]

/-- The default path is `/` or the text before the last `/`. -/
theorem defaultPath_append {dir last : Text} (hhead : (dir ++ '/' :: last).head? = some '/')
    (hlast : '/' ∉ last) :
    defaultPath (dir ++ '/' :: last) = if dir = [] then ['/'] else dir := by
  have hsplit : Text.rsplitOnce '/' (dir ++ '/' :: last) = some (dir, last) :=
    Text.rsplitOnce_eq_some.mpr ⟨rfl, hlast⟩
  have hne : ¬ (dir ++ '/' :: last = [] ∨ (dir ++ '/' :: last).head? ≠ some '/') := by
    simp [hhead]
  rw [defaultPath, if_neg hne, hsplit]
  cases dir with
  | nil => rfl
  | cons c dir => rfl

/-- The last `/` of a text that begins with one. -/
theorem exists_lastSlash {path : Text} (h : '/' ∈ path) :
    ∃ dir last, path = dir ++ '/' :: last ∧ '/' ∉ last := by
  cases hsplit : Text.rsplitOnce '/' path with
  | none => exact absurd h (Text.rsplitOnce_eq_none.mp hsplit)
  | some parts => exact ⟨parts.1, parts.2, Text.rsplitOnce_eq_some.mp hsplit⟩

theorem defaultPath_stripQuery_iff {path : Text} :
    defaultPath path = defaultPath (Url.stripQuery path) ↔ StoresBlind path := by
  rcases stripQuery_cases path with ⟨hno, heq⟩ | ⟨query, hpath, hno⟩
  · rw [heq]
    refine ⟨fun _ => .inr fun query hpath => ?_, fun _ => rfl⟩
    rw [heq] at hpath
    exact absurd (hpath ▸ by simp) hno
  rw [StoresBlind]
  generalize Url.stripQuery path = p at hpath hno ⊢
  subst hpath
  by_cases hhead : (p ++ '?' :: query).head? = some '/'
  case neg =>
    refine ⟨fun _ => .inl hhead, fun _ => ?_⟩
    have hp : p.head? ≠ some '/' := by
      intro h
      obtain ⟨tail, rfl⟩ := List.head?_eq_some_iff.mp h
      exact hhead rfl
    rw [defaultPath_of_head_ne hhead, defaultPath_of_head_ne hp]
  have hp : ∃ tail, p = '/' :: tail := by
    cases p with
    | nil =>
        rw [List.nil_append, List.head?_cons, Option.some.injEq] at hhead
        exact absurd hhead (by decide)
    | cons c tail =>
        rw [List.cons_append, List.head?_cons, Option.some.injEq] at hhead
        exact ⟨tail, by rw [hhead]⟩
  have hphead : p.head? = some '/' := by
    obtain ⟨tail, rfl⟩ := hp
    rfl
  have hslash : '/' ∈ p := by
    obtain ⟨tail, rfl⟩ := hp
    exact List.mem_cons_self
  obtain ⟨dir, last, hdir, hlast⟩ := exists_lastSlash hslash
  have hdirq : '?' ∉ (if dir = [] then ['/'] else dir) := by
    split
    · decide
    · intro h
      exact hno (hdir ▸ List.mem_append_left _ h)
  subst hdir
  rw [defaultPath_append hphead hlast]
  by_cases hq : '/' ∈ query
  · -- the last slash is behind the question mark
    obtain ⟨mid, rest, rfl, hrest⟩ := exists_lastSlash hq
    have hcut : dir ++ '/' :: last ++ '?' :: (mid ++ '/' :: rest) =
        (dir ++ '/' :: last ++ '?' :: mid) ++ '/' :: rest := by simp
    rw [hcut] at hhead ⊢
    rw [defaultPath_append hhead hrest, if_neg (by simp)]
    constructor
    · intro h
      exact absurd (h ▸ by simp) hdirq
    · rintro (h | h)
      · exact absurd hhead h
      · exact absurd hq (h _ hcut.symm)
  · have hcut : dir ++ '/' :: last ++ '?' :: query = dir ++ '/' :: (last ++ '?' :: query) := by simp
    have htail : '/' ∉ last ++ '?' :: query := by simp [hlast, hq]
    rw [hcut] at hhead ⊢
    rw [defaultPath_append hhead htail]
    refine ⟨fun _ => .inr fun query' h => ?_, fun _ => rfl⟩
    rw [← hcut, List.append_cancel_left_eq, List.cons.injEq] at h
    exact h.2 ▸ hq

theorem parseSetCookie_congr {line : Text} {url url' : Url} (hhost : url.host = url'.host)
    (hpath : defaultPath url.path = defaultPath url'.path) (now : Nat) :
    parseSetCookie line url now = parseSetCookie line url' now := by
  have hinit : Attrs.init url = Attrs.init url' := by
    simp only [Attrs.init, hhost, hpath]
  simp only [parseSetCookie, hhost, hinit]

/-! ## The law -/

/-- The domain, `Secure` and expiry tests. -/
structure Passes (c : Cookie) (url : Url) (now : Nat) : Prop where
  fresh : c.expired now = false
  secure : c.secure = true → url.isTls = true
  domain : domainMatch url.host c.domain c.hostOnly = true

/-- Name and value can stand in a header. -/
def Printable (c : Cookie) : Prop :=
  hasForbiddenCookieChar c.name = false ∧ hasForbiddenCookieChar c.value = false

/-- Only path components count, for what a response from `origin` stores and for whether `c` is
sent to `request`. -/
structure PathLaw (origin request : Url) (c : Cookie) (now : Nat) : Prop where
  stored : ∀ line time, parseSetCookie line origin time = parseSetCookie line (cutQuery origin) time
  sent : ∀ jar : CookieJar, c ∈ jar.cookies →
    (c ∈ jar.sent request now ↔ PathMatches (Url.stripQuery request.path) c.path)

theorem stored_iff {origin : Url} :
    (∀ line time, parseSetCookie line origin time = parseSetCookie line (cutQuery origin) time) ↔
      StoresBlind origin.path := by
  rw [← defaultPath_stripQuery_iff]
  constructor
  · intro h
    have hplain := h "x=1".toList 0
    have hparse : ∀ url : Url, (parseSetCookie "x=1".toList url 0).map Cookie.path =
        some (defaultPath url.path) := fun url => rfl
    have hmap := congrArg (Option.map Cookie.path) hplain
    rw [hparse, hparse] at hmap
    exact Option.some.inj hmap
  · intro h line time
    have hhost : origin.host = (cutQuery origin).host := rfl
    exact parseSetCookie_congr hhost h time

theorem Passes.mem_sent_iff {c : Cookie} {url : Url} {now : Nat} (h : Passes c url now)
    {jar : CookieJar} (hmem : c ∈ jar.cookies) :
    c ∈ jar.sent url now ↔ PathMatches url.path c.path ∧ Printable c := by
  rw [CookieJar.mem_sent, matchesRequest_iff, pathMatch_iff]
  constructor
  · rintro ⟨-, ⟨-, -, -, hpath⟩, hprint⟩
    exact ⟨hpath, hprint⟩
  · rintro ⟨hpath, hprint⟩
    exact ⟨hmem, ⟨h.fresh, h.secure, h.domain, hpath⟩, hprint⟩

/-- For a cookie that passes the other tests, the law holds exactly when no `/` stands behind the
`?` of the response and the cookie path keeps away from the `?` of the request; a cookie that no
header can carry must not be wanted. -/
theorem pathLaw_iff {origin request : Url} {c : Cookie} {now : Nat} (h : Passes c request now) :
    PathLaw origin request c now ↔
      StoresBlind origin.path ∧
        ((Printable c ∧ SendsBlind request.path c.path) ∨
          (¬ Printable c ∧ ¬ PathMatches (Url.stripQuery request.path) c.path)) := by
  have hsent : (∀ jar : CookieJar, c ∈ jar.cookies →
      (c ∈ jar.sent request now ↔ PathMatches (Url.stripQuery request.path) c.path)) ↔
      (Printable c ∧ SendsBlind request.path c.path) ∨
        (¬ Printable c ∧ ¬ PathMatches (Url.stripQuery request.path) c.path) := by
    rw [← sendsBlind_iff]
    constructor
    · intro hall
      have hone := hall ⟨[c]⟩ List.mem_cons_self
      rw [h.mem_sent_iff List.mem_cons_self] at hone
      tauto
    · intro hcases jar hmem
      rw [h.mem_sent_iff hmem]
      tauto
  constructor
  · rintro ⟨hstored, hall⟩
    exact ⟨stored_iff.mp hstored, hsent.mp hall⟩
  · rintro ⟨hstored, hcases⟩
    exact ⟨stored_iff.mpr hstored, hsent.mpr hcases⟩

/-- A cookie of `/a` on any host-only origin. -/
def samplePathCookie (host : Text) : Cookie where
  name := "x".toList
  value := "1".toList
  domain := host
  path := "/a".toList
  expires := none
  secure := false
  httpOnly := false
  hostOnly := true

/-- A response from `/a/b?q` and a request to `/a/c?r`: neither query counts. -/
theorem pathLaw_iff_sample :
    PathLaw { sampleAddress with path := "/a/b?q".toList }
      { sampleAddress with path := "/a/c?r".toList } (samplePathCookie "127.0.0.1".toList) 0 := by
  have hpass : Passes (samplePathCookie "127.0.0.1".toList)
      { sampleAddress with path := "/a/c?r".toList } 0 := ⟨by decide, by decide, by decide⟩
  refine (pathLaw_iff hpass).mpr ⟨.inr fun query h => ?_, .inl ⟨⟨by decide, by decide⟩, .inr ?_⟩⟩
  · have hquery : query = "q".toList :=
      (List.cons.inj (@List.append_cancel_left _ "/a/b".toList _ _ h)).2.symm
    rw [hquery]
    decide
  · exact ⟨fun h => absurd h.1 (by decide), fun h => absurd h.1 (by decide)⟩

/-- A cookie of `/a` is not sent to `/a?q`. -/
theorem unsent_with_query :
    ¬ PathLaw sampleAddress { sampleAddress with path := "/a?q".toList }
      (samplePathCookie "127.0.0.1".toList) 0 := by
  intro h
  have hsent := (h.sent ⟨[samplePathCookie "127.0.0.1".toList]⟩ List.mem_cons_self).mpr
    (.identical (by decide))
  rw [CookieJar.mem_sent] at hsent
  exact absurd hsent.2.1 (by decide)

end Rsurl.Cookies
