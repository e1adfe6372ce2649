/-
# `Rsurl.Cookie.Netscape` — saving a jar and loading it again

The lines of a saved file are the lines that were written; each record is
parsed back on its own.  What a record needs to be read as the cookie it was
written for is `Storable`: an expiry that is an `i64`, and a domain that the
first column can carry.  The round trip of a jar is that of its records.
-/
import Rsurl.Cookie.Attributes
import Rsurl.Cookie.Jar

namespace Rsurl.Cookies

/-! ## Lines -/

/-- A file of lines that end in a newline is read as these lines. -/
theorem lines_flatMap {ls : List Text} (hlf : ∀ l ∈ ls, '\n' ∉ l) (hcr : ∀ l ∈ ls, '\r' ∉ l) :
    lines (ls.flatMap fun l => Text.utf8 (l ++ ['\n'])) = ls.map Text.utf8 := by
  have hsplit : (ls.flatMap fun l => Text.utf8 (l ++ ['\n'])).splitOn 10 =
      ls.map Text.utf8 ++ [[]] := by
    induction ls with
    | nil => rfl
    | cons l ls ih =>
        have hmem : (10 : UInt8) ∉ Text.utf8 l :=
          Text.not_mem_utf8 (c := '\n') (by decide) (hlf l List.mem_cons_self)
        have htail := ih (fun x hx => hlf x (List.mem_cons_of_mem _ hx))
          fun x hx => hcr x (List.mem_cons_of_mem _ hx)
        rw [List.flatMap_cons, Text.utf8_append, List.append_assoc, List.map_cons, List.cons_append]
        rw [show Text.utf8 ['\n'] = [10] from rfl, List.singleton_append,
          List.splitOn_append_cons_self_of_not_mem hmem, htail]
  have hstrip : ∀ p ∈ ls.map Text.utf8, stripCr p = p := by
    intro p hp
    obtain ⟨l, hl, rfl⟩ := List.mem_map.mp hp
    have hmem : (13 : UInt8) ∉ Text.utf8 l :=
      Text.not_mem_utf8 (c := '\r') (by decide) (hcr l hl)
    rw [stripCr, if_neg]
    intro hlast
    exact hmem (List.mem_of_getLast? hlast)
  rw [lines, hsplit, List.getLast?_concat, if_pos rfl, List.dropLast_concat]
  refine List.ext_getElem (by simp) fun i hi hi' => ?_
  rw [List.getElem_mapIdx, if_pos (by simpa using hi')]
  exact hstrip _ (List.getElem_mem hi')

/-! ## Loading line by line -/

namespace CookieJar

/-- The same of lines that are texts. -/
theorem loadTexts_eq_ok {path : Text} {ls : List Text} {jar jar' : CookieJar} {n : Nat} :
    loadLines path jar n (ls.map Text.utf8) = .ok jar' ↔
      (∀ l ∈ ls, parseNetscapeLine l ≠ .malformed) ∧
        jar'.cookies = jar.cookies ++ ls.filterMap readCookie := by
  have hcookies : (ls.map Text.utf8).filterMap cookieOn = ls.filterMap readCookie := by
    rw [List.filterMap_map]
    refine List.filterMap_congr fun l _ => ?_
    rw [Function.comp_apply, cookieOn, fromUtf8_utf8, Option.bind_some]
  rw [loadLines_eq_ok, hcookies, List.forall_mem_map]
  simp only [Loadable, fromUtf8_utf8, Option.some.injEq, exists_eq_left']

end CookieJar

/-! ## One record -/

/-- What the jar promises of every cookie a `Set-Cookie` put there. -/
structure Kept (c : Cookie) : Prop where
  name_ne : c.name ≠ []
  name_ok : hasForbiddenCookieChar c.name = false
  value_ok : hasForbiddenCookieChar c.value = false
  domain_low : c.domain.toAsciiLowercase = c.domain
  scopable : c.hostOnly = false → isScopableCookieDomain c.domain = true
  expires_pos : ∀ exp ∈ c.expires, 0 < exp

/-- The fields of a record have no separator. -/
def Separable (c : Cookie) : Prop :=
  hasJarSeparator c.name = false ∧ hasJarSeparator c.value = false ∧
    hasJarSeparator c.domain = false ∧ hasJarSeparator c.path = false

/-- A record is read as the cookie it was written for: the expiry is an `i64`, the domain is not
empty, has no leading dot, and does not make the line a comment. -/
structure Storable (c : Cookie) : Prop where
  expires : ∀ exp ∈ c.expires, exp < 2 ^ 63
  domain_ne : c.domain ≠ []
  no_dot : c.domain.head? ≠ some '.'
  no_comment : c.httpOnly = false → c.domain.head? ≠ some '#'

theorem not_mem_of_hasJarSeparator {t : Text} (h : hasJarSeparator t = false) :
    '\t' ∉ t ∧ '\r' ∉ t ∧ '\n' ∉ t := by
  have hall : ∀ c ∈ t, c ≠ '\t' ∧ c ≠ '\r' ∧ c ≠ '\n' := by
    simpa [hasJarSeparator, and_assoc] using h
  exact ⟨fun hm => (hall _ hm).1 rfl, fun hm => (hall _ hm).2.1 rfl, fun hm => (hall _ hm).2.2 rfl⟩

/-- `TRUE` or `FALSE`. -/
def flag (b : Bool) : Text := if b then "TRUE".toList else "FALSE".toList

theorem flag_eq_true (b : Bool) : (flag b).eqIgnoreAsciiCase "TRUE".toList = b := by
  cases b <;> decide

theorem not_mem_flag {b : Bool} {c : Char} (hc : c = '\t' ∨ c = '\r' ∨ c = '\n') : c ∉ flag b := by
  rcases hc with rfl | rfl | rfl <;> cases b <;> decide

/-- The columns of a record, without the mark in front. -/
def columns (c : Cookie) (exp : Nat) : List Text :=
  [c.domain, flag !c.hostOnly, c.path, flag c.secure, decimal exp, c.name, c.value]

theorem record_eq (c : Cookie) (exp : Nat) :
    CookieJar.record c exp =
      (if c.httpOnly then httpOnlyMark else []) ++ ['\t'].intercalate (columns c exp) := by
  cases hhost : c.hostOnly <;> cases hsec : c.secure <;>
    simp [CookieJar.record, columns, flag, hhost, hsec, List.intercalate_cons_cons,
      List.intercalate_singleton]

theorem not_mem_columns {c : Cookie} {exp : Nat} (hsep : Separable c) {x : Char}
    (hx : x = '\t' ∨ x = '\r' ∨ x = '\n') : ∀ t ∈ columns c exp, x ∉ t := by
  obtain ⟨hname, hvalue, hdomain, hpath⟩ := hsep
  have hnone : ∀ {t : Text}, hasJarSeparator t = false → x ∉ t := by
    intro t ht
    obtain ⟨htab, hcr, hlf⟩ := not_mem_of_hasJarSeparator ht
    rcases hx with rfl | rfl | rfl <;> assumption
  have hdigit : x.isDigit = false := by
    rcases hx with rfl | rfl | rfl <;> decide
  intro t ht
  simp only [columns, List.mem_cons, List.not_mem_nil, or_false] at ht
  rcases ht with rfl | rfl | rfl | rfl | rfl | rfl | rfl
  · exact hnone hdomain
  · exact not_mem_flag hx
  · exact hnone hpath
  · exact not_mem_flag hx
  · exact not_mem_decimal hdigit
  · exact hnone hname
  · exact hnone hvalue

theorem split_columns {c : Cookie} {exp : Nat} (hsep : Separable c) :
    Text.split '\t' (['\t'].intercalate (columns c exp)) = columns c exp :=
  List.splitOn_intercalate '\t' (not_mem_columns hsep (.inl rfl)) (by simp [columns])

/-- What is read from the columns of a kept cookie. -/
theorem parseRecord_columns {c : Cookie} {exp : Nat} (hkept : Kept c) (hexp : c.expires = some exp)
    (b : Bool) :
    parseRecord b (columns c exp) = .cookie c ↔
      exp < 2 ^ 63 ∧ c.domain ≠ [] ∧ c.domain.head? ≠ some '.' ∧ b = c.httpOnly := by
  have hpos : 0 < exp := hkept.expires_pos exp hexp
  simp only [columns, parseRecord, parseI64_decimal]
  by_cases hdom : c.domain = []
  · simp [hdom]
  rw [if_neg hdom]
  by_cases hlt : exp < 2 ^ 63
  swap
  · rw [if_neg hlt]
    simp only [reduceCtorEq, hlt, false_and]
  rw [if_pos hlt]
  have hbad : (hasForbiddenCookieChar c.name || hasForbiddenCookieChar c.value) = false := by
    rw [hkept.name_ok, hkept.value_ok]
    rfl
  simp only [if_neg hkept.name_ne, hbad, Bool.false_eq_true, if_false, flag_eq_true, Bool.not_not]
  have hle : ¬ (exp : Int) ≤ 0 := by omega
  rw [if_neg hle, Int.toNat_natCast]
  by_cases hdot : c.domain.head? = some '.'
  · -- the dots are gone, so it is another domain
    have hother : Text.trimStartMatches '.' c.domain ≠ c.domain := by
      intro he
      have hhead := Text.head?_trimStartMatches '.' c.domain
      rw [he] at hhead
      exact hhead hdot
    simp only [hdot, ne_eq, not_true_eq_false, false_and, and_false, iff_false]
    split
    · exact LineOutcome.noConfusion
    · intro hc
      exact hother (congrArg Cookie.domain (LineOutcome.cookie.inj hc))
  · rw [Text.trimStartMatches_eq_self hdot]
    have hscope : (!c.hostOnly && !isScopableCookieDomain c.domain) = false := by
      cases hhost : c.hostOnly with
      | true => rfl
      | false => rw [hkept.scopable hhost]; rfl
    rw [hscope, if_neg Bool.false_ne_true, ← hexp]
    constructor
    · intro h
      exact ⟨hlt, hdom, hdot, congrArg Cookie.httpOnly (LineOutcome.cookie.inj h)⟩
    · rintro ⟨-, -, -, rfl⟩
      rfl

theorem trim_ne_nil {t : Text} {c : Char} (hc : c ∈ t) (hw : isWhitespace c = false) :
    t.trim ≠ [] := by
  intro h
  rw [Text.trim, List.rdropWhile_eq_nil_iff] at h
  have hne : t.dropWhile isWhitespace ≠ [] := by
    intro hnil
    have hall := List.dropWhile_eq_nil_iff.mp hnil c hc
    rw [hw] at hall
    cases hall
  have hhead := List.head_dropWhile_not isWhitespace hne
  rw [h _ (List.head_mem hne)] at hhead
  cases hhead

theorem columns_eq (c : Cookie) (exp : Nat) :
    ['\t'].intercalate (columns c exp) =
      c.domain ++ '\t' :: ['\t'].intercalate (columns c exp).tail := by
  simp [columns, List.intercalate_cons_cons]

/-- A domain in lower case does not begin with the mark. -/
theorem stripPrefix_mark_columns {c : Cookie} {exp : Nat}
    (hlow : c.domain.toAsciiLowercase = c.domain) :
    Text.stripPrefix httpOnlyMark (['\t'].intercalate (columns c exp)) = none := by
  by_contra hsome
  obtain ⟨rest, hrest⟩ := Option.ne_none_iff_exists'.mp hsome
  have heq := Text.stripPrefix_eq_some.mp hrest
  rw [columns_eq] at heq
  have hmark : httpOnlyMark <+: c.domain := by
    rcases List.prefix_or_prefix_of_prefix (List.prefix_append c.domain _)
      (heq ▸ List.prefix_append httpOnlyMark rest) with ⟨tail, htail⟩ | h
    · rw [← htail, List.append_assoc, List.append_cancel_left_eq] at heq
      cases tail with
      | nil =>
          rw [List.append_nil] at htail
          exact ⟨[], (List.append_nil _).trans htail.symm⟩
      | cons x tail =>
          rw [List.cons_append, List.cons.injEq] at heq
          have htab : '\t' ∈ httpOnlyMark := htail ▸ heq.1 ▸ by simp
          exact absurd htab (by decide)
    · exact h
  have hupper : 'H' ∈ c.domain.toAsciiLowercase := hlow.symm ▸ hmark.subset (by decide)
  obtain ⟨x, -, hx⟩ := List.mem_map.mp hupper
  have hidem := toLower_toLower x
  rw [hx] at hidem
  exact absurd hidem (by decide)

theorem readCookie_eq_some {line : Text} {c : Cookie} :
    readCookie line = some c ↔ parseNetscapeLine line = .cookie c := by
  rw [readCookie]
  cases parseNetscapeLine line <;> simp

/-- The round trip of one record. -/
theorem readCookie_record {c : Cookie} {exp : Nat} (hkept : Kept c) (hsep : Separable c)
    (hexp : c.expires = some exp) :
    readCookie (CookieJar.record c exp) = some c ↔ Storable c := by
  have hstorable : Storable c ↔ exp < 2 ^ 63 ∧ c.domain ≠ [] ∧ c.domain.head? ≠ some '.' ∧
      (c.httpOnly = false → c.domain.head? ≠ some '#') := by
    constructor
    · intro h
      exact ⟨h.expires exp hexp, h.domain_ne, h.no_dot, h.no_comment⟩
    · rintro ⟨hlt, hne, hdot, hhash⟩
      refine ⟨fun e he => ?_, hne, hdot, hhash⟩
      rw [hexp] at he
      exact Option.some.inj he ▸ hlt
  rw [readCookie_eq_some, hstorable, record_eq, parseNetscapeLine]
  cases hmode : c.httpOnly with
  | true =>
      rw [if_pos rfl, Text.stripPrefix_eq_some.mpr rfl]
      dsimp only
      rw [split_columns hsep, parseRecord_columns hkept hexp, hmode]
      simp
  | false =>
      rw [if_neg Bool.false_ne_true, List.nil_append, stripPrefix_mark_columns hkept.domain_low]
      dsimp only
      rw [split_columns hsep]
      have htrim : Text.trim (['\t'].intercalate (columns c exp)) ≠ [] := by
        refine trim_ne_nil (c := 'E') ?_ (by decide)
        have hflag : 'E' ∈ flag !c.hostOnly := by cases c.hostOnly <;> decide
        simp [columns, List.intercalate_cons_cons, hflag]
      by_cases hhash : c.domain.head? = some '#'
      · have hhead : (['\t'].intercalate (columns c exp)).head? = some '#' := by
          obtain ⟨tail, htail⟩ := List.head?_eq_some_iff.mp hhash
          rw [columns_eq, htail]
          rfl
        rw [if_pos (.inl hhead)]
        simp [hhash]
      · have hhead : (['\t'].intercalate (columns c exp)).head? ≠ some '#' := by
          rw [columns_eq]
          cases hdom : c.domain with
          | nil => simp
          | cons x tail => simpa [hdom] using hhash
        rw [if_neg (by simp [hhead, htrim]), parseRecord_columns hkept hexp, hmode]
        simp [hhash]

/-! ## The jar after `Set-Cookie` lines -/

theorem kept_of_parse {line : Text} {url : Url} {now : Nat} {c : Cookie}
    (h : parseSetCookie line url now = some c) (hfresh : c.expired now = false) : Kept c := by
  have hstored := stored_of_parse h
  refine ⟨hstored.name_ne, hstored.name_ok, hstored.value_ok, hstored.domain.lower,
    hstored.domain.scopable, fun exp hexp => ?_⟩
  have hsome : c.expires = some exp := hexp
  simp only [Cookie.expired, hsome, decide_eq_false_iff_not] at hfresh
  omega

/-- `Set-Cookie` lines, each with its origin and time. -/
abbrev History := List (Url × Text × Nat)

def ingested (history : History) : CookieJar :=
  history.foldl (fun jar (url, line, now) => jar.addSetCookie url line now) .new

theorem kept_ingested (history : History) : ∀ c ∈ (ingested history).cookies, Kept c := by
  induction history using List.reverseRecOn with
  | nil => simp [ingested, CookieJar.new]
  | append_singleton history op ih =>
      obtain ⟨url, line, now⟩ := op
      rw [ingested, List.foldl_append]
      show ∀ c ∈ (CookieJar.addSetCookie (ingested history) url line now).cookies, Kept c
      simp only [CookieJar.addSetCookie]
      cases hparse : parseSetCookie line url now with
      | none => exact ih
      | some parsed =>
          have hrest : ∀ c ∈ ((ingested history).removeMatching parsed).cookies, Kept c :=
            fun c hc => ih c (List.mem_of_mem_filter hc)
          dsimp only
          split
          · exact hrest
          · next hfresh =>
              intro c hc
              rcases List.mem_append.mp hc with hc | hc
              · exact hrest c hc
              · rw [List.mem_singleton.mp hc]
                exact kept_of_parse hparse (by simpa using hfresh)

/-! ## The file -/

/-- A cookie that belongs in a file. -/
def persistent (c : Cookie) : Bool :=
  c.expires.isSome && !(hasJarSeparator c.name || hasJarSeparator c.value
    || hasJarSeparator c.domain || hasJarSeparator c.path)

/-- Saving and loading the jar gives its persistent cookies. -/
def RoundTrips (jar : CookieJar) : Prop :=
  ∀ path, CookieJar.loadNetscape path (.ok jar.saveNetscape) =
    .ok ⟨jar.cookies.filter persistent⟩

/-- The record of a cookie, when it is written. -/
def savedRecord (c : Cookie) : Text := CookieJar.record c (c.expires.getD 0)

theorem persistent_iff {c : Cookie} :
    persistent c = true ↔ (∃ exp, c.expires = some exp) ∧ Separable c := by
  simp [persistent, Separable, Option.isSome_iff_exists, and_assoc]

/-- The comment lines of a saved file. -/
def headerLines : List Text :=
  ["# Netscape HTTP Cookie File".toList, "# https://curl.se/docs/http-cookies.html".toList,
    "# This file was generated by rsurl. Edit at your own risk.".toList, []]

theorem utf8_savedCookie (c : Cookie) :
    Text.utf8 (CookieJar.savedCookie c) =
      if persistent c then Text.utf8 (savedRecord c ++ ['\n']) else [] := by
  rw [CookieJar.savedCookie, persistent, savedRecord]
  cases c.expires with
  | none => rfl
  | some exp =>
      dsimp only
      cases (hasJarSeparator c.name || hasJarSeparator c.value || hasJarSeparator c.domain
        || hasJarSeparator c.path) <;> rfl

theorem saveNetscape_eq (jar : CookieJar) :
    jar.saveNetscape = (headerLines ++ (jar.cookies.filter persistent).map savedRecord).flatMap
      fun l => Text.utf8 (l ++ ['\n']) := by
  have hheader : Text.utf8 CookieJar.fileHeader =
      headerLines.flatMap fun l => Text.utf8 (l ++ ['\n']) := by
    decide +kernel
  have hrecords : ∀ cs : List Cookie, Text.utf8 (cs.flatMap CookieJar.savedCookie) =
      ((cs.filter persistent).map savedRecord).flatMap fun l => Text.utf8 (l ++ ['\n']) := by
    intro cs
    induction cs with
    | nil => rfl
    | cons c cs ih =>
        rw [List.flatMap_cons, Text.utf8_append, ih, utf8_savedCookie, List.filter_cons]
        split
        · rw [List.map_cons, List.flatMap_cons]
        · rw [List.nil_append]
  rw [CookieJar.saveNetscape, Text.utf8_append, hheader, List.flatMap_append, hrecords]

theorem not_mem_intercalate {ls : List Text} {x y : Char} (hxy : x ≠ y) (h : ∀ t ∈ ls, x ∉ t) :
    x ∉ [y].intercalate ls := by
  induction ls with
  | nil => simp
  | cons t ls ih =>
      have ht : x ∉ t := h t List.mem_cons_self
      cases ls with
      | nil => simpa using ht
      | cons u ls =>
          have hrest := ih fun v hv => h v (List.mem_cons_of_mem _ hv)
          rw [List.intercalate_cons_cons, List.mem_append, List.mem_append, List.mem_singleton]
          rintro ((hx | hx) | hx)
          · exact ht hx
          · exact hxy hx
          · exact hrest hx

/-- A record has no line break. -/
theorem not_mem_record {c : Cookie} {exp : Nat} (hsep : Separable c) {x : Char}
    (hx : x = '\r' ∨ x = '\n') : x ∉ CookieJar.record c exp := by
  have htab : x ≠ '\t' := by
    rcases hx with rfl | rfl <;> decide
  have hmark : x ∉ (if c.httpOnly = true then httpOnlyMark else []) := by
    rcases hx with rfl | rfl <;> cases c.httpOnly <;> decide
  rw [record_eq, List.mem_append]
  rintro (h | h)
  · exact hmark h
  · exact not_mem_intercalate htab (not_mem_columns hsep (.inr hx)) h

theorem headerLines_skipped :
    headerLines.all (fun l => parseNetscapeLine l == .skip) = true := by
  decide +kernel

/-- What loading the saved file does: every record in turn. -/
theorem loadNetscape_saveNetscape {jar jar' : CookieJar} {path : Text} :
    CookieJar.loadNetscape path (.ok jar.saveNetscape) = .ok jar' ↔
      (∀ c ∈ jar.cookies.filter persistent, parseNetscapeLine (savedRecord c) ≠ .malformed) ∧
        jar'.cookies = (jar.cookies.filter persistent).filterMap fun c =>
          readCookie (savedRecord c) := by
  have hskip : ∀ l ∈ headerLines, parseNetscapeLine l = .skip := by
    simpa using headerLines_skipped
  have hnone : headerLines.filterMap readCookie = [] := by
    rw [List.filterMap_eq_nil_iff]
    intro l hl
    rw [readCookie, hskip l hl]
  have hbreak : ∀ x : Char, x = '\r' ∨ x = '\n' →
      ∀ l ∈ headerLines ++ (jar.cookies.filter persistent).map savedRecord, x ∉ l := by
    intro x hx l hl
    rcases List.mem_append.mp hl with hl | hl
    · have hheader : headerLines.all (fun l => !l.contains '\r' && !l.contains '\n') = true := by
        decide +kernel
      have hl' := List.all_eq_true.mp hheader l hl
      rcases hx with rfl | rfl <;> simp_all
    · obtain ⟨c, hc, rfl⟩ := List.mem_map.mp hl
      exact not_mem_record (persistent_iff.mp (List.mem_filter.mp hc).2).2 hx
  have hlines := lines_flatMap (hbreak '\n' (.inr rfl)) (hbreak '\r' (.inl rfl))
  rw [CookieJar.loadNetscape, saveNetscape_eq]
  rw [hlines, CookieJar.loadTexts_eq_ok]
  simp only [List.mem_append, List.filterMap_append, hnone, List.nil_append, CookieJar.new,
    List.filterMap_map]
  constructor
  · rintro ⟨hok, hcookies⟩
    exact ⟨fun c hc => hok _ (.inr (List.mem_map_of_mem hc)), hcookies⟩
  · rintro ⟨hok, hcookies⟩
    refine ⟨?_, hcookies⟩
    rintro l (hl | hl)
    · rw [hskip l hl]
      exact LineOutcome.noConfusion
    · obtain ⟨c, hc, rfl⟩ := List.mem_map.mp hl
      exact hok c hc

/-- A filter-map gives its list back only element by element. -/
theorem filterMap_eq_self_iff {α : Type} {f : α → Option α} {l : List α} :
    l.filterMap f = l ↔ ∀ x ∈ l, f x = some x := by
  induction l with
  | nil => simp
  | cons a l ih =>
      constructor
      · intro h
        cases hf : f a with
        | none =>
            rw [List.filterMap_cons_none hf] at h
            have hlen := List.length_filterMap_le f l
            rw [h, List.length_cons] at hlen
            omega
        | some b =>
            rw [List.filterMap_cons_some hf, List.cons.injEq] at h
            obtain ⟨rfl, hrest⟩ := h
            intro x hx
            rcases List.mem_cons.mp hx with rfl | hx
            · exact hf
            · exact ih.mp hrest x hx
      · intro h
        rw [List.filterMap_cons_some (h a List.mem_cons_self),
          ih.mpr fun x hx => h x (List.mem_cons_of_mem _ hx)]

/-- The jar after any `Set-Cookie` lines survives the file exactly when each of its persistent
cookies has an expiry that is an `i64` and a domain that the first column can carry. -/
theorem roundTrips_iff (history : History) :
    RoundTrips (ingested history) ↔
      ∀ c ∈ (ingested history).cookies, persistent c = true → Storable c := by
  have hone : ∀ c ∈ (ingested history).cookies.filter persistent,
      (readCookie (savedRecord c) = some c ↔ Storable c) := by
    intro c hc
    obtain ⟨hmem, hpers⟩ := List.mem_filter.mp hc
    obtain ⟨⟨exp, hexp⟩, hsep⟩ := persistent_iff.mp hpers
    have hrec : savedRecord c = CookieJar.record c exp := by rw [savedRecord, hexp, Option.getD_some]
    rw [hrec]
    exact readCookie_record (kept_ingested history c hmem) hsep hexp
  constructor
  · intro h c hmem hpers
    have hc : c ∈ (ingested history).cookies.filter persistent := List.mem_filter.mpr ⟨hmem, hpers⟩
    have hload := (loadNetscape_saveNetscape.mp (h [])).2
    exact (hone c hc).mp (filterMap_eq_self_iff.mp hload.symm c hc)
  · intro h path
    have hread : ∀ c ∈ (ingested history).cookies.filter persistent,
        readCookie (savedRecord c) = some c := by
      intro c hc
      obtain ⟨hmem, hpers⟩ := List.mem_filter.mp hc
      exact (hone c hc).mpr (h c hmem hpers)
    refine loadNetscape_saveNetscape.mpr ⟨fun c hc => ?_, (filterMap_eq_self_iff.mpr hread).symm⟩
    rw [readCookie_eq_some.mp (hread c hc)]
    exact LineOutcome.noConfusion

/-- A lifetime of `i64::MAX` seconds ends behind the last `i64`. -/
def sampleForever : History :=
  [({ scheme := "http".toList, userinfo := none, host := "a.com".toList, port := 80, path := ['/'] },
    "x=1; Max-Age=9223372036854775807".toList, 1)]

/-- Its record makes the whole file unreadable. -/
theorem forever_malformed : ¬ RoundTrips (ingested sampleForever) := by
  intro h
  have hload : (CookieJar.loadNetscape [] (.ok (ingested sampleForever).saveNetscape)).toOption =
      none := by
    decide +kernel
  rw [h []] at hload
  cases hload

end Rsurl.Cookies
