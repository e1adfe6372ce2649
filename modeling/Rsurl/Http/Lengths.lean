/-
# `Rsurl.Http.Lengths` — the numbers that frame a body

A `Content-Length` value and a chunk size are read by `trim` and
`from_str_radix`.  The grammar of RFC 9112 is narrower: blanks are spaces and
tabs, a chunk size has none in front and none behind unless an extension
follows, and there are no signs.  `lengthGrammar_iff` says on which header lists
and size lines the two agree.
-/
import Rsurl.Http.Framing
import Rsurl.Http.Read
import Rsurl.Text.Numerals

namespace Rsurl.Http

/-! ## Blanks -/

theorem isWhitespace_of_isBlank {c : Char} (h : isBlank c = true) : isWhitespace c = true := by
  rcases (Bool.or_eq_true _ _).mp h with h | h
  · rw [beq_iff_eq.mp h]
    decide
  · rw [beq_iff_eq.mp h]
    decide

/-- The blanks around a text are white space around what is left of it. -/
theorem trimBlanks_spec (t : Text) : ∃ w w', t = w ++ (trimBlanks t ++ w') ∧
    (∀ c ∈ w, isWhitespace c = true) ∧ ∀ c ∈ w', isWhitespace c = true := by
  obtain ⟨w, hw, hfront⟩ := dropWhile_front (p := isBlank) t
  obtain ⟨w', hw', hback⟩ := rdropWhile_back (p := isBlank) (t.dropWhile isBlank)
  refine ⟨w, w', ?_, fun c hc => isWhitespace_of_isBlank (hfront c hc),
    fun c hc => isWhitespace_of_isBlank (hback c hc)⟩
  rw [trimBlanks, ← hw', ← hw]

/-! ## `Content-Length` -/

/-- The largest number of a `u64`, and of a `usize` of 64 bits. -/
def maxLength : Nat := 2 ^ 64 - 1

/-- The elements of the `Content-Length` fields. -/
def lengthElements (headers : List Header) : List Text :=
  (named headers "Content-Length").flatMap fun f => f.2.splitOn ','

/-- What a header list announces: every element the same number, written in digits. -/
def Announces (headers : List Header) : Option Nat → Prop
  | none => named headers "Content-Length" = []
  | some n => named headers "Content-Length" ≠ [] ∧ n ≤ maxLength ∧
      ∀ e ∈ lengthElements headers, numeral 10 (trimBlanks e) = some n

/-- The number of an element without regard to signs and to the kind of white space. -/
def looseNumber (radix : Nat) (t : Text) : Option Nat := numeral radix (stripPlus t.trim)

/-- An element with digits and blanks at most where it begins and ends. -/
def isPlainElement (e : Text) : Bool :=
  e.trim == trimBlanks e && (trimBlanks e).head? != some '+'

theorem looseNumber_iff {e : Text} {n : Nat} :
    numeral 10 (trimBlanks e) = some n ↔ looseNumber 10 e = some n ∧ isPlainElement e = true := by
  rw [numeral_core_iff (trimBlanks_spec e), isPlainElement, Bool.and_eq_true, beq_iff_eq,
    bne_iff_ne]
  rfl

/-- What elements settle on, after what was seen before. -/
structure Agrees (seen : Option Nat) (elements : List Text) (r : Option Nat) : Prop where
  number : ∀ e ∈ elements, ∃ n ≤ maxLength, looseNumber 10 e = some n ∧ r = some n
  before : ∀ m ∈ seen, r = some m
  empty : elements = [] → r = seen

theorem agrees_nil {seen r : Option Nat} : Agrees seen [] r ↔ r = seen :=
  ⟨fun h => h.empty rfl, fun h => ⟨nofun, fun _ hm => h.trans hm, fun _ => h⟩⟩

theorem agrees_append {seen r : Option Nat} {a b : List Text} :
    Agrees seen (a ++ b) r ↔ ∃ s, Agrees seen a s ∧ Agrees s b r := by
  constructor
  · intro h
    by_cases hnil : a = []
    · subst hnil
      exact ⟨seen, agrees_nil.mpr rfl, h⟩
    · exact ⟨r, ⟨fun e he => h.number e (List.mem_append_left _ he), h.before,
        fun h => absurd h hnil⟩, ⟨fun e he => h.number e (List.mem_append_right _ he),
        fun _ hm => hm, fun _ => rfl⟩⟩
  · rintro ⟨s, ha, hb⟩
    refine ⟨fun e he => ?_, fun m hm => hb.before m (ha.before m hm), fun hnil => ?_⟩
    · rcases List.mem_append.mp he with he | he
      · obtain ⟨n, hn, hloose, hs⟩ := ha.number e he
        exact ⟨n, hn, hloose, hb.before n hs⟩
      · exact hb.number e he
    · obtain ⟨hnila, hnilb⟩ := List.append_eq_nil_iff.mp hnil
      rw [hb.empty hnilb, ha.empty hnila]

theorem agrees_singleton {seen r : Option Nat} {e : Text} :
    Agrees seen [e] r ↔
      ∃ n ≤ maxLength, looseNumber 10 e = some n ∧ (∀ m ∈ seen, m = n) ∧ r = some n := by
  constructor
  · intro h
    obtain ⟨n, hn, hloose, hr⟩ := h.number e List.mem_cons_self
    exact ⟨n, hn, hloose, fun m hm => Option.some.inj ((h.before m hm).symm.trans hr), hr⟩
  · rintro ⟨n, hn, hloose, hbefore, hr⟩
    refine ⟨fun e' he' => ?_, fun m hm => (hbefore m hm).symm ▸ hr, nofun⟩
    rw [List.mem_singleton.mp he']
    exact ⟨n, hn, hloose, hr⟩

theorem agreeLength_iff {v : Text} {seen r : Option Nat} {parts : List Text} :
    agreeLength v seen parts = .ok r ↔ Agrees seen parts r := by
  induction parts generalizing seen with
  | nil =>
      rw [agrees_nil, agreeLength]
      exact ⟨fun h => (Except.ok.inj h).symm, fun h => congrArg _ h.symm⟩
  | cons part parts ih =>
      have hmax : 2 ^ 64 - 1 = maxLength := rfl
      rw [← List.singleton_append, agrees_append, List.singleton_append, agreeLength, hmax]
      have hread : ∀ n, parseUnsigned 10 maxLength part.trim = some n ↔
          looseNumber 10 part = some n ∧ n ≤ maxLength := fun n =>
        @parseUnsigned_iff 10 maxLength n (by decide) part.trim
      cases hparse : parseUnsigned 10 maxLength part.trim with
      | none =>
          constructor
          · intro h
            cases h
          · rintro ⟨s, hs, -⟩
            obtain ⟨n, hn, hloose, -⟩ := agrees_singleton.mp hs
            rw [(hread n).mpr ⟨hloose, hn⟩] at hparse
            cases hparse
      | some n =>
          obtain ⟨hloose, hn⟩ := (hread n).mp hparse
          have hfirst : ∀ s, Agrees seen [part] s ↔ (∀ m ∈ seen, m = n) ∧ s = some n := by
            intro s
            rw [agrees_singleton]
            constructor
            · rintro ⟨n', -, hloose', hbefore, rfl⟩
              obtain rfl := Option.some.inj (hloose.symm.trans hloose')
              exact ⟨hbefore, rfl⟩
            · rintro ⟨hbefore, rfl⟩
              exact ⟨n, hn, hloose, hbefore, rfl⟩
          dsimp only
          by_cases hconflict : seen.any (· != n) = true
          · rw [if_pos hconflict]
            constructor
            · intro h
              cases h
            · rintro ⟨s, hs, -⟩
              obtain ⟨m, hm, hne⟩ := (Option.any_eq_true _ _).mp hconflict
              exact absurd (((hfirst s).mp hs).1 m hm) (bne_iff_ne.mp hne)
          · rw [if_neg hconflict, ih]
            have hbefore : ∀ m ∈ seen, m = n := fun m hm => by
              by_contra hne
              exact hconflict ((Option.any_eq_true _ _).mpr ⟨m, hm, bne_iff_ne.mpr hne⟩)
            constructor
            · intro h
              exact ⟨some n, (hfirst _).mpr ⟨hbefore, rfl⟩, h⟩
            · rintro ⟨s, hs, h⟩
              rwa [((hfirst s).mp hs).2] at h

/-- In which case a name is written makes no difference. -/
theorem eqIgnoreAsciiCase_congr {k a b : Text}
    (h : Text.toAsciiLowercase a = Text.toAsciiLowercase b) :
    Text.eqIgnoreAsciiCase k a = Text.eqIgnoreAsciiCase k b := by
  rw [Text.eqIgnoreAsciiCase, Text.eqIgnoreAsciiCase, h]

theorem parseContentLength_iff {seen r : Option Nat} {headers : List Header} :
    parseContentLength seen headers = .ok r ↔ Agrees seen (lengthElements headers) r := by
  induction headers generalizing seen with
  | nil =>
      rw [parseContentLength, lengthElements, named_nil, List.flatMap_nil, agrees_nil]
      exact ⟨fun h => (Except.ok.inj h).symm, fun h => congrArg _ h.symm⟩
  | cons f headers ih =>
      obtain ⟨k, v⟩ := f
      have hname : Text.eqIgnoreAsciiCase k "content-length".toList =
          Text.eqIgnoreAsciiCase k "Content-Length".toList := eqIgnoreAsciiCase_congr (by decide)
      rw [parseContentLength, hname, lengthElements, named, List.filter_cons]
      by_cases hk : Text.eqIgnoreAsciiCase k "Content-Length".toList = true
      · rw [if_pos hk, if_pos hk, List.flatMap_cons, agrees_append]
        constructor
        · intro h
          obtain ⟨s, hs, hrest⟩ := Result.bind_eq_ok.mp h
          exact ⟨s, agreeLength_iff.mp hs, ih.mp hrest⟩
        · rintro ⟨s, hs, hrest⟩
          exact Result.bind_eq_ok.mpr ⟨s, agreeLength_iff.mpr hs, ih.mpr hrest⟩
      · rw [if_neg hk, if_neg hk]
        exact ih

theorem lengthElements_eq_nil {headers : List Header} :
    lengthElements headers = [] ↔ named headers "Content-Length" = [] := by
  rw [lengthElements, List.flatMap_eq_nil_iff]
  constructor
  · intro h
    by_contra hne
    obtain ⟨f, fields, hfields⟩ := List.exists_cons_of_ne_nil hne
    exact List.splitOn_ne_nil _ _ (h f (hfields ▸ List.mem_cons_self))
  · intro h f hf
    rw [h] at hf
    cases hf

/-- What the code takes for a `Content-Length`. -/
theorem parseContentLength_eq_ok {headers : List Header} {r : Option Nat} :
    parseContentLength none headers = .ok r ↔
      match r with
      | none => named headers "Content-Length" = []
      | some n => named headers "Content-Length" ≠ [] ∧ n ≤ maxLength ∧
          ∀ e ∈ lengthElements headers, looseNumber 10 e = some n := by
  rw [parseContentLength_iff]
  cases r with
  | none =>
      dsimp only
      rw [← lengthElements_eq_nil]
      constructor
      · intro h
        refine List.eq_nil_iff_forall_not_mem.mpr fun e he => ?_
        obtain ⟨n, -, -, hr⟩ := h.number e he
        cases hr
      · intro h
        rw [h]
        exact agrees_nil.mpr rfl
  | some n =>
      dsimp only
      rw [ne_eq, ← lengthElements_eq_nil]
      constructor
      · intro h
        have hne : lengthElements headers ≠ [] := fun hnil => by cases h.empty hnil
        obtain ⟨e, es, hes⟩ := List.exists_cons_of_ne_nil hne
        refine ⟨hne, ?_, fun e he => ?_⟩
        · obtain ⟨m, hm, -, hr⟩ := h.number e (hes ▸ List.mem_cons_self)
          rwa [Option.some.inj hr]
        · obtain ⟨m, -, hloose, hr⟩ := h.number e he
          rw [hloose, hr]
      · rintro ⟨hne, hn, hall⟩
        exact ⟨fun e he => ⟨n, hn, hall e he, rfl⟩, nofun, fun h => absurd h hne⟩

/-- The header lists on which `parse_content_length` reads the grammar: where it would read one
number, no element has a sign or white space of another kind than blanks. -/
theorem parseContentLength_grammar_iff {headers : List Header} :
    (∀ r, parseContentLength none headers = .ok r ↔ Announces headers r) ↔
      ((∃ n ≤ maxLength, ∀ e ∈ lengthElements headers, looseNumber 10 e = some n) →
        ∀ e ∈ lengthElements headers, isPlainElement e = true) := by
  constructor
  · rintro hlaw ⟨n, hn, hall⟩ e he
    have hne : named headers "Content-Length" ≠ [] := by
      intro hnil
      rw [lengthElements_eq_nil.mpr hnil] at he
      cases he
    have hread : Announces headers (some n) :=
      (hlaw (some n)).mp (parseContentLength_eq_ok.mpr ⟨hne, hn, hall⟩)
    exact (looseNumber_iff.mp (hread.2.2 e he)).2
  · intro hplain r
    rw [parseContentLength_eq_ok]
    cases r with
    | none => exact Iff.rfl
    | some n =>
        constructor
        · rintro ⟨hne, hn, hall⟩
          have hp := hplain ⟨n, hn, hall⟩
          exact ⟨hne, hn, fun e he => looseNumber_iff.mpr ⟨hall e he, hp e he⟩⟩
        · rintro ⟨hne, hn, hall⟩
          exact ⟨hne, hn, fun e he => (looseNumber_iff.mp (hall e he)).1⟩

/-! ## Chunk sizes -/

/-- A line without its LF and the CR in front of that. -/
def lineContent (line : Text) : Text :=
  let noLf := if line.getLast? = some '\n' then line.dropLast else line
  if noLf.getLast? = some '\r' then noLf.dropLast else noLf

/-- What stands in front of the first semicolon. -/
def sizeField (line : Text) : Text := (lineContent line).takeWhile (· ≠ ';')

/-- The same without the blanks that an extension may have in front of it. -/
def sizeCore (line : Text) : Text :=
  if ';' ∈ lineContent line then (sizeField line).rdropWhile isBlank else sizeField line

/-- A size line with digits alone in front of what an extension begins with. -/
def isPlainSize (line : Text) : Bool :=
  (sizeField line).trim == sizeCore line && (sizeCore line).head? != some '+'

theorem sizeCore_spec (line : Text) : ∃ w w', sizeField line = w ++ (sizeCore line ++ w') ∧
    (∀ c ∈ w, isWhitespace c = true) ∧ ∀ c ∈ w', isWhitespace c = true := by
  rw [sizeCore]
  split
  · obtain ⟨w', hw', hback⟩ := rdropWhile_back (p := isBlank) (sizeField line)
    exact ⟨[], w', hw', nofun, fun c hc => isWhitespace_of_isBlank (hback c hc)⟩
  · exact ⟨[], [], (List.append_nil _).symm, nofun, nofun⟩

/-- The end of a line is CRs and LFs. -/
theorem lineContent_spec (line : Text) :
    ∃ e, line = lineContent line ++ e ∧ ∀ c ∈ e, c = '\r' ∨ c = '\n' := by
  have hlast : ∀ (t : Text) (x : Char), x = '\r' ∨ x = '\n' →
      ∃ e, t = (if t.getLast? = some x then t.dropLast else t) ++ e ∧
        ∀ c ∈ e, c = '\r' ∨ c = '\n' := by
    intro t x hx
    split
    · next h =>
        obtain ⟨front, rfl⟩ := List.getLast?_eq_some_iff.mp h
        refine ⟨[x], by rw [List.dropLast_concat], fun c hc => ?_⟩
        rwa [List.mem_singleton.mp hc]
    · exact ⟨[], (List.append_nil _).symm, nofun⟩
  obtain ⟨e, he, hends⟩ := hlast line '\n' (.inr rfl)
  obtain ⟨e', he', hends'⟩ :=
    hlast (if line.getLast? = some '\n' then line.dropLast else line) '\r' (.inl rfl)
  refine ⟨e' ++ e, ?_, fun c hc => ?_⟩
  · rw [lineContent, ← List.append_assoc, ← he', ← he]
  · exact (List.mem_append.mp hc).elim (hends' c) (hends c)

/-- A line end makes no difference to what is read in front of it. -/
theorem trim_takeWhile_append {d e : Text} (he : ∀ c ∈ e, c = '\r' ∨ c = '\n') :
    Text.trim ((d ++ e).takeWhile (· ≠ ';')) = Text.trim (d.takeWhile (· ≠ ';')) := by
  have hspace : ∀ c ∈ e, isWhitespace c = true := fun c hc => by
    rcases he c hc with rfl | rfl
    · decide
    · decide
  have hplain : e.takeWhile (· ≠ ';') = e := by
    refine List.takeWhile_eq_self_iff.mpr fun c hc => ?_
    rcases he c hc with rfl | rfl
    · decide
    · decide
  rw [List.takeWhile_append]
  split
  · next hall =>
      have hd : d.takeWhile (· ≠ ';') = d := (List.takeWhile_prefix _).eq_of_length hall
      rw [hplain, trim_append_space hspace, hd]
  · rfl

/-- What the code takes for a chunk size. -/
theorem chunkSize_eq_ok {line : Text} {n : Nat} :
    chunkSize line = .ok n ↔ looseNumber 16 (sizeField line) = some n ∧ n ≤ maxLength := by
  have hfield : Text.trim (line.trimEndCrlf.takeWhile (· ≠ ';')) = (sizeField line).trim := by
    obtain ⟨e, he, hends⟩ := lineContent_spec line
    obtain ⟨e', he', hends'⟩ := rdropWhile_back (p := fun c => c == '\r' || c == '\n') line
    have hends'' : ∀ c ∈ e', c = '\r' ∨ c = '\n' := fun c hc => by
      simpa using hends' c hc
    calc Text.trim (line.trimEndCrlf.takeWhile (· ≠ ';'))
        = Text.trim ((line.trimEndCrlf ++ e').takeWhile (· ≠ ';')) :=
          (trim_takeWhile_append hends'').symm
      _ = Text.trim (line.takeWhile (· ≠ ';')) := by rw [Text.trimEndCrlf, ← he']
      _ = Text.trim ((lineContent line ++ e).takeWhile (· ≠ ';')) := by rw [← he]
      _ = (sizeField line).trim := trim_takeWhile_append hends
  have hmax : 2 ^ 64 - 1 = maxLength := rfl
  have hread := @parseUnsigned_iff 16 maxLength n (by decide) (sizeField line).trim
  rw [chunkSize, hmax, hfield]
  cases hparse : parseUnsigned 16 maxLength (sizeField line).trim with
  | none =>
      rw [hparse] at hread
      constructor
      · intro h
        cases h
      · intro h
        cases hread.mpr h
  | some m =>
      rw [hparse] at hread
      constructor
      · intro h
        exact hread.mp (congrArg some (Except.ok.inj h))
      · intro h
        exact congrArg _ (Option.some.inj (hread.mpr h))

theorem chunkSize_grammar_iff {line : Text} :
    (∀ n, chunkSize line = .ok n ↔ numeral 16 (sizeCore line) = some n ∧ n ≤ maxLength) ↔
      ((∃ n ≤ maxLength, looseNumber 16 (sizeField line) = some n) → isPlainSize line = true) := by
  have hcore : ∀ n, numeral 16 (sizeCore line) = some n ↔
      looseNumber 16 (sizeField line) = some n ∧ isPlainSize line = true := by
    intro n
    rw [numeral_core_iff (sizeCore_spec line), isPlainSize, Bool.and_eq_true, beq_iff_eq,
      bne_iff_ne]
    rfl
  constructor
  · rintro hlaw ⟨n, hn, hloose⟩
    exact ((hcore n).mp ((hlaw n).mp (chunkSize_eq_ok.mpr ⟨hloose, hn⟩)).1).2
  · intro hplain n
    rw [chunkSize_eq_ok, hcore]
    constructor
    · rintro ⟨hloose, hn⟩
      exact ⟨⟨hloose, hplain ⟨n, hn, hloose⟩⟩, hn⟩
    · rintro ⟨⟨hloose, -⟩, hn⟩
      exact ⟨hloose, hn⟩

/-! ## Both -/

/-- Where the lengths that are read are those of the grammar: for a header list, when it would
announce one number, its elements have no sign and no white space but blanks; for a size line,
when it would give a number, that has no sign, no white space in front, and blanks behind at most
before a semicolon. -/
theorem lengthGrammar_iff (headers : List Header) (line : Text) :
    ((∀ r, parseContentLength none headers = .ok r ↔ Announces headers r) ↔
      ((∃ n ≤ maxLength, ∀ e ∈ lengthElements headers, looseNumber 10 e = some n) →
        ∀ e ∈ lengthElements headers, isPlainElement e = true)) ∧
    ((∀ n, chunkSize line = .ok n ↔ numeral 16 (sizeCore line) = some n ∧ n ≤ maxLength) ↔
      ((∃ n ≤ maxLength, looseNumber 16 (sizeField line) = some n) → isPlainSize line = true)) :=
  ⟨parseContentLength_grammar_iff, chunkSize_grammar_iff⟩

/-- A length with a sign; a size with a sign and white space around it. -/
theorem lengthGrammar_sign :
    (¬ ∀ headers r, parseContentLength none headers = .ok r ↔ Announces headers r) ∧
      ¬ ∀ line n, chunkSize line = .ok n ↔ numeral 16 (sizeCore line) = some n ∧ n ≤ maxLength := by
  constructor
  · intro hlaw
    have hread := (hlaw [("Content-Length".toList, "+5".toList)] (some 5)).mp (by decide)
    have hdigits := hread.2.2 "+5".toList (by decide)
    revert hdigits
    decide
  · intro hlaw
    have hread := (hlaw "\t+5 \r\n".toList 5).mp (by decide)
    revert hread
    decide

end Rsurl.Http
