/-
# `Rsurl.Ldap.Print` — the text of a filter, parsed back

RFC 4515 writes a filter with each group in parentheses.  Names of letters,
digits, dots, semicolons and hyphens, and values without a parenthesis, an
asterisk, a backslash or a control character, need no escapes there; what such a
filter is written as is parsed to the filter, as deep as the parser goes.
-/
import Rsurl.Ldap
import Rsurl.Text.Words

namespace Rsurl.Ldap

/-! ## The text of a filter -/

/-- The tokens of an extensible match in front of `:=`. -/
def extensibleTokens (matchingRule attrType : Option Text) (dnAttributes : Bool) : List Text :=
  attrType.getD [] :: ((if dnAttributes then ["dn".toList] else []) ++ matchingRule.toList)

mutual

/-- RFC 4515. -/
def Filter.text : Filter → Text
  | .and items => '(' :: '&' :: (Filter.texts items ++ [')'])
  | .or items => '(' :: '|' :: (Filter.texts items ++ [')'])
  | .not inner => '(' :: '!' :: (inner.text ++ [')'])
  | .equalityMatch attr value => '(' :: (attr ++ '=' :: (value ++ [')']))
  | .substrings attr initial any final =>
      '(' :: (attr ++ '=' ::
        (['*'].intercalate (initial.getD [] :: (any ++ [final.getD []])) ++ [')']))
  | .present attr => '(' :: (attr ++ ['=', '*', ')'])
  | .extensibleMatch matchingRule attrType matchValue dnAttributes =>
      '(' :: ([':'].intercalate (extensibleTokens matchingRule attrType dnAttributes) ++
        ':' :: '=' :: (matchValue ++ [')']))

def Filter.texts : List Filter → Text
  | [] => []
  | f :: items => f.text ++ Filter.texts items

end

mutual

/-- The groups around the innermost item. -/
def Filter.depth : Filter → Nat
  | .and items => 1 + Filter.depths items
  | .or items => 1 + Filter.depths items
  | .not inner => 1 + inner.depth
  | _ => 0

def Filter.depths : List Filter → Nat
  | [] => 0
  | f :: items => max f.depth (Filter.depths items)

end

def isNameChar (c : Char) : Bool := c.isAlphanum || c == '.' || c == ';' || c == '-'

/-- A name of an attribute or a rule. -/
def IsName (t : Text) : Prop := t ≠ [] ∧ ∀ c ∈ t, isNameChar c = true

/-- What a value is free of. -/
def isValueChar (c : Char) : Bool :=
  !(c == '(' || c == ')' || c == '*' || c == '\\' || c.toNat < 0x20 || c.toNat == 0x7F)

def IsValue (t : Text) : Prop := ∀ c ∈ t, isValueChar c = true

mutual

/-- A filter that is written without escapes. -/
inductive Filter.Plain : Filter → Prop
  | and {items : List Filter} (hsome : items ≠ []) (hitems : Filter.AllPlain items) :
      Filter.Plain (.and items)
  | or {items : List Filter} (hsome : items ≠ []) (hitems : Filter.AllPlain items) :
      Filter.Plain (.or items)
  | not {inner : Filter} (hinner : inner.Plain) : Filter.Plain (.not inner)
  | equalityMatch {attr value : Text} (hattr : IsName attr) (hvalue : IsValue value) :
      Filter.Plain (.equalityMatch attr value)
  | substrings {attr : Text} {initial : Option Text} {any : List Text} {final : Option Text}
      (hattr : IsName attr) (hsome : initial.toList ++ any ++ final.toList ≠ [])
      (hvalues : ∀ s ∈ initial.toList ++ any ++ final.toList, s ≠ [] ∧ IsValue s) :
      Filter.Plain (.substrings attr initial any final)
  | present {attr : Text} (hattr : IsName attr) : Filter.Plain (.present attr)
  | extensibleMatch {matchingRule attrType : Option Text} {matchValue : Text} {dnAttributes : Bool}
      (hsome : matchingRule ≠ none ∨ attrType ≠ none) (htype : ∀ t ∈ attrType, IsName t)
      (hrule : ∀ r ∈ matchingRule, IsName r ∧ r ≠ "dn".toList) (hvalue : IsValue matchValue) :
      Filter.Plain (.extensibleMatch matchingRule attrType matchValue dnAttributes)

inductive Filter.AllPlain : List Filter → Prop
  | nil : Filter.AllPlain []
  | cons {f : Filter} {items : List Filter} (hf : f.Plain) (hitems : Filter.AllPlain items) :
      Filter.AllPlain (f :: items)

end

/-! ## Characters and bytes -/

theorem mem_of_mem_utf8 {t : Text} {c : Char} (hc : c.toNat < 128)
    (h : UInt8.ofNat c.toNat ∈ t.utf8) : c ∈ t := by
  by_contra hno
  exact Text.not_mem_utf8 hc hno h

theorem isNameChar_ascii {c : Char} (h : isNameChar c = true) : c.toNat < 128 := by
  simp only [isNameChar, Bool.or_eq_true, beq_iff_eq] at h
  rcases h with ((h | rfl) | rfl) | rfl
  · rw [isAlphanum_iff, isAlpha_iff, isDigit_iff] at h
    omega
  all_goals decide

theorem isValueChar_of_isNameChar {c : Char} (h : isNameChar c = true) : isValueChar c = true := by
  have hall : ∀ n : Fin 128, isNameChar (Char.ofNat n.val) = true →
      isValueChar (Char.ofNat n.val) = true := by decide +kernel
  have hc := hall ⟨c.toNat, isNameChar_ascii h⟩
  rw [Char.ofNat_toNat] at hc
  exact hc h

theorem IsName.isValue {t : Text} (h : IsName t) : IsValue t :=
  fun c hc => isValueChar_of_isNameChar (h.2 c hc)

/-- A byte of a name, or of what a description is put together from, is no other character. -/
theorem not_desc_byte {t : Text} (h : ∀ c ∈ t, isNameChar c = true ∨ c = ':') {b : UInt8}
    (hb : b ∈ t.utf8) (c : Char) (hascii : c.toNat < 128) (hname : isNameChar c = false)
    (hcolon : c ≠ ':') : b ≠ UInt8.ofNat c.toNat := by
  rintro rfl
  rcases h c (mem_of_mem_utf8 hascii hb) with hc | hc
  · rw [hname] at hc
    cases hc
  · exact hcolon hc

/-- None of them ends the description. -/
theorem desc_bytes {t : Text} (h : ∀ c ∈ t, isNameChar c = true ∨ c = ':') {b : UInt8}
    (hb : b ∈ t.utf8) : ¬(b = 61 ∨ b = 41) ∧ ¬(b = 126 ∨ b = 60 ∨ b = 62) := by
  have hno := not_desc_byte h hb
  constructor
  · rintro (he | he)
    · exact hno '=' (by decide) rfl (by decide) he
    · exact hno ')' (by decide) rfl (by decide) he
  · rintro (he | he | he)
    · exact hno '~' (by decide) rfl (by decide) he
    · exact hno '<' (by decide) rfl (by decide) he
    · exact hno '>' (by decide) rfl (by decide) he

theorem rejectCtl_value {t : Text} (h : IsValue t) (what : String) : rejectCtl t what = .ok () := by
  have hnone : (t.utf8.find? fun b => b < 0x20 ∨ b = 0x7f) = none := by
    rw [List.find?_eq_none]
    intro b hb hbad
    obtain ⟨c, hc, hbytes⟩ := List.mem_flatMap.mp hb
    have hbad' : b.toNat < 0x20 ∨ b.toNat = 0x7F :=
      (of_decide_eq_true hbad).imp UInt8.lt_iff_toNat_lt.mp (congrArg UInt8.toNat)
    have hval := toNat_of_mem_utf8EncodeChar hbytes (by omega)
    have hchar := h c hc
    simp only [isValueChar, Bool.not_eq_true', Bool.or_eq_false_iff, decide_eq_false_iff_not,
      beq_eq_false_iff_ne] at hchar
    omega
  rw [rejectCtl, hnone]

/-! ## The parts of a filter -/

theorem readDesc_append {desc : Bytes}
    (h : ∀ b ∈ desc, ¬(b = 61 ∨ b = 41) ∧ ¬(b = 126 ∨ b = 60 ∨ b = 62)) (rest : Bytes) :
    readDesc (desc ++ 61 :: rest) = .ok (desc, 61 :: rest) := by
  induction desc with
  | nil => rfl
  | cons b desc ih =>
      obtain ⟨hend, hoperator⟩ := h b List.mem_cons_self
      rw [List.cons_append, readDesc, if_neg hend, if_neg hoperator,
        ih fun x hx => h x (List.mem_cons_of_mem _ hx)]
      rfl

theorem readValue_append {t : Text} (h : ')' ∉ t) (rest : Bytes) :
    readValue (t.utf8 ++ 41 :: rest) = .ok (t, 41 :: rest) := by
  have hclean : ∀ b ∈ t.utf8, decide (b ≠ 41) = true := by
    intro b hb
    refine decide_eq_true fun he => h (mem_of_mem_utf8 (c := ')') (by decide) ?_)
    subst he
    exact hb
  have htake : (t.utf8 ++ 41 :: rest).takeWhile (· ≠ 41) = t.utf8 := by
    rw [List.takeWhile_append_of_pos hclean]
    exact List.append_nil _
  have hdrop : (t.utf8 ++ 41 :: rest).dropWhile (· ≠ 41) = 41 :: rest := by
    rw [List.dropWhile_append_of_pos hclean]
    rfl
  rw [readValue, htake, hdrop, fromUtf8_utf8]

theorem readSegments_append {any : List Text} {final : Option Text}
    (hany : ∀ s ∈ any, s ≠ [] ∧ IsValue s) (hfinal : ∀ s ∈ final, s ≠ [] ∧ IsValue s) :
    readSegments (any ++ [final.getD []]) = .ok (any, final) := by
  induction any with
  | nil =>
      cases final with
      | none => rfl
      | some s =>
          obtain ⟨hne, hvalue⟩ := hfinal s rfl
          show readSegments [s] = _
          rw [readSegments, if_neg hne, rejectCtl_value hvalue]
          rfl
  | cons s any ih =>
      obtain ⟨hne, hvalue⟩ := hany s List.mem_cons_self
      have hrest : any ++ [final.getD []] ≠ [] := List.append_ne_nil_of_right_ne_nil _ (List.cons_ne_nil _ _)
      rw [List.cons_append, readSegments, if_neg hne, rejectCtl_value hvalue,
        ih fun x hx => hany x (List.mem_cons_of_mem _ hx)]
      · rfl
      · exact hrest

theorem readTokens_tokens {matchingRule : Option Text}
    (hrule : ∀ r ∈ matchingRule, IsName r ∧ r ≠ "dn".toList) (dnAttributes : Bool) :
    readTokens false none ((if dnAttributes then ["dn".toList] else []) ++ matchingRule.toList) =
      .ok (dnAttributes, matchingRule) := by
  cases matchingRule with
  | none => cases dnAttributes <;> rfl
  | some r =>
      obtain ⟨⟨hne, -⟩, hdn⟩ := hrule r rfl
      have hlast : ∀ d, readTokens d none [r] = .ok (d, some r) := fun d => by
        rw [readTokens, if_neg hdn, if_neg hne]
        rfl
      cases dnAttributes with
      | false => exact hlast false
      | true => exact hlast true

/-! ## Items -/

theorem expect_equals (rest : Bytes) : expect '=' (61 :: rest) = .ok rest := rfl

theorem expect_open (rest : Bytes) : expect '(' (40 :: rest) = .ok rest := rfl

/-- The first byte of a description opens no group. -/
theorem exists_cons_of_desc {t : Text} (hne : t ≠ []) (h : ∀ c ∈ t, isNameChar c = true ∨ c = ':') :
    ∃ b bytes, t.utf8 = b :: bytes ∧ b ≠ 38 ∧ b ≠ 124 ∧ b ≠ 33 := by
  obtain ⟨b, bytes, hbytes⟩ := List.exists_cons_of_ne_nil (mt Text.utf8_eq_nil.mp hne)
  have hno := not_desc_byte h (hbytes ▸ List.mem_cons_self)
  exact ⟨b, bytes, hbytes, hno '&' (by decide) rfl (by decide), hno '|' (by decide) rfl (by decide),
    hno '!' (by decide) rfl (by decide)⟩

theorem not_mem_of_isName {t : Text} (h : IsName t) {c : Char} (hc : isNameChar c = false) :
    c ∉ t := fun hmem => by
  rw [h.2 c hmem] at hc
  cases hc

theorem not_mem_of_isValue {t : Text} (h : IsValue t) {c : Char} (hc : isValueChar c = false) :
    c ∉ t := fun hmem => by
  rw [h c hmem] at hc
  cases hc

/-- An item that is no extensible match, up to its value. -/
theorem parseSimple_name {attr value : Text} (hattr : IsName attr) (hvalue : ')' ∉ value)
    (rest : Bytes) :
    parseSimple (attr.utf8 ++ 61 :: (value.utf8 ++ 41 :: rest)) =
      if value = ['*'] then .ok (.present attr, 41 :: rest)
      else if '*' ∈ value then
        (parseSubstrings attr (value.splitOn '*')).map fun f => (f, 41 :: rest)
      else .ok (.equalityMatch attr value, 41 :: rest) := by
  have hdesc := readDesc_append (fun b hb => desc_bytes (fun c hc => .inl (hattr.2 c hc)) hb)
    (value.utf8 ++ 41 :: rest)
  have hcolon : ':' ∉ attr := not_mem_of_isName hattr rfl
  rw [parseSimple, hdesc, Result.ok_bind]
  dsimp only
  rw [fromUtf8_utf8]
  dsimp only
  rw [expect_equals, Result.ok_bind, if_neg hcolon, readValue_append hvalue, Result.ok_bind]
  dsimp only
  split
  · rfl
  split
  · cases parseSubstrings attr (value.splitOn '*') <;> rfl
  · rfl

theorem intercalate_concat_nil {tokens : List Text} (h : tokens ≠ []) (c : Char) :
    [c].intercalate (tokens ++ [[]]) = [c].intercalate tokens ++ [c] := by
  induction tokens with
  | nil => exact absurd rfl h
  | cons t tokens ih =>
      cases tokens with
      | nil => simp
      | cons t' tokens =>
          rw [List.cons_append, List.intercalate_cons_of_ne_nil (by simp),
            List.intercalate_cons_of_ne_nil (List.cons_ne_nil _ _), ih (List.cons_ne_nil _ _)]
          simp only [List.append_assoc]

theorem mem_intercalate {ls : List Text} {c d : Char} (h : c ∈ [d].intercalate ls) :
    (∃ l ∈ ls, c ∈ l) ∨ c = d := by
  induction ls with
  | nil => cases h
  | cons l ls ih =>
      cases ls with
      | nil => exact .inl ⟨l, List.mem_cons_self, by simpa using h⟩
      | cons l' ls =>
          rw [List.intercalate_cons_cons, List.mem_append, List.mem_append] at h
          rcases h with (h | h) | h
          · exact .inl ⟨l, List.mem_cons_self, h⟩
          · exact .inr (List.mem_singleton.mp h)
          · exact (ih h).imp_left fun ⟨m, hm, hc⟩ => ⟨m, List.mem_cons_of_mem _ hm, hc⟩

section Extensible

variable {matchingRule attrType : Option Text} (htype : ∀ t ∈ attrType, IsName t)
  (hrule : ∀ r ∈ matchingRule, IsName r ∧ r ≠ "dn".toList) (dnAttributes : Bool)
include htype hrule

theorem name_of_mem_tokens {t : Text} (h : t ∈ extensibleTokens matchingRule attrType dnAttributes) :
    ∀ c ∈ t, isNameChar c = true := by
  rcases List.mem_cons.mp h with rfl | h
  · cases attrType with
    | none => exact nofun
    | some t => exact (htype t rfl).2
  rcases List.mem_append.mp h with h | h
  · cases dnAttributes with
    | false => cases h
    | true =>
        obtain rfl := List.mem_singleton.mp h
        exact List.all_eq_true.mp (by decide)
  · exact (hrule t (Option.mem_toList.mp h)).1.2

theorem split_description :
    (([':'].intercalate (extensibleTokens matchingRule attrType dnAttributes) ++ [':']).splitOn ':' :
      List Text) = extensibleTokens matchingRule attrType dnAttributes ++ [[]] := by
  have hne : extensibleTokens matchingRule attrType dnAttributes ≠ [] := List.cons_ne_nil _ _
  rw [← intercalate_concat_nil hne]
  refine List.splitOn_intercalate ':' (fun t ht hcolon => ?_) (by simp)
  rcases List.mem_append.mp ht with ht | ht
  · have hname := name_of_mem_tokens htype hrule dnAttributes ht ':' hcolon
    cases hname
  · rw [List.mem_singleton.mp ht] at hcolon
    cases hcolon

theorem parseExtensible_tokens (hsome : matchingRule ≠ none ∨ attrType ≠ none) {matchValue : Text}
    (hvalue : IsValue matchValue) (rest : Bytes) :
    parseExtensible
        ([':'].intercalate (extensibleTokens matchingRule attrType dnAttributes) ++ [':'])
        (matchValue.utf8 ++ 41 :: rest) =
      .ok (.extensibleMatch matchingRule attrType matchValue dnAttributes, 41 :: rest) := by
  have hread := readValue_append (not_mem_of_isValue hvalue rfl) rest
  have hattr : (if attrType.getD [] = [] then none else some (attrType.getD [])) = attrType := by
    cases attrType with
    | none => rfl
    | some t => exact if_neg (htype t rfl).1
  have hneeds : (attrType.isNone && matchingRule.isNone) = false := by
    cases matchingRule with
    | some r => exact Bool.and_false _
    | none =>
        cases attrType with
        | some t => rfl
        | none => exact absurd hsome (by simp)
  have hctlType : ∀ what, rejectCtlOpt attrType what = .ok () := by
    intro what
    cases attrType with
    | none => rfl
    | some t => exact rejectCtl_value (htype t rfl).isValue what
  have hctlRule : ∀ what, rejectCtlOpt matchingRule what = .ok () := by
    intro what
    cases matchingRule with
    | none => rfl
    | some r => exact rejectCtl_value (hrule r rfl).1.isValue what
  rw [parseExtensible, split_description htype hrule]
  dsimp only
  rw [List.getLast?_concat, List.dropLast_concat, if_neg (not_not_intro rfl), extensibleTokens]
  dsimp only
  rw [hattr, readTokens_tokens hrule, Result.ok_bind]
  dsimp only
  rw [hneeds, if_neg Bool.false_ne_true, hread, Result.ok_bind]
  dsimp only
  rw [rejectCtl_value hvalue, hctlType, hctlRule]
  rfl

theorem description_chars :
    ∀ c ∈ [':'].intercalate (extensibleTokens matchingRule attrType dnAttributes) ++ [':'],
      isNameChar c = true ∨ c = ':' := by
  intro c hc
  rcases List.mem_append.mp hc with hc | hc
  · exact (mem_intercalate hc).imp_left fun ⟨t, ht, hc⟩ =>
      name_of_mem_tokens htype hrule dnAttributes ht c hc
  · exact .inr (List.mem_singleton.mp hc)

theorem parseSimple_extensible (hsome : matchingRule ≠ none ∨ attrType ≠ none) {matchValue : Text}
    (hvalue : IsValue matchValue) (rest : Bytes) :
    parseSimple (Text.utf8 ([':'].intercalate
        (extensibleTokens matchingRule attrType dnAttributes) ++ [':']) ++
        61 :: (matchValue.utf8 ++ 41 :: rest)) =
      .ok (.extensibleMatch matchingRule attrType matchValue dnAttributes, 41 :: rest) := by
  have hcolon : ':' ∈ [':'].intercalate (extensibleTokens matchingRule attrType dnAttributes) ++ [':'] :=
    List.mem_append_right _ List.mem_cons_self
  have hdesc := readDesc_append (fun b hb => desc_bytes
    (description_chars htype hrule dnAttributes) hb) (matchValue.utf8 ++ 41 :: rest)
  rw [parseSimple, hdesc, Result.ok_bind]
  dsimp only
  rw [fromUtf8_utf8]
  dsimp only
  rw [expect_equals, Result.ok_bind, if_pos hcolon]
  exact parseExtensible_tokens htype hrule dnAttributes hsome hvalue rest

end Extensible

/-- A substrings filter has its components back. -/
theorem parseSubstrings_segments {attr : Text} {initial : Option Text} {any : List Text}
    {final : Option Text}
    (hvalues : ∀ s ∈ initial.toList ++ any ++ final.toList, s ≠ [] ∧ IsValue s) :
    parseSubstrings attr (initial.getD [] :: (any ++ [final.getD []])) =
      .ok (.substrings attr initial any final) := by
  have hread : readSegments (any ++ [final.getD []]) = .ok (any, final) :=
    readSegments_append (fun s hs => hvalues s (by simp [hs])) fun s hs =>
      hvalues s (by simp [Option.mem_def.mp hs])
  cases initial with
  | none =>
      have hfirst : (none : Option Text).getD [] = [] := rfl
      rw [parseSubstrings, if_pos hfirst, hread]
      rfl
  | some s =>
      obtain ⟨hne, hvalue⟩ := hvalues s (by simp)
      have hfirst : ¬(some s).getD [] = [] := hne
      rw [parseSubstrings, if_neg hfirst, Option.getD_some, rejectCtl_value hvalue, Result.ok_bind,
        hread]
      rfl

/-- What is written for the components is no single asterisk. -/
theorem segments_value {initial : Option Text} {any : List Text} {final : Option Text}
    (hsome : initial.toList ++ any ++ final.toList ≠ [])
    (hvalues : ∀ s ∈ initial.toList ++ any ++ final.toList, s ≠ [] ∧ IsValue s) :
    let value := ['*'].intercalate (initial.getD [] :: (any ++ [final.getD []]))
    ')' ∉ value ∧ value ≠ ['*'] ∧ '*' ∈ value ∧
      value.splitOn '*' = initial.getD [] :: (any ++ [final.getD []]) := by
  intro value
  have hgetD : ∀ {s : Option Text}, (∀ t ∈ s, IsValue t) → ∀ c ∈ s.getD [], isValueChar c = true := by
    intro s hs
    cases s with
    | none => exact nofun
    | some t => exact hs t rfl
  have hclean : ∀ t ∈ initial.getD [] :: (any ++ [final.getD []]), ∀ c ∈ t, isValueChar c = true := by
    intro t ht
    rcases List.mem_cons.mp ht with rfl | ht
    · exact hgetD fun t ht => (hvalues t (by simp [Option.mem_def.mp ht])).2
    rcases List.mem_append.mp ht with ht | ht
    · exact (hvalues t (by simp [ht])).2
    · rw [List.mem_singleton.mp ht]
      exact hgetD fun t ht => (hvalues t (by simp [Option.mem_def.mp ht])).2
  have hsplit : value.splitOn '*' = initial.getD [] :: (any ++ [final.getD []]) :=
    List.splitOn_intercalate '*' (fun t ht hstar => by cases hclean t ht '*' hstar) (by simp)
  refine ⟨fun hparen => ?_, fun hstar => ?_, ?_, hsplit⟩
  · rcases mem_intercalate hparen with ⟨t, ht, hc⟩ | hc
    · cases hclean t ht ')' hc
    · cases hc
  · -- a lone asterisk has nothing on either side
    rw [hstar] at hsplit
    obtain ⟨hfirst, hrest⟩ := List.cons.inj (hsplit.symm : _ = [[], []])
    cases any with
    | cons t any => cases any <;> cases hrest
    | nil =>
        obtain ⟨hlast, -⟩ := List.cons.inj hrest
        have hnone : ∀ {s : Option Text}, (∀ t ∈ s, t ≠ []) → s.getD [] = [] → s = none := by
          intro s hs hnil
          cases s with
          | none => rfl
          | some t => exact absurd hnil (hs t rfl)
        have hinitial := hnone (fun t ht => (hvalues t (by simp [Option.mem_def.mp ht])).1) hfirst
        have hfinal := hnone (fun t ht => (hvalues t (by simp [Option.mem_def.mp ht])).1) hlast
        rw [hinitial, hfinal] at hsome
        exact hsome rfl
  · have hrest : any ++ [final.getD []] ≠ [] :=
      List.append_ne_nil_of_right_ne_nil _ (List.cons_ne_nil _ _)
    show '*' ∈ ['*'].intercalate (initial.getD [] :: (any ++ [final.getD []]))
    rw [List.intercalate_cons_of_ne_nil hrest]
    simp

/-! ## The whole filter -/

theorem parse_simple {levels : Nat} {f : Filter} {b : UInt8} {bytes rest : Bytes}
    (h : parseSimple (b :: bytes) = .ok (f, 41 :: rest)) (hb : b ≠ 38 ∧ b ≠ 124 ∧ b ≠ 33) :
    parse (levels + 1) (40 :: b :: bytes) = .ok (f, rest) := by
  rw [parse, expect_open, Result.ok_bind]
  dsimp only
  split
  · next heq => exact absurd (List.cons.inj heq).1 hb.1
  · next heq => exact absurd (List.cons.inj heq).1 hb.2.1
  · next heq => exact absurd (List.cons.inj heq).1 hb.2.2
  · rw [h]
    rfl
  · next heq => cases heq

theorem parse_and {levels : Nat} {items : List Filter} {bytes rest : Bytes}
    (h : parseItems (parse levels) bytes = .ok (items, 41 :: rest)) :
    parse (levels + 1) (40 :: 38 :: bytes) = .ok (.and items, rest) := by
  rw [parse, expect_open, Result.ok_bind]
  change (parseItems (parse levels) bytes >>= _) = _
  rw [h]
  rfl

theorem parse_or {levels : Nat} {items : List Filter} {bytes rest : Bytes}
    (h : parseItems (parse levels) bytes = .ok (items, 41 :: rest)) :
    parse (levels + 1) (40 :: 124 :: bytes) = .ok (.or items, rest) := by
  rw [parse, expect_open, Result.ok_bind]
  change (parseItems (parse levels) bytes >>= _) = _
  rw [h]
  rfl

theorem parse_not {levels : Nat} {inner : Filter} {bytes rest : Bytes}
    (h : parse levels bytes = .ok (inner, 41 :: rest)) :
    parse (levels + 1) (40 :: 33 :: bytes) = .ok (.not inner, rest) := by
  rw [parse, expect_open, Result.ok_bind]
  change (parse levels bytes >>= _) = _
  rw [h]
  rfl

/-- A group or an item begins with a parenthesis. -/
theorem Filter.exists_text (f : Filter) : ∃ t : Text, f.text = '(' :: t := by
  cases f <;> exact ⟨_, by rw [Filter.text]⟩

theorem utf8_group (c : Char) (hc : c.toNat < 128) (t : Text) (rest : Bytes) :
    Text.utf8 ('(' :: c :: (t ++ [')'])) ++ rest =
      40 :: UInt8.ofNat c.toNat :: (t.utf8 ++ 41 :: rest) := by
  rw [utf8_cons_ascii (by decide), utf8_cons_ascii hc, Text.utf8_append, List.cons_append,
    List.cons_append, List.append_assoc]
  rfl

theorem utf8_item (desc value : Text) (rest : Bytes) :
    Text.utf8 ('(' :: (desc ++ '=' :: (value ++ [')']))) ++ rest =
      40 :: (desc.utf8 ++ 61 :: (value.utf8 ++ 41 :: rest)) := by
  rw [utf8_cons_ascii (by decide), Text.utf8_append, utf8_cons_ascii (by decide), Text.utf8_append,
    List.cons_append, List.append_assoc, List.cons_append, List.append_assoc]
  rfl

/-- An item whose description begins like a name. -/
theorem parse_item {levels : Nat} {f : Filter} {desc value : Text} (hne : desc ≠ [])
    (hdesc : ∀ c ∈ desc, isNameChar c = true ∨ c = ':') {rest : Bytes}
    (h : parseSimple (desc.utf8 ++ 61 :: (value.utf8 ++ 41 :: rest)) = .ok (f, 41 :: rest)) :
    parse (levels + 1) (Text.utf8 ('(' :: (desc ++ '=' :: (value ++ [')']))) ++ rest) =
      .ok (f, rest) := by
  obtain ⟨b, bytes, hbytes, hfirst⟩ := exists_cons_of_desc hne hdesc
  rw [hbytes, List.cons_append] at h
  rw [utf8_item, hbytes, List.cons_append]
  exact parse_simple h hfirst

theorem length_texts_le (fs : List Filter) : fs.length ≤ (Filter.texts fs).utf8.length := by
  induction fs with
  | nil => exact Nat.zero_le _
  | cons f fs ih =>
      obtain ⟨t, ht⟩ := f.exists_text
      rw [Filter.texts, ht, Text.utf8_append, utf8_cons_ascii (by decide), List.length_append,
        List.length_cons, List.length_cons]
      omega

mutual

/-- A filter is parsed where there are levels enough, and what is behind it is left. -/
theorem parse_text : ∀ {f : Filter}, f.Plain → ∀ {levels : Nat}, f.depth ≤ levels → ∀ rest : Bytes,
    parse (levels + 1) (f.text.utf8 ++ rest) = .ok (f, rest)
  | .and items, .and hsome hitems, levels, hdepth, rest => by
      rw [Filter.depth] at hdepth
      obtain ⟨levels, rfl⟩ : ∃ n, levels = n + 1 := ⟨levels - 1, by omega⟩
      rw [Filter.text, utf8_group '&' (by decide)]
      exact parse_and (parseItems_texts hsome hitems (by omega) rest)
  | .or items, .or hsome hitems, levels, hdepth, rest => by
      rw [Filter.depth] at hdepth
      obtain ⟨levels, rfl⟩ : ∃ n, levels = n + 1 := ⟨levels - 1, by omega⟩
      rw [Filter.text, utf8_group '|' (by decide)]
      exact parse_or (parseItems_texts hsome hitems (by omega) rest)
  | .not inner, .not hinner, levels, hdepth, rest => by
      rw [Filter.depth] at hdepth
      obtain ⟨levels, rfl⟩ : ∃ n, levels = n + 1 := ⟨levels - 1, by omega⟩
      rw [Filter.text, utf8_group '!' (by decide)]
      exact parse_not (parse_text hinner (by omega) (41 :: rest))
  | .equalityMatch attr value, .equalityMatch hattr hvalue, levels, _, rest => by
      have hstar : '*' ∉ value := not_mem_of_isValue hvalue rfl
      have hlone : value ≠ ['*'] := fun he => hstar (he ▸ List.mem_cons_self)
      refine parse_item hattr.1 (fun c hc => .inl (hattr.2 c hc)) ?_
      rw [parseSimple_name hattr (not_mem_of_isValue hvalue rfl), if_neg hlone, if_neg hstar]
  | .substrings attr initial any final, .substrings hattr hsome hvalues, levels, _, rest => by
      obtain ⟨hparen, hlone, hstar, hsplit⟩ := segments_value hsome hvalues
      refine parse_item hattr.1 (fun c hc => .inl (hattr.2 c hc)) ?_
      rw [parseSimple_name hattr hparen, if_neg hlone, if_pos hstar, hsplit,
        parseSubstrings_segments hvalues]
      rfl
  | .present attr, .present hattr, levels, _, rest => by
      refine @parse_item levels _ attr ['*'] hattr.1 (fun c hc => .inl (hattr.2 c hc)) rest ?_
      rw [parseSimple_name hattr (by decide), if_pos rfl]
  | .extensibleMatch matchingRule attrType matchValue dnAttributes,
      .extensibleMatch hsome htype hrule hvalue, levels, _, rest => by
      have hparsed := @parse_item levels _ _ _
        (List.append_ne_nil_of_right_ne_nil _ (List.cons_ne_nil _ _))
        (description_chars htype hrule dnAttributes) _
        (parseSimple_extensible htype hrule dnAttributes hsome hvalue rest)
      rwa [List.append_assoc] at hparsed

theorem parseItems_texts : ∀ {fs : List Filter}, fs ≠ [] → Filter.AllPlain fs → ∀ {levels : Nat},
    Filter.depths fs ≤ levels → ∀ rest : Bytes,
    parseItems (parse (levels + 1)) ((Filter.texts fs).utf8 ++ 41 :: rest) = .ok (fs, 41 :: rest)
  | fs, hsome, hall, levels, hdepth, rest => by
      have hfuel : fs.length ≤ ((Filter.texts fs).utf8 ++ 41 :: rest).length := by
        rw [List.length_append]
        exact (length_texts_le fs).trans (Nat.le_add_right _ _)
      rw [parseItems, parseList_texts hall hdepth hfuel rest, Result.ok_bind]
      exact if_neg hsome

theorem parseList_texts : ∀ {fs : List Filter}, Filter.AllPlain fs → ∀ {levels : Nat},
    Filter.depths fs ≤ levels → ∀ {fuel : Nat}, fs.length ≤ fuel → ∀ rest : Bytes,
    parseList (parse (levels + 1)) fuel ((Filter.texts fs).utf8 ++ 41 :: rest) = .ok (fs, 41 :: rest)
  | [], .nil, levels, _, fuel, _, rest => by
      cases fuel <;> rfl
  | f :: fs, .cons hf hall, levels, hdepth, fuel, hfuel, rest => by
      obtain ⟨fuel, rfl⟩ : ∃ n, fuel = n + 1 := ⟨fuel - 1, by rw [List.length_cons] at hfuel; omega⟩
      rw [Filter.depths] at hdepth
      have hhead : ((Filter.texts (f :: fs)).utf8 ++ 41 :: rest).head? = some 40 := by
        obtain ⟨t, ht⟩ := f.exists_text
        rw [Filter.texts, ht, Text.utf8_append, utf8_cons_ascii (by decide)]
        rfl
      rw [parseList, if_pos hhead, Filter.texts, Text.utf8_append, List.append_assoc,
        parse_text hf (by omega), Result.ok_bind]
      dsimp only
      rw [parseList_texts hall (by omega) (Nat.le_of_succ_le_succ hfuel) rest]
      rfl

end

/-- The text of a filter is parsed to the filter, up to the depth the parser allows. -/
theorem parseFilter_text {f : Filter} (hf : f.Plain) (hdepth : f.depth ≤ maxFilterDepth) :
    parseFilter f.text = .ok f := by
  have hparse := parse_text hf hdepth []
  rw [List.append_nil] at hparse
  rw [parseFilter, hparse, Result.ok_bind]
  rfl

/-- Two groups, a substrings filter with nothing in front, and a rule without a type. -/
theorem parseFilter_text_sample :
    let f : Filter := .and [.not (.substrings "cn".toList none ["a".toList] (some "b c".toList)),
      .extensibleMatch (some "2.5".toList) none "v=1".toList true]
    f.text = "(&(!(cn=*a*b c))(:dn:2.5:=v=1))".toList ∧ parseFilter f.text = .ok f := by
  have hname : ∀ t : Text, t ≠ [] → t.all isNameChar = true → IsName t :=
    fun t hne h => ⟨hne, List.all_eq_true.mp h⟩
  have hvalue : ∀ t : Text, t.all isValueChar = true → IsValue t := fun t => List.all_eq_true.mp
  have hsubstrings : Filter.Plain
      (.substrings "cn".toList none ["a".toList] (some "b c".toList)) := by
    refine .substrings (hname _ (by decide) (by decide)) (by decide) ?_
    rintro s (_ | ⟨_, _ | ⟨_, hs⟩⟩)
    · exact ⟨by decide, hvalue _ (by decide)⟩
    · exact ⟨by decide, hvalue _ (by decide)⟩
    · cases hs
  have hrule : Filter.Plain (.extensibleMatch (some "2.5".toList) none "v=1".toList true) := by
    refine .extensibleMatch (.inl (by decide)) (fun t ht => by cases ht) ?_ (hvalue _ (by decide))
    rintro r ⟨rfl⟩
    exact ⟨hname _ (by decide) (by decide), by decide⟩
  refine ⟨by decide, parseFilter_text (.and (by decide) ?_) (by decide)⟩
  exact .cons (.not hsubstrings) (.cons hrule .nil)

end Rsurl.Ldap
