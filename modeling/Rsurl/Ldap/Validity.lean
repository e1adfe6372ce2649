/-
# `Rsurl.Ldap.Validity` — the filters that are valid on the wire

RFC 4511 asks for an item in every set, a name in every assertion and a
component in every substrings filter.  The parser looks for the first in a set,
and for a type or a rule in an extensible match.  It does not look at the other
descriptions, and a value of asterisks alone leaves no component: the filters
with such an item are parsed, and what is written for them is no filter.
-/
import Mathlib.Data.Bool.AllAny
import Rsurl.Ldap.Print
import Rsurl.Ldap.Request
import Rsurl.Text.Fields

namespace Rsurl.Ldap

open Base.Ber

/-! ## Filters on the wire -/

/-- A field that may be left out. -/
def optional (tag : UInt8) (value : Option Bytes) : List Node := (value.map (.primitive tag)).toList

/-- The components of a substrings filter: at least one, what is initial first and what is final
last. -/
def IsComponents (subs : List Node) : Prop :=
  subs ≠ [] ∧ ∃ (initial : Option Bytes) (any : List Bytes) (final : Option Bytes),
    subs = optional (Tag.ctx 0 false) initial ++ (any.map (.primitive (Tag.ctx 1 false)) ++
      optional (Tag.ctx 2 false) final)

/-- The fields of an extensible match: a type or a rule, none of them empty, and the value. -/
def IsRuleAssertion (items : List Node) : Prop :=
  ∃ (rule type : Option Bytes) (value : Bytes) (dn : Bool),
    items = optional (Tag.ctx 1 false) rule ++ (optional (Tag.ctx 2 false) type ++
      .primitive (Tag.ctx 3 false) value ::
        if dn then [.primitive (Tag.ctx 4 false) [0xff]] else []) ∧
    (rule ≠ none ∨ type ≠ none) ∧ rule ≠ some [] ∧ type ≠ some []

/-- The tags of the filters that are an attribute and a value: equality, the two orders, and the
approximate match. -/
def assertionTags : List UInt8 := [Tag.ctx 3 true, Tag.ctx 5 true, Tag.ctx 6 true, Tag.ctx 8 true]

/-- `Filter` of RFC 4511. -/
inductive IsFilter : Node → Prop
  | set {tag : UInt8} {items : List Node} (htag : tag ∈ [Tag.ctx 0 true, Tag.ctx 1 true])
      (hsome : items ≠ []) (hitems : ∀ n ∈ items, IsFilter n) : IsFilter (.constructed tag items)
  | not {n : Node} (h : IsFilter n) : IsFilter (.constructed (Tag.ctx 2 true) [n])
  | assertion {tag : UInt8} {attr value : Bytes} (htag : tag ∈ assertionTags) (hattr : attr ≠ []) :
      IsFilter (.constructed tag
        [.primitive Tag.octetString attr, .primitive Tag.octetString value])
  | substrings {attr : Bytes} {subs : List Node} (hattr : attr ≠ []) (hsubs : IsComponents subs) :
      IsFilter (.constructed (Tag.ctx 4 true)
        [.primitive Tag.octetString attr, .constructed Tag.sequence subs])
  | present {attr : Bytes} (hattr : attr ≠ []) : IsFilter (.primitive (Tag.ctx 7 false) attr)
  | extensibleMatch {items : List Node} (h : IsRuleAssertion items) :
      IsFilter (.constructed (Tag.ctx 9 true) items)

/-- Bytes that are a filter and nothing else. -/
def IsEncodedFilter (bytes : Bytes) : Prop := ∃ n, IsNode n bytes ∧ IsFilter n

/-! ## The items of a text

An item begins at a parenthesis that opens no group; its description goes up to
the equals sign, its value to the parenthesis behind. -/

inductive Place where
  | outside
  | opened
  | description (desc : Bytes)
  | value (desc value : Bytes)

/-- The descriptions and values of a filter, from the first to the last. -/
def simples : Place → Bytes → List (Bytes × Bytes)
  | _, [] => []
  | .outside, b :: r => if b = 40 then simples .opened r else simples .outside r
  | .opened, b :: r =>
      if b = 38 ∨ b = 124 ∨ b = 33 then simples .outside r
      else if b = 61 then simples (.value [] []) r
      else simples (.description [b]) r
  | .description desc, b :: r =>
      if b = 61 then simples (.value desc []) r else simples (.description (desc ++ [b])) r
  | .value desc value, b :: r =>
      if b = 41 then (desc, value) :: simples .outside r else simples (.value desc (value ++ [b])) r

/-- Two or more asterisks and nothing else. -/
def OnlyAsterisks (value : Bytes) : Prop := 2 ≤ value.length ∧ ∀ b ∈ value, b = 42

instance (value : Bytes) : Decidable (OnlyAsterisks value) := inferInstanceAs (Decidable (_ ∧ _))

/-- An extensible match, or a name with a value that is not asterisks alone. -/
def IsSoundItem (item : Bytes × Bytes) : Prop :=
  58 ∈ item.1 ∨ item.1 ≠ [] ∧ ¬ OnlyAsterisks item.2

instance (item : Bytes × Bytes) : Decidable (IsSoundItem item) :=
  inferInstanceAs (Decidable (_ ∨ _))

theorem simples_value (desc value more rest : Bytes) (h : 41 ∉ more) :
    simples (.value desc value) (more ++ 41 :: rest) = (desc, value ++ more) :: simples .outside rest := by
  induction more generalizing value with
  | nil => rw [List.nil_append, simples, if_pos rfl, List.append_nil]
  | cons b more ih =>
      obtain ⟨hb, hmore⟩ := List.ne_and_not_mem_of_not_mem_cons h
      rw [List.cons_append, simples, if_neg (Ne.symm hb), ih _ hmore, List.append_assoc]
      rfl

theorem simples_description (desc more rest : Bytes) (h : 61 ∉ more) :
    simples (.description desc) (more ++ 61 :: rest) = simples (.value (desc ++ more) []) rest := by
  induction more generalizing desc with
  | nil => rw [List.nil_append, simples, if_pos rfl, List.append_nil]
  | cons b more ih =>
      obtain ⟨hb, hmore⟩ := List.ne_and_not_mem_of_not_mem_cons h
      rw [List.cons_append, simples, if_neg (Ne.symm hb), ih _ hmore, List.append_assoc]
      rfl

/-- An item in the text is an item of it. -/
theorem simples_item {desc value : Bytes} (hdesc : 61 ∉ desc) (hvalue : 41 ∉ value)
    (hopen : ∀ b ∈ desc.head?, ¬(b = 38 ∨ b = 124 ∨ b = 33)) (rest : Bytes) :
    simples .opened (desc ++ 61 :: (value ++ 41 :: rest)) = (desc, value) :: simples .outside rest := by
  cases desc with
  | nil =>
      rw [List.nil_append, simples, if_neg (by decide), if_pos rfl, simples_value _ _ _ _ hvalue,
        List.nil_append]
  | cons b desc =>
      obtain ⟨hb, hmore⟩ := List.ne_and_not_mem_of_not_mem_cons hdesc
      rw [List.cons_append, simples, if_neg (hopen b rfl), if_neg (Ne.symm hb),
        simples_description _ _ _ hmore, simples_value _ _ _ _ hvalue]
      rfl

/-! ## The tree of a filter -/

theorem isFilter_set_iff {tag : UInt8} (htag : tag ∈ [Tag.ctx 0 true, Tag.ctx 1 true])
    {items : List Node} :
    IsFilter (.constructed tag items) ↔ items ≠ [] ∧ ∀ n ∈ items, IsFilter n := by
  refine ⟨fun h => ?_, fun h => .set htag h.1 h.2⟩
  cases h with
  | set _ hsome hitems => exact ⟨hsome, hitems⟩
  | assertion hassert _ =>
      have hdisjoint : ∀ tag ∈ assertionTags, tag ∉ [Tag.ctx 0 true, Tag.ctx 1 true] :=
        List.all_iff_forall_prop.mp (by decide)
      exact absurd htag (hdisjoint _ hassert)
  | not | substrings | extensibleMatch => exact absurd htag (by decide)

theorem mem_nodes {fs : List Filter} {n : Node} :
    n ∈ Filter.nodes fs ↔ ∃ f ∈ fs, f.node = n := by
  induction fs with
  | nil => simp [Filter.nodes]
  | cons f fs ih => simp [Filter.nodes, ih, eq_comm]

theorem nodes_eq_nil {fs : List Filter} : Filter.nodes fs = [] ↔ fs = [] := by
  cases fs <;> simp [Filter.nodes]

/-- A set of filters is one where it has an item and all are. -/
theorem isFilter_items_iff {tag : UInt8} (htag : tag ∈ [Tag.ctx 0 true, Tag.ctx 1 true])
    {fs : List Filter} :
    IsFilter (.constructed tag (Filter.nodes fs)) ↔ fs ≠ [] ∧ ∀ f ∈ fs, IsFilter f.node := by
  rw [isFilter_set_iff htag, Ne, nodes_eq_nil]
  simp only [mem_nodes, forall_exists_index, and_imp, forall_apply_eq_imp_iff₂]

theorem isFilter_not_iff {f : Filter} : IsFilter (Filter.not f).node ↔ IsFilter f.node := by
  rw [Filter.node]
  refine ⟨fun h => ?_, .not⟩
  generalize hn : Node.constructed (Tag.ctx 2 true) [f.node] = n at h
  cases h with
  | not h => rwa [(List.cons.inj (Node.constructed.inj hn).2).1]
  | set hset => exact absurd ((Node.constructed.inj hn).1 ▸ hset) (by decide)
  | assertion hassert => exact absurd ((Node.constructed.inj hn).1 ▸ hassert) (by decide)
  | substrings | extensibleMatch => exact absurd (Node.constructed.inj hn).1 (by decide)
  | present => cases hn

theorem isFilter_equalityMatch_iff {attr value : Text} :
    IsFilter (Filter.equalityMatch attr value).node ↔ attr.utf8 ≠ [] := by
  rw [Filter.node]
  refine ⟨fun h => ?_, fun h => .assertion (by decide) h⟩
  generalize htag : Tag.ctx 3 true = tag at h
  cases h with
  | set hset => exact absurd (htag ▸ hset) (by decide)
  | assertion _ hattr => exact hattr
  | extensibleMatch => exact absurd htag (by decide)

theorem isFilter_present_iff {attr : Text} :
    IsFilter (Filter.present attr).node ↔ attr.utf8 ≠ [] := by
  rw [Filter.node]
  refine ⟨fun h => ?_, .present⟩
  cases h with
  | present hattr => exact hattr

theorem optNodes_eq_optional (tag : UInt8) (s : Option Text) :
    optNodes tag s = optional tag (s.map Text.utf8) := by
  rw [optional, Option.map_map]
  rfl

theorem segmentNodes_eq (initial : Option Text) (any : List Text) (final : Option Text) :
    segmentNodes initial any final =
      optional (Tag.ctx 0 false) (initial.map Text.utf8) ++
        ((any.map Text.utf8).map (.primitive (Tag.ctx 1 false)) ++
          optional (Tag.ctx 2 false) (final.map Text.utf8)) := by
  rw [segmentNodes, optNodes_eq_optional, optNodes_eq_optional, List.map_map]
  rfl

theorem segmentNodes_eq_nil {initial : Option Text} {any : List Text} {final : Option Text} :
    segmentNodes initial any final = [] ↔ initial = none ∧ any = [] ∧ final = none := by
  simp [segmentNodes, optNodes]

theorem isComponents_iff {initial : Option Text} {any : List Text} {final : Option Text} :
    IsComponents (segmentNodes initial any final) ↔ ¬(initial = none ∧ any = [] ∧ final = none) := by
  refine (and_iff_left ?_).trans (not_congr segmentNodes_eq_nil)
  exact ⟨initial.map Text.utf8, any.map Text.utf8, final.map Text.utf8, segmentNodes_eq _ _ _⟩

theorem isFilter_substrings_iff {attr : Text} {initial : Option Text} {any : List Text}
    {final : Option Text} :
    IsFilter (Filter.substrings attr initial any final).node ↔
      attr.utf8 ≠ [] ∧ ¬(initial = none ∧ any = [] ∧ final = none) := by
  rw [Filter.node, ← isComponents_iff]
  refine ⟨fun h => ?_, fun h => .substrings h.1 h.2⟩
  generalize htag : Tag.ctx 4 true = tag at h
  cases h with
  | set hset => exact absurd (htag ▸ hset) (by decide)
  | substrings hattr hsubs => exact ⟨hattr, hsubs⟩
  | extensibleMatch => exact absurd htag (by decide)

theorem isFilter_extensibleMatch {matchingRule attrType : Option Text} (matchValue : Text)
    (dnAttributes : Bool) (hsome : matchingRule ≠ none ∨ attrType ≠ none)
    (hrule : matchingRule ≠ some []) (htype : attrType ≠ some []) :
    IsFilter (Filter.extensibleMatch matchingRule attrType matchValue dnAttributes).node := by
  have hne : ∀ {t : Option Text}, t ≠ some [] → t.map Text.utf8 ≠ some [] := by
    intro t ht hmap
    obtain ⟨t, rfl, hnil⟩ := Option.map_eq_some_iff.mp hmap
    exact ht (congrArg some (Text.utf8_eq_nil.mp hnil))
  rw [Filter.node]
  refine .extensibleMatch ⟨matchingRule.map Text.utf8, attrType.map Text.utf8, matchValue.utf8,
    dnAttributes, ?_, by simpa using hsome, hne hrule, hne htype⟩
  rw [ruleNodes, optNodes_eq_optional, optNodes_eq_optional]
  rfl

/-! ## What the parser accepts -/

theorem expect_eq_ok {c : Char} {r rest : Bytes} (h : expect c r = .ok rest) :
    r = UInt8.ofNat c.toNat :: rest := by
  cases r with
  | nil => cases h
  | cons b r =>
      by_cases hb : b = UInt8.ofNat c.toNat
      · rw [expect, if_pos hb] at h
        cases h
        rw [hb]
      · rw [expect, if_neg hb] at h
        cases h

theorem readDesc_eq_ok {r desc rest : Bytes} (h : readDesc r = .ok (desc, rest)) :
    r = desc ++ rest ∧ 61 ∉ desc := by
  induction r generalizing desc with
  | nil =>
      cases h
      exact ⟨rfl, List.not_mem_nil⟩
  | cons b r ih =>
      by_cases hend : b = 61 ∨ b = 41
      · rw [readDesc, if_pos hend] at h
        cases h
        exact ⟨rfl, List.not_mem_nil⟩
      by_cases hoperator : b = 126 ∨ b = 60 ∨ b = 62
      · rw [readDesc, if_neg hend, if_pos hoperator] at h
        cases h
      rw [readDesc, if_neg hend, if_neg hoperator] at h
      obtain ⟨⟨more, rest'⟩, hmore, hdesc⟩ := Result.bind_eq_ok.mp h
      cases hdesc
      obtain ⟨rfl, hno⟩ := ih hmore
      refine ⟨rfl, fun hmem => ?_⟩
      rcases List.mem_cons.mp hmem with he | hmem
      · exact hend (.inl he.symm)
      · exact hno hmem

theorem readValue_eq_ok {r rest : Bytes} {value : Text} (h : readValue r = .ok (value, rest)) :
    r = value.utf8 ++ rest ∧ 41 ∉ value.utf8 := by
  rw [readValue] at h
  cases hvalue : fromUtf8 (r.takeWhile (· ≠ 41)) with
  | none =>
      rw [hvalue] at h
      cases h
  | some s =>
      rw [hvalue] at h
      cases h
      rw [utf8_of_fromUtf8 hvalue]
      refine ⟨List.takeWhile_append_dropWhile.symm, fun hmem => ?_⟩
      exact absurd (List.mem_takeWhile_imp hmem) (by decide)

/-- Nothing is kept of segments that are all empty, and of no others. -/
theorem readSegments_eq_ok {segments any : List Text} {final : Option Text}
    (h : readSegments segments = .ok (any, final)) :
    any = [] ∧ final = none ↔ ∀ s ∈ segments, s = [] := by
  induction segments generalizing any with
  | nil =>
      cases h
      simp
  | cons s segments ih =>
      cases segments with
      | nil =>
          by_cases hs : s = []
          · rw [readSegments, if_pos hs] at h
            cases h
            simp [hs]
          · rw [readSegments, if_neg hs] at h
            obtain ⟨-, -, h⟩ := Result.bind_eq_ok.mp h
            cases h
            simp [hs]
      | cons s' segments =>
          by_cases hs : s = []
          · rw [readSegments, if_pos hs] at h
            · rw [ih h, List.forall_mem_cons (a := s), and_iff_right hs]
            · exact List.cons_ne_nil _ _
          · rw [readSegments, if_neg hs] at h
            · obtain ⟨-, -, h⟩ := Result.bind_eq_ok.mp h
              obtain ⟨⟨more, final'⟩, -, h⟩ := Result.bind_eq_ok.mp h
              cases h
              simp [hs]
            · exact List.cons_ne_nil _ _

theorem parseSubstrings_eq_ok {attr : Text} {segments : List Text} {f : Filter}
    (h : parseSubstrings attr segments = .ok f) :
    ∃ initial any final, f = .substrings attr initial any final ∧
      (initial = none ∧ any = [] ∧ final = none ↔ ∀ s ∈ segments, s = []) := by
  cases segments with
  | nil =>
      cases h
      exact ⟨none, [], none, rfl, by simp⟩
  | cons first segments =>
      by_cases hfirst : first = []
      · rw [parseSubstrings, if_pos hfirst] at h
        obtain ⟨⟨any, final⟩, hread, h⟩ := Result.bind_eq_ok.mp h
        cases h
        exact ⟨none, any, final, rfl, by simp [readSegments_eq_ok hread, hfirst]⟩
      · rw [parseSubstrings, if_neg hfirst] at h
        obtain ⟨-, -, h⟩ := Result.bind_eq_ok.mp h
        obtain ⟨⟨any, final⟩, -, h⟩ := Result.bind_eq_ok.mp h
        cases h
        exact ⟨some first, any, final, rfl, by simp [hfirst]⟩

theorem readTokens_ne_nil {dn dn' : Bool} {rule rule' : Option Text} {tokens : List Text}
    (hrule : rule ≠ some []) (h : readTokens dn rule tokens = .ok (dn', rule')) :
    rule' ≠ some [] := by
  induction tokens generalizing dn rule with
  | nil =>
      cases h
      exact hrule
  | cons tok tokens ih =>
      rw [readTokens] at h
      by_cases hdn : tok = "dn".toList
      · rw [if_pos hdn] at h
        cases dn with
        | true => cases h
        | false => exact ih hrule h
      · rw [if_neg hdn] at h
        by_cases htok : tok = []
        · rw [if_pos htok] at h
          cases h
        rw [if_neg htok] at h
        cases rule with
        | some r => cases h
        | none => exact ih (fun he => htok (Option.some.inj he)) h

/-- An extensible match that is accepted is one. -/
theorem parseExtensible_eq_ok {desc : Text} {r rest : Bytes} {f : Filter}
    (h : parseExtensible desc r = .ok (f, rest)) :
    IsFilter f.node ∧ ∃ value : Text, r = value.utf8 ++ rest ∧ 41 ∉ value.utf8 := by
  rw [parseExtensible] at h
  dsimp only at h
  split at h
  · cases h
  cases htokens : (desc.splitOn ':').dropLast with
  | nil =>
      rw [htokens] at h
      cases h
  | cons a tokens =>
      rw [htokens] at h
      obtain ⟨⟨dnAttributes, matchingRule⟩, htok, h⟩ := Result.bind_eq_ok.mp h
      have htype : (if a = [] then none else some a) ≠ some [] := by
        by_cases ha : a = []
        · rw [if_pos ha]
          exact fun h => by cases h
        · rw [if_neg ha]
          exact fun he => ha (Option.some.inj he)
      dsimp only at h
      generalize (if a = [] then none else some a) = attrType at h htype
      cases hneeds : attrType.isNone && matchingRule.isNone with
      | true =>
          rw [hneeds, if_pos rfl] at h
          cases h
      | false =>
          rw [hneeds, if_neg Bool.false_ne_true] at h
          obtain ⟨⟨value, r'⟩, hvalue, h⟩ := Result.bind_eq_ok.mp h
          obtain ⟨-, h⟩ := Result.guard_eq_ok.mp h
          obtain ⟨-, h⟩ := Result.guard_eq_ok.mp h
          obtain ⟨-, h⟩ := Result.guard_eq_ok.mp h
          cases h
          refine ⟨isFilter_extensibleMatch _ _ ?_ (readTokens_ne_nil (Option.some_ne_none _).symm htok) htype, value,
            readValue_eq_ok hvalue⟩
          cases matchingRule with
          | some r => exact .inl (Option.some_ne_none r)
          | none =>
              rw [Option.isNone_none, Bool.and_true] at hneeds
              refine .inr fun he => ?_
              rw [he] at hneeds
              cases hneeds

/-- Bytes that are all asterisks are asterisks. -/
theorem utf8_asterisks {t : Text} : (∀ b ∈ t.utf8, b = 42) ↔ ∀ c ∈ t, c = '*' := by
  have hutf8 : ∀ n : Nat, Text.utf8 (List.replicate n '*') = List.replicate n 42 := by
    intro n
    induction n with
    | zero => rfl
    | succ n ih => rw [List.replicate_succ, List.replicate_succ, utf8_cons_ascii (by decide), ih]; rfl
  constructor
  · intro h
    have hbytes : t.utf8 = Text.utf8 (List.replicate t.utf8.length '*') := by
      rw [hutf8]
      exact List.eq_replicate_of_mem h
    have htext := congrArg fromUtf8 hbytes
    rw [fromUtf8_utf8, fromUtf8_utf8] at htext
    rw [Option.some.inj htext]
    exact fun c hc => List.eq_of_mem_replicate hc
  · intro h
    rw [List.eq_replicate_of_mem h, hutf8]
    exact fun b hb => List.eq_of_mem_replicate hb

/-- A value has no segment exactly when it is asterisks alone. -/
theorem segments_empty_iff {value : Text} :
    (∀ s ∈ value.splitOn '*', s = []) ↔ ∀ c ∈ value, c = '*' := by
  induction value with
  | nil => simp
  | cons c value ih =>
      rw [List.splitOn_cons_eq_if_modifyHead]
      by_cases hc : c = '*'
      · rw [if_pos (beq_iff_eq.mpr hc), List.forall_mem_cons, List.forall_mem_cons, ih]
        exact and_congr_left fun _ => iff_of_true rfl hc
      · rw [if_neg (mt beq_iff_eq.mp hc)]
        obtain ⟨s, segments, hs⟩ := List.exists_cons_of_ne_nil (List.splitOn_ne_nil '*' value)
        rw [hs, List.modifyHead_cons, List.forall_mem_cons, List.forall_mem_cons]
        exact iff_of_false (fun h => List.cons_ne_nil _ _ h.1) fun h => hc h.1

/-- A value with an asterisk that is not the one of a presence filter. -/
theorem onlyAsterisks_iff {value : Text} (hlone : value ≠ ['*']) (hstar : '*' ∈ value) :
    OnlyAsterisks value.utf8 ↔ ∀ c ∈ value, c = '*' := by
  rw [OnlyAsterisks, utf8_asterisks]
  refine and_iff_right_of_imp fun h => ?_
  obtain ⟨c, rest, rfl⟩ := List.exists_cons_of_ne_nil (List.ne_nil_of_mem hstar)
  obtain rfl := h c List.mem_cons_self
  cases rest with
  | nil => exact absurd rfl hlone
  | cons c' rest =>
      obtain rfl := h c' (List.mem_cons_of_mem _ List.mem_cons_self)
      rw [utf8_cons_ascii (by decide), utf8_cons_ascii (by decide), List.length_cons,
        List.length_cons]
      omega

theorem not_onlyAsterisks {value : Text} (h : '*' ∉ value) : ¬ OnlyAsterisks value.utf8 := by
  rintro ⟨hlen, hall⟩
  rw [utf8_asterisks] at hall
  cases value with
  | nil => cases hlen
  | cons c value => exact h (hall c List.mem_cons_self ▸ List.mem_cons_self)

/-- An item that is accepted is valid where the item of the text is sound. -/
theorem parseSimple_eq_ok {r rest : Bytes} {f : Filter} (h : parseSimple r = .ok (f, rest)) :
    ∃ desc value : Text, r = desc.utf8 ++ 61 :: (value.utf8 ++ rest) ∧ 61 ∉ desc.utf8 ∧
      41 ∉ value.utf8 ∧ (IsFilter f.node ↔ IsSoundItem (desc.utf8, value.utf8)) := by
  rw [parseSimple, Result.bind_eq_ok] at h
  obtain ⟨⟨descBytes, r₁⟩, hdesc, h⟩ := h
  obtain ⟨rfl, hequals⟩ := readDesc_eq_ok hdesc
  dsimp only at h
  cases htext : fromUtf8 descBytes with
  | none =>
      rw [htext] at h
      cases h
  | some desc =>
      rw [htext] at h
      dsimp only at h
      rw [Result.bind_eq_ok] at h
      obtain ⟨r₂, hexpect, h⟩ := h
      obtain rfl := expect_eq_ok hexpect
      obtain rfl := utf8_of_fromUtf8 htext
      by_cases hcolon : ':' ∈ desc
      · rw [if_pos hcolon] at h
        obtain ⟨hvalid, value, rfl, hclose⟩ := parseExtensible_eq_ok h
        refine ⟨desc, value, rfl, hequals, hclose, iff_of_true hvalid (.inl ?_)⟩
        exact List.mem_flatMap.mpr ⟨':', hcolon, List.mem_singleton.mpr rfl⟩
      rw [if_neg hcolon] at h
      have hname : 58 ∉ desc.utf8 := fun hmem =>
        hcolon (mem_of_mem_utf8 (c := ':') (by decide) hmem)
      rw [Result.bind_eq_ok] at h
      obtain ⟨⟨value, r₃⟩, hvalue, h⟩ := h
      obtain ⟨rfl, hclose⟩ := readValue_eq_ok hvalue
      dsimp only at h
      by_cases hlone : value = ['*']
      · rw [if_pos hlone] at h
        cases h
        refine ⟨desc, value, rfl, hequals, hclose, isFilter_present_iff.trans ?_⟩
        rw [IsSoundItem, or_iff_right hname, hlone]
        have hone : ¬ OnlyAsterisks (Text.utf8 ['*']) := by decide
        exact (and_iff_left hone).symm
      rw [if_neg hlone] at h
      by_cases hstar : '*' ∈ value
      · rw [if_pos hstar] at h
        obtain ⟨f', hsub, h⟩ := Result.bind_eq_ok.mp h
        cases h
        obtain ⟨initial, any, final, rfl, hnone⟩ := parseSubstrings_eq_ok hsub
        refine ⟨desc, value, rfl, hequals, hclose, isFilter_substrings_iff.trans ?_⟩
        rw [IsSoundItem, or_iff_right hname, hnone, segments_empty_iff,
          onlyAsterisks_iff hlone hstar]
      · rw [if_neg hstar] at h
        cases h
        refine ⟨desc, value, rfl, hequals, hclose, isFilter_equalityMatch_iff.trans ?_⟩
        rw [IsSoundItem, or_iff_right hname]
        exact (and_iff_left (not_onlyAsterisks hstar)).symm

/-- What is read up to `rest` has items, and is valid where they are sound. -/
def ReadsItems (r rest : Bytes) (valid : Prop) : Prop :=
  ∃ items, simples .outside r = items ++ simples .outside rest ∧
    (valid ↔ ∀ item ∈ items, IsSoundItem item)

theorem parseList_eq_ok {item : Bytes → Result (Filter × Bytes)}
    (hitem : ∀ {r rest : Bytes} {f : Filter}, item r = .ok (f, rest) →
      ReadsItems r rest (IsFilter f.node)) {fuel : Nat} {r rest : Bytes} {fs : List Filter}
    (h : parseList item fuel r = .ok (fs, rest)) :
    ReadsItems r rest (∀ f ∈ fs, IsFilter f.node) := by
  induction fuel generalizing r fs with
  | zero =>
      cases h
      exact ⟨[], rfl, by simp⟩
  | succ fuel ih =>
      by_cases hopen : r.head? = some 40
      · rw [parseList, if_pos hopen, Result.bind_eq_ok] at h
        obtain ⟨⟨f, r₁⟩, hf, h⟩ := h
        rw [Result.bind_eq_ok] at h
        obtain ⟨⟨fs, r₂⟩, hfs, h⟩ := h
        cases h
        obtain ⟨items, hitems, hvalid⟩ := hitem hf
        obtain ⟨more, hmore, hall⟩ := ih hfs
        refine ⟨items ++ more, by rw [hitems, hmore, List.append_assoc], ?_⟩
        rw [List.forall_mem_cons, List.forall_mem_append, hvalid, hall]
      · rw [parseList, if_neg hopen] at h
        cases h
        exact ⟨[], rfl, by simp⟩

theorem simples_group {b : UInt8} (hb : b = 38 ∨ b = 124 ∨ b = 33) (r : Bytes) :
    simples .outside (40 :: b :: r) = simples .outside r := by
  rw [simples, if_pos rfl, simples, if_pos hb]

theorem simples_close (r : Bytes) : simples .outside (41 :: r) = simples .outside r := by
  rw [simples, if_neg (by decide)]

/-- A set that is accepted has an item. -/
theorem parseItems_eq_ok {item : Bytes → Result (Filter × Bytes)}
    (hitem : ∀ {r rest : Bytes} {f : Filter}, item r = .ok (f, rest) →
      ReadsItems r rest (IsFilter f.node)) {r rest : Bytes} {fs : List Filter} {tag : UInt8}
    (htag : tag ∈ [Tag.ctx 0 true, Tag.ctx 1 true]) (h : parseItems item r = .ok (fs, rest)) :
    ReadsItems r rest (IsFilter (.constructed tag (Filter.nodes fs))) := by
  rw [parseItems, Result.bind_eq_ok] at h
  obtain ⟨⟨fs', r'⟩, hlist, h⟩ := h
  dsimp only at h
  by_cases hnone : fs' = []
  · rw [if_pos hnone] at h
    cases h
  rw [if_neg hnone] at h
  cases h
  rw [ReadsItems, isFilter_items_iff htag, and_iff_right hnone]
  exact parseList_eq_ok hitem hlist

theorem ReadsItems.group {b : UInt8} (hb : b = 38 ∨ b = 124 ∨ b = 33) {r rest : Bytes}
    {valid : Prop} (h : ReadsItems r (41 :: rest) valid) : ReadsItems (40 :: b :: r) rest valid := by
  rw [ReadsItems, simples_group hb, ← simples_close rest]
  exact h

/-- What is in parentheses ends at the closing one. -/
theorem close_eq_ok {f f' : Filter} {r rest : Bytes}
    (h : (expect ')' r >>= fun r => (pure (f', r) : Result (Filter × Bytes))) = .ok (f, rest)) :
    f' = f ∧ r = 41 :: rest := by
  rw [Result.bind_eq_ok] at h
  obtain ⟨r', hclose, h⟩ := h
  cases h
  exact ⟨rfl, expect_eq_ok hclose⟩

/-- The four forms of a filter. -/
theorem parse_cases {levels : Nat} {r rest : Bytes} {f : Filter}
    (h : parse (levels + 1) r = .ok (f, rest)) :
    (∃ r' fs, r = 40 :: 38 :: r' ∧ parseItems (parse levels) r' = .ok (fs, 41 :: rest) ∧
      f = .and fs) ∨
    (∃ r' fs, r = 40 :: 124 :: r' ∧ parseItems (parse levels) r' = .ok (fs, 41 :: rest) ∧
      f = .or fs) ∨
    (∃ r' inner, r = 40 :: 33 :: r' ∧ parse levels r' = .ok (inner, 41 :: rest) ∧
      f = .not inner) ∨
    (∃ b r', r = 40 :: b :: r' ∧ ¬(b = 38 ∨ b = 124 ∨ b = 33) ∧
      parseSimple (b :: r') = .ok (f, 41 :: rest)) := by
  rw [parse, Result.bind_eq_ok] at h
  obtain ⟨r₁, hopen, h⟩ := h
  obtain rfl := expect_eq_ok hopen
  dsimp only at h
  split at h
  · next r' =>
      rw [Result.bind_eq_ok] at h
      obtain ⟨⟨fs, r₂⟩, hfs, h⟩ := h
      obtain ⟨rfl, rfl⟩ := close_eq_ok h
      exact .inl ⟨r', fs, rfl, hfs, rfl⟩
  · next r' =>
      rw [Result.bind_eq_ok] at h
      obtain ⟨⟨fs, r₂⟩, hfs, h⟩ := h
      obtain ⟨rfl, rfl⟩ := close_eq_ok h
      exact .inr (.inl ⟨r', fs, rfl, hfs, rfl⟩)
  · next r' =>
      rw [Result.bind_eq_ok] at h
      obtain ⟨⟨inner, r₂⟩, hinner, h⟩ := h
      obtain ⟨rfl, rfl⟩ := close_eq_ok h
      exact .inr (.inr (.inl ⟨r', inner, rfl, hinner, rfl⟩))
  · next b r' hand hor hnot =>
      rw [Result.bind_eq_ok] at h
      obtain ⟨⟨f', r₂⟩, hsimple, h⟩ := h
      obtain ⟨rfl, rfl⟩ := close_eq_ok h
      refine .inr (.inr (.inr ⟨b, r', rfl, ?_, hsimple⟩))
      rintro (rfl | rfl | rfl)
      · exact hand rfl
      · exact hor rfl
      · exact hnot rfl
  · cases h

/-- A filter that is accepted is valid where its items are sound. -/
theorem parse_eq_ok {levels : Nat} {r rest : Bytes} {f : Filter}
    (h : parse levels r = .ok (f, rest)) : ReadsItems r rest (IsFilter f.node) := by
  induction levels generalizing r rest f with
  | zero => cases h
  | succ levels ih =>
      rcases parse_cases h with ⟨r', fs, rfl, hfs, rfl⟩ | ⟨r', fs, rfl, hfs, rfl⟩ |
        ⟨r', inner, rfl, hinner, rfl⟩ | ⟨b, r', rfl, hgroup, hsimple⟩
      · exact .group (.inl rfl) (parseItems_eq_ok ih (by decide) hfs)
      · exact .group (.inr (.inl rfl)) (parseItems_eq_ok ih (by decide) hfs)
      · rw [isFilter_not_iff]
        exact .group (.inr (.inr rfl)) (ih hinner)
      · obtain ⟨desc, value, hr, hdesc, hvalue, hvalid⟩ := parseSimple_eq_ok hsimple
        have hfirst : ∀ x ∈ desc.utf8.head?, ¬(x = 38 ∨ x = 124 ∨ x = 33) := by
          intro x hx
          obtain ⟨bytes, hbytes⟩ := List.head?_eq_some_iff.mp hx
          rw [hbytes] at hr
          rwa [← (List.cons.inj hr).1]
        refine ⟨[(desc.utf8, value.utf8)], ?_, by simpa using hvalid⟩
        rw [hr, simples, if_pos rfl, simples_item hdesc hvalue hfirst, ← simples_close rest]
        rfl

/-! ## What is written -/

theorem allTagged_optional {tag : UInt8} (htag : tag &&& 0x20 = 0) (value : Option Bytes) :
    Node.AllTagged (optional tag value) := by
  cases value with
  | none => trivial
  | some value => exact ⟨htag, trivial⟩

theorem allTagged_components (initial : Option Bytes) (any : List Bytes) (final : Option Bytes) :
    Node.AllTagged (optional (Tag.ctx 0 false) initial ++
      (any.map (.primitive (Tag.ctx 1 false)) ++ optional (Tag.ctx 2 false) final)) := by
  refine allTagged_append (allTagged_optional (by decide) initial)
    (allTagged_append (allTagged_of_forall fun n hn => ?_) (allTagged_optional (by decide) final))
  obtain ⟨value, -, rfl⟩ := List.mem_map.mp hn
  exact rfl

theorem allTagged_rule (rule type : Option Bytes) (value : Bytes) (dn : Bool) :
    Node.AllTagged (optional (Tag.ctx 1 false) rule ++ (optional (Tag.ctx 2 false) type ++
      .primitive (Tag.ctx 3 false) value ::
        if dn then [.primitive (Tag.ctx 4 false) [0xff]] else [])) := by
  refine allTagged_append (allTagged_optional (by decide) rule)
    (allTagged_append (allTagged_optional (by decide) type) ⟨rfl, ?_⟩)
  cases dn with
  | false => trivial
  | true => exact ⟨rfl, trivial⟩

mutual

theorem tagged_node : ∀ f : Filter, f.node.Tagged
  | .and items | .or items => by
      rw [Filter.node]
      exact ⟨by decide, allTagged_nodes items⟩
  | .not inner => by
      rw [Filter.node]
      exact ⟨by decide, tagged_node inner, trivial⟩
  | .equalityMatch attr value => by
      rw [Filter.node]
      exact ⟨by decide, rfl, rfl, trivial⟩
  | .substrings attr initial any final => by
      rw [Filter.node, segmentNodes_eq]
      exact ⟨by decide, rfl, ⟨by decide, allTagged_components _ _ _⟩, trivial⟩
  | .present attr => by
      rw [Filter.node]
      exact rfl
  | .extensibleMatch matchingRule attrType matchValue dnAttributes => by
      rw [Filter.node, ruleNodes, optNodes_eq_optional, optNodes_eq_optional]
      exact ⟨by decide, allTagged_rule _ _ _ _⟩

theorem allTagged_nodes : ∀ fs : List Filter, Node.AllTagged (Filter.nodes fs)
  | [] => trivial
  | f :: fs => ⟨tagged_node f, allTagged_nodes fs⟩

end

theorem IsFilter.tagged {n : Node} (h : IsFilter n) : n.Tagged := by
  induction h with
  | set htag hsome hitems ih =>
      have hset : ∀ tag ∈ [Tag.ctx 0 true, Tag.ctx 1 true], tag &&& 0x20 ≠ 0 :=
        List.all_iff_forall_prop.mp (by decide)
      exact ⟨hset _ htag, allTagged_of_forall ih⟩
  | not h ih => exact ⟨by decide, ih, trivial⟩
  | assertion htag hattr =>
      have hassert : ∀ tag ∈ assertionTags, tag &&& 0x20 ≠ 0 :=
        List.all_iff_forall_prop.mp (by decide)
      exact ⟨hassert _ htag, rfl, rfl, trivial⟩
  | substrings hattr hsubs =>
      obtain ⟨-, initial, any, final, rfl⟩ := hsubs
      exact ⟨by decide, rfl, ⟨by decide, allTagged_components _ _ _⟩, trivial⟩
  | present hattr => exact rfl
  | extensibleMatch h =>
      obtain ⟨rule, type, value, dn, rfl, -⟩ := h
      exact ⟨by decide, allTagged_rule _ _ _ _⟩

/-- The tree that is written is the only one the bytes can be read as. -/
theorem isEncodedFilter_iff {f : Filter} (hsize : (encodeFilter f []).length < usizeLimit) :
    IsEncodedFilter (encodeFilter f []) ↔ IsFilter f.node := by
  rw [encodeFilter_eq, List.nil_append] at hsize ⊢
  have hnode : IsNode f.node f.node.bytes :=
    isNode_bytes f.node (hsize.trans (by decide))
  refine ⟨fun ⟨n, hn, hfilter⟩ => ?_, fun h => ⟨f.node, hnode, h⟩⟩
  obtain ⟨rfl, -⟩ := hnode.unique hn (tagged_node f) hfilter.tagged (rfl : _ ++ [] = _ ++ [])
  exact hfilter

/-- What is written for a filter that was accepted is a filter exactly when no item of the text has
an empty description, or a value of asterisks alone. -/
theorem encoded_valid_iff {s : Text} {f : Filter} (h : parseFilter s = .ok f)
    (hsize : (encodeFilter f []).length < usizeLimit) :
    IsEncodedFilter (encodeFilter f []) ↔ ∀ item ∈ simples .outside s.utf8, IsSoundItem item := by
  rw [parseFilter, Result.bind_eq_ok] at h
  obtain ⟨⟨f', r⟩, hparse, h⟩ := h
  dsimp only at h
  by_cases hr : r = []
  · rw [if_neg (not_not_intro hr)] at h
    cases h
    subst hr
    obtain ⟨items, hitems, hvalid⟩ := parse_eq_ok hparse
    rw [hitems, simples, List.append_nil, ← hvalid]
    exact isEncodedFilter_iff hsize
  · rw [if_pos hr] at h
    cases h

/-- The parser on a group of one item. -/
theorem parseFilter_item {f : Filter} {desc value : Text} (hne : desc ≠ [])
    (hdesc : ∀ c ∈ desc, isNameChar c = true ∨ c = ':')
    (h : parseSimple (desc.utf8 ++ 61 :: (value.utf8 ++ [41])) = .ok (f, [41])) :
    parseFilter ('(' :: (desc ++ '=' :: (value ++ [')']))) = .ok f := by
  have hparse := @parse_item maxFilterDepth f desc value hne hdesc [] h
  rw [List.append_nil] at hparse
  rw [parseFilter, hparse, Result.ok_bind]
  rfl

/-- A name with a value between asterisks. -/
theorem encoded_valid_sample :
    ∃ f, parseFilter "(cn=*a*)".toList = .ok f ∧ IsEncodedFilter (encodeFilter f []) := by
  have hname : IsName "cn".toList := ⟨by decide, List.all_eq_true.mp (by decide)⟩
  have hparse : parseFilter "(cn=*a*)".toList =
      .ok (.substrings "cn".toList none ["a".toList] none) := by
    refine @parseFilter_item _ "cn".toList "*a*".toList hname.1 (fun c hc => .inl (hname.2 c hc)) ?_
    rw [parseSimple_name hname (by decide)]
    rfl
  exact ⟨_, hparse, (encoded_valid_iff hparse (by decide)).mpr (by decide)⟩

/-- Two asterisks leave an empty sequence of components. -/
theorem not_encoded_valid :
    ¬ ∀ (s : Text) (f : Filter), parseFilter s = .ok f →
      (encodeFilter f []).length < usizeLimit → IsEncodedFilter (encodeFilter f []) := by
  intro hall
  have hname : IsName "cn".toList := ⟨by decide, List.all_eq_true.mp (by decide)⟩
  have hparse : parseFilter "(cn=**)".toList = .ok (.substrings "cn".toList none [] none) := by
    refine @parseFilter_item _ "cn".toList "**".toList hname.1 (fun c hc => .inl (hname.2 c hc)) ?_
    rw [parseSimple_name hname (by decide)]
    rfl
  have hsize : (encodeFilter (.substrings "cn".toList none [] none) []).length < usizeLimit := by
    decide
  have hvalid := (isEncodedFilter_iff hsize).mp (hall _ _ hparse hsize)
  exact (isFilter_substrings_iff.mp hvalid).2 ⟨rfl, rfl, rfl⟩

end Rsurl.Ldap
