/-
# `Rsurl.Url.Components` — the components of an LDAP and of an IMAP URL

What is written with the delimiters escaped is cut at the delimiters that are
not, and each piece is decoded to the component it was.
-/
import Rsurl.Imap
import Rsurl.Ldap

namespace Rsurl

theorem stripPrefix_slash (t : Text) : (Text.stripPrefix ['/'] ('/' :: t)).getD ('/' :: t) = t := by
  have hstrip : Text.stripPrefix ['/'] ('/' :: t) = some t := Text.stripPrefix_eq_some.mpr rfl
  rw [hstrip, Option.getD_some]

/-! ## LDAP -/

namespace Ldap

/-- The scopes as RFC 4516 writes them. -/
def Scope.text : Scope → Text
  | .base => "base".toList
  | .oneLevel => "one".toList
  | .subtree => "sub".toList

theorem splitN_piece {c : Char} {piece : Text} (h : c ∉ piece) (n : Nat) (rest : Text) :
    splitN c (n + 2) (piece ++ c :: rest) = piece :: splitN c (n + 1) rest := by
  rw [splitN, Text.splitOnce_eq_some.mpr ⟨rfl, h⟩]

theorem splitN_last {c : Char} {piece : Text} (h : c ∉ piece) (n : Nat) :
    splitN c (n + 1) piece = [piece] := by
  cases n with
  | zero => rfl
  | succ n => rw [splitN, Text.splitOnce_eq_none.mpr h]

section Attrs

variable {attrs attrs' : List Text} (h : List.Forall₂ (fun a a' => Escaped a.utf8 a') attrs attrs')
include h

theorem comma_not_mem : ∀ a' ∈ attrs', ',' ∉ a' := by
  induction h with
  | nil => exact nofun
  | cons ha _ ih => exact List.forall_mem_cons.mpr ⟨ha.not_mem rfl (by decide), ih⟩

theorem question_not_mem : '?' ∉ [','].intercalate attrs' := by
  induction h with
  | nil => exact List.not_mem_nil
  | @cons a a' attrs attrs' ha h ih =>
      have ha' : '?' ∉ a' := ha.not_mem rfl (by decide)
      cases h with
      | nil => rwa [List.intercalate_singleton]
      | cons hb h =>
          rw [List.intercalate_cons_cons, List.mem_append, List.mem_append]
          rintro ((hmem | hmem) | hmem)
          · exact ha' hmem
          · cases List.mem_singleton.mp hmem
          · exact ih hmem

theorem decode_names (hne : ∀ a ∈ attrs, a ≠ []) :
    (attrs'.map fun a => percentDecode a.trim).filter (· ≠ []) = attrs := by
  induction h with
  | nil => rfl
  | @cons a a' attrs attrs' ha h ih =>
      have hdecode : percentDecode a'.trim = a := by
        have htrim : a'.trim = a' := trim_of_ends (fun c hc => ha.visible c (List.mem_of_head? hc))
          fun c hc => ha.visible c (List.mem_of_getLast? hc)
        rw [htrim]
        exact decode_escaped ha
      rw [List.map_cons, hdecode, List.filter_cons_of_pos (by simpa using hne a List.mem_cons_self),
        ih fun x hx => hne x (List.mem_cons_of_mem _ hx)]

/-- Attribute names between commas; none are written as nothing. -/
theorem decode_attrs (hne : ∀ a ∈ attrs, a ≠ []) :
    (if [','].intercalate attrs' = [] then []
      else ((Text.split ',' ([','].intercalate attrs')).map fun a => percentDecode a.trim).filter
        (· ≠ [])) = attrs := by
  cases h with
  | nil => rfl
  | @cons a a' attrs attrs' ha hrest =>
      have hsome : [','].intercalate (a' :: attrs') ≠ [] := by
        intro hnil
        have hutf8 : a.utf8 ≠ [] := fun he =>
          hne a List.mem_cons_self (Text.utf8_eq_nil.mp he)
        refine ha.ne_nil hutf8 ?_
        cases attrs' with
        | nil => rwa [List.intercalate_singleton] at hnil
        | cons b' attrs' =>
            rw [List.intercalate_cons_cons] at hnil
            exact (List.append_eq_nil_iff.mp (List.append_eq_nil_iff.mp hnil).1).1
      rw [if_neg hsome, Text.split,
        List.splitOn_intercalate ',' (comma_not_mem (.cons ha hrest)) (List.cons_ne_nil _ _)]
      exact decode_names (.cons ha hrest) hne

end Attrs

theorem parseLdapPath_escaped {dn filter dn' filter' : Text} {attrs attrs' : List Text}
    (hdn : Escaped dn.utf8 dn')
    (hattrs : List.Forall₂ (fun a a' => Escaped a.utf8 a') attrs attrs')
    (hnames : ∀ a ∈ attrs, a ≠ []) (hfilter : Escaped filter.utf8 filter') (hsome : filter ≠ [])
    (scope : Scope) :
    parseLdapPath ('/' :: (dn' ++ '?' :: ([','].intercalate attrs' ++ '?' ::
      (scope.text ++ '?' :: filter')))) = .ok ⟨dn, attrs, scope, filter⟩ := by
  have hquestion : ∀ {bytes : Bytes} {e : Text}, Escaped bytes e → '?' ∉ e :=
    fun h => h.not_mem rfl (by decide)
  have hscope : '?' ∉ scope.text := by cases scope <;> decide
  have hparts : splitN '?' 5 (dn' ++ '?' :: ([','].intercalate attrs' ++ '?' ::
      (scope.text ++ '?' :: filter'))) = [dn', [','].intercalate attrs', scope.text, filter'] := by
    rw [splitN_piece (hquestion hdn), splitN_piece (question_not_mem hattrs), splitN_piece hscope,
      splitN_last (hquestion hfilter)]
  have hfilter' : filter' ≠ [] := hfilter.ne_nil fun hnil => hsome (Text.utf8_eq_nil.mp hnil)
  have hscopes : scope.text.toAsciiLowercase = scope.text ∧
      (if scope.text = [] ∨ scope.text = "base".toList then .ok .base
        else if scope.text = "one".toList then .ok .oneLevel
        else if scope.text = "sub".toList then .ok .subtree
        else .error (.badResponse [.str "ldap url: unknown scope ", .debug scope.text]) :
          Result Scope) = .ok scope := by
    cases scope <;> exact ⟨rfl, rfl⟩
  have hdecode : percentDecode filter' = filter := decode_escaped hfilter
  have hdecode' : percentDecode dn' = dn := decode_escaped hdn
  simp only [parseLdapPath, stripPrefix_slash, hparts, List.getD_cons_zero, List.getD_cons_succ,
    decode_attrs hattrs hnames, if_neg hfilter', hscopes.1, hscopes.2, hdecode, hdecode']
  rfl

end Ldap

/-! ## IMAP -/

namespace Imap

/-- The loop is the one of the other decoder. -/
theorem percentDecodeBytes_eq (bytes : Bytes) :
    percentDecodeBytes bytes = Rsurl.percentDecodeBytes bytes := by
  have hhex : ∀ b : UInt8, hexVal b = hex b := fun _ => rfl
  fun_induction percentDecodeBytes bytes with
  | case1 h l rest low high hh hl ih =>
      rw [ih]
      exact (percentDecodeBytes_escape ((hhex _).trans ‹_›) ((hhex _).trans ‹_›) rest).symm
  | case2 h l rest hno ih =>
      rw [ih, Rsurl.percentDecodeBytes]
      split
      · next hh hl => exact absurd hl fun hl => hno _ _ hh hl
      · rfl
  | case3 b rest hno ih =>
      rw [ih, Rsurl.percentDecodeBytes]
      exact hno
  | case4 => rfl

/-- A UID behind a mailbox. -/
def uidText : Option UInt32 → Text
  | some n => ";UID=".toList ++ decimal n.toNat
  | none => []

theorem uidParam_decimal (n : UInt32) :
    uidParam ("UID=".toList ++ decimal n.toNat) = some n := by
  have hstrip : Text.stripPrefix "UID=".toList ("UID=".toList ++ decimal n.toNat) =
      some (decimal n.toNat) := Text.stripPrefix_eq_some.mpr rfl
  rw [uidParam, hstrip]
  show parseU32 (decimal n.toNat) = some n
  have hfits : n.toNat ≤ 2 ^ 32 - 1 := Nat.le_sub_one_of_lt n.toNat_lt
  rw [parseU32, parseUnsigned_decimal hfits, Option.map_some, UInt32.ofNat_toNat]

theorem parsePath_escaped {mailbox mailbox' : Text} (h : Escaped mailbox.utf8 mailbox')
    (hbox : mailbox ≠ []) (uid : Option UInt32) :
    parsePath ('/' :: (mailbox' ++ uidText uid)) = (some mailbox, uid) := by
  have hbox' : mailbox' ≠ [] := h.ne_nil fun hnil => hbox (Text.utf8_eq_nil.mp hnil)
  have hsemicolon : ';' ∉ mailbox' := h.not_mem rfl (by decide)
  have hdecode : percentDecode mailbox' = mailbox := by
    rw [percentDecode, percentDecodeBytes_eq]
    exact decode_escaped h
  have hne : mailbox' ++ uidText uid ≠ [] := fun hnil => hbox' (List.append_eq_nil_iff.mp hnil).1
  have hcut : ∃ params, (Text.splitOnce ';' (mailbox' ++ uidText uid)).getD
      (mailbox' ++ uidText uid, []) = (mailbox', params) ∧
        (Text.split ';' params).reverse.findSome? uidParam = uid := by
    cases uid with
    | none =>
        refine ⟨[], ?_, rfl⟩
        rw [uidText, List.append_nil, Text.splitOnce_eq_none.mpr hsemicolon, Option.getD_none]
    | some n =>
        have hcut : Text.splitOnce ';' (mailbox' ++ uidText (some n)) =
            some (mailbox', "UID=".toList ++ decimal n.toNat) :=
          Text.splitOnce_eq_some.mpr ⟨rfl, hsemicolon⟩
        have hnumber : ';' ∉ "UID=".toList ++ decimal n.toNat :=
          List.not_mem_append (by decide) (not_mem_decimal rfl)
        refine ⟨_, by rw [hcut, Option.getD_some], ?_⟩
        rw [split_last hnumber, List.reverse_singleton, List.findSome?_cons, uidParam_decimal]
  obtain ⟨params, hcut, huid⟩ := hcut
  rw [parsePath, stripPrefix_slash]
  simp only [if_neg hne, hcut, if_neg hbox', hdecode, huid]

end Imap

/-- A DN, attribute names, a scope and a filter come back from an LDAP URL, a mailbox and a UID from
an IMAP URL, in whichever way the components are escaped. -/
theorem components_read_back {dn filter mailbox dn' filter' mailbox' : Text}
    {attrs attrs' : List Text} (hdn : Escaped dn.utf8 dn')
    (hattrs : List.Forall₂ (fun a a' => Escaped a.utf8 a') attrs attrs')
    (hnames : ∀ a ∈ attrs, a ≠ []) (hfilter : Escaped filter.utf8 filter') (hsome : filter ≠ [])
    (hmailbox : Escaped mailbox.utf8 mailbox') (hbox : mailbox ≠ []) (scope : Ldap.Scope)
    (uid : Option UInt32) :
    Ldap.parseLdapPath ('/' :: (dn' ++ '?' :: ([','].intercalate attrs' ++ '?' ::
      (scope.text ++ '?' :: filter')))) = .ok ⟨dn, attrs, scope, filter⟩ ∧
    Imap.parsePath ('/' :: (mailbox' ++ Imap.uidText uid)) = (some mailbox, uid) :=
  ⟨Ldap.parseLdapPath_escaped hdn hattrs hnames hfilter hsome scope,
    Imap.parsePath_escaped hmailbox hbox uid⟩

/-- A DN with a question mark, two names, a filter with a percent sign, and a mailbox with a slash
and a semicolon. -/
theorem components_read_back_sample :
    Ldap.parseLdapPath "/o%3D%3F?cn,a%2Cb?sub?%28a%3D%25%29".toList =
        .ok ⟨"o=?".toList, ["cn".toList, "a,b".toList], .subtree, "(a=%)".toList⟩ ∧
      Imap.parsePath "/a%2Fb%3B;UID=7".toList = (some "a/b;".toList, some 7) := by
  have hescaped : ∀ {t e : Text}, percentEncode t = e → Escaped t.utf8 e :=
    fun h => h ▸ escaped_percentEncode _
  have hdn : Escaped (Text.utf8 "o=?".toList) "o%3D%3F".toList := hescaped (by decide)
  have hcn : Escaped (Text.utf8 "cn".toList) "cn".toList := hescaped (by decide)
  have hab : Escaped (Text.utf8 "a,b".toList) "a%2Cb".toList := hescaped (by decide)
  have hfilter : Escaped (Text.utf8 "(a=%)".toList) "%28a%3D%25%29".toList := hescaped (by decide)
  have hmailbox : Escaped (Text.utf8 "a/b;".toList) "a%2Fb%3B".toList := hescaped (by decide)
  have hnames : ∀ a ∈ ["cn".toList, "a,b".toList], a ≠ [] := by decide
  exact components_read_back hdn (.cons hcn (.cons hab .nil)) hnames hfilter nofun hmailbox nofun
    .subtree (some 7)

end Rsurl
