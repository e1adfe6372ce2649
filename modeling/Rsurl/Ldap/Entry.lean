/-
# `Rsurl.Ldap.Entry` — what a search entry is read from

The client's reader of a buffer against the grammar of RFC 4511: it finds an
element exactly where there is one, whatever form its length has, and the
parser of a search entry accepts exactly the entries, with what follows the
parts it knows left aside.
-/
import Rsurl.Base.Element
import Rsurl.Ldap.Elements
import Rsurl.Ldap.Session

namespace Rsurl.Ldap

open Base (beValue twosValue)
open Base.Ber

/-! ## Elements -/

/-- An element whose length is within eight octets. -/
abbrev Element (tag : UInt8) (value e : Bytes) : Prop := IsElement 8 tag value e

theorem longForm {first : UInt8} (h : ¬first < 0x80) :
    first = 0x80 ||| UInt8.ofNat (first &&& 0x7f).toNat := by
  have hall : ∀ n : Fin 256, ¬UInt8.ofNat n.val < 0x80 →
      UInt8.ofNat n.val = 0x80 ||| UInt8.ofNat (UInt8.ofNat n.val &&& 0x7f).toNat := by
    decide +kernel
  have hfirst := hall ⟨first.toNat, first.toNat_lt⟩
  rw [UInt8.ofNat_toNat] at hfirst
  exact hfirst h

theorem longForm_count {k : Nat} (hk : k ≤ 8) :
    ¬(0x80 ||| UInt8.ofNat k) < 0x80 ∧ ((0x80 ||| UInt8.ofNat k) &&& 0x7f).toNat = k := by
  have hall : ∀ n : Fin 9, ¬(0x80 ||| UInt8.ofNat n.val) < 0x80 ∧
      ((0x80 ||| UInt8.ofNat n.val) &&& 0x7f).toNat = n.val := by decide
  exact hall ⟨k, Nat.lt_succ_of_le hk⟩

/-- The length that octets stand for, in every form of at most eight. -/
theorem readLength_iff {bytes rest : Bytes} {n : Nat} :
    readLength bytes = .ok (n, rest) ↔
      ∃ hdr, IsLength hdr n ∧ hdr.length ≤ 9 ∧ bytes = hdr ++ rest := by
  constructor
  · intro h
    cases bytes with
    | nil => cases h
    | cons first data =>
        rw [readLength] at h
        split at h
        · next hshort =>
            obtain ⟨rfl, rfl⟩ := Prod.mk.inj (Except.ok.inj h)
            have hlt : first.toNat < 128 := UInt8.lt_iff_toNat_lt.mp hshort
            have his := IsLength.short hlt
            rw [UInt8.ofNat_toNat] at his
            exact ⟨[first], his, by simp, rfl⟩
        · next hlong =>
            dsimp only at h
            split at h
            · cases h
            next hzero =>
            split at h
            · cases h
            next hmany =>
            split at h
            · cases h
            next hshort =>
            obtain ⟨rfl, rfl⟩ := Prod.mk.inj (Except.ok.inj h)
            generalize hk : (first &&& 0x7f).toNat = k at *
            have hlen : (data.take k).length = k := List.length_take_of_le (Nat.not_lt.mp hshort)
            have hfirst := longForm hlong
            rw [hk] at hfirst
            have hne : data.take k ≠ [] := by
              intro hnil
              rw [hnil] at hlen
              exact hzero hlen.symm
            have his := IsLength.long hne (by omega)
            rw [hlen, ← hfirst] at his
            refine ⟨first :: data.take k, ?_, ?_, ?_⟩
            · rw [foldl_or_eq]
              exact his
            · rw [List.length_cons, hlen]
              omega
            · rw [List.cons_append, List.take_append_drop]
  · rintro ⟨hdr, his, hlen, rfl⟩
    cases his with
    | short hlt =>
        have hval : (UInt8.ofNat n).toNat = n := toNat_short hlt
        have hless : UInt8.ofNat n < 0x80 := by
          rw [UInt8.lt_iff_toNat_lt, hval]
          exact hlt
        rw [List.singleton_append, readLength, if_pos hless, hval]
    | @long octets hpos hcount =>
        have hk : octets.length ≤ 8 := Nat.le_of_succ_le_succ hlen
        obtain ⟨hnot, hmask⟩ := longForm_count hk
        have hne : octets.length ≠ 0 := mt List.length_eq_zero_iff.mp hpos
        rw [List.cons_append, readLength, if_neg hnot]
        dsimp only
        rw [hmask, if_neg hne, if_neg (by omega), if_neg (by rw [List.length_append]; omega),
          List.take_left, List.drop_left, foldl_or_eq]
        rfl

/-- An element is read exactly where there is one. -/
theorem readTlv_iff {bytes value rest : Bytes} {tag : UInt8} :
    readTlv bytes = .ok (⟨tag, value⟩, rest) ↔ ∃ e, Element tag value e ∧ bytes = e ++ rest := by
  constructor
  · intro h
    cases bytes with
    | nil => cases h
    | cons first data =>
        rw [readTlv] at h
        obtain ⟨⟨n, data'⟩, hlen, hread⟩ := Result.bind_eq_ok.mp h
        obtain ⟨hdr, his, hnine, rfl⟩ := readLength_iff.mp hlen
        dsimp only at hread
        split at hread
        · cases hread
        next hshort =>
        obtain ⟨htlv, rfl⟩ := Prod.mk.inj (Except.ok.inj hread)
        obtain ⟨rfl, rfl⟩ := Tlv.mk.inj htlv
        have hvalue : (data'.take n).length = n := List.length_take_of_le (Nat.not_lt.mp hshort)
        rw [← hvalue] at his
        refine ⟨_, .mk his hnine, ?_⟩
        rw [List.append_assoc, List.cons_append, List.take_append_drop]
  · rintro ⟨_, ⟨his, hnine⟩, rfl⟩
    rw [List.append_assoc, List.cons_append, readTlv, readLength_iff.mpr ⟨_, his, hnine, rfl⟩,
      Result.ok_bind]
    dsimp only
    rw [if_neg (by rw [List.length_append]; omega), List.take_left, List.drop_left]

theorem readExpect_iff {bytes value rest : Bytes} {tag : UInt8} :
    readExpect tag bytes = .ok (value, rest) ↔ ∃ e, Element tag value e ∧ bytes = e ++ rest := by
  rw [← readTlv_iff, readExpect, Result.bind_eq_ok]
  constructor
  · rintro ⟨⟨⟨tag', value'⟩, rest'⟩, hread, h⟩
    dsimp only at h
    split at h
    · cases h
    next hsame =>
    obtain ⟨rfl, rfl⟩ := Prod.mk.inj (Except.ok.inj h)
    rw [hread, not_not.mp hsame]
  · intro hread
    refine ⟨_, hread, ?_⟩
    dsimp only
    rw [if_neg (not_not_intro rfl)]

/-! ## Entries -/

/-- The content of a set of values, each an OCTET STRING. -/
def IsValues (vals : List Bytes) (content : Bytes) : Prop :=
  ∃ es, List.Forall₂ (Element Tag.octetString) vals es ∧ content = es.flatten

/-- PartialAttribute: a name and a set of values; what is behind them is not looked at. -/
inductive IsAttribute : LdapAttr → Bytes → Prop
  | mk {name nameElement set setElement extra e : Bytes} {vals : List Bytes}
      (hname : Element Tag.octetString name nameElement) (hset : Element Tag.set set setElement)
      (hvals : IsValues vals set)
      (he : Element Tag.sequence (nameElement ++ (setElement ++ extra)) e) :
      IsAttribute (fromUtf8Lossy name, vals) e

/-- The content of a SearchResultEntry: a name and a sequence of attributes; what is behind them
is not looked at. -/
inductive IsSearchEntry : SearchEntry → Bytes → Prop
  | mk {dn dnElement attrsElement extra : Bytes} {attrs : List LdapAttr} {es : List Bytes}
      (hdn : Element Tag.octetString dn dnElement) (hes : List.Forall₂ IsAttribute attrs es)
      (hattrs : Element Tag.sequence es.flatten attrsElement) :
      IsSearchEntry (fromUtf8Lossy dn, attrs) (dnElement ++ (attrsElement ++ extra))

theorem IsAttribute.ne_nil {attr : LdapAttr} {e : Bytes} (h : IsAttribute attr e) : e ≠ [] := by
  obtain ⟨-, -, -, he⟩ := h
  exact he.ne_nil

theorem readValues_iff {content : Bytes} {vals : List Bytes} :
    readValues content = .ok vals ↔ IsValues vals content :=
  Base.many_iff readExpect_iff IsElement.ne_nil (Nat.le_refl _)

theorem readAttribute_iff {ar rest : Bytes} {attr : LdapAttr} :
    readAttribute ar = .ok (attr, rest) ↔ ∃ e, IsAttribute attr e ∧ ar = e ++ rest := by
  constructor
  · intro h
    obtain ⟨⟨pa, ar'⟩, hpa, h⟩ := Result.bind_eq_ok.mp h
    obtain ⟨⟨name, pr⟩, hname, h⟩ := Result.bind_eq_ok.mp h
    obtain ⟨⟨set, extra⟩, hset, h⟩ := Result.bind_eq_ok.mp h
    obtain ⟨vals, hvals, h⟩ := Result.bind_eq_ok.mp h
    obtain ⟨rfl, rfl⟩ := Prod.mk.inj (Except.ok.inj h)
    obtain ⟨e, he, rfl⟩ := readExpect_iff.mp hpa
    obtain ⟨nameElement, hname', rfl⟩ := readExpect_iff.mp hname
    obtain ⟨setElement, hset', rfl⟩ := readExpect_iff.mp hset
    exact ⟨e, .mk hname' hset' (readValues_iff.mp hvals) he, rfl⟩
  · rintro ⟨e, ⟨hname, hset, hvals, he⟩, rfl⟩
    refine Result.bind_eq_ok.mpr ⟨_, readExpect_iff.mpr ⟨e, he, rfl⟩, ?_⟩
    refine Result.bind_eq_ok.mpr ⟨_, readExpect_iff.mpr ⟨_, hname, rfl⟩, ?_⟩
    refine Result.bind_eq_ok.mpr ⟨_, readExpect_iff.mpr ⟨_, hset, rfl⟩, ?_⟩
    exact Result.bind_eq_ok.mpr ⟨_, readValues_iff.mpr hvals, rfl⟩

/-- A search entry is accepted exactly if it is one by the grammar, and then its name, its
attributes and their values are returned, all of them and in order. -/
theorem parseSearchEntry_iff {body : Bytes} {entry : SearchEntry} :
    parseSearchEntry body = .ok entry ↔ IsSearchEntry entry body := by
  have hmany : ∀ {content : Bytes} {attrs : List LdapAttr},
      Base.many readAttribute content.length content = .ok attrs ↔
        ∃ es, List.Forall₂ IsAttribute attrs es ∧ content = es.flatten := by
    intro content attrs
    exact Base.many_iff readAttribute_iff IsAttribute.ne_nil (Nat.le_refl _)
  constructor
  · intro h
    obtain ⟨⟨dn, r⟩, hdn, h⟩ := Result.bind_eq_ok.mp h
    obtain ⟨⟨content, extra⟩, hattrs, h⟩ := Result.bind_eq_ok.mp h
    obtain ⟨attrs, hread, h⟩ := Result.bind_eq_ok.mp h
    obtain rfl := Except.ok.inj h
    obtain ⟨dnElement, hdn', rfl⟩ := readExpect_iff.mp hdn
    obtain ⟨attrsElement, hattrs', rfl⟩ := readExpect_iff.mp hattrs
    obtain ⟨es, hes, rfl⟩ := hmany.mp hread
    exact .mk hdn' hes hattrs'
  · rintro ⟨hdn, hes, hattrs⟩
    refine Result.bind_eq_ok.mpr ⟨_, readExpect_iff.mpr ⟨_, hdn, rfl⟩, ?_⟩
    refine Result.bind_eq_ok.mpr ⟨_, readExpect_iff.mpr ⟨_, hattrs, rfl⟩, ?_⟩
    exact Result.bind_eq_ok.mpr ⟨_, hmany.mpr ⟨_, hes, rfl⟩, rfl⟩

end Rsurl.Ldap
