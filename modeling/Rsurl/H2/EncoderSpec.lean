/-
# `Rsurl.H2.EncoderSpec` — what the encoder writes, as RFC 7541 has it

The receiver here is not the crate's decoder but any that follows the RFC, with
the table size it has announced as its limit, however large.  `Agree` ties the
encoder to the receiver's table; `encodeHeader_fields` says that every header
is read and that the two still agree.  What is read is read in one way only
(`Field.unique`).
-/
import Rsurl.H2.Integer

namespace Rsurl.H2

open Base (bitsOf)
open Rfc (Profile Field Fields IsInt IntTail IsString IsName)

/-! ## Integers -/

/-- A mark above the prefix. -/
theorem toNat_or_mark {b : UInt8} {k : Nat} (hk : k < 8) (hb : b.toNat < 2 ^ k) :
    (b ||| UInt8.ofNat (2 ^ k)).toNat = b.toNat + 2 ^ k := by
  have hor : 2 ^ k * 1 ||| b.toNat = 2 ^ k * 1 + b.toNat :=
    (Nat.two_pow_add_eq_or_of_lt hb 1).symm
  rw [Nat.mul_one] at hor
  rw [UInt8.toNat_or, toNat_bit hk, Nat.or_comm, hor, Nat.add_comm]

/-- The loop writes the digits of the number. -/
theorem intTail_encodeIntRest (rem : Nat) : IntTail (encodeIntRest rem) rem := by
  induction rem using Nat.strongRecOn with
  | ind rem ih =>
      by_cases hrem : 128 ≤ rem
      · have hlow : (UInt8.ofNat (rem % 128)).toNat = rem % 128 := toNat_ofNat_of_lt (by omega)
        have hbyte : (UInt8.ofNat (rem % 128) ||| 0x80).toNat = rem % 128 + 128 :=
          (toNat_or_mark (k := 7) (by decide) (by omega)).trans (congrArg (· + 128) hlow)
        have htail : IntTail (_ :: encodeIntRest (rem / 128)) _ :=
          .more (show 128 ≤ (UInt8.ofNat (rem % 128) ||| 0x80).toNat by omega)
            (ih (rem / 128) (by omega))
        have hvalue : rem % 128 + 128 - 128 + 128 * (rem / 128) = rem := by omega
        rw [hbyte, hvalue] at htail
        rw [encodeIntRest_of_le hrem]
        exact htail
      · have hbyte : (UInt8.ofNat rem).toNat = rem := toNat_ofNat_of_lt (by omega)
        have htail : IntTail [UInt8.ofNat rem] (UInt8.ofNat rem).toNat := .last (by omega)
        rw [hbyte] at htail
        rw [encodeIntRest_of_lt (Nat.lt_of_not_le hrem)]
        exact htail

/-- `encode_int` writes the number, under any mark that leaves its prefix alone. -/
theorem isInt_marked {k : Nat} (hk : k ≤ 8) (value : Nat) {mark : UInt8 → UInt8}
    (hmark : ∀ b, (mark b).toNat % 2 ^ k = b.toNat % 2 ^ k) :
    IsInt k ((encodeInt value k).modifyHead mark) value := by
  have hpos := Nat.two_pow_pos k
  have hle : 2 ^ k ≤ 2 ^ 8 := Nat.pow_le_pow_right (by decide) hk
  have hlow : ∀ n, n < 2 ^ k → (mark (UInt8.ofNat n)).toNat % 2 ^ k = n := by
    intro n hn
    rw [hmark, toNat_ofNat_of_lt (by omega), Nat.mod_eq_of_lt hn]
  simp only [encodeInt]
  split
  · next hlt =>
      have hint : IsInt k [mark (UInt8.ofNat value)] _ :=
        .small (by rw [hlow _ (by omega)]; exact hlt)
      rw [hlow _ (by omega)] at hint
      exact hint
  · next hge =>
      have hint : IsInt k (mark (UInt8.ofNat (2 ^ k - 1)) :: encodeIntRest (value - (2 ^ k - 1)))
          (2 ^ k - 1 + (value - (2 ^ k - 1))) :=
        .full (hlow _ (by omega)) (intTail_encodeIntRest _)
      have hvalue : 2 ^ k - 1 + (value - (2 ^ k - 1)) = value := by omega
      rw [hvalue] at hint
      exact hint

/-- A marked integer: its first octet, between the mark and the next. -/
theorem marked_eq_cons (value : Nat) {k : Nat} (hk : k < 8) :
    ∃ b lead, marked k value = b :: lead ∧ 2 ^ k ≤ b.toNat ∧ b.toNat < 2 ^ (k + 1) ∧
      IsInt k (b :: lead) value := by
  obtain ⟨b, lead, hhead, hb⟩ := head_encodeInt value (Nat.le_of_lt hk)
  have hmarked : marked k value = (b ||| UInt8.ofNat (2 ^ k)) :: lead := by
    rw [marked, hhead]
    rfl
  have hint : IsInt k (marked k value) value :=
    isInt_marked (Nat.le_of_lt hk) value fun b => toNat_or_bit b (Nat.le_refl k) hk
  refine ⟨_, lead, hmarked, ?_, ?_, hmarked ▸ hint⟩
  · rw [toNat_or_mark hk hb]
    exact Nat.le_add_left _ _
  · rw [toNat_or_mark hk hb, Nat.pow_succ]
    omega

/-! ## Strings -/

/-- A receiver with this limit on its table. -/
def receiver (limit : Nat) : Profile where
  accepts _ _ := True
  sizeSet n := if n ≤ limit then some n else none

section

variable {limit : Nat}

theorem isString_encodeLiteralString (s : Text) :
    IsString (receiver limit) (encodeLiteralString [] s) s := by
  by_cases hshort : (huffmanEncode s.utf8).length < s.utf8.length
  · have hlit : encodeLiteralString [] s =
        marked 7 (huffmanEncode s.utf8).length ++ huffmanEncode s.utf8 := if_pos hshort
    obtain ⟨b, lead, hhead, hflag, -, hint⟩ :=
      marked_eq_cons (huffmanEncode s.utf8).length (k := 7) (by decide)
    obtain ⟨n, hn, hbits⟩ := bitsOf_huffmanEncode s.utf8
    rw [← Rfc.codedBits_eq] at hbits
    rw [hlit, hhead]
    exact .coded hflag ⟨hint, trivial⟩ hn hbits (fromUtf8_utf8 s)
  · have hlit : encodeLiteralString [] s =
        (encodeInt s.utf8.length 7).modifyHead (· &&& 0x7f) ++ s.utf8 := if_neg hshort
    have hmask : ∀ b : UInt8, (b &&& 0x7f).toNat = b.toNat % 2 ^ 7 := by
      intro b
      rw [UInt8.toNat_and, show (0x7f : UInt8).toNat = 2 ^ 7 - 1 from rfl,
        Nat.and_two_pow_sub_one_eq_mod]
    obtain ⟨b, lead, hhead, -⟩ := head_encodeInt s.utf8.length (by decide : 7 ≤ 8)
    have hint : IsInt 7 ((encodeInt s.utf8.length 7).modifyHead (· &&& 0x7f)) s.utf8.length :=
      isInt_marked (by decide) _ fun b => by rw [hmask, Nat.mod_mod]
    rw [hhead, List.modifyHead_cons] at hint
    rw [hlit, hhead, List.modifyHead_cons]
    refine .raw ?_ ⟨hint, trivial⟩ (fromUtf8_utf8 s)
    rw [hmask]
    exact Nat.mod_lt _ (by decide)

/-! ## The two tables -/

/-- An encoder, and the table of a receiver with the limit the encoder has been told. -/
structure Agree (limit : Nat) (e : Encoder) (t : Rfc.Table) : Prop where
  entries : e.dynTable.entries <+: t.entries
  size_le : e.dynTable.size ≤ e.maxDynTableSize
  limit : e.maxDynTableSize = limit
  cap : e.pendingMaxTableSizeSignal = none → t.max = e.maxDynTableSize
  signal : ∀ n, e.pendingMaxTableSizeSignal = some n → n = e.maxDynTableSize

theorem agree_new : Agree 4096 .new .new where
  entries := List.prefix_refl _
  size_le := Nat.zero_le _
  limit := rfl
  cap _ := rfl
  signal _ h := by cases h

/-- A table as the decoder's. -/
def Rfc.Table.decoder (t : Rfc.Table) : Decoder where
  dynTable := { entries := t.entries, size := (t.entries.map entrySize).sum, size_eq := rfl }
  dynTableCap := t.max

@[simp] theorem table_decoder (t : Rfc.Table) : t.decoder.table = t := rfl

theorem entry_of_lookup {t : Rfc.Table} {i : Nat} {e : Text × Text}
    (h : t.decoder.lookup i = .ok e) : t.entry i = some e := lookup_eq_ok_iff.mp h

variable {e : Encoder} {t : Rfc.Table}

theorem Agree.setPeerMaxTableSize (h : Agree limit e t) (n : Nat) :
    Agree n (e.setPeerMaxTableSize n) t where
  entries := (e.dynTable.evict_prefix_self n 0).trans h.entries
  size_le := e.dynTable.evict_size_le (Nat.zero_le n)
  limit := rfl
  cap hnone := by cases hnone
  signal _ hsome := (Option.some.inj hsome).symm

/-- Once the signal is taken and read, the sizes are the same. -/
theorem Agree.signal_taken (h : Agree limit e t) {n : Nat}
    (hn : e.pendingMaxTableSizeSignal = some n) :
    Agree limit { e with pendingMaxTableSizeSignal := none } (t.resize n) := by
  obtain rfl := h.signal n hn
  refine ⟨prefix_keep h.entries ?_, h.size_le, h.limit, fun _ => rfl, nofun⟩
  rw [← e.dynTable.size_eq]
  exact h.size_le

theorem Agree.insert (h : Agree limit e t) (hnone : e.pendingMaxTableSizeSignal = none)
    (name value : Text) : Agree limit (e.insert name value) (t.add (name, value)) := by
  have hcap := h.cap hnone
  refine ⟨?_, e.dynTable.insert_size_le _ _, h.limit, h.cap, h.signal⟩
  have htable : (t.decoder.insert name value).table = t.add (name, value) := table_insert _ _ _
  have hentries : (t.add (name, value)).entries = (t.decoder.insert name value).dynTable.entries :=
    (congrArg Rfc.Table.entries htable).symm
  have hinsert : (t.decoder.insert name value).dynTable =
      t.decoder.dynTable.insert e.maxDynTableSize (name, value) :=
    congrArg (fun cap => t.decoder.dynTable.insert cap (name, value)) hcap
  rw [hentries, hinsert]
  exact Base.Fifo.insert_mono h.entries _ _

/-- What a search of the dynamic table finds stands there at the receiver too. -/
theorem Agree.getElem? (h : Agree limit e t) {i : Nat} {entry : Text × Text}
    (hi : e.dynTable.entries[i]? = some entry) : t.entries[i]? = some entry := by
  obtain ⟨rest, hrest⟩ := h.entries
  rw [← hrest, List.getElem?_append_left (List.getElem?_eq_some_iff.mp hi).1, hi]

/-- An index the encoder finds for a header names that header at the receiver. -/
theorem Agree.entry (h : Agree limit e t) {name value : Text} {idx : Nat}
    (hidx : e.combinedFullIndex name value = some idx) : t.entry idx = some (name, value) := by
  unfold Encoder.combinedFullIndex at hidx
  split at hidx
  · next i hstatic =>
      obtain rfl := Option.some.inj hidx
      obtain ⟨j, hfind, rfl⟩ := Option.map_eq_some_iff.mp hstatic
      obtain ⟨⟨n, v⟩, hget, hp⟩ := findIdx?_eq_some_getElem? hfind
      simp only [Bool.and_eq_true, beq_iff_eq] at hp
      rw [entry_of_lookup (lookup_static hget), hp.1, hp.2]
  · obtain ⟨j, hfind, rfl⟩ := Option.map_eq_some_iff.mp hidx
    obtain ⟨⟨n, v⟩, hget, hp⟩ := findIdx?_eq_some_getElem? hfind
    simp only [Bool.and_eq_true, beq_iff_eq] at hp
    rw [entry_of_lookup (lookup_dynamic (d := t.decoder) (h.getElem? hget)), hp.1, hp.2]

/-- An index the encoder finds for a name is not 0 and names it at the receiver. -/
theorem Agree.name (h : Agree limit e t) {name : Text} {idx : Nat}
    (hidx : e.combinedNameIndex name = some idx) : ∃ value, t.entry idx = some (name, value) := by
  unfold Encoder.combinedNameIndex at hidx
  split at hidx
  · next i hstatic =>
      obtain rfl := Option.some.inj hidx
      obtain ⟨j, hfind, rfl⟩ := Option.map_eq_some_iff.mp hstatic
      obtain ⟨⟨n, v⟩, hget, hp⟩ := findIdx?_eq_some_getElem? hfind
      exact ⟨_, by rw [entry_of_lookup (lookup_static hget), eq_of_beq hp]⟩
  · obtain ⟨j, hfind, rfl⟩ := Option.map_eq_some_iff.mp hidx
    obtain ⟨⟨n, v⟩, hget, hp⟩ := findIdx?_eq_some_getElem? hfind
    exact ⟨_, by rw [entry_of_lookup (lookup_dynamic (d := t.decoder) (h.getElem? hget)),
      eq_of_beq hp]⟩

/-! ## Headers -/

theorem Rfc.Fields.single {p : Profile} {t' : Rfc.Table} {bytes : Bytes}
    {out : Option (Text × Text)} (h : Field p t bytes out t') :
    Fields p t bytes out.toList t' := by
  have hcons : Fields p t (bytes ++ []) (out.toList ++ []) t' := .cons h (.nil t')
  rwa [List.append_nil, List.append_nil] at hcons

theorem Rfc.Fields.append {p : Profile} {t' t'' : Rfc.Table} {a b : Bytes}
    {hs hs' : List (Text × Text)} (ha : Fields p t a hs t') (hb : Fields p t' b hs' t'') :
    Fields p t (a ++ b) (hs ++ hs') t'' := by
  induction ha with
  | nil => exact hb
  | cons hfield _ ih =>
      rw [List.append_assoc, List.append_assoc]
      exact .cons hfield (ih hb)

/-- A literal that goes into the table. -/
theorem field_literal {idx : Nat} {nameBytes : Bytes} {name : Text}
    (h : IsName (receiver limit) t idx nameBytes name) (value : Text) :
    Field (receiver limit) t (marked 6 idx ++ (nameBytes ++ encodeLiteralString [] value))
      (some (name, value)) (t.add (name, value)) := by
  obtain ⟨b, lead, hhead, hlow, hhigh, hint⟩ := marked_eq_cons idx (k := 6) (by decide)
  rw [hhead]
  exact .incremental ⟨hlow, hhigh⟩ ⟨hint, trivial⟩ h (isString_encodeLiteralString value)

/-- Without a pending signal, `encode_header` writes one field. -/
theorem encodeHeader_field (h : Agree limit e t) (hnone : e.pendingMaxTableSizeSignal = none)
    (name value : Text) :
    ∃ bytes e' t', (∀ out, e.encodeHeader out name value = (out ++ bytes, e')) ∧
      Field (receiver limit) t bytes (some (name, value)) t' ∧ Agree limit e' t' := by
  have htake : ∀ out, e.takeSignal out = (out, e) := by
    intro out
    simp only [Encoder.takeSignal, hnone]
  cases hfull : e.combinedFullIndex name value with
  | some idx =>
      obtain ⟨b, lead, hhead, hflag, -, hint⟩ := marked_eq_cons idx (k := 7) (by decide)
      refine ⟨b :: lead, e, t, ?_, .indexed hflag ⟨hint, trivial⟩ (h.entry hfull), h⟩
      intro out
      simp only [Encoder.encodeHeader, htake, hfull]
      rw [← hhead]
      rfl
  | none =>
      cases hindex : e.combinedNameIndex name with
      | some idx =>
          obtain ⟨value', hentry⟩ := h.name hindex
          refine ⟨marked 6 idx ++ ([] ++ encodeLiteralString [] value), e.insert name value,
            t.add (name, value), ?_, field_literal (.indexed hentry) value,
            h.insert hnone name value⟩
          intro out
          simp only [Encoder.encodeHeader, htake, hfull, hindex]
          rw [encodeLiteralString_append, List.append_assoc]
          rfl
      | none =>
          have hlit : ([0x40] : Bytes) = marked 6 0 := by decide
          refine ⟨marked 6 0 ++ (encodeLiteralString [] name ++ encodeLiteralString [] value),
            e.insert name value, t.add (name, value), ?_,
            field_literal (.new (isString_encodeLiteralString name)) value,
            h.insert hnone name value⟩
          intro out
          simp only [Encoder.encodeHeader, htake, hfull, hindex]
          rw [encodeLiteralString_append, encodeLiteralString_append (out ++ _), hlit,
            List.append_assoc, List.append_assoc]

/-- What `encode_header` puts behind `out` is the header, and the two still agree. -/
theorem encodeHeader_fields (h : Agree limit e t) (name value : Text) :
    ∃ bytes e' t', (∀ out, e.encodeHeader out name value = (out ++ bytes, e')) ∧
      Fields (receiver limit) t bytes [(name, value)] t' ∧ Agree limit e' t' := by
  cases hpend : e.pendingMaxTableSizeSignal with
  | none =>
      obtain ⟨bytes, e', t', henc, hfield, hagree⟩ := encodeHeader_field h hpend name value
      exact ⟨bytes, e', t', henc, .single hfield, hagree⟩
  | some n =>
      obtain ⟨bytes, e', t', henc, hfield, hagree⟩ :=
        encodeHeader_field (h.signal_taken hpend) rfl name value
      obtain ⟨b, lead, hhead, hlow, hhigh, hint⟩ := marked_eq_cons n (k := 5) (by decide)
      have hsize : (receiver limit).sizeSet n = some n :=
        if_pos (Nat.le_of_eq ((h.signal n hpend).trans h.limit))
      have hresize : Field (receiver limit) t (marked 5 n) none (t.resize n) := by
        rw [hhead]
        exact .resize ⟨hlow, hhigh⟩ ⟨hint, trivial⟩ hsize
      refine ⟨marked 5 n ++ bytes, e', t', ?_,
        Fields.append (.single hresize) (.single hfield), hagree⟩
      intro out
      rw [← List.append_assoc, ← henc (out ++ marked 5 n)]
      simp only [Encoder.encodeHeader, Encoder.takeSignal, hpend]
      rfl

/-- One header after another into `out`. -/
def Encoder.encodeHeaders (e : Encoder) (out : Bytes) (headers : List (Text × Text)) :
    Bytes × Encoder :=
  headers.foldl (fun (out, e) (k, v) => e.encodeHeader out k v) (out, e)

/-- A block is read as the list it was encoded from. -/
theorem encodeHeaders_fields (h : Agree limit e t) (headers : List (Text × Text)) :
    ∃ bytes e' t', (∀ out, e.encodeHeaders out headers = (out ++ bytes, e')) ∧
      Fields (receiver limit) t bytes headers t' ∧ Agree limit e' t' := by
  induction headers generalizing e t with
  | nil => exact ⟨[], e, t, fun out => by rw [List.append_nil]; rfl, .nil t, h⟩
  | cons header headers ih =>
      obtain ⟨name, value⟩ := header
      obtain ⟨first, e₁, t₁, henc, hfirst, hagree⟩ := encodeHeader_fields h name value
      obtain ⟨bytes, e', t', hrest, hfields, hagree'⟩ := ih hagree
      refine ⟨first ++ bytes, e', t', ?_, hfirst.append hfields, hagree'⟩
      intro out
      have hcons : e.encodeHeaders out ((name, value) :: headers) =
          (e.encodeHeader out name value).2.encodeHeaders (e.encodeHeader out name value).1
            headers := rfl
      rw [hcons, henc, hrest, List.append_assoc]

end

/-! ## Sizes -/

/-- Every character takes an octet at least. -/
theorem length_le_utf8 (s : Text) : s.length ≤ s.utf8.length := by
  induction s with
  | nil => exact Nat.le_refl 0
  | cons c s ih =>
      have hchar : 0 < (String.utf8EncodeChar c).length := by
        rw [String.length_utf8EncodeChar]
        exact Char.utf8Size_pos c
      rw [Text.utf8_cons, List.length_append, List.length_cons]
      omega

/-- Every octet takes five bits at least. -/
theorem length_huffmanEncode_ge (input : Bytes) :
    5 * input.length ≤ 8 * (huffmanEncode input).length := by
  obtain ⟨n, -, hbits⟩ := bitsOf_huffmanEncode input
  have hcoded : 5 * input.length ≤ (codedBits input).length := by
    clear hbits
    induction input with
    | nil => exact Nat.le_refl 0
    | cons b input ih =>
        have hone := (length_codeBits_bounds (byteSymbol b)).1
        have hsame : codeBits (byteSymbol b) = codeBits b.toNat := rfl
        rw [codedBits_cons, List.length_append, List.length_cons, ← hsame]
        omega
  have hlen := congrArg List.length hbits
  rw [Base.length_bitsOf, List.length_append] at hlen
  omega

theorem length_encodeLiteralString_ge (s : Text) :
    5 * s.length ≤ 8 * (encodeLiteralString [] s).length := by
  have hchars := length_le_utf8 s
  have hcoded := length_huffmanEncode_ge s.utf8
  by_cases hshort : (huffmanEncode s.utf8).length < s.utf8.length
  · have hlit : encodeLiteralString [] s =
        marked 7 (huffmanEncode s.utf8).length ++ huffmanEncode s.utf8 := if_pos hshort
    rw [hlit, List.length_append]
    omega
  · have hlit : encodeLiteralString [] s =
        (encodeInt s.utf8.length 7).modifyHead (· &&& 0x7f) ++ s.utf8 := if_neg hshort
    rw [hlit, List.length_append]
    omega

/-- A name in neither table. -/
theorem combinedFullIndex_of_name {e : Encoder} {name : Text} (h : e.combinedNameIndex name = none)
    (value : Text) : e.combinedFullIndex name value = none := by
  have hstatic : staticNameIndex name = none ∧
      (e.dynTable.entries.findIdx? fun (n, _) => n == name) = none := by
    unfold Encoder.combinedNameIndex at h
    split at h
    · cases h
    · next hstatic => exact ⟨hstatic, Option.map_eq_none_iff.mp h⟩
  have hno : staticFullIndex name value = none := by
    unfold staticFullIndex
    rw [Option.map_eq_none_iff, List.findIdx?_eq_none_iff]
    intro x hx
    have hx' := List.findIdx?_eq_none_iff.mp (Option.map_eq_none_iff.mp hstatic.1) x hx
    exact Bool.and_eq_false_imp.mpr fun htrue => absurd (hx'.symm.trans htrue) nofun
  unfold Encoder.combinedFullIndex
  rw [hno]
  simp only [Option.map_eq_none_iff]
  rw [List.findIdx?_eq_none_iff]
  intro x hx
  have hx' := List.findIdx?_eq_none_iff.mp hstatic.2 x hx
  exact Bool.and_eq_false_imp.mpr fun htrue => absurd (hx'.symm.trans htrue) nofun

/-- A header with such a name. -/
theorem encodeHeader_new {e : Encoder} (hnone : e.pendingMaxTableSizeSignal = none) {name : Text}
    (hname : e.combinedNameIndex name = none) (out : Bytes) (value : Text) :
    e.encodeHeader out name value =
      (out ++ ([0x40] ++ encodeLiteralString [] name ++ encodeLiteralString [] value),
        e.insert name value) := by
  have hfull := combinedFullIndex_of_name hname value
  simp only [Encoder.encodeHeader, Encoder.takeSignal, hnone, hfull, hname]
  rw [encodeLiteralString_append, encodeLiteralString_append (out ++ _), List.append_assoc,
    List.append_assoc, List.append_assoc]

/-- A header larger than the table empties it. -/
theorem insert_oversize {e : Encoder} {name value : Text} (h : e.maxDynTableSize < value.length) :
    e.insert name value = { e with dynTable := .empty } := by
  have hchars := length_le_utf8 value
  have hweight : e.maxDynTableSize < entrySize (name, value) := by
    rw [entrySize]
    show e.maxDynTableSize < name.utf8.length + value.utf8.length + 32
    omega
  rw [Encoder.insert, Base.Fifo.insert, if_pos hweight]

/-! ## One reading -/

section

variable {p : Profile} {t t₁ t₂ : Rfc.Table}

theorem Rfc.IsString.unique {a a' rest rest' : Bytes} {s s' : Text} (h : IsString p a s)
    (h' : IsString p a' s') (heq : a ++ rest = a' ++ rest') : a = a' ∧ s = s' := by
  -- the length in front says where the octets end
  have hcut : ∀ {b b' : UInt8} {lead lead' raw raw' : Bytes},
      p.Reads 7 (b :: lead) raw.length → p.Reads 7 (b' :: lead') raw'.length →
      b :: lead ++ raw ++ rest = b' :: lead' ++ raw' ++ rest' →
      b :: lead = b' :: lead' ∧ raw = raw' := by
    intro b b' lead lead' raw raw' hlen hlen' heq
    rw [List.append_assoc, List.append_assoc] at heq
    obtain ⟨hlead, hraw⟩ := hlen.isInt.unique hlen'.isInt heq
    rw [hlead] at heq
    exact ⟨hlead, (List.append_inj (List.append_cancel_left heq) hraw).1⟩
  cases h with
  | raw hflag hlen ht =>
      cases h' with
      | raw _ hlen' ht' =>
          obtain ⟨hlead, rfl⟩ := hcut hlen hlen' heq
          rw [hlead]
          exact ⟨rfl, Option.some.inj (ht.symm.trans ht')⟩
      | coded hflag' =>
          obtain ⟨rfl, -⟩ := List.cons.inj heq
          omega
  | coded hflag hlen hn hbits ht =>
      cases h' with
      | raw hflag' =>
          obtain ⟨rfl, -⟩ := List.cons.inj heq
          omega
      | coded _ hlen' hn' hbits' ht' =>
          obtain ⟨hlead, rfl⟩ := hcut hlen hlen' heq
          rw [Rfc.codedBits_eq] at hbits hbits'
          have hoctets := (huffmanDecode_of_bits hn hbits).symm.trans
            (huffmanDecode_of_bits hn' hbits')
          obtain rfl := Except.ok.inj hoctets
          rw [hlead]
          exact ⟨rfl, Option.some.inj (ht.symm.trans ht')⟩

theorem Rfc.IsName.unique {i : Nat} {a a' rest rest' : Bytes} {s s' : Text}
    (h : IsName p t i a s) (h' : IsName p t i a' s') (heq : a ++ rest = a' ++ rest') :
    a = a' ∧ s = s' := by
  have hzero : t.entry 0 = none := rfl
  cases h with
  | new h =>
      cases h' with
      | new h' => exact h.unique h' heq
      | indexed hentry =>
          rw [hzero] at hentry
          cases hentry
  | indexed hentry =>
      cases h' with
      | new =>
          rw [hzero] at hentry
          cases hentry
      | indexed hentry' =>
          obtain ⟨hname, -⟩ := Prod.mk.inj (Option.some.inj (hentry.symm.trans hentry'))
          exact ⟨rfl, hname⟩

/-- The parts of a literal. -/
theorem literal_unique {k : Nat} {b b' : UInt8} {lead lead' named named' valued valued' rest rest' :
    Bytes} {i i' : Nat} {name name' value value' : Text} (hidx : p.Reads k (b :: lead) i)
    (hname : IsName p t i named name) (hvalue : IsString p valued value)
    (hidx' : p.Reads k (b' :: lead') i') (hname' : IsName p t i' named' name')
    (hvalue' : IsString p valued' value')
    (heq : b :: lead ++ (named ++ valued) ++ rest = b' :: lead' ++ (named' ++ valued') ++ rest') :
    b :: lead ++ (named ++ valued) = b' :: lead' ++ (named' ++ valued') ∧ name = name' ∧
      value = value' := by
  rw [List.append_assoc (b :: lead), List.append_assoc (b' :: lead')] at heq
  obtain ⟨hlead, rfl⟩ := hidx.isInt.unique hidx'.isInt heq
  rw [hlead] at heq
  have hnamed := List.append_cancel_left heq
  rw [List.append_assoc named, List.append_assoc named'] at hnamed
  obtain ⟨rfl, rfl⟩ := hname.unique hname' hnamed
  obtain ⟨rfl, rfl⟩ := hvalue.unique hvalue' (List.append_cancel_left hnamed)
  rw [hlead]
  exact ⟨rfl, rfl, rfl⟩

/-- The octets start with one representation at most. -/
theorem Rfc.Field.unique {a a' rest rest' : Bytes} {out out' : Option (Text × Text)}
    (h : Field p t a out t₁) (h' : Field p t a' out' t₂) (heq : a ++ rest = a' ++ rest') :
    a = a' ∧ out = out' ∧ t₁ = t₂ := by
  cases h with
  | indexed hflag hidx hentry =>
      cases h' with
      | indexed _ hidx' hentry' =>
          obtain ⟨hlead, rfl⟩ := hidx.isInt.unique hidx'.isInt heq
          exact ⟨hlead, hentry.symm.trans hentry', rfl⟩
      | incremental hflag' | resize hflag' | plain hflag' =>
          obtain ⟨rfl, -⟩ := List.cons.inj heq
          omega
  | incremental hflag hidx hname hvalue =>
      cases h' with
      | incremental _ hidx' hname' hvalue' =>
          obtain ⟨hlead, rfl, rfl⟩ := literal_unique hidx hname hvalue hidx' hname' hvalue' heq
          exact ⟨hlead, rfl, rfl⟩
      | indexed hflag' | resize hflag' | plain hflag' =>
          obtain ⟨rfl, -⟩ := List.cons.inj heq
          omega
  | resize hflag hint hsize =>
      cases h' with
      | resize _ hint' hsize' =>
          obtain ⟨hlead, rfl⟩ := hint.isInt.unique hint'.isInt heq
          obtain rfl := Option.some.inj (hsize.symm.trans hsize')
          exact ⟨hlead, rfl, rfl⟩
      | indexed hflag' | incremental hflag' | plain hflag' =>
          obtain ⟨rfl, -⟩ := List.cons.inj heq
          omega
  | plain hflag hidx hname hvalue =>
      cases h' with
      | plain _ hidx' hname' hvalue' =>
          obtain ⟨hlead, rfl, rfl⟩ := literal_unique hidx hname hvalue hidx' hname' hvalue' heq
          exact ⟨hlead, rfl, rfl⟩
      | indexed hflag' | incremental hflag' | resize hflag' =>
          obtain ⟨rfl, -⟩ := List.cons.inj heq
          omega

theorem Rfc.Field.ne_nil {a : Bytes} {out : Option (Text × Text)} (h : Field p t a out t₁) :
    a ≠ [] := by
  cases h <;> exact List.cons_ne_nil _ _

/-- What is left of a block behind a representation at its front. -/
theorem Rfc.Fields.tail {a rest : Bytes} {out : Option (Text × Text)}
    {headers : List (Text × Text)} (h : Fields p t (a ++ rest) headers t₂)
    (hfield : Field p t a out t₁) :
    ∃ headers', headers = out.toList ++ headers' ∧ Fields p t₁ rest headers' t₂ := by
  generalize hblock : a ++ rest = block at h
  cases h with
  | nil => exact absurd (List.append_eq_nil_iff.mp hblock).1 hfield.ne_nil
  | cons hfield' hrest =>
      obtain ⟨rfl, rfl, rfl⟩ := hfield.unique hfield' hblock
      obtain rfl := List.append_cancel_left hblock
      exact ⟨_, rfl, hrest⟩

/-- A block is read in one way at most. -/
theorem Rfc.Fields.unique {block : Bytes} {headers headers' : List (Text × Text)}
    (h : Fields p t block headers t₁) (h' : Fields p t block headers' t₂) :
    headers = headers' ∧ t₁ = t₂ := by
  induction h generalizing headers' with
  | nil t =>
      generalize hblock : ([] : Bytes) = block at h'
      cases h' with
      | nil => exact ⟨rfl, rfl⟩
      | cons hfield _ => exact absurd (List.append_eq_nil_iff.mp hblock.symm).1 hfield.ne_nil
  | cons hfield _ ih =>
      obtain ⟨headers', rfl, hrest'⟩ := h'.tail hfield
      obtain ⟨rfl, rfl⟩ := ih hrest'
      exact ⟨rfl, rfl⟩

end

end Rsurl.H2
