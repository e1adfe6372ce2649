/-
# `Rsurl.H2.HpackSync` — the two ends of an HPACK connection agree

The encoder's table need not equal the decoder's: a cap lowered and raised
again before the next block empties the encoder's only.  What every step keeps
is `InSync`: the encoder's entries are a prefix of the decoder's, so every
index the encoder writes names the same entry at the other end.
-/
import Rsurl.H2.Literal

namespace Rsurl.H2

/-! ## The relation -/

/-- An encoder and a decoder that agree. -/
structure InSync (e : Encoder) (d : Decoder) : Prop where
  entries : e.dynTable.entries <+: d.dynTable.entries
  size_le : e.dynTable.size ≤ e.maxDynTableSize
  max_le : e.maxDynTableSize ≤ dynTableCap
  cap : e.pendingMaxTableSizeSignal = none → d.dynTableCap = e.maxDynTableSize
  signal : ∀ n, e.pendingMaxTableSizeSignal = some n → n = e.maxDynTableSize

theorem inSync_new : InSync .new .new where
  entries := List.prefix_refl _
  size_le := Nat.zero_le _
  max_le := Nat.le_refl _
  cap _ := rfl
  signal _ h := by cases h

theorem InSync.setPeerMaxTableSize {e : Encoder} {d : Decoder} (h : InSync e d) {n : Nat}
    (hn : n ≤ dynTableCap) : InSync (e.setPeerMaxTableSize n) d where
  entries := (e.dynTable.evict_prefix_self n 0).trans h.entries
  size_le := e.dynTable.evict_size_le (Nat.zero_le n)
  max_le := hn
  cap hnone := by cases hnone
  signal _ hsome := (Option.some.inj hsome).symm

/-- The decoder after it reads a table-size update. -/
def Decoder.resize (d : Decoder) (n : Nat) : Decoder :=
  Decoder.evictToFit { d with dynTableCap := min n H2.dynTableCap } 0

/-- Once the signal is taken and read, the caps are the same. -/
theorem InSync.signal_taken {e : Encoder} {d : Decoder} (h : InSync e d) {n : Nat}
    (hn : e.pendingMaxTableSizeSignal = some n) :
    InSync { e with pendingMaxTableSizeSignal := none } (d.resize n) := by
  obtain rfl := h.signal n hn
  have hmin : min e.maxDynTableSize dynTableCap = e.maxDynTableSize := Nat.min_eq_left h.max_le
  refine ⟨?_, h.size_le, h.max_le, fun _ => hmin, fun _ hsome => by cases hsome⟩
  refine Base.Fifo.prefix_evict h.entries ?_
  rw [← e.dynTable.size_eq, Nat.add_zero]
  exact (Nat.le_of_eq hmin.symm).trans' h.size_le

theorem InSync.insert {e : Encoder} {d : Decoder} (h : InSync e d)
    (hnone : e.pendingMaxTableSizeSignal = none) (name value : Text) :
    InSync (e.insert name value) (d.insert name value) := by
  have hcap := h.cap hnone
  refine ⟨?_, e.dynTable.insert_size_le _ _, h.max_le, h.cap, h.signal⟩
  simp only [Encoder.insert, Decoder.insert, hcap]
  exact Base.Fifo.insert_mono h.entries _ _

/-! ## Indices -/

theorem lookup_static {d : Decoder} {i : Nat} {n v : String}
    (h : staticTable[i]? = some (n, v)) : d.lookup (i + 1) = .ok (n.toList, v.toList) := by
  have hlt : i < staticTable.length := (List.getElem?_eq_some_iff.mp h).1
  simp only [Decoder.lookup, if_neg (Nat.succ_ne_zero i), if_pos (Nat.succ_le_of_lt hlt),
    Nat.add_sub_cancel, h]
  rfl

theorem lookup_dynamic {d : Decoder} {i : Nat} {entry : Text × Text}
    (h : d.dynTable.entries[i]? = some entry) :
    d.lookup (staticTable.length + 1 + i) = .ok entry := by
  have hne : staticTable.length + 1 + i ≠ 0 := by omega
  have hbig : ¬ staticTable.length + 1 + i ≤ staticTable.length := by omega
  have hidx : staticTable.length + 1 + i - staticTable.length - 1 = i := by omega
  simp only [Decoder.lookup, if_neg hne, if_neg hbig, hidx, h]

/-- Where a search finds something. -/
theorem findIdx?_eq_some_getElem? {α : Type} {l : List α} {p : α → Bool} {i : Nat}
    (h : l.findIdx? p = some i) : ∃ x, l[i]? = some x ∧ p x = true := by
  obtain ⟨hlt, hp, -⟩ := List.findIdx?_eq_some_iff_getElem.mp h
  exact ⟨_, List.getElem?_eq_getElem hlt, hp⟩

theorem InSync.getElem? {e : Encoder} {d : Decoder} (h : InSync e d) {i : Nat}
    {entry : Text × Text} (hi : e.dynTable.entries[i]? = some entry) :
    d.dynTable.entries[i]? = some entry := by
  obtain ⟨rest, hrest⟩ := h.entries
  rw [← hrest, List.getElem?_append_left (List.getElem?_eq_some_iff.mp hi).1, hi]

/-- An encoder in sync holds fewer entries than its cap has bytes. -/
theorem InSync.length_le {e : Encoder} {d : Decoder} (h : InSync e d) :
    e.dynTable.entries.length ≤ dynTableCap := by
  have hsum : ∀ l : List (Text × Text), l.length ≤ (l.map entrySize).sum := by
    intro l
    induction l with
    | nil => exact Nat.le_refl 0
    | cons x l ih =>
        simp only [List.length_cons, List.map_cons, List.sum_cons, entrySize]
        omega
  exact (hsum _).trans (e.dynTable.size_eq ▸ h.size_le.trans h.max_le)

/-- An index the encoder finds for a header names that header at the decoder. -/
theorem InSync.lookup {e : Encoder} {d : Decoder} (h : InSync e d) {name value : Text} {idx : Nat}
    (hidx : e.combinedFullIndex name value = some idx) :
    d.lookup idx = .ok (name, value) ∧ idx < 2 ^ 64 := by
  unfold Encoder.combinedFullIndex at hidx
  split at hidx
  · next i hstatic =>
      obtain rfl := Option.some.inj hidx
      obtain ⟨j, hfind, rfl⟩ := Option.map_eq_some_iff.mp hstatic
      obtain ⟨⟨n, v⟩, hget, hp⟩ := findIdx?_eq_some_getElem? hfind
      have hlt : j < staticTable.length := (List.getElem?_eq_some_iff.mp hget).1
      have hlen : staticTable.length = 61 := rfl
      simp only [Bool.and_eq_true, beq_iff_eq] at hp
      exact ⟨by rw [lookup_static hget, hp.1, hp.2], by omega⟩
  · obtain ⟨j, hfind, rfl⟩ := Option.map_eq_some_iff.mp hidx
    obtain ⟨⟨n, v⟩, hget, hp⟩ := findIdx?_eq_some_getElem? hfind
    have hlt : j < e.dynTable.entries.length := (List.getElem?_eq_some_iff.mp hget).1
    have hcount := h.length_le
    have hlen : staticTable.length = 61 := rfl
    have hcap : dynTableCap = 4096 := rfl
    simp only [Bool.and_eq_true, beq_iff_eq] at hp
    exact ⟨by rw [lookup_dynamic (h.getElem? hget), hp.1, hp.2], by omega⟩

/-- An index the encoder finds for a name is not 0 and names it at the decoder. -/
theorem InSync.lookupName {e : Encoder} {d : Decoder} (h : InSync e d) {name : Text} {idx : Nat}
    (hidx : e.combinedNameIndex name = some idx) :
    d.lookupName idx = .ok name ∧ idx ≠ 0 ∧ idx < 2 ^ 64 := by
  unfold Encoder.combinedNameIndex at hidx
  split at hidx
  · next i hstatic =>
      obtain rfl := Option.some.inj hidx
      obtain ⟨j, hfind, rfl⟩ := Option.map_eq_some_iff.mp hstatic
      obtain ⟨⟨n, v⟩, hget, hp⟩ := findIdx?_eq_some_getElem? hfind
      have hlt : j < staticTable.length := (List.getElem?_eq_some_iff.mp hget).1
      have hlen : staticTable.length = 61 := rfl
      refine ⟨?_, by omega, by omega⟩
      rw [Decoder.lookupName, lookup_static hget, ← eq_of_beq hp]
      rfl
  · obtain ⟨j, hfind, rfl⟩ := Option.map_eq_some_iff.mp hidx
    obtain ⟨⟨n, v⟩, hget, hp⟩ := findIdx?_eq_some_getElem? hfind
    have hlt : j < e.dynTable.entries.length := (List.getElem?_eq_some_iff.mp hget).1
    have hcount := h.length_le
    have hlen : staticTable.length = 61 := rfl
    have hcap : dynTableCap = 4096 := rfl
    refine ⟨?_, by omega, by omega⟩
    rw [Decoder.lookupName, lookup_dynamic (h.getElem? hget), ← eq_of_beq hp]
    rfl

/-! ## Bytes that decode to a list of headers -/

/-- The accounted size of a header list. -/
def listSize (headers : List (Text × Text)) : Nat := (headers.map entrySize).sum

@[simp] theorem listSize_nil : listSize [] = 0 := rfl

@[simp] theorem listSize_cons (h : Text × Text) (headers : List (Text × Text)) :
    listSize (h :: headers) = entrySize h + listSize headers := List.sum_cons

theorem listSize_append (a b : List (Text × Text)) :
    listSize (a ++ b) = listSize a + listSize b := by
  rw [listSize, List.map_append, List.sum_append, listSize, listSize]

/-- Wherever `bytes` stand in a block, the loop of `decode_block` reads `headers` off them and
takes the decoder from `d` to `d'`. -/
def DecodesTo (d d' : Decoder) (bytes : Bytes) (headers : List (Text × Text)) : Prop :=
  ∀ {buf rest : Bytes} {pos : Nat} (fuel size : Nat) (out : List (Text × Text)),
    buf.length < 2 ^ 64 → buf.drop pos = bytes ++ rest → bytes.length ≤ fuel →
    size + listSize headers ≤ maxDecodedHeaderList →
    ∃ fuel', fuel ≤ fuel' + bytes.length ∧
      Decoder.decodeLoop fuel d buf pos size out =
        Decoder.decodeLoop fuel' d' buf (pos + bytes.length) (size + listSize headers)
          (out ++ headers)

theorem DecodesTo.nil (d : Decoder) : DecodesTo d d [] [] := by
  intro _ _ _ fuel _ _ _ _ _ _
  exact ⟨fuel, Nat.le_refl fuel, by simp⟩

theorem DecodesTo.append {d d' d'' : Decoder} {a b : Bytes} {s t : List (Text × Text)}
    (ha : DecodesTo d d' a s) (hb : DecodesTo d' d'' b t) : DecodesTo d d'' (a ++ b) (s ++ t) := by
  intro buf rest pos fuel size out hbuf hdrop hfuel hsize
  rw [List.append_assoc] at hdrop
  rw [List.length_append] at hfuel
  rw [listSize_append] at hsize
  obtain ⟨fuel', hle', hrun'⟩ :=
    ha fuel size out hbuf hdrop (by omega) (by omega)
  obtain ⟨fuel'', hle'', hrun''⟩ :=
    hb fuel' (size + listSize s) (out ++ s) hbuf (drop_past hdrop) (by omega) (by omega)
  refine ⟨fuel'', by rw [List.length_append]; omega, ?_⟩
  rw [hrun', hrun'', List.length_append, listSize_append, List.append_assoc, Nat.add_assoc,
    Nat.add_assoc]

/-- One turn of the loop that reads a header. -/
theorem DecodesTo.field {d d' : Decoder} {bytes : Bytes} {entry : Text × Text}
    (hne : bytes ≠ [])
    (h : ∀ {buf rest : Bytes} {pos : Nat}, buf.length < 2 ^ 64 → buf.drop pos = bytes ++ rest →
      ∃ b, buf[pos]? = some b ∧
        d.decodeField buf pos b = .ok (some entry, pos + bytes.length, d')) :
    DecodesTo d d' bytes [entry] := by
  intro buf rest pos fuel size out hbuf hdrop hfuel hsize
  obtain ⟨b, hget, hfield⟩ := h hbuf hdrop
  have hpos := List.length_pos_of_ne_nil hne
  obtain ⟨fuel', rfl⟩ := Nat.exists_eq_succ_of_ne_zero (by omega : fuel ≠ 0)
  have hfit : ¬ maxDecodedHeaderList < size + entrySize entry := by
    simp only [listSize_cons, listSize_nil] at hsize
    omega
  refine ⟨fuel', by omega, ?_⟩
  simp only [Decoder.decodeLoop, hget, hfield, if_neg hfit, listSize_cons, listSize_nil,
    Nat.add_zero]

/-- One turn of the loop that reads a table-size update. -/
theorem DecodesTo.update {d d' : Decoder} {bytes : Bytes} (hne : bytes ≠ [])
    (h : ∀ {buf rest : Bytes} {pos : Nat}, buf.length < 2 ^ 64 → buf.drop pos = bytes ++ rest →
      ∃ b, buf[pos]? = some b ∧
        d.decodeField buf pos b = .ok (none, pos + bytes.length, d')) :
    DecodesTo d d' bytes [] := by
  intro buf rest pos fuel size out hbuf hdrop hfuel _
  obtain ⟨b, hget, hfield⟩ := h hbuf hdrop
  have hpos := List.length_pos_of_ne_nil hne
  obtain ⟨fuel', rfl⟩ := Nat.exists_eq_succ_of_ne_zero (by omega : fuel ≠ 0)
  refine ⟨fuel', by omega, ?_⟩
  simp only [Decoder.decodeLoop, hget, hfield, listSize_nil, Nat.add_zero, List.append_nil]

/-- A whole block is decoded. -/
theorem DecodesTo.decodeBlock {d d' : Decoder} {bytes : Bytes} {headers : List (Text × Text)}
    (h : DecodesTo d d' bytes headers) (hlen : bytes.length < 2 ^ 64)
    (hsize : listSize headers ≤ maxDecodedHeaderList) :
    d.decodeBlock bytes = (.ok headers, d') := by
  obtain ⟨fuel', -, hrun⟩ := h bytes.length 0 [] hlen
    (by rw [List.append_nil, List.drop_zero] : bytes.drop 0 = bytes ++ []) (Nat.le_refl _) (by rwa [Nat.zero_add])
  have hend : bytes[0 + bytes.length]? = none := by
    rw [Nat.zero_add]
    exact List.getElem?_eq_none (Nat.le_refl _)
  rw [Decoder.decodeBlock, hrun, List.nil_append]
  cases fuel' with
  | zero => rfl
  | succ fuel' => simp only [Decoder.decodeLoop, hend]

/-! ## What the encoder writes -/

/-- An integer under the flag of its kind of field, the bit above the prefix. -/
def marked (k value : Nat) : Bytes :=
  (encodeInt value k).modifyHead (· ||| UInt8.ofNat (2 ^ k))

theorem marked_ne_nil (k value : Nat) : marked k value ≠ [] := by
  simp [marked, encodeInt_ne_nil]

theorem length_marked {k value : Nat} (h : value < 2 ^ 64) : (marked k value).length ≤ 11 := by
  rw [marked, List.length_modifyHead]
  exact length_encodeInt k h

/-- A marked integer at the head of what is left: its flags and its number. -/
theorem marked_read {k value : Nat} {buf rest : Bytes} {pos : Nat} (hk : k < 8)
    (hv : value < 2 ^ 64) (h : buf.drop pos = marked k value ++ rest) :
    ∃ b : UInt8, buf[pos]? = some b ∧
      (∀ i < 8, k ≤ i → (b &&& UInt8.ofNat (2 ^ i) = 0 ↔ i ≠ k)) ∧
      decodeInt (buf.drop pos) k = .ok (value, (marked k value).length) := by
  obtain ⟨b, tail, hhead, hb⟩ := head_encodeInt value (Nat.le_of_lt hk)
  refine ⟨b ||| UInt8.ofNat (2 ^ k), ?_, ?_, ?_⟩
  · rw [marked, hhead, List.modifyHead_cons, List.cons_append] at h
    exact getElem?_of_drop h
  · intro i hi hki
    have hhigh : b.toNat.testBit i = false :=
      Nat.testBit_lt_two_pow (Nat.lt_of_lt_of_le hb (Nat.pow_le_pow_right (Nat.succ_pos 1) hki))
    rw [and_bit_eq_zero _ hi, testBit_or_bit b hk, hhigh]
    simp [eq_comm]
  · rw [h]
    exact decodeInt_encodeInt rest (Nat.le_of_lt hk) hv fun b => toNat_or_bit b (Nat.le_refl k) hk

/-- A pending signal takes the decoder's cap along. -/
theorem decodesTo_signal (d : Decoder) {n : Nat} (hn : n < 2 ^ 64) :
    DecodesTo d (d.resize n) (marked 5 n) [] := by
  refine DecodesTo.update (marked_ne_nil 5 n) ?_
  intro buf rest pos _ hdrop
  obtain ⟨b, hget, hflag, hint⟩ := marked_read (by omega) hn hdrop
  have h7 : ¬ b &&& 0x80 ≠ 0 := not_not.mpr ((hflag 7 (by omega) (by omega)).mpr (by omega))
  have h6 : ¬ b &&& 0x40 ≠ 0 := not_not.mpr ((hflag 6 (by omega) (by omega)).mpr (by omega))
  have h5 : b &&& 0x20 ≠ 0 := by
    intro hzero
    exact (hflag 5 (by omega) (by omega)).mp hzero rfl
  refine ⟨b, hget, ?_⟩
  rw [Decoder.decodeField, if_neg h7, if_neg h6, if_pos h5, hint]
  rfl

/-- An index names a header. -/
theorem decodesTo_indexed {d : Decoder} {idx : Nat} {entry : Text × Text} (hidx : idx < 2 ^ 64)
    (h : d.lookup idx = .ok entry) : DecodesTo d d (marked 7 idx) [entry] := by
  refine DecodesTo.field (marked_ne_nil 7 idx) ?_
  intro buf rest pos _ hdrop
  obtain ⟨b, hget, hflag, hint⟩ := marked_read (by omega) hidx hdrop
  have h7 : b &&& 0x80 ≠ 0 := by
    intro hzero
    exact (hflag 7 (by omega) (by omega)).mp hzero rfl
  refine ⟨b, hget, ?_⟩
  rw [Decoder.decodeField, if_pos h7, hint]
  change (d.lookup idx >>= _) = _
  rw [h]
  rfl

/-- A literal whose name is read from `nameBytes`, or from the tables when there are none. -/
theorem decodesTo_literal {d : Decoder} {idx : Nat} {nameBytes : Bytes} {name value : Text}
    (hidx : idx < 2 ^ 64) (hvalue : value.utf8.length < 2 ^ 64)
    (h : ∀ {buf rest : Bytes} {pos : Nat}, buf.length < 2 ^ 64 →
      buf.drop pos = nameBytes ++ rest →
      d.readName buf idx pos = .ok (name, pos + nameBytes.length)) :
    DecodesTo d (d.insert name value)
      (marked 6 idx ++ (nameBytes ++ encodeLiteralString [] value)) [(name, value)] := by
  refine DecodesTo.field (by simp [marked_ne_nil]) ?_
  intro buf rest pos hbuf hdrop
  rw [List.append_assoc, List.append_assoc] at hdrop
  obtain ⟨b, hget, hflag, hint⟩ := marked_read (by omega) hidx hdrop
  have h7 : ¬ b &&& 0x80 ≠ 0 := not_not.mpr ((hflag 7 (by omega) (by omega)).mpr (by omega))
  have h6 : b &&& 0x40 ≠ 0 := by
    intro hzero
    exact (hflag 6 (by omega) (by omega)).mp hzero rfl
  have hname := drop_past hdrop
  have hval := drop_past hname
  refine ⟨b, hget, ?_⟩
  rw [Decoder.decodeField, if_neg h7, if_pos h6, hint]
  change (d.readName buf idx (pos + (marked 6 idx).length) >>= _) = _
  rw [h hbuf hname]
  change (Decoder.readString buf (pos + (marked 6 idx).length + nameBytes.length) >>= _) = _
  rw [readString_encodeLiteralString hval hvalue hbuf]
  simp only [List.length_append, ← Nat.add_assoc]
  rfl

/-! ## One header -/

/-- Both ends leave their tables as they are, or both insert. -/
def StepsAlike (e : Encoder) (d : Decoder) (header : Text × Text) (e' : Encoder) (d' : Decoder) :
    Prop :=
  (e' = e ∧ d' = d) ∨
    (e' = e.insert header.1 header.2 ∧ d' = d.insert header.1 header.2)

/-- Without a pending signal, `encode_header` writes one field. -/
theorem encodeHeader_spec_of_none {e : Encoder} {d : Decoder} (h : InSync e d)
    (hnone : e.pendingMaxTableSizeSignal = none) {name value : Text}
    (hfit : entrySize (name, value) < 2 ^ 64) :
    ∃ bytes e' d', (∀ out, e.encodeHeader out name value = (out ++ bytes, e')) ∧
      InSync e' d' ∧ DecodesTo d d' bytes [(name, value)] ∧
      StepsAlike e d (name, value) e' d' ∧
      bytes.length ≤ 33 + name.utf8.length + value.utf8.length := by
  have htake : ∀ out, e.takeSignal out = (out, e) := by
    intro out
    simp only [Encoder.takeSignal, hnone]
  simp only [entrySize] at hfit
  have hname : name.utf8.length < 2 ^ 64 := by omega
  have hvalue : value.utf8.length < 2 ^ 64 := by omega
  have hvlen := length_encodeLiteralString hvalue
  cases hfull : e.combinedFullIndex name value with
  | some idx =>
      obtain ⟨hlook, hidx⟩ := h.lookup hfull
      refine ⟨marked 7 idx, e, d, ?_, h, decodesTo_indexed hidx hlook, .inl ⟨rfl, rfl⟩, ?_⟩
      · intro out
        simp only [Encoder.encodeHeader, htake, hfull]
        rfl
      · have := length_marked (k := 7) hidx
        omega
  | none =>
      cases hindex : e.combinedNameIndex name with
      | some idx =>
          obtain ⟨hlook, hne, hidx⟩ := h.lookupName hindex
          refine ⟨marked 6 idx ++ ([] ++ encodeLiteralString [] value), e.insert name value,
            d.insert name value, ?_, h.insert hnone name value,
            decodesTo_literal hidx hvalue ?_, .inr ⟨rfl, rfl⟩, ?_⟩
          · intro out
            simp only [Encoder.encodeHeader, htake, hfull, hindex]
            rw [encodeLiteralString_append, List.append_assoc]
            rfl
          · intro buf rest pos _ _
            rw [Decoder.readName, if_neg hne, hlook]
            rfl
          · have := length_marked (k := 6) hidx
            simp only [List.length_append, List.length_nil]
            omega
      | none =>
          have hlit : ([0x40] : Bytes) = marked 6 0 := by decide
          refine ⟨marked 6 0 ++ (encodeLiteralString [] name ++ encodeLiteralString [] value),
            e.insert name value, d.insert name value, ?_, h.insert hnone name value,
            decodesTo_literal (by omega) hvalue ?_, .inr ⟨rfl, rfl⟩, ?_⟩
          · intro out
            simp only [Encoder.encodeHeader, htake, hfull, hindex]
            rw [encodeLiteralString_append, encodeLiteralString_append (out ++ _), hlit,
              List.append_assoc, List.append_assoc]
          · intro buf rest pos hbuf hdrop
            rw [Decoder.readName, if_pos rfl]
            exact readString_encodeLiteralString hdrop hname hbuf
          · have hnlen := length_encodeLiteralString hname
            rw [← hlit]
            simp only [List.length_append, List.length_singleton]
            omega

/-- The decoder after the signal the encoder had pending, if any. -/
def Decoder.hear (d : Decoder) : Option Nat → Decoder
  | none => d
  | some n => d.resize n

/-- What `encode_header` puts behind `out` is decoded to the header, and keeps the two ends in
sync; past the signal they do the same. -/
theorem encodeHeader_spec {e : Encoder} {d : Decoder} (h : InSync e d) (name value : Text)
    (hfit : entrySize (name, value) < 2 ^ 64) :
    ∃ bytes e' d', (∀ out, e.encodeHeader out name value = (out ++ bytes, e')) ∧
      InSync e' d' ∧ DecodesTo d d' bytes [(name, value)] ∧
      StepsAlike { e with pendingMaxTableSizeSignal := none } (d.hear e.pendingMaxTableSizeSignal)
        (name, value) e' d' ∧
      bytes.length ≤ 2 * entrySize (name, value) := by
  cases hpend : e.pendingMaxTableSizeSignal with
  | none =>
      obtain ⟨bytes, e', d', henc, hsync, hdec, halike, hlen⟩ :=
        encodeHeader_spec_of_none h hpend hfit
      have hsame : { e with pendingMaxTableSizeSignal := none } = e := by rw [← hpend]
      exact ⟨bytes, e', d', henc, hsync, hdec, hsame ▸ halike, by simp only [entrySize]; omega⟩
  | some n =>
      have hn : n < 2 ^ 64 := by
        have hmax := h.signal n hpend ▸ h.max_le
        exact Nat.lt_of_le_of_lt hmax (by decide)
      obtain ⟨bytes, e', d', henc, hsync, hdec, halike, hlen⟩ :=
        encodeHeader_spec_of_none (h.signal_taken hpend) rfl hfit
      refine ⟨marked 5 n ++ bytes, e', d', ?_, hsync, DecodesTo.append (decodesTo_signal d hn) hdec,
        halike, ?_⟩
      · intro out
        rw [← List.append_assoc, ← henc (out ++ marked 5 n)]
        simp only [Encoder.encodeHeader, Encoder.takeSignal, hpend]
        rfl
      · have := length_marked (k := 5) hn
        rw [List.length_append]
        simp only [entrySize]
        omega

/-! ## Whole connections -/

/-- A call on the encoder of a connection. -/
inductive Call where
  | setPeerMaxTableSize (n : Nat)
  | encodeHeader (name value : Text)
deriving DecidableEq, Repr

/-- A call with the block that is being built. -/
def Call.run : Call → Bytes × Encoder → Bytes × Encoder
  | .setPeerMaxTableSize n, (out, e) => (out, e.setPeerMaxTableSize n)
  | .encodeHeader name value, (out, e) => e.encodeHeader out name value

/-- The header list the calls encode. -/
def headersOf (calls : List Call) : List (Text × Text) :=
  calls.filterMap fun
    | .setPeerMaxTableSize _ => none
    | .encodeHeader name value => some (name, value)

/-- The caps the peer sets stay under the decoder's. -/
def CapsBounded (calls : List Call) : Prop := ∀ n, .setPeerMaxTableSize n ∈ calls → n ≤ dynTableCap

/-- The blocks of a connection, each as the calls made on the encoder until it is complete;
what the decoder makes of every block in turn. -/
def connection (e : Encoder) (d : Decoder) : List (List Call) → List (Result (List (Text × Text)))
  | [] => []
  | calls :: blocks =>
      let (block, e) := calls.foldl (fun s call => call.run s) ([], e)
      let (res, d) := d.decodeBlock block
      res :: connection e d blocks

/-- The calls for one block, from any state in sync. -/
theorem calls_spec {calls : List Call} {e : Encoder} {d : Decoder} (h : InSync e d)
    (hcaps : CapsBounded calls) (hsize : listSize (headersOf calls) < 2 ^ 63) :
    ∃ bytes e' d', (∀ out, calls.foldl (fun s call => call.run s) (out, e) = (out ++ bytes, e')) ∧
      InSync e' d' ∧ DecodesTo d d' bytes (headersOf calls) ∧
      bytes.length ≤ 2 * listSize (headersOf calls) := by
  induction calls generalizing e d with
  | nil => exact ⟨[], e, d, by simp, h, DecodesTo.nil d, Nat.zero_le _⟩
  | cons call calls ih =>
      have hcaps' : CapsBounded calls := by
        intro n hn
        exact hcaps n (List.mem_cons_of_mem call hn)
      cases call with
      | setPeerMaxTableSize n =>
          have hn : n ≤ dynTableCap := hcaps n List.mem_cons_self
          obtain ⟨bytes, e', d', hrun, hsync, hdec, hlen⟩ :=
            ih (h.setPeerMaxTableSize hn) hcaps' hsize
          exact ⟨bytes, e', d', hrun, hsync, hdec, hlen⟩
      | encodeHeader name value =>
          have hheaders : headersOf (.encodeHeader name value :: calls) =
            [(name, value)] ++ headersOf calls := rfl
          rw [hheaders, listSize_append] at hsize ⊢
          simp only [listSize_cons, listSize_nil, Nat.add_zero] at hsize ⊢
          obtain ⟨first, e₁, d₁, henc, hsync₁, hdec₁, -, hlen₁⟩ :=
            encodeHeader_spec h name value (by omega)
          obtain ⟨bytes, e', d', hrun, hsync, hdec, hlen⟩ := ih hsync₁ hcaps' (by omega)
          refine ⟨first ++ bytes, e', d', ?_, hsync, hdec₁.append hdec, ?_⟩
          · intro out
            rw [List.foldl_cons, Call.run, henc, hrun, List.append_assoc]
          · rw [List.length_append]
            omega

/-- From any state in sync, every block is decoded to the list it was encoded from. -/
theorem connection_of_inSync {blocks : List (List Call)} {e : Encoder} {d : Decoder}
    (h : InSync e d) (hcaps : ∀ calls ∈ blocks, CapsBounded calls)
    (hsize : ∀ calls ∈ blocks, listSize (headersOf calls) ≤ maxDecodedHeaderList) :
    connection e d blocks = blocks.map fun calls => .ok (headersOf calls) := by
  induction blocks generalizing e d with
  | nil => rfl
  | cons calls blocks ih =>
      have hlimit := hsize calls List.mem_cons_self
      have hmax : maxDecodedHeaderList = 262144 := rfl
      obtain ⟨bytes, e', d', hrun, hsync, hdec, hlen⟩ :=
        calls_spec h (hcaps calls List.mem_cons_self) (by omega)
      have hblock : d.decodeBlock bytes = (.ok (headersOf calls), d') :=
        hdec.decodeBlock (by omega) hlimit
      rw [connection, hrun, List.nil_append]
      simp only [hblock, List.map_cons]
      rw [ih hsync (fun c hc => hcaps c (List.mem_cons_of_mem calls hc))
        (fun c hc => hsize c (List.mem_cons_of_mem calls hc))]

/-- HPACK over a whole connection: whatever header lists are encoded on one encoder, with
whatever changes of the peer's table size in between, one decoder fed the blocks in order
returns exactly those lists. -/
theorem connection_agrees (blocks : List (List Call))
    (hcaps : ∀ calls ∈ blocks, CapsBounded calls)
    (hsize : ∀ calls ∈ blocks, listSize (headersOf calls) ≤ maxDecodedHeaderList) :
    connection .new .new blocks = blocks.map fun calls => .ok (headersOf calls) :=
  connection_of_inSync inSync_new hcaps hsize

/-- Two blocks with the table emptied and reopened between them. -/
theorem connection_agrees_across_resize :
    connection .new .new
      [[.encodeHeader "x-a".toList "1".toList],
        [.setPeerMaxTableSize 0, .setPeerMaxTableSize 4096,
          .encodeHeader "x-b".toList "2".toList, .encodeHeader "x-b".toList "2".toList]] =
      [.ok [("x-a".toList, "1".toList)],
        .ok [("x-b".toList, "2".toList), ("x-b".toList, "2".toList)]] := by
  refine connection_agrees _ ?_ (by decide +kernel)
  intro calls hcalls n hn
  simp only [List.mem_cons, List.not_mem_nil, or_false] at hcalls
  rcases hcalls with rfl | rfl
  · simp at hn
  · simp only [List.mem_cons, Call.setPeerMaxTableSize.injEq, reduceCtorEq, List.not_mem_nil,
      or_false] at hn
    rcases hn with rfl | rfl
    · exact Nat.zero_le _
    · exact Nat.le_refl _

end Rsurl.H2
