/-
# `Rsurl.H2.Bounds` — the header tables as their fields

`Decoder` and `Encoder` of `Rsurl.H2.Hpack` carry a table that cannot miscount.
Here both are the plain fields of the source: a list of entries and a number
that every operation adds to and subtracts from, with each index and slice a
step that may fail.  They compute what the tables with the invariant compute,
so the invariant holds of them, after every turn of the loop of `decode_block`
and whatever became of the blocks before.
-/
import Rsurl.Base.Checked
import Rsurl.H2.HpackSync

namespace Rsurl.H2

open Base (Checked)

/-! ## The fields and their operations -/

/-- The loop of `decode_int` from the index `i` on. -/
def decodeIntLoop (buf : Bytes) : Nat → Nat → Nat → Nat → Checked Error (Nat × Nat)
  | 0, _, _, _ => Checked.panic
  | fuel + 1, i, value, shift =>
      if buf.length ≤ i then throw (.badResponse [.str "hpack: truncated integer"])
      else do
        let b ← Checked.get buf i
        let i := i + 1
        let digit ← Checked.shl64 (b.toNat % 128) shift
        let value := value + digit
        if 2 ^ 64 ≤ value then throw (.badResponse [.str "hpack: integer overflow"])
        else if b &&& 0x80 = 0 then pure (value, i)
        else
          let shift := shift + 7
          if 63 < shift then throw (.badResponse [.str "hpack: integer overflow"])
          else decodeIntLoop buf fuel i value shift

/-- `decode_int`, with the indices it takes. -/
def decodeIntAt (buf : Bytes) (prefixBits : Nat) : Checked Error (Nat × Nat) :=
  if buf = [] then throw (.badResponse [.str "hpack: empty integer"])
  else do
    let maxPrefix := 2 ^ prefixBits - 1
    let b ← Checked.get buf 0
    let value := b.toNat % 2 ^ prefixBits
    if value < maxPrefix then pure (value, 1) else decodeIntLoop buf buf.length 1 value 0

/-- `Decoder::read_string`, with the slices it takes. -/
def readStringAt (buf : Bytes) (pos : Nat) : Checked Error (Text × Nat) :=
  if buf.length ≤ pos then throw (.badResponse [.str "hpack: truncated string"])
  else do
    let b ← Checked.get buf pos
    let (len, consumed) ← decodeIntAt (← Checked.sliceFrom buf pos) 7
    let pos := pos + consumed
    let fin := pos + len
    if 2 ^ 64 ≤ fin then throw (.badResponse [.str "hpack: string length overflow"])
    else if buf.length < fin then throw (.badResponse [.str "hpack: truncated string body"])
    else do
      let raw ← Checked.slice buf pos fin
      if b &&& 0x80 ≠ 0 then do
        let bytes ← Checked.ofExcept (huffmanDecode raw)
        match fromUtf8 bytes with
        | some t => pure (t, fin)
        | none => throw (.badResponse [.str "hpack: non-utf8 Huffman literal"])
      else
        match fromUtf8 raw with
        | some t => pure (t, fin)
        | none => throw (.badResponse [.str "hpack: non-utf8 literal"])

/-- `usize::saturating_add`. -/
def saturatingAdd (a b : Nat) : Nat := min (a + b) (2 ^ 64 - 1)

/-- The fields of `Decoder`; the newest entry is the first. -/
structure DecoderFields where
  dynTable : List (Text × Text)
  dynTableSize : Nat
  dynTableCap : Nat
deriving DecidableEq, Repr

namespace DecoderFields

/-- `Decoder::new`. -/
def new : DecoderFields := { dynTable := [], dynTableSize := 0, dynTableCap := H2.dynTableCap }

/-- `Decoder::evict_to_fit`. -/
def evictToFit (d : DecoderFields) (incoming : Nat) : DecoderFields :=
  let (entries, size) := Base.popToFit entrySize d.dynTableCap incoming d.dynTable d.dynTableSize
  { d with dynTable := entries, dynTableSize := size }

/-- `Decoder::insert`. -/
def insert (d : DecoderFields) (name value : Text) : DecoderFields :=
  let sz := entrySize (name, value)
  if d.dynTableCap < sz then { d with dynTable := [], dynTableSize := 0 }
  else
    let d := d.evictToFit sz
    { d with dynTable := (name, value) :: d.dynTable, dynTableSize := d.dynTableSize + sz }

/-- `Decoder::lookup`. -/
def lookup (d : DecoderFields) (index : Nat) : Checked Error (Text × Text) :=
  if index = 0 then throw (.badResponse [.str "hpack: index 0"])
  else if index ≤ staticTable.length then do
    let (n, v) ← Checked.get staticTable (index - 1)
    pure (n.toList, v.toList)
  else
    let dynIdx := index - staticTable.length - 1
    if d.dynTable.length ≤ dynIdx then
      throw (.badResponse [.str "hpack: index ", .num index, .str " out of range"])
    else Checked.get d.dynTable dynIdx

/-- `Decoder::lookup_name`. -/
def lookupName (d : DecoderFields) (index : Nat) : Checked Error Text := do
  let entry ← d.lookup index
  pure entry.1

/-- The name of a literal: indexed, or a string of its own. -/
def readName (d : DecoderFields) (buf : Bytes) (idx pos : Nat) : Checked Error (Text × Nat) :=
  if idx = 0 then readStringAt buf pos
  else do
    let name ← d.lookupName idx
    pure (name, pos)

/-- One turn of the loop of `decode_block`, up to the entry; nothing that fails comes behind
a change to the table. -/
def decodeField (d : DecoderFields) (buf : Bytes) (pos : Nat) :
    Checked Error (Option (Text × Text) × Nat × DecoderFields) := do
  let b ← Checked.get buf pos
  if b &&& 0x80 ≠ 0 then
    let (idx, n) ← decodeIntAt (← Checked.sliceFrom buf pos) 7
    let entry ← d.lookup idx
    pure (some entry, pos + n, d)
  else if b &&& 0x40 ≠ 0 then
    let (idx, n) ← decodeIntAt (← Checked.sliceFrom buf pos) 6
    let (name, pos) ← d.readName buf idx (pos + n)
    let (value, pos) ← readStringAt buf pos
    pure (some (name, value), pos, d.insert name value)
  else if b &&& 0x20 ≠ 0 then
    let (newSize, n) ← decodeIntAt (← Checked.sliceFrom buf pos) 5
    let d := { d with dynTableCap := min newSize H2.dynTableCap }
    pure (none, pos + n, d.evictToFit 0)
  else
    let (idx, n) ← decodeIntAt (← Checked.sliceFrom buf pos) 4
    let (name, pos) ← d.readName buf idx (pos + n)
    let (value, pos) ← readStringAt buf pos
    pure (some (name, value), pos, d)

/-- The loop of `decode_block`; `none` when a turn panics or the fuel runs out. -/
def decodeLoop (buf : Bytes) : Nat → DecoderFields → Nat → Nat → List (Text × Text) →
    Option (Result (List (Text × Text)) × DecoderFields)
  | 0, _, _, _, _ => none
  | fuel + 1, d, pos, listSize, out =>
      if pos < buf.length then
        match (d.decodeField buf pos).run with
        | none => none
        | some (.error e) => some (.error e, d)
        | some (.ok (none, pos, d)) => decodeLoop buf fuel d pos listSize out
        | some (.ok (some entry, pos, d)) =>
            let listSize := saturatingAdd
              (saturatingAdd (saturatingAdd listSize entry.1.len) entry.2.len) 32
            if maxDecodedHeaderList < listSize then
              some (.error (.badResponse [.str "hpack: decoded header list exceeds limit"]), d)
            else decodeLoop buf fuel d pos listSize (out ++ [entry])
      else some (.ok out, d)

/-- `Decoder::decode_block`: its result, and the decoder after it. -/
def decodeBlock (d : DecoderFields) (buf : Bytes) :
    Option (Result (List (Text × Text)) × DecoderFields) :=
  d.decodeLoop buf (buf.length + 1) 0 0 []

/-- One block after another on one decoder, whatever becomes of each: the results, with the
decoder after each of them. -/
def decodeBlocks (d : DecoderFields) :
    List Bytes → Option (List (Result (List (Text × Text)) × DecoderFields))
  | [] => some []
  | buf :: bufs => do
      let r ← d.decodeBlock buf
      let rs ← r.2.decodeBlocks bufs
      return r :: rs

end DecoderFields

/-- The fields of `Encoder`; the newest entry is the first. -/
structure EncoderFields where
  dynTable : List (Text × Text)
  dynTableSize : Nat
  maxDynTableSize : Nat
  pendingMaxTableSizeSignal : Option Nat
deriving DecidableEq, Repr

namespace EncoderFields

/-- `Encoder::new`. -/
def new : EncoderFields where
  dynTable := []
  dynTableSize := 0
  maxDynTableSize := dynTableCap
  pendingMaxTableSizeSignal := none

/-- `Encoder::evict_to_fit`. -/
def evictToFit (e : EncoderFields) (incoming : Nat) : EncoderFields :=
  let (entries, size) :=
    Base.popToFit entrySize e.maxDynTableSize incoming e.dynTable e.dynTableSize
  { e with dynTable := entries, dynTableSize := size }

/-- `Encoder::set_peer_max_table_size`. -/
def setPeerMaxTableSize (e : EncoderFields) (n : Nat) : EncoderFields :=
  let e := evictToFit { e with maxDynTableSize := n } 0
  { e with pendingMaxTableSizeSignal := some n }

/-- `Encoder::insert`. -/
def insert (e : EncoderFields) (name value : Text) : EncoderFields :=
  let sz := entrySize (name, value)
  if e.maxDynTableSize < sz then { e with dynTable := [], dynTableSize := 0 }
  else
    let e := e.evictToFit sz
    { e with dynTable := (name, value) :: e.dynTable, dynTableSize := e.dynTableSize + sz }

/-- `Encoder::combined_full_index`. -/
def combinedFullIndex (e : EncoderFields) (name value : Text) : Option Nat :=
  match staticFullIndex name value with
  | some i => some i
  | none =>
      (e.dynTable.findIdx? fun (n, v) => n == name && v == value).map
        (staticTable.length + 1 + ·)

/-- `Encoder::combined_name_index`. -/
def combinedNameIndex (e : EncoderFields) (name : Text) : Option Nat :=
  match staticNameIndex name with
  | some i => some i
  | none => (e.dynTable.findIdx? fun (n, _) => n == name).map (staticTable.length + 1 + ·)

/-- The pending table-size signal is taken and written. -/
def takeSignal (e : EncoderFields) (out : Bytes) : Bytes × EncoderFields :=
  match e.pendingMaxTableSizeSignal with
  | some n =>
      (out ++ (encodeInt n 5).modifyHead (· ||| 0x20),
        { e with pendingMaxTableSizeSignal := none })
  | none => (out, e)

/-- `Encoder::encode_header`: what `out` becomes, and the encoder after it. -/
def encodeHeader (e : EncoderFields) (out : Bytes) (name value : Text) : Bytes × EncoderFields :=
  let (out, e) := e.takeSignal out
  match e.combinedFullIndex name value with
  | some idx => (out ++ (encodeInt idx 7).modifyHead (· ||| 0x80), e)
  | none =>
      match e.combinedNameIndex name with
      | some idx =>
          let out := out ++ (encodeInt idx 6).modifyHead (· ||| 0x40)
          (encodeLiteralString out value, e.insert name value)
      | none =>
          (encodeLiteralString (encodeLiteralString (out ++ [0x40]) name) value,
            e.insert name value)

/-- A call on the encoder; a header is appended to `out`. -/
def call (e : EncoderFields) (out : Bytes) : Call → EncoderFields
  | .setPeerMaxTableSize n => e.setPeerMaxTableSize n
  | .encodeHeader name value => (e.encodeHeader out name value).2

end EncoderFields

/-! ## No read is out of range -/

theorem decodeIntLoop_eq {buf : Bytes} {fuel i value shift : Nat} (hi : i ≤ buf.length)
    (hfuel : buf.length < i + fuel) (hshift : shift < 64) :
    decodeIntLoop buf fuel i value shift =
      Checked.ofExcept (decodeIntRest (buf.drop i) i value shift) := by
  induction fuel generalizing i value shift with
  | zero => omega
  | succ fuel ih =>
      rw [decodeIntLoop]
      by_cases hend : buf.length ≤ i
      · rw [if_pos hend, List.drop_of_length_le hend]
        rfl
      have hlt : i < buf.length := Nat.lt_of_not_le hend
      rw [if_neg hend, Checked.get_eq (List.getElem?_eq_getElem hlt), Checked.ofExcept_ok_bind,
        Checked.shl64_eq hshift, Checked.ofExcept_ok_bind, List.drop_eq_getElem_cons hlt,
        decodeIntRest]
      generalize buf[i] = b
      by_cases hover : 2 ^ 64 ≤ value + (b.toNat % 128) <<< shift % 2 ^ 64
      · rw [if_pos hover, if_pos hover, Checked.throw_eq]
      rw [if_neg hover, if_neg hover]
      by_cases hlast : b &&& 0x80 = 0
      · rw [if_pos hlast, if_pos hlast, Checked.pure_eq]
      rw [if_neg hlast, if_neg hlast]
      by_cases hlong : 63 < shift + 7
      · rw [if_pos hlong, if_pos hlong, Checked.throw_eq]
      rw [if_neg hlong, if_neg hlong]
      exact ih hlt (by omega) (by omega)

theorem decodeIntAt_eq (buf : Bytes) (prefixBits : Nat) :
    decodeIntAt buf prefixBits = Checked.ofExcept (decodeInt buf prefixBits) := by
  cases buf with
  | nil => rfl
  | cons b buf =>
      rw [decodeIntAt, if_neg (List.cons_ne_nil b buf), Checked.get_eq rfl,
        Checked.ofExcept_ok_bind, decodeInt]
      by_cases hsmall : b.toNat % 2 ^ prefixBits < 2 ^ prefixBits - 1
      · rw [if_pos hsmall, if_pos hsmall, Checked.pure_eq]
      · rw [if_neg hsmall, if_neg hsmall]
        refine decodeIntLoop_eq (i := 1) ?_ ?_ (by omega)
        · exact Nat.succ_le_succ (Nat.zero_le _)
        · exact Nat.lt_add_of_pos_left Nat.one_pos

theorem decodeIntRest_consumed {buf : Bytes} {i value shift v n : Nat}
    (h : decodeIntRest buf i value shift = .ok (v, n)) : i < n ∧ n ≤ i + buf.length := by
  induction buf generalizing i value shift with
  | nil => cases h
  | cons b buf ih =>
      simp only [decodeIntRest] at h
      split at h
      · cases h
      split at h
      · obtain ⟨-, rfl⟩ := Prod.mk.inj (Except.ok.inj h)
        rw [List.length_cons]
        omega
      split at h
      · cases h
      · have := ih h
        rw [List.length_cons]
        omega

theorem decodeInt_consumed {buf : Bytes} {k v n : Nat} (h : decodeInt buf k = .ok (v, n)) :
    0 < n ∧ n ≤ buf.length := by
  cases buf with
  | nil => cases h
  | cons b buf =>
      rw [decodeInt] at h
      split at h
      · obtain ⟨-, rfl⟩ := Prod.mk.inj (Except.ok.inj h)
        exact ⟨Nat.one_pos, Nat.succ_le_succ (Nat.zero_le _)⟩
      · have := decodeIntRest_consumed h
        rw [List.length_cons]
        omega

theorem readStringAt_eq (buf : Bytes) (pos : Nat) :
    readStringAt buf pos = Checked.ofExcept (Decoder.readString buf pos) := by
  rw [readStringAt, Decoder.readString]
  by_cases hend : buf.length ≤ pos
  · rw [if_pos hend, List.getElem?_eq_none_iff.mpr hend]
    rfl
  have hlt : pos < buf.length := Nat.lt_of_not_le hend
  rw [if_neg hend, List.getElem?_eq_getElem hlt, Checked.get_eq (List.getElem?_eq_getElem hlt),
    Checked.ofExcept_ok_bind, Checked.sliceFrom_eq (Nat.le_of_lt hlt), Checked.ofExcept_ok_bind,
    decodeIntAt_eq]
  refine Checked.ofExcept_bind fun read hint => ?_
  obtain ⟨len, consumed⟩ := read
  have hconsumed := decodeInt_consumed hint
  rw [List.length_drop] at hconsumed
  simp only
  by_cases hover : 2 ^ 64 ≤ pos + consumed + len
  · rw [if_pos hover, if_pos hover, Checked.throw_eq]
  rw [if_neg hover, if_neg hover]
  by_cases hlong : buf.length < pos + consumed + len
  · rw [if_pos hlong, if_pos hlong, Checked.throw_eq]
  rw [if_neg hlong, if_neg hlong, Checked.slice_eq (by omega) (by omega),
    Checked.ofExcept_ok_bind, Nat.add_sub_cancel_left]
  split
  · refine Checked.ofExcept_bind fun bytes _ => ?_
    cases fromUtf8 bytes <;> rfl
  · cases fromUtf8 ((buf.drop (pos + consumed)).take len) <;> rfl

/-! ## The fields of a decoder with the invariant -/

/-- The fields. -/
def Decoder.fields (s : Decoder) : DecoderFields where
  dynTable := s.dynTable.entries
  dynTableSize := s.dynTable.size
  dynTableCap := s.dynTableCap

theorem fields_new : Decoder.new.fields = .new := rfl

theorem evictToFit_fields (s : Decoder) (incoming : Nat) :
    s.fields.evictToFit incoming = (s.evictToFit incoming).fields := by
  simp only [DecoderFields.evictToFit, Decoder.fields, Base.Fifo.popToFit_entries,
    Decoder.evictToFit]

theorem insert_fields (s : Decoder) (name value : Text) :
    s.fields.insert name value = (s.insert name value).fields := by
  unfold DecoderFields.insert Decoder.insert Base.Fifo.insert
  by_cases hbig : s.dynTableCap < entrySize (name, value)
  · rw [if_pos hbig]
    exact if_pos hbig
  · simp only [evictToFit_fields, if_neg hbig]
    exact if_neg hbig

theorem lookup_fields (s : Decoder) (index : Nat) :
    s.fields.lookup index = Checked.ofExcept (s.lookup index) := by
  rw [DecoderFields.lookup, Decoder.lookup]
  by_cases hzero : index = 0
  · rw [if_pos hzero, if_pos hzero, Checked.throw_eq]
  rw [if_neg hzero, if_neg hzero]
  by_cases hstatic : index ≤ staticTable.length
  · have hlt : index - 1 < staticTable.length := by omega
    rw [if_pos hstatic, Checked.get_eq (List.getElem?_eq_getElem hlt), Checked.ofExcept_ok_bind]
    simp only [if_pos hstatic, List.getElem?_eq_getElem hlt]
    rfl
  rw [if_neg hstatic]
  simp only [if_neg hstatic]
  by_cases hbeyond : s.dynTable.entries.length ≤ index - staticTable.length - 1
  · rw [List.getElem?_eq_none_iff.mpr hbeyond]
    exact if_pos hbeyond
  · have hlt : index - staticTable.length - 1 < s.dynTable.entries.length :=
      Nat.lt_of_not_le hbeyond
    rw [List.getElem?_eq_getElem hlt]
    refine (if_neg hbeyond).trans ?_
    exact Checked.get_eq (List.getElem?_eq_getElem hlt)

theorem lookupName_fields (s : Decoder) (index : Nat) :
    s.fields.lookupName index = Checked.ofExcept (s.lookupName index) := by
  rw [DecoderFields.lookupName, lookup_fields]
  exact Checked.ofExcept_bind fun entry _ => rfl

theorem Decoder.readName_fields (s : Decoder) (buf : Bytes) (idx pos : Nat) :
    s.fields.readName buf idx pos = Checked.ofExcept (s.readName buf idx pos) := by
  rw [DecoderFields.readName, Decoder.readName]
  by_cases hzero : idx = 0
  · rw [if_pos hzero, if_pos hzero, readStringAt_eq]
  · rw [if_neg hzero, if_neg hzero, lookupName_fields]
    exact Checked.ofExcept_bind fun name _ => rfl

/-- A turn reads only what is there. -/
theorem decodeField_fields (s : Decoder) {buf : Bytes} {pos : Nat} {b : UInt8}
    (hb : buf[pos]? = some b) :
    s.fields.decodeField buf pos =
      Checked.ofExcept ((s.decodeField buf pos b).map fun r => (r.1, r.2.1, r.2.2.fields)) := by
  have hlt : pos < buf.length := (List.getElem?_eq_some_iff.mp hb).1
  have hname : ∀ idx pos, s.fields.readName buf idx pos =
      Checked.ofExcept (s.readName buf idx pos) := s.readName_fields buf
  rw [DecoderFields.decodeField, Checked.get_eq hb, Checked.ofExcept_ok_bind,
    Checked.sliceFrom_eq (Nat.le_of_lt hlt), Decoder.decodeField]
  simp only [Checked.ofExcept_ok_bind, decodeIntAt_eq, hname, readStringAt_eq, lookup_fields]
  split
  · refine Checked.ofExcept_bind_map fun read _ => ?_
    exact Checked.ofExcept_bind_map fun entry _ => rfl
  split
  · refine Checked.ofExcept_bind_map fun read _ => ?_
    refine Checked.ofExcept_bind_map fun name _ => ?_
    refine Checked.ofExcept_bind_map fun value _ => ?_
    rw [insert_fields]
    rfl
  split
  · refine Checked.ofExcept_bind_map fun read _ => ?_
    exact congrArg (fun d => Checked.ofExcept (.ok (none, pos + read.2, d)))
      (evictToFit_fields { s with dynTableCap := min read.1 H2.dynTableCap } 0)
  · refine Checked.ofExcept_bind_map fun read _ => ?_
    refine Checked.ofExcept_bind_map fun name _ => ?_
    exact Checked.ofExcept_bind_map fun value _ => rfl

/-! ## Every turn moves on and keeps the table within its cap -/

theorem readString_moves {buf : Bytes} {pos pos' : Nat} {t : Text}
    (h : Decoder.readString buf pos = .ok (t, pos')) : pos < pos' := by
  unfold Decoder.readString at h
  split at h
  · cases h
  obtain ⟨⟨len, consumed⟩, hint, h⟩ := Result.bind_eq_ok.mp h
  have hpos := (decodeInt_consumed hint).1
  change (if 2 ^ 64 ≤ pos + consumed + len then _
    else if buf.length < pos + consumed + len then _ else _) = _ at h
  have hto : pos + consumed + len = pos' := by
    split at h
    · cases h
    split at h
    · cases h
    split at h
    · obtain ⟨bytes, -, h⟩ := Result.bind_eq_ok.mp h
      split at h
      · exact (Prod.mk.inj (Except.ok.inj h)).2
      · cases h
    · simp only at h
      split at h
      · exact (Prod.mk.inj (Except.ok.inj h)).2
      · cases h
  omega

theorem readName_moves {s : Decoder} {buf : Bytes} {idx pos pos' : Nat} {name : Text}
    (h : s.readName buf idx pos = .ok (name, pos')) : pos ≤ pos' := by
  unfold Decoder.readName at h
  split at h
  · exact Nat.le_of_lt (readString_moves h)
  · obtain ⟨name', -, h⟩ := Result.bind_eq_ok.mp h
    exact Nat.le_of_eq (Prod.mk.inj (Except.ok.inj h)).2

/-- The table is within its cap, and the cap within that of the program. -/
structure Decoder.Within (s : Decoder) : Prop where
  size_le : s.dynTable.size ≤ s.dynTableCap
  cap_le : s.dynTableCap ≤ H2.dynTableCap

theorem within_new : Decoder.new.Within := ⟨Nat.zero_le _, Nat.le_refl _⟩

theorem Decoder.Within.insert {s : Decoder} (h : s.Within) (name value : Text) :
    (s.insert name value).Within := ⟨Base.Fifo.insert_size_le _ _ _, h.cap_le⟩

theorem within_resize (s : Decoder) (n : Nat) :
    (Decoder.evictToFit { s with dynTableCap := min n H2.dynTableCap } 0).Within :=
  ⟨Base.Fifo.evict_size_le _ (Nat.zero_le _), Nat.min_le_right _ _⟩

theorem decodeField_spec {s s' : Decoder} {buf : Bytes} {pos pos' : Nat} {b : UInt8}
    {entry : Option (Text × Text)} (h : s.decodeField buf pos b = .ok (entry, pos', s')) :
    pos < pos' ∧ (s.Within → s'.Within) := by
  unfold Decoder.decodeField at h
  split at h
  · obtain ⟨⟨idx, n⟩, hint, h⟩ := Result.bind_eq_ok.mp h
    obtain ⟨entry', -, h⟩ := Result.bind_eq_ok.mp h
    have hn := (decodeInt_consumed hint).1
    cases h
    exact ⟨by omega, id⟩
  split at h
  · obtain ⟨⟨idx, n⟩, hint, h⟩ := Result.bind_eq_ok.mp h
    obtain ⟨⟨name, pos₁⟩, hname, h⟩ := Result.bind_eq_ok.mp h
    obtain ⟨⟨value, pos₂⟩, hvalue, h⟩ := Result.bind_eq_ok.mp h
    have hn := (decodeInt_consumed hint).1
    have hto := readName_moves hname
    have hend := readString_moves hvalue
    cases h
    exact ⟨by omega, fun hw => hw.insert name value⟩
  split at h
  · obtain ⟨⟨newSize, n⟩, hint, h⟩ := Result.bind_eq_ok.mp h
    have hn := (decodeInt_consumed hint).1
    cases h
    exact ⟨by omega, fun _ => within_resize s newSize⟩
  · obtain ⟨⟨idx, n⟩, hint, h⟩ := Result.bind_eq_ok.mp h
    obtain ⟨⟨name, pos₁⟩, hname, h⟩ := Result.bind_eq_ok.mp h
    obtain ⟨⟨value, pos₂⟩, hvalue, h⟩ := Result.bind_eq_ok.mp h
    have hn := (decodeInt_consumed hint).1
    have hto := readName_moves hname
    have hend := readString_moves hvalue
    cases h
    exact ⟨by omega, id⟩

/-- An accepted list is within the limit. -/
theorem listSize_decodeLoop {fuel : Nat} {s s' : Decoder} {buf : Bytes} {pos : Nat}
    {out l : List (Text × Text)} (hout : listSize out ≤ maxDecodedHeaderList)
    (h : Decoder.decodeLoop fuel s buf pos (listSize out) out = (.ok l, s')) :
    listSize l ≤ maxDecodedHeaderList := by
  induction fuel generalizing s pos out with
  | zero =>
      cases h
      exact hout
  | succ fuel ih =>
      rw [Decoder.decodeLoop] at h
      split at h
      · cases h
        exact hout
      split at h
      · cases h
      · exact ih hout h
      next entry pos₁ s₁ _ =>
      by_cases hover : maxDecodedHeaderList < listSize out + entrySize entry
      · rw [if_pos hover] at h
        cases h
      · rw [if_neg hover] at h
        have hsum : listSize out + entrySize entry = listSize (out ++ [entry]) := by
          rw [listSize_append, listSize_cons, listSize_nil, Nat.add_zero]
        rw [hsum] at h hover
        exact ih (Nat.le_of_not_lt hover) h

/-! ## Whole blocks -/

/-- The running total of `decode_block` saturates only beyond the limit. -/
theorem saturating_total (size : Nat) (entry : Text × Text) :
    (maxDecodedHeaderList <
        saturatingAdd (saturatingAdd (saturatingAdd size entry.1.len) entry.2.len) 32 ↔
      maxDecodedHeaderList < size + entrySize entry) ∧
    (size + entrySize entry ≤ maxDecodedHeaderList →
      saturatingAdd (saturatingAdd (saturatingAdd size entry.1.len) entry.2.len) 32 =
        size + entrySize entry) := by
  have hmax : maxDecodedHeaderList = 262144 := rfl
  have hentry : entrySize entry = entry.1.len + entry.2.len + 32 := rfl
  rw [hmax, hentry]
  unfold saturatingAdd
  omega

/-- The loop of `decode_block` is that of the decoder with the invariant. -/
theorem decodeLoop_fields {fuel : Nat} {s : Decoder} {buf : Bytes} {pos size : Nat}
    {out : List (Text × Text)} (hfuel : buf.length ≤ pos + fuel) :
    DecoderFields.decodeLoop buf (fuel + 1) s.fields pos size out =
      some ((Decoder.decodeLoop fuel s buf pos size out).1,
        (Decoder.decodeLoop fuel s buf pos size out).2.fields) := by
  induction fuel generalizing s pos size out with
  | zero =>
      have hend : ¬ pos < buf.length := Nat.not_lt_of_le hfuel
      rw [DecoderFields.decodeLoop, if_neg hend, Decoder.decodeLoop]
  | succ fuel ih =>
      rw [DecoderFields.decodeLoop, Decoder.decodeLoop]
      by_cases hend : pos < buf.length
      · have hb : buf[pos]? = some buf[pos] := List.getElem?_eq_getElem hend
        rw [if_pos hend, decodeField_fields s hb, hb]
        cases hfield : s.decodeField buf pos buf[pos] with
        | error e =>
            simp only [hfield]
            rfl
        | ok r =>
            obtain ⟨entry, pos₁, s₁⟩ := r
            have hmoves := (decodeField_spec hfield).1
            have hrest : buf.length ≤ pos₁ + fuel := by omega
            simp only [hfield]
            cases entry with
            | none => exact ih hrest
            | some entry =>
                obtain ⟨hiff, htotal⟩ := saturating_total size entry
                change (if _ then _ else _) =
                  some ((if maxDecodedHeaderList < size + entrySize entry then _ else _ : _ × _).1,
                    Decoder.fields
                      (if maxDecodedHeaderList < size + entrySize entry then _ else _ : _ × _).2)
                by_cases hover : maxDecodedHeaderList < size + entrySize entry
                · rw [if_pos hover]
                  exact if_pos (hiff.mpr hover)
                · rw [if_neg hover]
                  refine (if_neg (mt hiff.mp hover)).trans ?_
                  rw [htotal (Nat.le_of_not_lt hover)]
                  exact ih hrest
      · rw [if_neg hend, List.getElem?_eq_none_iff.mpr (Nat.le_of_not_lt hend)]

theorem decodeBlock_fields (s : Decoder) (buf : Bytes) :
    s.fields.decodeBlock buf = some ((s.decodeBlock buf).1, (s.decodeBlock buf).2.fields) :=
  decodeLoop_fields (Nat.le_of_eq (Nat.zero_add _).symm)

/-! ## Whatever a decoder is given -/

namespace DecoderFields

/-- The states of a decoder: a new one, and what a turn of the loop of `decode_block` leaves,
anywhere in any block. -/
inductive Reached : DecoderFields → Prop
  | new : Reached .new
  | turn {d d' : DecoderFields} {buf : Bytes} {pos pos' : Nat} {entry : Option (Text × Text)} :
      Reached d → pos < buf.length →
      (d.decodeField buf pos).run = some (.ok (entry, pos', d')) → Reached d'

/-- What is recorded is what the entries weigh, and it is within the cap. -/
structure Sound (d : DecoderFields) : Prop where
  size_eq : d.dynTableSize = listSize d.dynTable
  size_le : d.dynTableSize ≤ d.dynTableCap
  cap_le : d.dynTableCap ≤ 4096

end DecoderFields

theorem Decoder.Within.sound {s : Decoder} (h : s.Within) : s.fields.Sound where
  size_eq := s.dynTable.size_eq
  size_le := h.size_le
  cap_le := h.cap_le

/-- A state is that of a decoder with the invariant. -/
theorem DecoderFields.Reached.exists_fields {d : DecoderFields} (h : d.Reached) :
    ∃ s : Decoder, s.Within ∧ s.fields = d := by
  induction h with
  | new => exact ⟨.new, within_new, rfl⟩
  | @turn d d' buf pos pos' entry _ hpos hturn ih =>
      obtain ⟨s, hs, rfl⟩ := ih
      rw [decodeField_fields s (List.getElem?_eq_getElem hpos)] at hturn
      obtain ⟨⟨entry', pos'', s'⟩, hfield, heq⟩ :=
        Result.map_eq_ok (Option.some.inj hturn)
      cases heq
      exact ⟨s', (decodeField_spec hfield).2 hs, rfl⟩

theorem reached_decodeLoop {fuel : Nat} {s : Decoder} {buf : Bytes} {pos size : Nat}
    {out : List (Text × Text)} (h : s.fields.Reached) :
    (Decoder.decodeLoop fuel s buf pos size out).2.fields.Reached := by
  induction fuel generalizing s pos size out with
  | zero => exact h
  | succ fuel ih =>
      rw [Decoder.decodeLoop]
      split
      · exact h
      next b hb =>
      have hlt : pos < buf.length := (List.getElem?_eq_some_iff.mp hb).1
      have hturn : ∀ {entry pos' s'}, s.decodeField buf pos b = .ok (entry, pos', s') →
          s'.fields.Reached := by
        intro entry pos' s' hfield
        have hrun : (s.fields.decodeField buf pos).run = some (.ok (entry, pos', s'.fields)) := by
          rw [decodeField_fields s hb, hfield]
          rfl
        exact .turn h hlt hrun
      split
      · exact h
      · next hfield => exact ih (hturn hfield)
      · next hfield =>
          simp only
          split
          · exact hturn hfield
          · exact ih (hturn hfield)

/-- A block always ends, in a state of the decoder, and accepts no list over the limit. -/
theorem decodeBlock_bounded {s : Decoder} (h : s.fields.Reached) (buf : Bytes) :
    (s.decodeBlock buf).2.fields.Reached ∧
      ∀ headers, (s.decodeBlock buf).1 = .ok headers → listSize headers ≤ 256 * 1024 :=
  ⟨reached_decodeLoop h, fun _ hok =>
    listSize_decodeLoop (show listSize [] ≤ _ from Nat.zero_le _) (Prod.ext hok rfl)⟩

theorem decodeBlocks_bounded {s : Decoder} (h : s.fields.Reached) (bufs : List Bytes) :
    ∃ runs, s.fields.decodeBlocks bufs = some runs ∧ runs.length = bufs.length ∧
      ∀ r ∈ runs, r.2.Reached ∧ ∀ headers, r.1 = .ok headers → listSize headers ≤ 256 * 1024 := by
  induction bufs generalizing s with
  | nil => exact ⟨[], rfl, rfl, fun r hr => absurd hr List.not_mem_nil⟩
  | cons buf bufs ih =>
      obtain ⟨hreached, hlist⟩ := decodeBlock_bounded h buf
      obtain ⟨runs, hruns, hlength, hall⟩ := ih hreached
      refine ⟨((s.decodeBlock buf).1, (s.decodeBlock buf).2.fields) :: runs, ?_, ?_, ?_⟩
      · rw [DecoderFields.decodeBlocks, decodeBlock_fields]
        change (s.decodeBlock buf).2.fields.decodeBlocks bufs >>= _ = _
        rw [hruns]
        rfl
      · rw [List.length_cons, List.length_cons, hlength]
      · intro r hr
        rcases List.mem_cons.mp hr with rfl | hr
        · exact ⟨hreached, hlist⟩
        · exact hall r hr

/-! ## Whatever an encoder is called with -/

/-- The fields. -/
def Encoder.fields (s : Encoder) : EncoderFields where
  dynTable := s.dynTable.entries
  dynTableSize := s.dynTable.size
  maxDynTableSize := s.maxDynTableSize
  pendingMaxTableSizeSignal := s.pendingMaxTableSizeSignal

theorem Encoder.evictToFit_fields (s : Encoder) (incoming : Nat) :
    s.fields.evictToFit incoming = (s.evictToFit incoming).fields := by
  simp only [EncoderFields.evictToFit, Encoder.fields, Base.Fifo.popToFit_entries,
    Encoder.evictToFit]

theorem Encoder.insert_fields (s : Encoder) (name value : Text) :
    s.fields.insert name value = (s.insert name value).fields := by
  unfold EncoderFields.insert Encoder.insert Base.Fifo.insert
  by_cases hbig : s.maxDynTableSize < entrySize (name, value)
  · rw [if_pos hbig]
    exact if_pos hbig
  · simp only [Encoder.evictToFit_fields, if_neg hbig]
    exact if_neg hbig

theorem setPeerMaxTableSize_fields (s : Encoder) (n : Nat) :
    s.fields.setPeerMaxTableSize n = (s.setPeerMaxTableSize n).fields := by
  have h := Encoder.evictToFit_fields { s with maxDynTableSize := n } 0
  exact congrArg (fun e : EncoderFields => { e with pendingMaxTableSizeSignal := some n }) h

theorem takeSignal_fields (s : Encoder) (out : Bytes) :
    s.fields.takeSignal out = ((s.takeSignal out).1, (s.takeSignal out).2.fields) := by
  obtain ⟨table, cap, signal⟩ := s
  cases signal <;> rfl

theorem combinedFullIndex_fields (s : Encoder) (name value : Text) :
    s.fields.combinedFullIndex name value = s.combinedFullIndex name value := rfl

theorem combinedNameIndex_fields (s : Encoder) (name : Text) :
    s.fields.combinedNameIndex name = s.combinedNameIndex name := rfl

theorem encodeHeader_snd_fields (s : Encoder) (out : Bytes) (name value : Text) :
    (s.fields.encodeHeader out name value).2 = (s.encodeHeader out name value).2.fields := by
  rw [EncoderFields.encodeHeader, Encoder.encodeHeader, takeSignal_fields]
  obtain ⟨out, s⟩ := s.takeSignal out
  simp only [combinedFullIndex_fields, combinedNameIndex_fields]
  cases s.combinedFullIndex name value with
  | some idx => rfl
  | none =>
      cases s.combinedNameIndex name with
      | some idx => exact s.insert_fields name value
      | none => exact s.insert_fields name value

/-- The table is within its cap. -/
def Encoder.Within (s : Encoder) : Prop := s.dynTable.size ≤ s.maxDynTableSize

theorem takeSignal_table (s : Encoder) (out : Bytes) :
    (s.takeSignal out).2.dynTable = s.dynTable ∧
      (s.takeSignal out).2.maxDynTableSize = s.maxDynTableSize := by
  obtain ⟨table, cap, signal⟩ := s
  cases signal <;> exact ⟨rfl, rfl⟩

theorem encodeHeader_within {s : Encoder} (h : s.Within) (out : Bytes) (name value : Text) :
    (s.encodeHeader out name value).2.Within ∧
      (s.encodeHeader out name value).2.maxDynTableSize = s.maxDynTableSize := by
  rw [Encoder.encodeHeader]
  have htaken := takeSignal_table s out
  revert htaken
  obtain ⟨out, t⟩ := s.takeSignal out
  rintro ⟨htable, hmax⟩
  simp only at htable hmax ⊢
  have hinsert : (t.insert name value).Within := Base.Fifo.insert_size_le _ _ _
  cases t.combinedFullIndex name value with
  | some idx =>
      refine ⟨?_, hmax⟩
      rw [Encoder.Within, htable, hmax]
      exact h
  | none =>
      cases t.combinedNameIndex name with
      | some idx => exact ⟨hinsert, hmax⟩
      | none => exact ⟨hinsert, hmax⟩

/-- The size the peer has set last. -/
def lastSet (calls : List (Bytes × Call)) : Option Nat :=
  (calls.filterMap fun
    | (_, .setPeerMaxTableSize n) => some n
    | (_, .encodeHeader _ _) => none).getLast?

theorem lastSet_concat_set (calls : List (Bytes × Call)) (out : Bytes) (n : Nat) :
    lastSet (calls ++ [(out, .setPeerMaxTableSize n)]) = some n := by
  rw [lastSet, List.filterMap_append]
  exact List.getLast?_concat

theorem lastSet_concat_header (calls : List (Bytes × Call)) (out : Bytes) (name value : Text) :
    lastSet (calls ++ [(out, .encodeHeader name value)]) = lastSet calls := by
  rw [lastSet, List.filterMap_append]
  exact congrArg List.getLast? (List.append_nil _)

/-- The calls made so far leave the fields of an encoder with the invariant. -/
theorem calls_within (calls : List (Bytes × Call)) :
    ∃ s : Encoder, calls.foldl (fun e c => e.call c.1 c.2) EncoderFields.new = s.fields ∧
      s.Within ∧ s.maxDynTableSize = (lastSet calls).getD 4096 := by
  induction calls using List.reverseRecOn with
  | nil => exact ⟨.new, rfl, Nat.zero_le _, rfl⟩
  | append_singleton calls c ih =>
      obtain ⟨s, hfold, hwithin, hmax⟩ := ih
      obtain ⟨out, call⟩ := c
      rw [List.foldl_append, hfold]
      cases call with
      | setPeerMaxTableSize n =>
          refine ⟨s.setPeerMaxTableSize n, setPeerMaxTableSize_fields s n, ?_, ?_⟩
          · exact Base.Fifo.evict_size_le _ (Nat.zero_le _)
          · rw [lastSet_concat_set]
            rfl
      | encodeHeader name value =>
          obtain ⟨hwithin', hmax'⟩ := encodeHeader_within hwithin out name value
          refine ⟨(s.encodeHeader out name value).2, encodeHeader_snd_fields s out name value,
            hwithin', ?_⟩
          rw [lastSet_concat_header, hmax', hmax]

/-- `decode_block` ends on any byte strings, without a panic; its table is what its size says,
within its cap, after every block and at every turn; and so is that of an encoder, whatever it
is called with. -/
theorem tables_bounded :
    (∀ bufs : List Bytes, ∃ runs, DecoderFields.new.decodeBlocks bufs = some runs ∧
      runs.length = bufs.length ∧
      ∀ r ∈ runs, r.2.Sound ∧ ∀ headers, r.1 = .ok headers → listSize headers ≤ 256 * 1024) ∧
    (∀ d : DecoderFields, d.Reached → d.Sound) ∧
    ∀ calls : List (Bytes × Call),
      let e := calls.foldl (fun e c => e.call c.1 c.2) EncoderFields.new
      e.dynTableSize = listSize e.dynTable ∧ e.dynTableSize ≤ e.maxDynTableSize ∧
        e.maxDynTableSize = (lastSet calls).getD 4096 := by
  have hsound : ∀ d : DecoderFields, d.Reached → d.Sound := by
    intro d hd
    obtain ⟨s, hs, rfl⟩ := hd.exists_fields
    exact hs.sound
  refine ⟨fun bufs => ?_, hsound, fun calls => ?_⟩
  · obtain ⟨runs, hruns, hlength, hall⟩ :=
      decodeBlocks_bounded (show Decoder.new.fields.Reached from .new) bufs
    rw [fields_new] at hruns
    exact ⟨runs, hruns, hlength, fun r hr => ⟨hsound r.2 (hall r hr).1, (hall r hr).2⟩⟩
  · obtain ⟨s, hfold, hwithin, hmax⟩ := calls_within calls
    rw [hfold]
    exact ⟨s.dynTable.size_eq, hwithin, hmax⟩

end Rsurl.H2
