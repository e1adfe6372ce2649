/-
# `Rsurl.H3.Window` — the dynamic table as its fields

`DynamicTable` of `Rsurl.H3.Qpack` cannot be built with counters that do not
count.  Here it is the plain fields of the source, with every subtraction and
slice a step that may fail, and beside them a record of what was inserted.  The
fields compute what the table with the invariant computes; so an absolute index
always is a place in the record, whatever bytes the encoder stream carried.
-/
import Rsurl.Base.Checked
import Rsurl.H3.Instruction

namespace Rsurl.H3.Qpack

open Base (Checked)

/-! ## The fields and their operations -/

/-- The fields of `DynamicTable`, the oldest entry first.  `inserted` is not in the source: it
records the entries that `insert` took, in order. -/
structure TableFields where
  entries : List (Text × Text)
  size : Nat
  capacity : Nat
  insertCount : Nat
  dropped : Nat
  inserted : List (Text × Text)
deriving DecidableEq, Repr

namespace TableFields

/-- `DynamicTable::new`. -/
def new : TableFields where
  entries := []
  size := 0
  capacity := 0
  insertCount := 0
  dropped := 0
  inserted := []

/-- The size of an entry. -/
def entrySize (entry : Text × Text) : Nat := entry.1.len + entry.2.len + entryOverhead

/-- The loop of `evict_to_fit`: the entries, the size and the number of dropped entries. -/
def evictLoop (capacity incoming : Nat) : List (Text × Text) → Nat → Nat →
    Checked Error (List (Text × Text) × Nat × Nat)
  | [], size, dropped => pure ([], size, dropped)
  | e :: entries, size, dropped =>
      if capacity < size + incoming then do
        let size ← Checked.sub size (entrySize e)
        evictLoop capacity incoming entries size (dropped + 1)
      else pure (e :: entries, size, dropped)

/-- `evict_to_fit`. -/
def evictToFit (t : TableFields) (incoming : Nat) : Checked Error TableFields := do
  let (entries, size, dropped) ← evictLoop t.capacity incoming t.entries t.size t.dropped
  pure { t with entries, size, dropped }

/-- `set_capacity`. -/
def setCapacity (t : TableFields) (cap : Nat) : Checked Error TableFields :=
  if maxDynamicCapacity < cap then
    throw (bad [.str "qpack: encoder set capacity ", .num cap, .str " above advertised max ",
      .num maxDynamicCapacity])
  else evictToFit { t with capacity := cap } 0

/-- `insert`. -/
def insert (t : TableFields) (name value : Text) : Checked Error TableFields :=
  let entrySize := entrySize (name, value)
  if t.capacity < entrySize then
    throw (bad [.str "qpack: dynamic entry size ", .num entrySize, .str " exceeds capacity ",
      .num t.capacity])
  else do
    let t ← t.evictToFit entrySize
    pure { t with
      size := t.size + entrySize
      entries := t.entries ++ [(name, value)]
      insertCount := t.insertCount + 1
      inserted := t.inserted ++ [(name, value)] }

/-- `get_absolute`. -/
def getAbsolute (t : TableFields) (abs : Nat) : Checked Error (Text × Text) :=
  if abs < t.dropped ∨ t.insertCount ≤ abs then
    throw (bad [.str "qpack: dynamic absolute index ", .num abs, .str " not live (dropped ",
      .num t.dropped, .str ", count ", .num t.insertCount, .str ")"])
  else do
    let pos ← Checked.sub abs t.dropped
    match t.entries[pos]? with
    | some e => pure e
    | none => throw (bad [.str "qpack: dynamic index out of range"])

/-- The name an Insert With Name Reference refers to. -/
def insertName (t : TableFields) (isStatic : Bool) (idx : Nat) : Checked Error Text :=
  if isStatic then
    match staticEntry idx with
    | some (n, _) => pure n
    | none => throw (bad [.str "qpack: encoder static name index ", .num idx,
        .str " out of range"])
  else do
    let abs ← Checked.ofExcept (relativeToAbsoluteInsert t.insertCount idx)
    let entry ← t.getAbsolute abs
    pure entry.1

/-- The value behind the name of an insert, and the insert itself. -/
def insertValue (t : TableFields) (buf : Bytes) (p : Nat) (name : Text) :
    Checked Error (Option (Nat × TableFields)) := do
  let x ← Checked.ofExcept (tryDecodeLiteralString7bit (← Checked.sliceFrom buf p))
  match x with
  | none => pure none
  | some (value, vlen) => do
      let t ← t.insert name value
      pure (some (p + vlen, t))

/-- Insert With Literal Name, behind the length of the name. -/
def insertLiteral (t : TableFields) (buf : Bytes) (p nlen : Nat) (huffman : Bool) :
    Checked Error (Option (Nat × TableFields)) :=
  let nend := p + nlen
  if 2 ^ 64 ≤ nend then throw (bad [.str "qpack: oversized encoder literal name length"])
  else if buf.length < nend then pure none
  else do
    let bytes ← Checked.slice buf p nend
    let name ← Checked.ofExcept (decodeStringBytes bytes huffman "encoder literal name")
    t.insertValue buf (p + nlen) name

/-- `decode_encoder_instruction`: the bytes of the instruction and the table after it; `none`
when it is not all there.  Nothing that fails comes behind a change to the table. -/
def decodeEncoderInstruction (t : TableFields) (buf : Bytes) :
    Checked Error (Option (Nat × TableFields)) :=
  if buf = [] then pure none
  else do
    let b0 ← Checked.get buf 0
    let rest ← Checked.sliceFrom buf 1
    if b0 &&& 0x80 ≠ 0 then do
      let (idx, used) ← Checked.ofExcept (decodeInt b0 6 rest)
      let name ← t.insertName (b0 &&& 0x40 ≠ 0) idx
      t.insertValue buf (1 + used) name
    else if b0 &&& 0x40 ≠ 0 then do
      let (nlen, used) ← Checked.ofExcept (decodeInt b0 5 rest)
      t.insertLiteral buf (1 + used) nlen (b0 &&& 0x20 ≠ 0)
    else if b0 &&& 0x20 ≠ 0 then do
      let (cap, used) ← Checked.ofExcept (decodeInt b0 5 rest)
      let t ← t.setCapacity cap
      pure (some (1 + used, t))
    else do
      let (idx, used) ← Checked.ofExcept (decodeInt b0 5 rest)
      let abs ← Checked.ofExcept (relativeToAbsoluteInsert t.insertCount idx)
      let entry ← t.getAbsolute abs
      let t ← t.insert entry.1 entry.2
      pure (some (1 + used, t))

/-- The loop of `apply_encoder_instructions`; `none` when an instruction panics or the fuel runs
out. -/
def applyLoop (buf : Bytes) : Nat → TableFields → Nat → Option (Result Nat × TableFields)
  | 0, _, _ => none
  | fuel + 1, t, p =>
      if p < buf.length then
        match (Checked.sliceFrom buf p >>= t.decodeEncoderInstruction).run with
        | none => none
        | some (.error e) => some (.error e, t)
        | some (.ok none) => some (.ok p, t)
        | some (.ok (some (used, t))) => applyLoop buf fuel t (p + used)
      else some (.ok p, t)

/-- `apply_encoder_instructions`: its result, and the table after it. -/
def applyEncoderInstructions (t : TableFields) (buf : Bytes) :
    Option (Result Nat × TableFields) :=
  t.applyLoop buf (buf.length + 1) 0

/-- One buffer after another on one table, whatever becomes of each: the results, with the table
after each of them. -/
def applyAll (t : TableFields) : List Bytes → Option (List (Result Nat × TableFields))
  | [] => some []
  | buf :: bufs => do
      let r ← t.applyEncoderInstructions buf
      let rs ← r.2.applyAll bufs
      return r :: rs

end TableFields

/-! ## The fields of a table with the invariant -/

/-- The fields are those of the table, and the record holds every entry that was inserted. -/
structure Represents (t : TableFields) (s : DynamicTable) : Prop where
  entries : t.entries = s.fifo.entries.reverse
  size : t.size = s.fifo.size
  capacity : t.capacity = s.capacity
  insertCount : t.insertCount = s.insertCount
  dropped : t.dropped = s.dropped
  inserts : t.inserted.length = s.insertCount
  live : t.inserted.drop s.dropped = s.fifo.entries.reverse

theorem represents_new : Represents .new .new := ⟨rfl, rfl, rfl, rfl, rfl, rfl, rfl⟩

/-- Dropping from the front, as long as the size is what the entries weigh. -/
theorem evictLoop_eq {capacity incoming : Nat} {entries : List (Text × Text)} {size dropped : Nat}
    (h : size = (entries.map H2.entrySize).sum) :
    TableFields.evictLoop capacity incoming entries size dropped =
      Checked.ofExcept (.ok ((Base.dropOldest H2.entrySize capacity incoming entries size).1,
        (Base.dropOldest H2.entrySize capacity incoming entries size).2,
        dropped + (entries.length -
          (Base.dropOldest H2.entrySize capacity incoming entries size).1.length))) := by
  induction entries generalizing size dropped with
  | nil => rfl
  | cons e entries ih =>
      rw [List.map_cons, List.sum_cons] at h
      rw [TableFields.evictLoop, Base.dropOldest]
      by_cases hover : capacity < size + incoming
      · have hle : TableFields.entrySize e ≤ size := by
          rw [h]
          exact Nat.le_add_right _ _
        have hrest : size - H2.entrySize e = (entries.map H2.entrySize).sum := by
          rw [h, Nat.add_sub_cancel_left]
        have hlen := (Base.dropOldest_suffix H2.entrySize capacity incoming entries
          (size - H2.entrySize e)).length_le
        rw [if_pos hover, if_pos hover, Checked.sub_eq hle, Checked.ofExcept_ok_bind]
        refine (ih hrest).trans ?_
        rw [List.length_cons, Nat.succ_sub hlen, Nat.add_assoc, Nat.one_add]
      · rw [if_neg hover, if_neg hover, Nat.sub_self]
        rfl

variable {t : TableFields} {s : DynamicTable}

theorem Represents.sum_eq (h : Represents t s) : t.size = (t.entries.map H2.entrySize).sum := by
  rw [h.size, h.entries, List.map_reverse, List.sum_reverse, s.fifo.size_eq]

/-- The oldest entries go, and the record says which. -/
theorem Represents.evict (h : Represents t s) (capacity incoming : Nat) :
    TableFields.evictToFit { t with capacity } incoming =
      Checked.ofExcept (.ok { t with
        capacity
        entries := (s.fifo.evict capacity incoming).entries.reverse
        size := (s.fifo.evict capacity incoming).size
        dropped := s.dropped + DynamicTable.evicted s.fifo capacity incoming }) := by
  rw [TableFields.evictToFit]
  simp only [evictLoop_eq h.sum_eq, Checked.ofExcept_ok_bind, Checked.pure_eq]
  have hentries : (s.fifo.evict capacity incoming).entries.reverse =
      (Base.dropOldest H2.entrySize capacity incoming t.entries t.size).1 := by
    rw [h.entries, h.size]
    exact List.reverse_reverse _
  have hsize : (s.fifo.evict capacity incoming).size =
      (Base.dropOldest H2.entrySize capacity incoming t.entries t.size).2 := by
    rw [h.entries, h.size]
    rfl
  have hdropped : DynamicTable.evicted s.fifo capacity incoming =
      t.entries.length - (s.fifo.evict capacity incoming).entries.reverse.length := by
    rw [DynamicTable.evicted, h.entries, List.length_reverse, List.length_reverse]
  rw [← hentries, ← hsize, ← hdropped, h.dropped]

/-- What is left of the record is what is left of the entries. -/
theorem Represents.drop_evicted (h : Represents t s) (capacity incoming : Nat) :
    t.inserted.drop (s.dropped + DynamicTable.evicted s.fifo capacity incoming) =
      (s.fifo.evict capacity incoming).entries.reverse := by
  obtain ⟨gone, hgone⟩ := s.fifo.evict_prefix_self capacity incoming
  have hlen : DynamicTable.evicted s.fifo capacity incoming = gone.length := by
    rw [DynamicTable.evicted, ← hgone, List.length_append, Nat.add_sub_cancel_left]
  rw [← List.drop_drop, h.live, hlen, ← hgone, List.reverse_append, ← List.length_reverse]
  exact List.drop_left

theorem Represents.setCapacity (h : Represents t s) (cap : Nat) :
    Checked.Simulates Represents (t.setCapacity cap) (s.setCapacity cap) := by
  rw [TableFields.setCapacity, DynamicTable.setCapacity]
  by_cases hle : cap ≤ maxDynamicCapacity
  · rw [if_neg (Nat.not_lt.mpr hle), dif_pos hle]
    refine ⟨_, h.evict cap 0, ?_⟩
    exact ⟨rfl, rfl, rfl, h.insertCount, rfl, h.inserts, h.drop_evicted cap 0⟩
  · rw [if_pos (Nat.lt_of_not_le hle), dif_neg hle]
    exact .throw _

theorem Represents.insert (h : Represents t s) (name value : Text) :
    Checked.Simulates Represents (t.insert name value) (s.insert name value) := by
  rw [TableFields.insert, DynamicTable.insert]
  by_cases hle : H2.entrySize (name, value) ≤ s.capacity
  · have hfits : ¬ t.capacity < TableFields.entrySize (name, value) := by
      rw [h.capacity]
      exact Nat.not_lt.mpr hle
    have hevict := h.evict t.capacity (H2.entrySize (name, value))
    have hlive := h.drop_evicted t.capacity (H2.entrySize (name, value))
    rw [dif_pos hle]
    refine ⟨_, (if_neg hfits).trans (congrArg (· >>= _) hevict), ?_⟩
    refine ⟨?_, ?_, h.capacity, ?_, ?_, ?_, ?_⟩
    · rw [h.capacity]
      exact (List.reverse_cons ..).symm
    · rw [h.capacity]
      rfl
    · exact congrArg (· + 1) h.insertCount
    · rw [h.capacity]
      rfl
    · rw [List.length_append, h.inserts]
      rfl
    · have hle' : s.dropped + DynamicTable.evicted s.fifo t.capacity
          (H2.entrySize (name, value)) ≤ t.inserted.length := by
        have hcount := DynamicTable.evicted_add s.fifo t.capacity (H2.entrySize (name, value))
        rw [h.inserts, ← s.counted]
        omega
      rw [h.capacity] at hle' hlive
      exact (List.drop_append_of_le_length hle').trans
        ((congrArg (· ++ _) hlive).trans (List.reverse_cons ..).symm)
  · have hbig : t.capacity < TableFields.entrySize (name, value) := by
      rw [h.capacity]
      exact Nat.lt_of_not_le hle
    rw [dif_neg hle, ← h.capacity]
    exact if_pos hbig

theorem Represents.getAbsolute (h : Represents t s) (abs : Nat) :
    t.getAbsolute abs = Checked.ofExcept (s.getAbsolute abs) := by
  rw [TableFields.getAbsolute, DynamicTable.getAbsolute, h.dropped, h.insertCount]
  by_cases hgone : abs < s.dropped ∨ s.insertCount ≤ abs
  · rw [if_pos hgone, if_pos hgone, Checked.throw_eq]
  · have hle : s.dropped ≤ abs := Nat.le_of_not_lt fun hlt => hgone (.inl hlt)
    rw [if_neg hgone, if_neg hgone, Checked.sub_eq hle, Checked.ofExcept_ok_bind, h.entries]
    cases s.fifo.entries.reverse[abs - s.dropped]? <;> rfl

/-! ## No instruction goes wrong -/

theorem Represents.insertName (h : Represents t s) (isStatic : Bool) (idx : Nat) :
    t.insertName isStatic idx = Checked.ofExcept (insertName s isStatic idx) := by
  cases isStatic with
  | true =>
      rw [TableFields.insertName, Qpack.insertName, if_pos rfl, if_pos rfl]
      cases staticEntry idx <;> rfl
  | false =>
      rw [TableFields.insertName, Qpack.insertName, if_neg Bool.false_ne_true,
        if_neg Bool.false_ne_true, h.insertCount]
      refine Checked.ofExcept_bind fun abs _ => ?_
      rw [h.getAbsolute]
      exact Checked.ofExcept_bind fun entry _ => rfl

/-- An instruction is not all there on both sides, or takes as many bytes and leaves a table that
represents the other. -/
def Agrees : Option (Nat × TableFields) → Option (Nat × DynamicTable) → Prop
  | none, none => True
  | some (n, t), some (m, s) => n = m ∧ Represents t s
  | _, _ => False

theorem Represents.insertValue (h : Represents t s) {buf : Bytes} {p : Nat} (hp : p ≤ buf.length)
    (name : Text) :
    Checked.Simulates Agrees (t.insertValue buf p name) (insertValue s buf p name) := by
  rw [TableFields.insertValue, Qpack.insertValue, Checked.sliceFrom_eq hp,
    Checked.ofExcept_ok_bind]
  cases tryDecodeLiteralString7bit (buf.drop p) with
  | error e => exact .throw e
  | ok x =>
      cases x with
      | none => exact .pure trivial
      | some x =>
          exact (h.insert name x.1).bind fun t' s' _ ht => .pure ⟨rfl, ht⟩

theorem Represents.insertLiteral (h : Represents t s) (buf : Bytes) (p nlen : Nat)
    (huffman : Bool) :
    Checked.Simulates Agrees (t.insertLiteral buf p nlen huffman)
      (insertLiteral s buf p nlen huffman) := by
  rw [TableFields.insertLiteral, Qpack.insertLiteral]
  by_cases hover : 2 ^ 64 ≤ p + nlen
  · rw [if_pos hover, if_pos hover]
    exact .throw _
  rw [if_neg hover, if_neg hover]
  by_cases hshort : buf.length < p + nlen
  · rw [if_pos hshort, if_pos hshort]
    exact .pure trivial
  rw [if_neg hshort, if_neg hshort, Checked.slice_eq (Nat.le_add_right p nlen)
    (Nat.le_of_not_lt hshort), Checked.ofExcept_ok_bind, Nat.add_sub_cancel_left]
  exact .bind_same fun name _ => h.insertValue (Nat.le_of_not_lt hshort) name

/-- Every instruction is read within the buffer, and does the same to both. -/
theorem Represents.instruction (h : Represents t s) (buf : Bytes) :
    Checked.Simulates Agrees (t.decodeEncoderInstruction buf)
      (decodeEncoderInstruction s buf) := by
  cases buf with
  | nil => exact .pure trivial
  | cons b rest =>
      have hrest : (Checked.sliceFrom (b :: rest) 1 : Checked Error Bytes) =
          Checked.ofExcept (.ok rest) :=
        Checked.sliceFrom_eq (Nat.succ_le_succ (Nat.zero_le _))
      rw [TableFields.decodeEncoderInstruction, if_neg (List.cons_ne_nil b rest),
        Checked.get_eq rfl, Checked.ofExcept_ok_bind, hrest, Checked.ofExcept_ok_bind,
        decodeEncoderInstruction]
      by_cases hname : b &&& 0x80 ≠ 0
      · rw [if_pos hname, if_pos hname]
        refine .bind_same fun read hint => ?_
        have hused := (decodeInt_front hint).1
        simp only [h.insertName]
        refine .bind_same fun name _ => h.insertValue ?_ name
        rw [List.length_cons]
        omega
      rw [if_neg hname, if_neg hname]
      by_cases hliteral : b &&& 0x40 ≠ 0
      · rw [if_pos hliteral, if_pos hliteral]
        exact .bind_same fun read _ => h.insertLiteral ..
      rw [if_neg hliteral, if_neg hliteral]
      by_cases hcap : b &&& 0x20 ≠ 0
      · rw [if_pos hcap, if_pos hcap]
        refine .bind_same fun read _ => ?_
        exact (h.setCapacity read.1).bind fun t' s' _ ht => .pure ⟨rfl, ht⟩
      · rw [if_neg hcap, if_neg hcap]
        refine .bind_same fun read _ => ?_
        simp only [h.insertCount, h.getAbsolute]
        refine .bind_same fun abs _ => .bind_same fun entry _ => ?_
        exact (h.insert entry.1 entry.2).bind fun t' s' _ ht => .pure ⟨rfl, ht⟩

theorem decodeEncoderInstruction_moves {buf : Bytes} {used : Nat} {s' : DynamicTable}
    (h : decodeEncoderInstruction s buf = .ok (some (used, s'))) : 0 < used := by
  obtain ⟨bytes, more, -, rfl, hinstr⟩ := exists_isInstruction h
  exact List.length_pos_of_ne_nil hinstr.ne_nil

/-- The loop over the instructions is that of the table with the invariant. -/
theorem Represents.applyLoop (h : Represents t s) {fuel : Nat} {buf : Bytes} {p : Nat}
    (hfuel : buf.length ≤ p + fuel) :
    ∃ t', TableFields.applyLoop buf (fuel + 1) t p = some ((Qpack.applyLoop fuel s buf p).1, t') ∧
      Represents t' (Qpack.applyLoop fuel s buf p).2 := by
  induction fuel generalizing t s p with
  | zero =>
      have hend : ¬ p < buf.length := Nat.not_lt_of_le hfuel
      rw [TableFields.applyLoop, if_neg hend]
      exact ⟨t, rfl, h⟩
  | succ fuel ih =>
      rw [TableFields.applyLoop, Qpack.applyLoop]
      by_cases hend : p < buf.length
      · have hstep := h.instruction (buf.drop p)
        rw [if_pos hend, Checked.sliceFrom_eq (Nat.le_of_lt hend), Checked.ofExcept_ok_bind]
        cases hdecode : Qpack.decodeEncoderInstruction s (buf.drop p) with
        | error e =>
            rw [hdecode] at hstep
            rw [show t.decodeEncoderInstruction (buf.drop p) = _ from hstep]
            exact ⟨t, rfl, h⟩
        | ok x =>
            rw [hdecode] at hstep
            obtain ⟨y, hy, hagrees⟩ := hstep
            rw [hy]
            match x, y, hagrees with
            | none, none, _ => exact ⟨t, rfl, h⟩
            | some (used, s'), some (_, t'), ⟨rfl, ht⟩ =>
                have hmoves := decodeEncoderInstruction_moves hdecode
                exact ih ht (by omega)
      · have hnil : buf.drop p = [] := List.drop_of_length_le (Nat.le_of_not_lt hend)
        rw [if_neg hend, hnil]
        exact ⟨t, rfl, h⟩

theorem Represents.apply (h : Represents t s) (buf : Bytes) :
    ∃ t', t.applyEncoderInstructions buf = some ((Qpack.applyEncoderInstructions s buf).1, t') ∧
      Represents t' (Qpack.applyEncoderInstructions s buf).2 :=
  h.applyLoop (Nat.le_of_eq (Nat.zero_add _).symm)

/-! ## Whatever a table is given -/

namespace TableFields

/-- The states of a table: a new one, and what an instruction leaves, whatever bytes hold it. -/
inductive Reached : TableFields → Prop
  | new : Reached .new
  | instruction {t t' : TableFields} {buf : Bytes} {used : Nat} :
      Reached t → (t.decodeEncoderInstruction buf).run = some (.ok (some (used, t'))) → Reached t'

/-- The absolute index is that of an entry that has been inserted and not dropped. -/
def Live (t : TableFields) (i : Nat) : Prop := t.dropped ≤ i ∧ i < t.inserted.length

/-- The counters count, the size is what the entries weigh, and an absolute index gives the entry
inserted under it, as long as that is live. -/
structure Sound (t : TableFields) : Prop where
  counted : t.dropped + t.entries.length = t.insertCount
  inserts : t.insertCount = t.inserted.length
  live : t.entries = t.inserted.drop t.dropped
  size_eq : t.size = (t.entries.map entrySize).sum
  size_le : t.size ≤ t.capacity
  capacity_le : t.capacity ≤ 4096
  getAbsolute_live : ∀ i e, t.inserted[i]? = some e → t.Live i →
    (t.getAbsolute i).run = some (.ok e)
  getAbsolute_gone : ∀ i, ¬ t.Live i → ∃ e, (t.getAbsolute i).run = some (.error e)

end TableFields

theorem Represents.sound (h : Represents t s) : t.Sound where
  counted := by rw [h.dropped, h.entries, List.length_reverse, s.counted, h.insertCount]
  inserts := by rw [h.insertCount, h.inserts]
  live := by rw [h.dropped, h.live, h.entries]
  size_eq := h.sum_eq
  size_le := by
    rw [h.size, h.capacity]
    exact s.within
  capacity_le := by
    rw [h.capacity]
    exact s.bounded
  getAbsolute_live i e he hlive := by
    obtain ⟨hle, hlt⟩ := hlive
    rw [h.dropped] at hle
    rw [h.inserts] at hlt
    have hentry : s.fifo.entries.reverse[i - s.dropped]? = some e := by
      rw [← h.live, List.getElem?_drop, Nat.add_sub_cancel' hle, he]
    have hin : ¬ (i < s.dropped ∨ s.insertCount ≤ i) := by omega
    rw [h.getAbsolute, DynamicTable.getAbsolute, if_neg hin, hentry]
    rfl
  getAbsolute_gone i hgone := by
    have hout : i < s.dropped ∨ s.insertCount ≤ i := by
      rw [TableFields.Live, h.dropped, h.inserts] at hgone
      omega
    rw [h.getAbsolute, DynamicTable.getAbsolute, if_pos hout]
    exact ⟨_, rfl⟩

theorem TableFields.Reached.exists_represents (h : t.Reached) : ∃ s, Represents t s := by
  induction h with
  | new => exact ⟨.new, represents_new⟩
  | @instruction t t' buf used _ hrun ih =>
      obtain ⟨s, hs⟩ := ih
      have hstep := hs.instruction buf
      cases hdecode : Qpack.decodeEncoderInstruction s buf with
      | error e =>
          rw [hdecode] at hstep
          rw [show t.decodeEncoderInstruction buf = _ from hstep] at hrun
          cases hrun
      | ok x =>
          rw [hdecode] at hstep
          obtain ⟨y, hy, hagrees⟩ := hstep
          rw [hy] at hrun
          cases hrun
          match x, hagrees with
          | some (_, s'), ⟨_, ht⟩ => exact ⟨s', ht⟩

theorem Represents.applyAll (h : Represents t s) (bufs : List Bytes) :
    ∃ runs, t.applyAll bufs = some runs ∧ runs.length = bufs.length ∧
      ∀ r ∈ runs, ∃ s', Represents r.2 s' := by
  induction bufs generalizing t s with
  | nil => exact ⟨[], rfl, rfl, fun r hr => absurd hr List.not_mem_nil⟩
  | cons buf bufs ih =>
      obtain ⟨t', hrun, ht⟩ := h.apply buf
      obtain ⟨runs, hruns, hlength, hall⟩ := ih ht
      refine ⟨((applyEncoderInstructions s buf).1, t') :: runs, ?_, ?_, ?_⟩
      · rw [TableFields.applyAll, hrun]
        change t'.applyAll bufs >>= _ = _
        rw [hruns]
        rfl
      · rw [List.length_cons, List.length_cons, hlength]
      · intro r hr
        rcases List.mem_cons.mp hr with rfl | hr
        · exact ⟨_, ht⟩
        · exact hall r hr

/-- Whatever an encoder stream carries, no instruction panics, and its table is sound after each
of them. -/
theorem table_sound :
    (∀ bufs : List Bytes, ∃ runs, TableFields.new.applyAll bufs = some runs ∧
      runs.length = bufs.length ∧ ∀ r ∈ runs, r.2.Sound) ∧
    ∀ t : TableFields, t.Reached → t.Sound ∧
      ∀ buf, ∃ r, (t.decodeEncoderInstruction buf).run = some r := by
  refine ⟨fun bufs => ?_, fun t ht => ?_⟩
  · obtain ⟨runs, hruns, hlength, hall⟩ := represents_new.applyAll bufs
    refine ⟨runs, hruns, hlength, fun r hr => ?_⟩
    obtain ⟨s', hs'⟩ := hall r hr
    exact hs'.sound
  · obtain ⟨s, hs⟩ := ht.exists_represents
    exact ⟨hs.sound, fun buf => (hs.instruction buf).exists_run⟩

end Rsurl.H3.Qpack
