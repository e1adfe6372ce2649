/-
# `Rsurl.H3.Conformance` — the decoder against RFC 9204

Whatever an encoder writes by the book, the decoder reads as it was meant: the
instructions build the table of the RFC, the Required Insert Count is found
again from its residue, and every line comes to its field.
-/
import Rsurl.H3.EncoderStream
import Rsurl.H3.QpackSpec

namespace Rsurl.H3

open Rfc (Reads IsContent IsString IsLine Instruction Instructions FieldSection Encodes)
open H2.Rfc (IntTail)
open Qpack

/-! ## Integers -/

/-- The two copies of the loop of `decode_int` agree. -/
theorem intLoop_of_decodeIntRest {buf : Bytes} {i value shift v j : Nat}
    (h : H2.decodeIntRest buf i value shift = .ok (v, j)) (used : Nat) :
    i ≤ j ∧ intLoop buf value shift used = .ok (some (v, used + (j - i))) := by
  induction buf generalizing i value shift used with
  | nil => cases h
  | cons b buf ih =>
      simp only [H2.decodeIntRest] at h
      simp only [intLoop]
      split at h
      · cases h
      rename_i hover
      rw [if_neg hover]
      split at h
      · rename_i hlast
        rw [if_pos hlast]
        cases h
        exact ⟨Nat.le_succ i, by rw [Nat.add_sub_cancel_left]⟩
      rename_i hlast
      rw [if_neg hlast]
      split at h
      · cases h
      rename_i hlong
      rw [if_neg hlong]
      obtain ⟨hle, hloop⟩ := ih h (used + 1)
      refine ⟨Nat.le_of_succ_le hle, hloop.trans ?_⟩
      congr 3
      omega

/-- An integer of the RFC is read. -/
theorem decodeIntPartial_of_reads {b : UInt8} {lead : Bytes} {k n : Nat}
    (h : Reads k (b :: lead) n) :
    decodeIntPartial b k lead = .ok (some (n, lead.length)) := by
  obtain ⟨hint, hshort, hfits⟩ := h
  cases hint with
  | small hsmall => rw [decodeIntPartial, if_pos hsmall]; rfl
  | @full _ _ n hfull htail =>
      rw [List.length_cons] at hshort
      have hrest := @H2.decodeIntRest_of_tail lead n 0 (2 ^ k - 1) 0 htail [] (by omega)
        (by simpa using hfits)
      rw [List.append_nil, Nat.mul_zero, Nat.pow_zero, Nat.mul_one, Nat.zero_add] at hrest
      obtain ⟨-, hloop⟩ := intLoop_of_decodeIntRest hrest 0
      rw [Nat.zero_add, Nat.sub_zero] at hloop
      rw [decodeIntPartial, hfull, if_neg (Nat.lt_irrefl _)]
      exact hloop

theorem decodeInt_of_reads {b : UInt8} {lead : Bytes} {k n : Nat} (h : Reads k (b :: lead) n)
    (more : Bytes) : decodeInt b k (lead ++ more) = .ok (n, lead.length) := by
  have hread := decodeIntPartial_of_reads h
  refine decodeInt_eq_ok.mpr ?_
  rw [decodeIntPartial_append (fun hnone => nomatch hread.symm.trans hnone), hread]

/-! ## Strings -/

theorem decodeStringBytes_of_isContent {huffman : Bool} {raw : Bytes} {t : Text}
    (h : IsContent huffman raw t) (what : String) :
    decodeStringBytes raw huffman what = .ok t := by
  cases h with
  | raw ht =>
      rw [decodeStringBytes, if_neg Bool.false_ne_true, Result.ok_bind]
      simp only [ht]
  | @coded _ octets n _ hn hbits ht =>
      rw [H2.Rfc.codedBits_eq] at hbits
      have hcoded : huffmanDecode raw = .ok octets := by
        rw [huffmanDecode, H2.huffmanDecode_eq_ok_iff.mpr ⟨n, hn, hbits⟩]
        rfl
      rw [decodeStringBytes, if_pos rfl, hcoded, Result.ok_bind]
      simp only [ht]

/-- A string literal of a field line is read. -/
theorem decodeLiteralString7bit_of_isString {bytes : Bytes} {t : Text} (h : IsString bytes t)
    (more : Bytes) : decodeLiteralString7bit (bytes ++ more) = .ok (t, bytes.length) := by
  cases h with
  | @intro b lead raw t hlen hraw =>
      have hread := decodeInt_of_reads hlen (raw ++ more)
      have hend : ¬(b :: (lead ++ (raw ++ more))).length < 1 + lead.length + raw.length := by
        simp only [List.length_cons, List.length_append]
        omega
      have hbytes : ((b :: (lead ++ (raw ++ more))).drop (1 + lead.length)).take raw.length =
          raw := by
        rw [Nat.add_comm, List.drop_succ_cons, List.drop_left, List.take_left]
      rw [List.cons_append, List.append_assoc, decodeLiteralString7bit, hread]
      show (if (b :: (lead ++ (raw ++ more))).length < 1 + lead.length + raw.length then _
        else decodeStringBytes (((b :: (lead ++ (raw ++ more))).drop (1 + lead.length)).take
          raw.length) _ _ >>= fun s => .ok (s, 1 + lead.length + raw.length)) = _
      rw [if_neg hend, hbytes, decodeStringBytes_of_isContent hraw]
      show (Except.ok (t, 1 + lead.length + raw.length) : Result (Text × Nat)) = _
      rw [List.length_cons, List.length_append]
      congr 2
      omega

/-- So is one of an instruction. -/
theorem tryDecodeLiteralString7bit_of_isString {bytes : Bytes} {t : Text} (h : IsString bytes t)
    (hsize : bytes.length < 2 ^ 64) :
    tryDecodeLiteralString7bit bytes = .ok (some (t, bytes.length)) := by
  cases h with
  | @intro b lead raw t hlen hraw =>
      have hread : decodeIntPartial b 7 (lead ++ raw) = .ok (some (raw.length, lead.length)) :=
        decodeInt_eq_ok.mp (decodeInt_of_reads hlen raw)
      have hlength : (b :: (lead ++ raw)).length = 1 + lead.length + raw.length := by
        rw [List.length_cons, List.length_append]
        omega
      have hbytes : ((b :: (lead ++ raw)).drop (1 + lead.length)).take raw.length = raw := by
        rw [Nat.add_comm, List.drop_succ_cons, List.drop_left, List.take_length]
      rw [hlength] at hsize ⊢
      rw [tryDecodeLiteralString7bit_cons hread, if_neg (Nat.not_le.mpr hsize), hlength,
        if_neg (Nat.lt_irrefl _), hbytes, decodeStringBytes_of_isContent hraw]

/-! ## Lines -/

/-- A line whose value is the last thing in it. -/
theorem valuedLine_of_isString (front : Bytes) {valued : Bytes} {value : Text}
    (h : IsString valued value) (mk : Text → Line) (more : Bytes) :
    valuedLine (front ++ (valued ++ more)) front.length mk =
      .ok (mk value, front.length + valued.length) :=
  valuedLine_eq_ok.mpr ⟨value, valued.length, by
    rw [List.drop_left]
    exact decodeLiteralString7bit_of_isString h more, rfl, rfl⟩

theorem valuedLine_behind_lead {b : UInt8} {lead valued : Bytes} {value : Text}
    (h : IsString valued value) (mk : Text → Line) (more : Bytes) :
    valuedLine (b :: (lead ++ (valued ++ more))) (1 + lead.length) mk =
      .ok (mk value, (b :: (lead ++ valued)).length) := by
  have hvalued := valuedLine_of_isString (b :: lead) h mk more
  rw [List.length_cons, Nat.add_comm lead.length] at hvalued
  refine hvalued.trans ?_
  rw [List.length_cons, List.length_append]
  congr 2
  omega

/-- A line of the RFC is parsed as what it is. -/
theorem parseLine_of_isLine {bytes : Bytes} {line : Line} (h : IsLine bytes line) (more : Bytes) :
    parseLine (bytes ++ more) = .ok (line, bytes.length) := by
  cases h with
  | @indexedStatic b lead i hkind hidx =>
      rw [List.cons_append, parseLine, if_pos hkind.1, decodeInt_of_reads hidx]
      show (Except.ok (Line.indexed (if b &&& 0x40 ≠ 0 then _ else _), _) : Result _) = _
      rw [if_pos hkind.2, List.length_cons, Nat.add_comm]
  | @indexedDynamic b lead i hkind hidx =>
      rw [List.cons_append, parseLine, if_pos hkind.1, decodeInt_of_reads hidx]
      show (Except.ok (Line.indexed (if b &&& 0x40 ≠ 0 then _ else _), _) : Result _) = _
      rw [if_neg (not_not_intro hkind.2), List.length_cons, Nat.add_comm]
  | @indexedPostBase b lead i hkind hidx =>
      rw [List.cons_append, parseLine, if_neg (not_not_intro hkind.1),
        if_neg (not_not_intro hkind.2.1), if_neg (not_not_intro hkind.2.2.1),
        if_pos hkind.2.2.2, decodeInt_of_reads hidx, List.length_cons, Nat.add_comm lead.length]
      rfl
  | @staticName b lead valued i value hkind hidx hvalue =>
      rw [List.cons_append, List.append_assoc, parseLine, if_neg (not_not_intro hkind.1),
        if_pos hkind.2.1, decodeInt_of_reads hidx]
      show valuedLine _ _ (Line.named (if b &&& 0x10 ≠ 0 then _ else _)) = _
      rw [if_pos hkind.2.2]
      exact valuedLine_behind_lead hvalue _ more
  | @dynamicName b lead valued i value hkind hidx hvalue =>
      rw [List.cons_append, List.append_assoc, parseLine, if_neg (not_not_intro hkind.1),
        if_pos hkind.2.1, decodeInt_of_reads hidx]
      show valuedLine _ _ (Line.named (if b &&& 0x10 ≠ 0 then _ else _)) = _
      rw [if_neg (not_not_intro hkind.2.2)]
      exact valuedLine_behind_lead hvalue _ more
  | @postBaseName b lead valued i value hkind hidx hvalue =>
      rw [List.cons_append, List.append_assoc, parseLine, if_neg (not_not_intro hkind.1),
        if_neg (not_not_intro hkind.2.1), if_neg (not_not_intro hkind.2.2.1),
        if_neg (not_not_intro hkind.2.2.2), decodeInt_of_reads hidx]
      exact valuedLine_behind_lead hvalue _ more
  | @literal b lead named valued name value hkind hlen hname hvalue =>
      have hread := decodeInt_of_reads hlen (named ++ (valued ++ more))
      have hend : ¬(b :: (lead ++ (named ++ (valued ++ more)))).length <
          1 + lead.length + named.length := by
        simp only [List.length_cons, List.length_append]
        omega
      have hbytes : ((b :: (lead ++ (named ++ (valued ++ more)))).drop (1 + lead.length)).take
          named.length = named := by
        rw [Nat.add_comm, List.drop_succ_cons, List.drop_left, List.take_left]
      have hvalued := valuedLine_of_isString (b :: (lead ++ named)) hvalue (.literal name) more
      rw [List.cons_append, List.append_assoc, List.length_cons, List.length_append,
        Nat.add_comm _ 1, ← Nat.add_assoc] at hvalued
      rw [List.cons_append, List.append_assoc, List.append_assoc, parseLine,
        if_neg (not_not_intro hkind.1), if_neg (not_not_intro hkind.2.1), if_pos hkind.2.2, hread]
      show (if _ < 1 + lead.length + named.length then _ else
        decodeStringBytes (((b :: (lead ++ (named ++ (valued ++ more)))).drop
          (1 + lead.length)).take named.length) _ _ >>= fun name =>
            valuedLine (b :: (lead ++ (named ++ (valued ++ more))))
              (1 + lead.length + named.length) (.literal name)) = _
      rw [if_neg hend, hbytes, decodeStringBytes_of_isContent hname]
      refine hvalued.trans ?_
      simp only [List.length_cons, List.length_append]
      congr 2
      omega

theorem lines_of_encodes {bytes : Bytes} {lines : List Line} (h : Encodes bytes lines) :
    Lines bytes lines := by
  induction h with
  | nil => exact .nil
  | cons hline hrest ih =>
      refine .cons (parseLine_of_isLine hline _) ?_
      rw [List.drop_left]
      exact ih

/-! ## The table -/

/-- The decoder's table is the one of the RFC. -/
structure Tracks (table : DynamicTable) (t : Rfc.Table) : Prop where
  count : table.insertCount = t.history.length
  entries : table.fifo.entries = t.live
  capacity : table.capacity = t.max

section

variable {table : DynamicTable} {t : Rfc.Table}

theorem tracks_new : Tracks .new .new := ⟨rfl, rfl, rfl⟩

/-- What is left is the end of the history. -/
theorem live_reverse (t : Rfc.Table) :
    t.live.reverse = t.history.drop (t.history.length - t.live.length) := by
  have hsuffix : t.live.reverse <:+ t.history := by
    have hnewest := List.reverse_suffix.mpr t.newest
    rwa [List.reverse_reverse] at hnewest
  have hlength : t.live.reverse.length = t.live.length := List.length_reverse
  rw [← hlength]
  exact List.suffix_iff_eq_drop.mp hsuffix

theorem Tracks.dropped (h : Tracks table t) :
    table.dropped + t.live.length = t.history.length := by
  rw [← h.entries, ← h.count]
  exact table.counted

/-- An entry that is left is found at its index. -/
theorem Tracks.getAbsolute (h : Tracks table t) {abs : Nat} {e : Text × Text}
    (hentry : t.entry abs = some e) : table.getAbsolute abs = .ok e := by
  have hdropped := h.dropped
  rw [Rfc.Table.entry] at hentry
  split at hentry
  · rename_i hlive
    have hlt := (List.getElem?_eq_some_iff.mp hentry).1
    have hcount := h.count
    have hget : table.fifo.entries.reverse[abs - table.dropped]? = some e := by
      rw [h.entries, live_reverse, List.getElem?_drop, ← hentry]
      congr 1
      omega
    rw [DynamicTable.getAbsolute, if_neg (by omega), hget]
  · cases hentry

/-- A table never has more than 128 entries. -/
theorem Tracks.live_length (h : Tracks table t) : t.live.length ≤ 128 := by
  have hsum : ∀ entries : List (Text × Text),
      32 * entries.length ≤ (entries.map H2.entrySize).sum := fun entries => by
    induction entries with
    | nil => exact Nat.le_refl _
    | cons e entries ih =>
        rw [List.map_cons, List.sum_cons, List.length_cons, H2.entrySize]
        omega
  have hsize := hsum table.fifo.entries
  rw [← table.fifo.size_eq] at hsize
  have hwithin := table.within
  have hbounded : table.capacity ≤ 4096 := table.bounded
  rw [← h.entries]
  omega

/-- References come to the same entries. -/
theorem Tracks.refer (h : Tracks table t) (hcount : t.history.length ≤ 2 ^ 64) {base : Nat}
    {ref : Ref} {e : Text × Text} (hentry : t.refer base ref = some e) :
    ref.entry table base = some e := by
  cases ref with
  | static i => exact (Rfc.staticEntry_eq i).symm.trans hentry
  | relative i =>
      obtain ⟨abs, habs, he⟩ := Option.bind_eq_some_iff.mp hentry
      rw [Rfc.index] at habs
      split at habs
      · rename_i hlt
        have hrel : (Ref.relative i).absolute base = some abs := by
          rw [Ref.absolute, if_pos (by omega)]
          exact habs
        show ((Ref.relative i).absolute base).bind _ = _
        rw [hrel]
        show (table.getAbsolute abs).toOption = some e
        rw [h.getAbsolute he]
        rfl
      · cases habs
  | postBase i =>
      have he : t.entry (base + i) = some e := hentry
      have hlt : base + i < 2 ^ 64 := by
        have hget := he
        rw [Rfc.Table.entry] at hget
        split at hget
        · exact Nat.lt_of_lt_of_le (List.getElem?_eq_some_iff.mp hget).1 hcount
        · cases hget
      show ((Ref.postBase i).absolute base).bind _ = _
      rw [Ref.absolute, if_pos hlt]
      show (table.getAbsolute (base + i)).toOption = some e
      rw [h.getAbsolute he]
      rfl

/-! ## Sections -/

/-- The count is found again from its residue: the inserts it needs are no more than there were,
and the table has not turned over since. -/
theorem decodeRequiredInsertCount_encoded {ric total : Nat}
    (h : ric = 0 ∨ ric ≤ total ∧ total < ric + 128) :
    decodeRequiredInsertCount (Rfc.encodedInsertCount ric) total = .ok ric := by
  by_cases hzero : ric = 0
  · rw [hzero, Rfc.encodedInsertCount, if_pos rfl, decodeRequiredInsertCount, if_pos rfl]
  obtain ⟨hle, hlt⟩ := h.resolve_left hzero
  have hrange : 2 * maxEntries = 256 := rfl
  have hentries : maxEntries = 128 := rfl
  have henc : Rfc.encodedInsertCount ric = ric % 256 + 1 := by
    rw [Rfc.encodedInsertCount, if_neg hzero]
    rfl
  rw [henc, decodeRequiredInsertCount, if_neg (Nat.succ_ne_zero _)]
  dsimp only
  rw [hrange, hentries, if_neg (by omega), if_neg (by omega)]
  by_cases hover : total + 128 < (total + 128) / 256 * 256 + (ric % 256 + 1) - 1
  · have hback : (total + 128) / 256 * 256 + (ric % 256 + 1) - 1 - 256 = ric := by omega
    rw [if_pos hover, hback, if_neg hzero]
  · have hsame : (total + 128) / 256 * 256 + (ric % 256 + 1) - 1 = ric := by omega
    rw [if_neg hover, hsame, if_neg hzero]

/-- The largest reference of a section is to an entry that is left. -/
theorem requiredInsertCount_live {base : Nat} {lines : List Line} {fields : Fields}
    (h : fieldsOf (t.refer base) lines = some fields) :
    Rfc.requiredInsertCount base lines = 0 ∨
      ∃ abs e, Rfc.requiredInsertCount base lines = abs + 1 ∧ t.entry abs = some e := by
  induction lines generalizing fields with
  | nil => exact .inl rfl
  | cons line lines ih =>
      obtain ⟨e, rest, hfield, hrest, -⟩ := fieldsOf_cons_eq_some.mp h
      have hone : ∀ abs, line.ref?.bind (Rfc.index base) = some abs → ∃ e, t.entry abs = some e := by
        intro abs habs
        obtain ⟨ref, href, hindex⟩ := Option.bind_eq_some_iff.mp habs
        obtain ⟨e', he'⟩ := entry_of_ref hfield href
        refine ⟨e', ?_⟩
        cases ref with
        | static i => cases hindex
        | relative i =>
            obtain ⟨abs', habs', he'⟩ := Option.bind_eq_some_iff.mp he'
            cases hindex.symm.trans habs'
            exact he'
        | postBase i =>
            cases hindex
            exact he'
      rw [Rfc.requiredInsertCount]
      cases habs : line.ref?.bind (Rfc.index base) with
      | none =>
          rw [Option.map_none, Option.getD_none, Nat.zero_max]
          exact ih hrest
      | some abs =>
          rw [Option.map_some, Option.getD_some]
          rcases Nat.le_total (Rfc.requiredInsertCount base lines) (abs + 1) with hle | hle
          · rw [Nat.max_eq_left hle]
            obtain ⟨e, he⟩ := hone abs habs
            exact .inr ⟨abs, e, rfl, he⟩
          · rw [Nat.max_eq_right hle]
            exact ih hrest

/-- More entries give the same fields. -/
theorem fieldsOf_mono {entry entry' : Ref → Option (Text × Text)} {lines : List Line}
    {fields : Fields} (hmono : ∀ ref e, entry ref = some e → entry' ref = some e)
    (h : fieldsOf entry lines = some fields) : fieldsOf entry' lines = some fields := by
  induction lines generalizing fields with
  | nil => exact h
  | cons line lines ih =>
      obtain ⟨e, rest, hfield, hrest, rfl⟩ := fieldsOf_cons_eq_some.mp h
      refine fieldsOf_cons_eq_some.mpr ⟨e, rest, ?_, ih hrest, rfl⟩
      cases line with
      | indexed ref => exact hmono ref e hfield
      | named ref value =>
          obtain ⟨e', he', rfl⟩ := Option.map_eq_some_iff.mp hfield
          show (entry' ref).map _ = _
          rw [hmono ref e' he']
          rfl
      | literal name value => exact hfield

/-- A section of the RFC is decoded to its fields. -/
theorem decodeFieldSectionWith_of_fieldSection {bytes : Bytes} {fields : Fields}
    (ht : Tracks table t) (hcount : t.history.length ≤ 2 ^ 64)
    (h : FieldSection t bytes fields) (hsize : H2.listSize fields ≤ maxDecodedHeaderList) :
    decodeFieldSectionWith bytes table = .ok fields := by
  cases h with
  | @intro b s lead lead' body delta base lines _ hric hdelta hbound hbase hlines hfields =>
      have hwindow : Rfc.requiredInsertCount base lines = 0 ∨
          Rfc.requiredInsertCount base lines ≤ t.history.length ∧
            t.history.length < Rfc.requiredInsertCount base lines + 128 := by
        rcases requiredInsertCount_live hfields with hzero | ⟨abs, e, habs, hentry⟩
        · exact .inl hzero
        · rw [Rfc.Table.entry] at hentry
          split at hentry
          · rename_i hlive
            have hlt := (List.getElem?_eq_some_iff.mp hentry).1
            have hlength := ht.live_length
            exact .inr ⟨by omega, by omega⟩
          · cases hentry
      have hparse : parsePrefix (b :: (lead ++ (s :: (lead' ++ body)))) =
          .ok (Rfc.encodedInsertCount (Rfc.requiredInsertCount base lines), s &&& 0x80 ≠ 0, delta,
            1 + lead.length + (1 + lead'.length)) := by
        have hdrop : (b :: (lead ++ (s :: (lead' ++ body)))).drop (1 + lead.length) =
            s :: (lead' ++ body) := by
          rw [Nat.add_comm, List.drop_succ_cons, List.drop_left]
        refine Result.bind_eq_ok.mpr ⟨_, decodeInt_of_reads hric _, ?_⟩
        dsimp only
        rw [hdrop]
        exact Result.bind_eq_ok.mpr ⟨_, decodeInt_of_reads hdelta _, rfl⟩
      have hdrop : (b :: (lead ++ (s :: (lead' ++ body)))).drop
          (1 + lead.length + (1 + lead'.length)) = body := by
        have hfirst : (b :: (lead ++ (s :: (lead' ++ body)))).drop (1 + lead.length) =
            s :: (lead' ++ body) := by
          rw [Nat.add_comm, List.drop_succ_cons, List.drop_left]
        rw [← List.drop_drop, hfirst, Nat.add_comm, List.drop_succ_cons, List.drop_left]
      have hbaseOf : baseOf (s &&& 0x80 ≠ 0) delta (Rfc.requiredInsertCount base lines) =
          some base := by
        rw [baseOf]
        split at hbase
        · rename_i hsign
          rw [decide_eq_true hsign, if_pos rfl, if_pos (by omega)]
          congr 1
          omega
        · rename_i hsign
          rw [decide_eq_false hsign, if_neg Bool.false_ne_true, if_pos (by omega), ← hbase]
      refine decodeFieldSectionWith_eq_ok_iff.mpr ⟨Rfc.requiredInsertCount base lines, base,
        1 + lead.length + (1 + lead'.length), lines, decodePrefix_eq_ok_iff.mpr
          ⟨_, _, delta, hparse, ?_, ?_, hbaseOf⟩, ?_, fieldsOf_mono
            (fun ref e hentry => ht.refer hcount hentry) hfields, hsize⟩
      · rw [ht.count]
        exact decodeRequiredInsertCount_encoded hwindow
      · rw [ht.count]
        omega
      · rw [hdrop]
        exact lines_of_encodes hlines

/-! ## Instructions -/

theorem Tracks.resize (ht : Tracks table t) {n : Nat} (hmax : n ≤ maxDynamicCapacity) :
    ∃ table', table.setCapacity n = .ok table' ∧ Tracks table' (t.resize n) := by
  refine ⟨table.resize n hmax, ?_, ht.count, ?_, rfl⟩
  · rw [DynamicTable.setCapacity, dif_pos hmax]
  · show (table.fifo.evict n 0).entries = H2.Rfc.keep n t.live
    rw [← ht.entries]
    exact H2.entries_evict table.fifo (Nat.zero_le n)

theorem Tracks.add (ht : Tracks table t) {name value : Text}
    (hfits : H2.entrySize (name, value) ≤ t.max) :
    ∃ table', table.insert name value = .ok table' ∧ Tracks table' (t.add (name, value)) := by
  have hroom : H2.entrySize (name, value) ≤ table.capacity := by
    rw [ht.capacity]
    exact hfits
  refine ⟨table.add (name, value) hroom, ?_, ?_, ?_, ht.capacity⟩
  · rw [DynamicTable.insert, dif_pos hroom]
  · show table.insertCount + 1 = (t.history ++ [(name, value)]).length
    rw [ht.count, List.length_append]
    rfl
  · show (name, value) :: (table.fifo.evict table.capacity (H2.entrySize (name, value))).entries = _
    rw [H2.entries_evict table.fifo hroom, ht.entries, ht.capacity]
    rfl

/-- The name that an instruction refers to. -/
theorem Tracks.relative (ht : Tracks table t) {i : Nat} (hi : i < t.history.length) :
    relativeToAbsoluteInsert table.insertCount i = .ok (t.history.length - 1 - i) := by
  rw [relativeToAbsoluteInsert, ht.count, if_pos (by omega)]

/-- An instruction of the RFC is one of the decoder, and does the same. -/
theorem Tracks.instruction (ht : Tracks table t) {bytes : Bytes} {t' : Rfc.Table}
    (h : Instruction t bytes t') (hsize : bytes.length < 2 ^ 64) :
    ∃ table', IsInstruction table bytes table' ∧ Tracks table' t' := by
  cases h with
  | @setCapacity b lead n hkind hint hmax =>
      obtain ⟨table', hcap, ht'⟩ := ht.resize hmax
      exact ⟨table', .setCapacity hkind (decodeIntPartial_of_reads hint) hcap, ht'⟩
  | @staticName b lead valued i e value hkind hint hentry hvalue hfits =>
      rw [Rfc.staticEntry_eq] at hentry
      obtain ⟨table', hinsert, ht'⟩ := ht.add hfits
      have hvalued : valued.length < 2 ^ 64 := by
        rw [List.length_cons, List.length_append] at hsize
        omega
      have hname : insertName table (b &&& 0x40 ≠ 0) i = .ok e.1 := by
        rw [insertName, decide_eq_true hkind.2, if_pos rfl, hentry]
      exact ⟨table', .withName hkind.1 (decodeIntPartial_of_reads hint) hname
        (tryDecodeLiteralString7bit_of_isString hvalue hvalued) hinsert, ht'⟩
  | @dynamicName b lead valued i e value hkind hint hi hentry hvalue hfits =>
      obtain ⟨table', hinsert, ht'⟩ := ht.add hfits
      have hvalued : valued.length < 2 ^ 64 := by
        rw [List.length_cons, List.length_append] at hsize
        omega
      have hname : insertName table (b &&& 0x40 ≠ 0) i = .ok e.1 := by
        rw [insertName, decide_eq_false (not_not_intro hkind.2), if_neg Bool.false_ne_true,
          ht.relative hi]
        show (table.getAbsolute _ >>= fun entry => .ok entry.1) = _
        rw [ht.getAbsolute hentry]
        rfl
      exact ⟨table', .withName hkind.1 (decodeIntPartial_of_reads hint) hname
        (tryDecodeLiteralString7bit_of_isString hvalue hvalued) hinsert, ht'⟩
  | @literalName b lead named valued name value hkind hlen hname hvalue hfits =>
      obtain ⟨table', hinsert, ht'⟩ := ht.add hfits
      rw [List.length_cons, List.length_append, List.length_append] at hsize
      exact ⟨table', .withLiteral hkind (decodeIntPartial_of_reads hlen) (by omega)
        (decodeStringBytes_of_isContent hname _)
        (tryDecodeLiteralString7bit_of_isString hvalue (by omega)) hinsert, ht'⟩
  | @duplicate b lead i e hkind hint hi hentry hfits =>
      obtain ⟨table', hinsert, ht'⟩ := ht.add hfits
      exact ⟨table', .duplicate hkind (decodeIntPartial_of_reads hint) (ht.relative hi)
        (ht.getAbsolute hentry) hinsert, ht'⟩

/-- A stream of instructions builds the table of the RFC. -/
theorem Tracks.instructions (ht : Tracks table t) {bytes : Bytes} {t' : Rfc.Table}
    (h : Instructions t bytes t') (hsize : bytes.length < 2 ^ 64) :
    ∃ table', Applies table bytes table' ∧ Tracks table' t' := by
  induction h generalizing table with
  | nil t => exact ⟨table, .nil table, ht⟩
  | @cons t t₁ t₂ bytes rest hfirst hrest ih =>
      rw [List.length_append] at hsize
      obtain ⟨table₁, hinstr, ht₁⟩ := ht.instruction hfirst (by omega)
      obtain ⟨table₂, happ, ht₂⟩ := ih ht₁ (by omega)
      exact ⟨table₂, .cons hinstr happ, ht₂⟩

/-- Every insert takes an octet of the stream. -/
theorem history_length {bytes : Bytes} {t' : Rfc.Table} (h : Instructions t bytes t') :
    t'.history.length ≤ t.history.length + bytes.length := by
  induction h with
  | nil t => exact Nat.le_refl _
  | @cons t t₁ t₂ bytes rest hfirst hrest ih =>
      have hone : t₁.history.length ≤ t.history.length + 1 ∧ 1 ≤ bytes.length := by
        have hadd : ∀ e, (t.add e).history.length ≤ t.history.length + 1 := fun e => by
          show (t.history ++ [e]).length ≤ _
          rw [List.length_append]
          exact Nat.le_refl _
        cases hfirst with
        | setCapacity => exact ⟨Nat.le_succ _, Nat.le_add_left _ _⟩
        | staticName => exact ⟨hadd _, Nat.le_add_left _ _⟩
        | dynamicName => exact ⟨hadd _, Nat.le_add_left _ _⟩
        | literalName => exact ⟨hadd _, Nat.le_add_left _ _⟩
        | duplicate => exact ⟨hadd _, Nat.le_add_left _ _⟩
      rw [List.length_append]
      omega

end

/-- Whatever instructions have built the table, a section that refers to what is left of it is
decoded to its fields, under any Base; and the Required Insert Count is found again from its
residue however many inserts there have been. -/
theorem decoder_reads_sections {stream bytes : Bytes} {t : Rfc.Table} {fields : Fields}
    (hstream : Instructions .new stream t) (hlength : stream.length < 2 ^ 64)
    (hsection : FieldSection t bytes fields)
    (hsize : H2.listSize fields ≤ maxDecodedHeaderList) :
    (∃ table, applyEncoderInstructions .new stream = (.ok stream.length, table) ∧
      decodeFieldSectionWith bytes table = .ok fields) ∧
    ∀ ric total, ric = 0 ∨ ric ≤ total ∧ total < ric + 128 →
      decodeRequiredInsertCount (Rfc.encodedInsertCount ric) total = .ok ric := by
  refine ⟨?_, fun ric total h => decodeRequiredInsertCount_encoded h⟩
  obtain ⟨table, happ, ht⟩ := tracks_new.instructions hstream hlength
  have hcount : t.history.length ≤ 2 ^ 64 := by
    have hle := history_length hstream
    have hnone : Rfc.Table.new.history.length = 0 := rfl
    omega
  exact ⟨table, applyEncoderInstructions_of_applies happ,
    decodeFieldSectionWith_of_fieldSection ht hcount hsection hsize⟩

/-- An integer that fits its prefix. -/
theorem reads_small {k n : Nat} {b : UInt8} (h : b.toNat % 2 ^ k = n) (hn : n < 2 ^ k - 1) :
    Reads k [b] n := by
  have hb := b.toNat_lt
  have hle := Nat.mod_le b.toNat (2 ^ k)
  refine ⟨h ▸ .small (h ▸ hn), (by decide : 1 ≤ 11), by omega⟩

theorem isString_short {b : UInt8} {raw : Bytes} {t : Text} (hlen : b.toNat = raw.length)
    (hshort : raw.length < 127) (ht : fromUtf8 raw = some t) : IsString (b :: raw) t := by
  have hflag : b &&& 0x80 = 0 := (H2.and_0x80_eq_zero b).mpr (by omega)
  have hread : Reads 7 [b] raw.length := reads_small (by omega) hshort
  have hplain : IsContent (b &&& 0x80 ≠ 0) raw t := by
    rw [decide_eq_false (not_not_intro hflag)]
    exact .raw ht
  exact .intro hread hplain

/-- A Huffman-coded `a` in one octet, as a value. -/
theorem isString_coded : IsString [0x81, 0x1f] "a".toList := by
  have hlen : Reads 7 [0x81] ([0x1f] : Bytes).length := reads_small (by decide) (by decide)
  have hbits : Base.bitsOf [0x1f] = H2.Rfc.codedBits [0x61] ++ H2.padding 3 := by
    rw [H2.Rfc.codedBits_eq]
    decide +kernel
  exact .intro hlen (.coded (by decide) hbits (by decide))

/-- Set Dynamic Table Capacity to 4096, and two times Insert With Literal Name. -/
def sampleStream : Bytes :=
  [0x3f, 0xe1, 0x1f, 0x41, 0x61, 0x01, 0x62, 0x41, 0x63, 0x01, 0x64]

/-- Two inserts are needed, and Base is 1: an entry of the static table, the entry below Base, the
one behind it, and a literal with a coded value. -/
def sampleSection : Bytes := [3, 0x80, 0xd1, 0x80, 0x10, 0x21, 0x65, 0x81, 0x1f]

theorem decoder_reads_sections_sample :
    ∃ table, applyEncoderInstructions .new sampleStream = (.ok 11, table) ∧
      decodeFieldSectionWith sampleSection table =
        .ok [(":method".toList, "GET".toList), ("a".toList, "b".toList), ("c".toList, "d".toList),
          ("e".toList, "a".toList)] := by
  have hcap : Reads 5 [0x3f, 0xe1, 0x1f] 4096 :=
    ⟨.full (by decide) (.more (by decide) (.last (by decide))), by decide, by decide⟩
  have hone : Reads 5 [0x41] 1 := reads_small (by decide) (by decide)
  have hname : ∀ b : UInt8, Reads 5 [0x41] ([b] : Bytes).length := fun _ => hone
  have hfirst : Instruction (Rfc.Table.new.resize 4096) [0x41, 0x61, 0x01, 0x62]
      ((Rfc.Table.new.resize 4096).add ("a".toList, "b".toList)) :=
    .literalName (by decide) (hname 0x61) (.raw (by decide))
      (isString_short (by decide) (by decide) (by decide)) (by decide)
  have hsecond : Instruction ((Rfc.Table.new.resize 4096).add ("a".toList, "b".toList))
      [0x41, 0x63, 0x01, 0x64] (((Rfc.Table.new.resize 4096).add ("a".toList, "b".toList)).add
        ("c".toList, "d".toList)) :=
    .literalName (by decide) (hname 0x63) (.raw (by decide))
      (isString_short (by decide) (by decide) (by decide)) (by decide)
  have hstream : Instructions .new sampleStream
      (((Rfc.Table.new.resize 4096).add ("a".toList, "b".toList)).add
        ("c".toList, "d".toList)) :=
    .cons (.setCapacity (by decide) hcap (by decide)) (.cons hfirst (.cons hsecond (.nil _)))
  have hstatic : IsLine [0xd1] (.indexed (.static 17)) :=
    .indexedStatic (by decide) (reads_small (by decide) (by decide))
  have hbelow : IsLine [0x80] (.indexed (.relative 0)) :=
    .indexedDynamic (by decide) (reads_small (by decide) (by decide))
  have hbehind : IsLine [0x10] (.indexed (.postBase 0)) :=
    .indexedPostBase (by decide) (reads_small (by decide) (by decide))
  have hliteral : IsLine [0x21, 0x65, 0x81, 0x1f] (.literal "e".toList "a".toList) :=
    @IsLine.literal 0x21 [] [0x65] [0x81, 0x1f] _ _ (by decide)
      (reads_small (by decide) (by decide)) (.raw (by decide)) isString_coded
  have hdelta : Reads 7 [0x80] 0 := reads_small (by decide) (by decide)
  have hsection : FieldSection (((Rfc.Table.new.resize 4096).add ("a".toList, "b".toList)).add
      ("c".toList, "d".toList)) sampleSection
      [(":method".toList, "GET".toList), ("a".toList, "b".toList), ("c".toList, "d".toList),
        ("e".toList, "a".toList)] :=
    .intro (reads_small (by decide) (by decide)) hdelta (by decide : 1 < 2 ^ 64) (by decide)
      (.cons hstatic (.cons hbelow (.cons hbehind (.cons hliteral .nil)))) (by decide)
  exact (decoder_reads_sections hstream (by decide) hsection (by decide)).1

end Rsurl.H3
