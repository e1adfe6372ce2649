/-
# `Rsurl.H3.Instruction` — the instructions of the encoder stream

What an instruction is made of and what it does to the table, apart from the
buffer it is read from: `IsInstruction` is what `decode_encoder_instruction`
carries out.  An instruction that is not all there is told from a malformed
one, except where its first integer is cut: that is read by `decode_int`, for
which it is an error.
-/
import Rsurl.Base.Incremental
import Rsurl.H3.Qpack

namespace Rsurl.H3.Qpack

/-! ## Integers -/

theorem intLoop_append {rest : Bytes} {value shift used : Nat}
    (h : intLoop rest value shift used ≠ .ok none) (more : Bytes) :
    intLoop (rest ++ more) value shift used = intLoop rest value shift used := by
  induction rest generalizing value shift used with
  | nil => exact absurd rfl h
  | cons b rest ih =>
      rw [List.cons_append]
      simp only [intLoop] at h ⊢
      split
      · rfl
      · split
        · rfl
        · split
          · rfl
          · rename_i hover hlast hlong
            rw [if_neg hover, if_neg hlast, if_neg hlong] at h
            exact ih h

theorem intLoop_used {rest : Bytes} {value shift used v n : Nat}
    (h : intLoop rest value shift used = .ok (some (v, n))) :
    ∃ m, n = used + m ∧ m ≤ rest.length ∧
      intLoop (rest.take m) value shift used = .ok (some (v, n)) := by
  induction rest generalizing value shift used with
  | nil => cases h
  | cons b rest ih =>
      simp only [intLoop] at h
      split at h
      · cases h
      · rename_i hover
        split at h
        · rename_i hlast
          cases h
          refine ⟨1, rfl, Nat.succ_le_succ (Nat.zero_le _), ?_⟩
          rw [List.take_succ_cons]
          simp only [intLoop]
          rw [if_neg hover, if_pos hlast]
        · rename_i hlast
          split at h
          · cases h
          · rename_i hlong
            obtain ⟨m, hn, hm, htake⟩ := ih h
            refine ⟨m + 1, by omega, Nat.succ_le_succ hm, ?_⟩
            rw [List.take_succ_cons]
            simp only [intLoop]
            rw [if_neg hover, if_neg hlast, if_neg hlong]
            exact htake

theorem decodeIntPartial_append {first : UInt8} {k : Nat} {rest : Bytes}
    (h : decodeIntPartial first k rest ≠ .ok none) (more : Bytes) :
    decodeIntPartial first k (rest ++ more) = decodeIntPartial first k rest := by
  simp only [decodeIntPartial] at h ⊢
  split
  · rfl
  · rename_i hfull
    rw [if_neg hfull] at h
    exact intLoop_append h more

theorem decodeIntPartial_used {first : UInt8} {k : Nat} {rest : Bytes} {v n : Nat}
    (h : decodeIntPartial first k rest = .ok (some (v, n))) :
    n ≤ rest.length ∧ decodeIntPartial first k (rest.take n) = .ok (some (v, n)) := by
  simp only [decodeIntPartial] at h ⊢
  split
  · rename_i hsmall
    rw [if_pos hsmall] at h
    cases h
    exact ⟨Nat.zero_le _, rfl⟩
  · rename_i hfull
    rw [if_neg hfull] at h
    obtain ⟨m, hn, hm, htake⟩ := intLoop_used h
    rw [Nat.zero_add] at hn
    exact ⟨hn ▸ hm, hn ▸ htake⟩

theorem decodeInt_eq_ok {first : UInt8} {k : Nat} {rest : Bytes} {x : Nat × Nat} :
    decodeInt first k rest = .ok x ↔ decodeIntPartial first k rest = .ok (some x) := by
  rw [decodeInt]
  cases decodeIntPartial first k rest with
  | error e => exact ⟨fun h => (nomatch h), fun h => (nomatch h)⟩
  | ok out =>
      cases out with
      | none => exact ⟨fun h => (nomatch h), fun h => (nomatch h)⟩
      | some y =>
          exact ⟨fun h => by cases h; rfl, fun h => by cases h; rfl⟩

theorem decodeInt_append {first : UInt8} {k : Nat} {rest : Bytes}
    (h : decodeIntPartial first k rest ≠ .ok none) (more : Bytes) :
    decodeInt first k (rest ++ more) = decodeInt first k rest := by
  rw [decodeInt, decodeInt, decodeIntPartial_append h]

theorem decodeInt_of_cut {first : UInt8} {k : Nat} {rest : Bytes}
    (h : decodeIntPartial first k rest = .ok none) :
    decodeInt first k rest = .error (bad [.str "qpack int truncated"]) := by
  rw [decodeInt, h]

theorem decodeInt_front {first : UInt8} {k : Nat} {rest : Bytes} {v n : Nat}
    (h : decodeInt first k rest = .ok (v, n)) :
    n ≤ rest.length ∧ ∀ more, decodeInt first k (rest.take n ++ more) = .ok (v, n) := by
  obtain ⟨hle, htake⟩ := decodeIntPartial_used (decodeInt_eq_ok.mp h)
  refine ⟨hle, fun more => decodeInt_eq_ok.mpr ?_⟩
  rw [decodeIntPartial_append (fun hnone => nomatch htake.symm.trans hnone), htake]

/-! ## Strings -/

/-- What `try_decode_literal_string_7bit` says when the length is there. -/
theorem tryDecodeLiteralString7bit_cons {b : UInt8} {rest : Bytes} {slen used : Nat}
    (h : decodeIntPartial b 7 rest = .ok (some (slen, used))) :
    tryDecodeLiteralString7bit (b :: rest) =
      if 2 ^ 64 ≤ 1 + used + slen then
        .error (bad [.str "qpack: oversized literal string length"])
      else if (b :: rest).length < 1 + used + slen then .ok none
      else
        match decodeStringBytes (((b :: rest).drop (1 + used)).take slen) (b &&& 0x80 ≠ 0)
            "literal string" with
        | .error e => .error e
        | .ok s => .ok (some (s, 1 + used + slen)) := by
  unfold tryDecodeLiteralString7bit
  dsimp only
  split
  · next e he =>
      rw [h] at he
      cases he
  · next hnone =>
      rw [h] at hnone
      cases hnone
  · next slen' used' hok =>
      rw [h] at hok
      obtain ⟨rfl, rfl⟩ := Prod.mk.inj (Option.some.inj (Except.ok.inj hok))
      rfl

theorem tryDecodeLiteralString7bit_append {buf : Bytes}
    (h : tryDecodeLiteralString7bit buf ≠ .ok none) (more : Bytes) :
    tryDecodeLiteralString7bit (buf ++ more) = tryDecodeLiteralString7bit buf := by
  cases buf with
  | nil => exact absurd rfl h
  | cons b rest =>
      cases hlen : decodeIntPartial b 7 rest with
      | error e =>
          have hmore := decodeIntPartial_append (fun hnone => nomatch hlen.symm.trans hnone) more
          rw [List.cons_append, tryDecodeLiteralString7bit, tryDecodeLiteralString7bit, hmore, hlen]
      | ok out =>
          cases out with
          | none =>
              rw [tryDecodeLiteralString7bit, hlen] at h
              exact absurd rfl h
          | some x =>
              have hmore := decodeIntPartial_append (fun hnone => nomatch hlen.symm.trans hnone) more
              rw [hlen] at hmore
              rw [tryDecodeLiteralString7bit_cons hlen] at h ⊢
              rw [List.cons_append, tryDecodeLiteralString7bit_cons hmore, ← List.cons_append]
              split
              · rfl
              · rename_i hsize
                rw [if_neg hsize] at h
                have hle : ¬(b :: rest).length < 1 + x.2 + x.1 := fun hlt => h (if_pos hlt)
                have hle' : ¬(b :: rest ++ more).length < 1 + x.2 + x.1 := by
                  rw [List.length_append]
                  omega
                rw [if_neg hle, if_neg hle',
                  List.drop_append_of_le_length (by omega : 1 + x.2 ≤ (b :: rest).length),
                  List.take_append_of_le_length (by rw [List.length_drop]; omega)]

theorem tryDecodeLiteralString7bit_used {buf : Bytes} {s : Text} {n : Nat}
    (h : tryDecodeLiteralString7bit buf = .ok (some (s, n))) :
    1 ≤ n ∧ n ≤ buf.length ∧ tryDecodeLiteralString7bit (buf.take n) = .ok (some (s, n)) := by
  cases buf with
  | nil => cases h
  | cons b rest =>
      cases hlen : decodeIntPartial b 7 rest with
      | error e => rw [tryDecodeLiteralString7bit, hlen] at h; cases h
      | ok out =>
          cases out with
          | none => rw [tryDecodeLiteralString7bit, hlen] at h; cases h
          | some x =>
              obtain ⟨hused, htake⟩ := decodeIntPartial_used hlen
              rw [tryDecodeLiteralString7bit_cons hlen] at h
              split at h
              · cases h
              · rename_i hsize
                split at h
                · cases h
                · rename_i hle
                  have hbytes : (((b :: rest).take (1 + x.2 + x.1)).drop (1 + x.2)).take x.1 =
                      ((b :: rest).drop (1 + x.2)).take x.1 := by
                    rw [List.drop_take, List.take_take]
                    congr 1
                    omega
                  have hn : n = 1 + x.2 + x.1 := by
                    split at h
                    · cases h
                    · cases h
                      rfl
                  subst hn
                  refine ⟨by omega, Nat.not_lt.mp hle, ?_⟩
                  have hcons : (b :: rest).take (1 + x.2 + x.1) = b :: rest.take (x.2 + x.1) := by
                    rw [Nat.add_assoc, Nat.add_comm 1, List.take_succ_cons]
                  have hint : decodeIntPartial b 7 (rest.take (x.2 + x.1)) = .ok (some x) := by
                    rw [List.take_add,
                      decodeIntPartial_append (fun hnone => nomatch htake.symm.trans hnone), htake]
                  have hlen' : ¬((b :: rest).take (1 + x.2 + x.1)).length < 1 + x.2 + x.1 := by
                    rw [List.length_take]
                    omega
                  rw [hcons] at hbytes hlen' ⊢
                  rw [tryDecodeLiteralString7bit_cons hint, if_neg hsize, if_neg hlen', hbytes]
                  exact h

/-! ## Instructions -/

/-- The prefix of the integer an instruction starts with. -/
def leadBits (b : UInt8) : Nat := if b &&& 0x80 ≠ 0 then 6 else 5

/-- An instruction behind its first integer `v`, which took `used` bytes. -/
def instructionTail (table : DynamicTable) (b : UInt8) (buf : Bytes) (v used : Nat) :
    Result (Option (Nat × DynamicTable)) :=
  if b &&& 0x80 ≠ 0 then do
    let name ← insertName table (b &&& 0x40 ≠ 0) v
    insertValue table buf (1 + used) name
  else if b &&& 0x40 ≠ 0 then insertLiteral table buf (1 + used) v (b &&& 0x20 ≠ 0)
  else if b &&& 0x20 ≠ 0 then do
    let table ← table.setCapacity v
    .ok (some (1 + used, table))
  else do
    let abs ← relativeToAbsoluteInsert table.insertCount v
    let entry ← table.getAbsolute abs
    let table ← table.insert entry.1 entry.2
    .ok (some (1 + used, table))

theorem decodeEncoderInstruction_cons (table : DynamicTable) (b : UInt8) (rest : Bytes) :
    decodeEncoderInstruction table (b :: rest) =
      match decodeInt b (leadBits b) rest with
      | .error e => .error e
      | .ok (v, used) => instructionTail table b (b :: rest) v used := by
  simp only [decodeEncoderInstruction, instructionTail, leadBits]
  split
  · cases decodeInt b 6 rest <;> rfl
  · cases decodeInt b 5 rest with
    | error e => split <;> [rfl; split <;> rfl]
    | ok x => split <;> [rfl; split <;> rfl]

theorem insertValue_append {table : DynamicTable} {buf : Bytes} {p : Nat} {name : Text}
    (hp : p ≤ buf.length) (h : insertValue table buf p name ≠ .ok none) (more : Bytes) :
    insertValue table (buf ++ more) p name = insertValue table buf p name := by
  have hval : tryDecodeLiteralString7bit (buf.drop p) ≠ .ok none := fun hnone => by
    rw [insertValue, hnone] at h
    exact h rfl
  rw [insertValue, insertValue, List.drop_append_of_le_length hp,
    tryDecodeLiteralString7bit_append hval]

/-- What an insert has read, and what it leaves. -/
theorem insertValue_eq_some {table table' : DynamicTable} {buf : Bytes} {p n : Nat} {name : Text}
    (h : insertValue table buf p name = .ok (some (n, table'))) :
    ∃ value vlen, tryDecodeLiteralString7bit (buf.drop p) = .ok (some (value, vlen)) ∧
      table.insert name value = .ok table' ∧ n = p + vlen := by
  rw [insertValue] at h
  split at h
  · cases h
  · cases h
  · rename_i value vlen hval
    cases hins : table.insert name value with
    | error e => rw [hins] at h; cases h
    | ok t =>
        rw [hins] at h
        cases h
        exact ⟨value, vlen, hval, hins, rfl⟩

theorem insertLiteral_append {table : DynamicTable} {buf : Bytes} {p nlen : Nat} {huffman : Bool}
    (h : insertLiteral table buf p nlen huffman ≠ .ok none) (more : Bytes) :
    insertLiteral table (buf ++ more) p nlen huffman = insertLiteral table buf p nlen huffman := by
  simp only [insertLiteral] at h ⊢
  split
  · rfl
  · rename_i hsize
    rw [if_neg hsize] at h
    have hle : ¬buf.length < p + nlen := fun hlt => h (if_pos hlt)
    have hle' : ¬(buf ++ more).length < p + nlen := by
      rw [List.length_append]
      omega
    rw [if_neg hle] at h
    rw [if_neg hle, if_neg hle', List.drop_append_of_le_length (by omega),
      List.take_append_of_le_length (by rw [List.length_drop]; omega)]
    cases hname : decodeStringBytes ((buf.drop p).take nlen) huffman "encoder literal name" with
    | error e => rfl
    | ok name =>
        rw [hname] at h
        exact insertValue_append (Nat.not_lt.mp hle) h more

theorem insertLiteral_eq_some {table table' : DynamicTable} {buf : Bytes} {p nlen n : Nat}
    {huffman : Bool} (h : insertLiteral table buf p nlen huffman = .ok (some (n, table'))) :
    p + nlen < 2 ^ 64 ∧ p + nlen ≤ buf.length ∧ ∃ name,
      decodeStringBytes ((buf.drop p).take nlen) huffman "encoder literal name" = .ok name ∧
      insertValue table buf (p + nlen) name = .ok (some (n, table')) := by
  rw [insertLiteral] at h
  split at h
  · cases h
  · rename_i hsize
    split at h
    · cases h
    · rename_i hle
      refine ⟨Nat.not_le.mp hsize, Nat.not_lt.mp hle, ?_⟩
      cases hname : decodeStringBytes ((buf.drop p).take nlen) huffman "encoder literal name" with
      | error e => rw [hname] at h; cases h
      | ok name => rw [hname] at h; exact ⟨name, rfl, h⟩

theorem instructionTail_append {table : DynamicTable} {b : UInt8} {buf : Bytes} {v used : Nat}
    (hused : 1 + used ≤ buf.length) (h : instructionTail table b buf v used ≠ .ok none)
    (more : Bytes) :
    instructionTail table b (buf ++ more) v used = instructionTail table b buf v used := by
  simp only [instructionTail] at h ⊢
  split
  · rename_i hb
    rw [if_pos hb] at h
    cases hname : insertName table (b &&& 0x40 ≠ 0) v with
    | error e => rfl
    | ok name =>
        rw [hname] at h
        exact insertValue_append hused h more
  · rename_i hb
    rw [if_neg hb] at h
    split
    · rename_i hlit
      rw [if_pos hlit] at h
      exact insertLiteral_append h more
    · rfl

/-- The bytes are one instruction, and what it does to the table. -/
inductive IsInstruction (table : DynamicTable) : Bytes → DynamicTable → Prop
  | withName {b : UInt8} {lead valued : Bytes} {v : Nat} {name value : Text}
      {table' : DynamicTable} (hkind : b &&& 0x80 ≠ 0)
      (hint : decodeIntPartial b 6 lead = .ok (some (v, lead.length)))
      (hname : insertName table (b &&& 0x40 ≠ 0) v = .ok name)
      (hvalue : tryDecodeLiteralString7bit valued = .ok (some (value, valued.length)))
      (hinsert : table.insert name value = .ok table') :
      IsInstruction table (b :: (lead ++ valued)) table'
  | withLiteral {b : UInt8} {lead named valued : Bytes} {name value : Text}
      {table' : DynamicTable} (hkind : b &&& 0x80 = 0 ∧ b &&& 0x40 ≠ 0)
      (hint : decodeIntPartial b 5 lead = .ok (some (named.length, lead.length)))
      (hsize : 1 + lead.length + named.length < 2 ^ 64)
      (hname : decodeStringBytes named (b &&& 0x20 ≠ 0) "encoder literal name" = .ok name)
      (hvalue : tryDecodeLiteralString7bit valued = .ok (some (value, valued.length)))
      (hinsert : table.insert name value = .ok table') :
      IsInstruction table (b :: (lead ++ (named ++ valued))) table'
  | setCapacity {b : UInt8} {lead : Bytes} {v : Nat} {table' : DynamicTable}
      (hkind : b &&& 0x80 = 0 ∧ b &&& 0x40 = 0 ∧ b &&& 0x20 ≠ 0)
      (hint : decodeIntPartial b 5 lead = .ok (some (v, lead.length)))
      (hcap : table.setCapacity v = .ok table') : IsInstruction table (b :: lead) table'
  | duplicate {b : UInt8} {lead : Bytes} {v abs : Nat} {entry : Text × Text}
      {table' : DynamicTable} (hkind : b &&& 0x80 = 0 ∧ b &&& 0x40 = 0 ∧ b &&& 0x20 = 0)
      (hint : decodeIntPartial b 5 lead = .ok (some (v, lead.length)))
      (habs : relativeToAbsoluteInsert table.insertCount v = .ok abs)
      (hentry : table.getAbsolute abs = .ok entry)
      (hinsert : table.insert entry.1 entry.2 = .ok table') :
      IsInstruction table (b :: lead) table'

/-- The integer that starts an instruction is read whatever comes behind. -/
theorem decodeEncoderInstruction_of_lead {table : DynamicTable} {b : UInt8} {lead : Bytes}
    {k v : Nat} (hk : leadBits b = k)
    (hint : decodeIntPartial b k lead = .ok (some (v, lead.length))) (more : Bytes) :
    decodeEncoderInstruction table (b :: (lead ++ more)) =
      instructionTail table b (b :: (lead ++ more)) v lead.length := by
  have hread : decodeInt b (leadBits b) (lead ++ more) = .ok (v, lead.length) := by
    rw [hk]
    refine decodeInt_eq_ok.mpr ?_
    rw [decodeIntPartial_append (fun hnone => nomatch hint.symm.trans hnone), hint]
  rw [decodeEncoderInstruction_cons, hread]

/-- The value of an insert is read whatever comes behind. -/
theorem insertValue_of_value {table table' : DynamicTable} {front valued : Bytes}
    {name value : Text}
    (hvalue : tryDecodeLiteralString7bit valued = .ok (some (value, valued.length)))
    (hinsert : table.insert name value = .ok table') (more : Bytes) :
    insertValue table (front ++ (valued ++ more)) front.length name =
      .ok (some (front.length + valued.length, table')) := by
  rw [insertValue, List.drop_left,
    tryDecodeLiteralString7bit_append (fun hnone => nomatch hvalue.symm.trans hnone), hvalue]
  simp only [hinsert]
  rfl

/-- So is its name. -/
theorem insertLiteral_of_name {table : DynamicTable} {front named : Bytes} {huffman : Bool}
    {name : Text} (hsize : front.length + named.length < 2 ^ 64)
    (hname : decodeStringBytes named huffman "encoder literal name" = .ok name) (rest : Bytes) :
    insertLiteral table (front ++ (named ++ rest)) front.length named.length huffman =
      insertValue table (front ++ named ++ rest) (front ++ named).length name := by
  have hle : ¬(front ++ (named ++ rest)).length < front.length + named.length := by
    simp only [List.length_append]
    omega
  rw [insertLiteral, if_neg (Nat.not_le.mpr hsize), if_neg hle, List.drop_left, List.take_left,
    hname, List.append_assoc, List.length_append]
  rfl

/-- An instruction is carried out, whatever comes behind. -/
theorem IsInstruction.decode {table table' : DynamicTable} {bytes : Bytes}
    (h : IsInstruction table bytes table') (more : Bytes) :
    decodeEncoderInstruction table (bytes ++ more) = .ok (some (bytes.length, table')) := by
  cases h with
  | @withName b lead valued v name value _ hkind hint hname hvalue hinsert =>
      have hlen : 1 + lead.length = (b :: lead).length := by
        rw [List.length_cons, Nat.add_comm]
      have hvalued : insertValue table ((b :: lead) ++ (valued ++ more)) (b :: lead).length name =
          .ok (some ((b :: lead).length + valued.length, table')) :=
        insertValue_of_value hvalue hinsert more
      rw [List.cons_append, List.append_assoc,
        decodeEncoderInstruction_of_lead (if_pos hkind) hint, instructionTail, if_pos hkind, hname,
        hlen]
      refine hvalued.trans ?_
      simp only [List.length_cons, List.length_append]
      congr 3
      omega
  | @withLiteral b lead named valued name value _ hkind hint hsize hname hvalue hinsert =>
      have hlen : 1 + lead.length = (b :: lead).length := by
        rw [List.length_cons, Nat.add_comm]
      have hfront : b :: (lead ++ (named ++ (valued ++ more))) =
          (b :: lead) ++ (named ++ (valued ++ more)) := rfl
      rw [List.cons_append, List.append_assoc, List.append_assoc,
        decodeEncoderInstruction_of_lead (if_neg (not_not_intro hkind.1)) hint, instructionTail,
        if_neg (not_not_intro hkind.1), if_pos hkind.2, hfront, hlen,
        insertLiteral_of_name (hlen ▸ hsize) hname, insertValue_of_value hvalue hinsert]
      simp only [List.length_cons, List.length_append]
      congr 3
      omega
  | @setCapacity b lead v _ hkind hint hcap =>
      rw [List.cons_append, decodeEncoderInstruction_of_lead (if_neg (not_not_intro hkind.1)) hint,
        instructionTail, if_neg (not_not_intro hkind.1), if_neg (not_not_intro hkind.2.1),
        if_pos hkind.2.2, hcap, List.length_cons, Nat.add_comm]
      rfl
  | @duplicate b lead v abs entry _ hkind hint habs hentry hinsert =>
      rw [List.cons_append, decodeEncoderInstruction_of_lead (if_neg (not_not_intro hkind.1)) hint,
        instructionTail, if_neg (not_not_intro hkind.1), if_neg (not_not_intro hkind.2.1),
        if_neg (not_not_intro hkind.2.2), habs, List.length_cons, Nat.add_comm]
      simp only [bind, Except.bind, hentry, hinsert]

/-- The bytes behind the first, cut where the integer ends. -/
theorem exists_lead {b : UInt8} {k : Nat} {rest : Bytes} {v used : Nat}
    (h : decodeInt b k rest = .ok (v, used)) :
    ∃ lead tail, rest = lead ++ tail ∧ lead.length = used ∧
      decodeIntPartial b k lead = .ok (some (v, lead.length)) := by
  obtain ⟨hle, hread⟩ := decodeIntPartial_used (decodeInt_eq_ok.mp h)
  have hlen : (rest.take used).length = used := by
    rw [List.length_take]
    exact Nat.min_eq_left hle
  refine ⟨rest.take used, rest.drop used, (List.take_append_drop _ _).symm, hlen, ?_⟩
  rw [hlen]
  exact hread

/-- The value that an insert has read from behind `front`. -/
theorem exists_valued {table table' : DynamicTable} {front rest : Bytes} {n : Nat} {name : Text}
    (h : insertValue table (front ++ rest) front.length name = .ok (some (n, table'))) :
    ∃ valued more value, rest = valued ++ more ∧ n = front.length + valued.length ∧
      tryDecodeLiteralString7bit valued = .ok (some (value, valued.length)) ∧
      table.insert name value = .ok table' := by
  obtain ⟨value, vlen, hval, hinsert, rfl⟩ := insertValue_eq_some h
  rw [List.drop_left] at hval
  obtain ⟨-, hle, htake⟩ := tryDecodeLiteralString7bit_used hval
  have hlen : (rest.take vlen).length = vlen := by
    rw [List.length_take]
    exact Nat.min_eq_left hle
  refine ⟨rest.take vlen, rest.drop vlen, value, (List.take_append_drop _ _).symm, ?_, ?_, hinsert⟩
  · rw [hlen]
  · rw [hlen]
    exact htake

/-- The name and the value that an insert has read from behind `front`. -/
theorem exists_named {table table' : DynamicTable} {front rest : Bytes} {nlen n : Nat}
    {huffman : Bool}
    (h : insertLiteral table (front ++ rest) front.length nlen huffman = .ok (some (n, table'))) :
    ∃ named valued more name value, rest = named ++ (valued ++ more) ∧
      nlen = named.length ∧ n = front.length + (named.length + valued.length) ∧
      front.length + named.length < 2 ^ 64 ∧
      decodeStringBytes named huffman "encoder literal name" = .ok name ∧
      tryDecodeLiteralString7bit valued = .ok (some (value, valued.length)) ∧
      table.insert name value = .ok table' := by
  obtain ⟨hsize, hle, name, hname, hval⟩ := insertLiteral_eq_some h
  rw [List.drop_left] at hname
  rw [List.length_append] at hle
  have hlen : (rest.take nlen).length = nlen := by
    rw [List.length_take]
    omega
  have hcut : front ++ rest = (front ++ rest.take nlen) ++ rest.drop nlen := by
    rw [List.append_assoc, List.take_append_drop]
  have hat : front.length + nlen = (front ++ rest.take nlen).length := by
    rw [List.length_append, hlen]
  rw [hcut, hat] at hval
  obtain ⟨valued, more, value, hrest, hn, hvalue, hinsert⟩ := exists_valued hval
  refine ⟨rest.take nlen, valued, more, name, value, ?_, hlen.symm, ?_, ?_, hname, hvalue, hinsert⟩
  · rw [← hrest, List.take_append_drop]
  · rw [hn, List.length_append, Nat.add_assoc]
  · rw [hlen]
    exact hsize

/-- What is carried out is an instruction. -/
theorem exists_isInstruction {table table' : DynamicTable} {buf : Bytes} {n : Nat}
    (h : decodeEncoderInstruction table buf = .ok (some (n, table'))) :
    ∃ bytes more, buf = bytes ++ more ∧ n = bytes.length ∧ IsInstruction table bytes table' := by
  cases buf with
  | nil => cases h
  | cons b rest =>
      rw [decodeEncoderInstruction_cons] at h
      cases hread : decodeInt b (leadBits b) rest with
      | error e => rw [hread] at h; cases h
      | ok x =>
          rw [hread] at h
          obtain ⟨lead, tail, rfl, hlen, hint⟩ := exists_lead hread
          have hfront : 1 + lead.length = (b :: lead).length := by
            rw [List.length_cons, Nat.add_comm]
          simp only [instructionTail, ← hlen] at h
          by_cases hkind : b &&& 0x80 ≠ 0
          · rw [if_pos hkind] at h
            rw [leadBits, if_pos hkind] at hint
            obtain ⟨name, hname, hval⟩ := Result.bind_eq_ok.mp h
            rw [hfront, ← List.cons_append] at hval
            obtain ⟨valued, more, value, rfl, rfl, hvalue, hinsert⟩ := exists_valued hval
            refine ⟨b :: (lead ++ valued), more, ?_, ?_,
              .withName hkind hint hname hvalue hinsert⟩
            · rw [List.cons_append, List.append_assoc]
            · simp only [List.length_cons, List.length_append]
              omega
          · rw [if_neg hkind] at h
            rw [leadBits, if_neg hkind] at hint
            have h₁ := not_not.mp hkind
            by_cases hkind₂ : b &&& 0x40 ≠ 0
            · rw [if_pos hkind₂, hfront, ← List.cons_append] at h
              obtain ⟨named, valued, more, name, value, rfl, hnlen, rfl, hsize, hname, hvalue,
                hinsert⟩ := exists_named h
              rw [hnlen] at hint
              refine ⟨b :: (lead ++ (named ++ valued)), more, ?_, ?_,
                .withLiteral ⟨h₁, hkind₂⟩ hint (hfront ▸ hsize) hname hvalue hinsert⟩
              · simp only [List.cons_append, List.append_assoc]
              · simp only [List.length_cons, List.length_append]
                omega
            · rw [if_neg hkind₂] at h
              have h₂ := not_not.mp hkind₂
              by_cases hkind₃ : b &&& 0x20 ≠ 0
              · rw [if_pos hkind₃] at h
                obtain ⟨t, hcap, ht⟩ := Result.bind_eq_ok.mp h
                cases ht
                exact ⟨b :: lead, tail, rfl, hfront, .setCapacity ⟨h₁, h₂, hkind₃⟩ hint hcap⟩
              · rw [if_neg hkind₃] at h
                obtain ⟨abs, habs, h⟩ := Result.bind_eq_ok.mp h
                obtain ⟨entry, hentry, h⟩ := Result.bind_eq_ok.mp h
                obtain ⟨t, hinsert, ht⟩ := Result.bind_eq_ok.mp h
                cases ht
                exact ⟨b :: lead, tail, rfl, hfront,
                  .duplicate ⟨h₁, h₂, not_not.mp hkind₃⟩ hint habs hentry hinsert⟩

theorem IsInstruction.ne_nil {table table' : DynamicTable} {bytes : Bytes}
    (h : IsInstruction table bytes table') : bytes ≠ [] := by
  cases h <;> exact List.cons_ne_nil _ _

/-! ## The stream as a reader -/

/-- The integer that the next instruction starts with is not all there. -/
inductive CutInteger : Bytes → Prop
  | intro {b : UInt8} {rest : Bytes} (h : decodeIntPartial b (leadBits b) rest = .ok none) :
      CutInteger (b :: rest)

/-- The decoder of the encoder stream. -/
def encoderReader : Base.Reader UInt8 DynamicTable Error where
  step := decodeEncoderInstruction
  idle _ := rfl
  takes h := by
    obtain ⟨bytes, more, rfl, rfl, hinstr⟩ := exists_isInstruction h
    exact ⟨List.length_pos_of_ne_nil hinstr.ne_nil, by
      rw [List.length_append]
      exact Nat.le_add_right _ _⟩
  front h more := by
    obtain ⟨bytes, more', rfl, rfl, hinstr⟩ := exists_isInstruction h
    rw [List.take_left]
    exact hinstr.decode more

/-- An error behind the first integer stays one. -/
theorem encoderReader_firm (table : DynamicTable) {buf : Bytes} (h : ¬CutInteger buf) :
    encoderReader.Firm table buf := by
  intro e herr more
  change decodeEncoderInstruction table buf = .error e at herr
  show decodeEncoderInstruction table (buf ++ more) = .error e
  cases buf with
  | nil => cases herr
  | cons b rest =>
      have hint : decodeIntPartial b (leadBits b) rest ≠ .ok none := fun hnone => h (.intro hnone)
      rw [decodeEncoderInstruction_cons] at herr
      rw [List.cons_append, decodeEncoderInstruction_cons, decodeInt_append hint]
      cases hread : decodeInt b (leadBits b) rest with
      | error e' =>
          rw [hread] at herr
          exact herr
      | ok x =>
          have hused : 1 + x.2 ≤ (b :: rest).length := by
            rw [List.length_cons, Nat.add_comm]
            exact Nat.succ_le_succ (decodeInt_front hread).1
          rw [hread] at herr
          dsimp only at herr ⊢
          rw [← List.cons_append,
            instructionTail_append hused (fun hnone => nomatch herr.symm.trans hnone), herr]

/-- A cut integer is an error. -/
theorem decodeEncoderInstruction_of_cut (table : DynamicTable) {buf : Bytes} (h : CutInteger buf) :
    decodeEncoderInstruction table buf = .error (bad [.str "qpack int truncated"]) := by
  cases h with
  | intro hcut => rw [decodeEncoderInstruction_cons, decodeInt_of_cut hcut]

end Rsurl.H3.Qpack
