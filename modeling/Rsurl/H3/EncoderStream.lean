/-
# `Rsurl.H3.EncoderStream` — the encoder stream in reads

A stream is read in passes of `drain_uni_streams`, each of which may take
several reads; what a pass has read is processed at its end.  Reading in passes
should come to the same as reading all at once.  It does for every stream of
which no pass ends inside the integer that an instruction starts with, and for
no other: there the pass reports an error.
-/
import Rsurl.H3.Instruction
import Rsurl.H3.Response

namespace Rsurl.H3

open Qpack (DynamicTable IsInstruction CutInteger encoderReader decodeIntPartial insertName
  decodeStringBytes tryDecodeLiteralString7bit decodeEncoderInstruction bad)

/-! ## What a pass may be cut at -/

/-- The bytes are whole instructions, and what they do to the table. -/
inductive Applies : DynamicTable → Bytes → DynamicTable → Prop
  | nil (table : DynamicTable) : Applies table [] table
  | cons {table table' table'' : DynamicTable} {bytes rest : Bytes}
      (hfirst : IsInstruction table bytes table') (hrest : Applies table' rest table'') :
      Applies table (bytes ++ rest) table''

theorem takes_iff_applies {table table' : DynamicTable} {bytes : Bytes} :
    encoderReader.Takes table bytes table' ↔ Applies table bytes table' := by
  constructor
  · intro h
    induction h with
    | nil table => exact .nil table
    | @cons table table₁ table₂ taken rest hstep hrest ih =>
        obtain ⟨bytes, more, heq, hlen, hinstr⟩ := Qpack.exists_isInstruction hstep
        have hmore : more = [] := by
          have hsum := congrArg List.length heq
          rw [List.length_append] at hsum
          exact List.length_eq_zero_iff.mp (by omega)
        rw [hmore, List.append_nil] at heq
        rw [heq]
        exact .cons hinstr ih
  · intro h
    induction h with
    | nil table => exact .nil table
    | cons hfirst hrest ih =>
        refine .cons ?_ ih
        have hdecode := hfirst.decode []
        rwa [List.append_nil] at hdecode

/-- A string of an instruction that is not all there. -/
inductive CutString : Bytes → Prop
  | nil : CutString []
  | length {b : UInt8} {rest : Bytes} (h : decodeIntPartial b 7 rest = .ok none) :
      CutString (b :: rest)
  | content {b : UInt8} {rest : Bytes} {slen used : Nat}
      (h : decodeIntPartial b 7 rest = .ok (some (slen, used)))
      (hsize : 1 + used + slen < 2 ^ 64) (hshort : (b :: rest).length < 1 + used + slen) :
      CutString (b :: rest)

theorem CutString.decode {buf : Bytes} (h : CutString buf) :
    tryDecodeLiteralString7bit buf = .ok none := by
  cases h with
  | nil => rfl
  | length h => rw [tryDecodeLiteralString7bit, h]
  | content h hsize hshort =>
      rw [Qpack.tryDecodeLiteralString7bit_cons h, if_neg (Nat.not_le.mpr hsize), if_pos hshort]

/-- An instruction that is not all there: it is cut inside its first integer, inside the name or
inside the value. -/
inductive Cut (table : DynamicTable) : Bytes → Prop
  | integer {buf : Bytes} (h : CutInteger buf) : Cut table buf
  | value {b : UInt8} {lead cut : Bytes} {v : Nat} {name : Text} (hkind : b &&& 0x80 ≠ 0)
      (hint : decodeIntPartial b 6 lead = .ok (some (v, lead.length)))
      (hname : insertName table (b &&& 0x40 ≠ 0) v = .ok name) (hcut : CutString cut) :
      Cut table (b :: (lead ++ cut))
  | name {b : UInt8} {lead cut : Bytes} {nlen : Nat} (hkind : b &&& 0x80 = 0 ∧ b &&& 0x40 ≠ 0)
      (hint : decodeIntPartial b 5 lead = .ok (some (nlen, lead.length)))
      (hsize : 1 + lead.length + nlen < 2 ^ 64) (hcut : cut.length < nlen) :
      Cut table (b :: (lead ++ cut))
  | literalValue {b : UInt8} {lead named cut : Bytes} {name : Text}
      (hkind : b &&& 0x80 = 0 ∧ b &&& 0x40 ≠ 0)
      (hint : decodeIntPartial b 5 lead = .ok (some (named.length, lead.length)))
      (hsize : 1 + lead.length + named.length < 2 ^ 64)
      (hname : decodeStringBytes named (b &&& 0x20 ≠ 0) "encoder literal name" = .ok name)
      (hcut : CutString cut) : Cut table (b :: (lead ++ (named ++ cut)))

/-- A cut behind the first integer is waited for. -/
theorem Cut.decode {table : DynamicTable} {buf : Bytes} (h : Cut table buf)
    (hint : ¬CutInteger buf) : decodeEncoderInstruction table buf = .ok none := by
  cases h with
  | integer h => exact absurd h hint
  | @value b lead cut v name hkind hlead hname hcut =>
      have hlen : 1 + lead.length = (b :: lead).length := by
        rw [List.length_cons, Nat.add_comm]
      have hval : Qpack.insertValue table ((b :: lead) ++ cut) (b :: lead).length name =
          .ok none := by
        rw [Qpack.insertValue, List.drop_left, hcut.decode]
      rw [Qpack.decodeEncoderInstruction_of_lead (if_pos hkind) hlead, Qpack.instructionTail,
        if_pos hkind, hname, hlen]
      exact hval
  | @name b lead cut nlen hkind hlead hsize hcut =>
      have hshort : (b :: (lead ++ cut)).length < 1 + lead.length + nlen := by
        rw [List.length_cons, List.length_append]
        omega
      rw [Qpack.decodeEncoderInstruction_of_lead (if_neg (not_not_intro hkind.1)) hlead,
        Qpack.instructionTail, if_neg (not_not_intro hkind.1), if_pos hkind.2,
        Qpack.insertLiteral, if_neg (Nat.not_le.mpr hsize), if_pos hshort]
  | @literalValue b lead named cut name hkind hlead hsize hname hcut =>
      have hlen : 1 + lead.length = (b :: lead).length := by
        rw [List.length_cons, Nat.add_comm]
      have hfront : b :: (lead ++ (named ++ cut)) = (b :: lead) ++ (named ++ cut) := rfl
      rw [Qpack.decodeEncoderInstruction_of_lead (if_neg (not_not_intro hkind.1)) hlead,
        Qpack.instructionTail, if_neg (not_not_intro hkind.1), if_pos hkind.2, hfront, hlen,
        Qpack.insertLiteral_of_name (hlen ▸ hsize) hname, Qpack.insertValue, List.drop_left,
        hcut.decode]

/-! ### Where a stream can be cut -/

/-- What an integer is missing, it waits for. -/
theorem decodeIntPartial_of_cut {b : UInt8} {k v : Nat} {cut more : Bytes}
    (h : decodeIntPartial b k (cut ++ more) = .ok (some (v, (cut ++ more).length)))
    (hmore : more ≠ []) : decodeIntPartial b k cut = .ok none := by
  by_contra hread
  rw [Qpack.decodeIntPartial_append hread] at h
  have hle := (Qpack.decodeIntPartial_used h).1
  have hpos := List.length_pos_of_ne_nil hmore
  rw [List.length_append] at hle
  omega

theorem cutString_of_none {buf : Bytes} (h : tryDecodeLiteralString7bit buf = .ok none) :
    CutString buf := by
  cases buf with
  | nil => exact .nil
  | cons b rest =>
      cases hlen : decodeIntPartial b 7 rest with
      | error e =>
          rw [tryDecodeLiteralString7bit, hlen] at h
          cases h
      | ok out =>
          cases out with
          | none => exact .length hlen
          | some x =>
              rw [Qpack.tryDecodeLiteralString7bit_cons hlen] at h
              split at h
              · cases h
              next hsize =>
              split at h
              · next hshort => exact .content hlen (Nat.lt_of_not_le hsize) hshort
              split at h <;> cases h

theorem cutString_of_append {cut more : Bytes} {t : Text}
    (h : tryDecodeLiteralString7bit (cut ++ more) = .ok (some (t, (cut ++ more).length)))
    (hmore : more ≠ []) : CutString cut := by
  refine cutString_of_none ?_
  by_contra hread
  rw [Qpack.tryDecodeLiteralString7bit_append hread] at h
  obtain ⟨-, hle, -⟩ := Qpack.tryDecodeLiteralString7bit_used h
  have hpos := List.length_pos_of_ne_nil hmore
  rw [List.length_append] at hle
  omega

/-- Two ways to split bytes: the first cut lies in the first part, or in the second. -/
theorem split_cases {xs ys cut more : Bytes} (h : xs ++ ys = cut ++ more) :
    (∃ back, back ≠ [] ∧ xs = cut ++ back) ∨ ∃ front, cut = xs ++ front ∧ ys = front ++ more := by
  rcases List.append_eq_append_iff.mp h with ⟨front, hcut, hys⟩ | ⟨back, hxs, hback⟩
  · exact .inr ⟨front, hcut, hys⟩
  · by_cases hnil : back = []
    · subst hnil
      rw [List.append_nil] at hxs
      exact .inr ⟨[], by rw [hxs, List.append_nil], hback.symm⟩
    · exact .inl ⟨back, hnil, hxs⟩

/-- Wherever an instruction is cut, what is there of it is one that is not all there. -/
theorem cut_of_append {table table' : DynamicTable} {cut more : Bytes}
    (h : IsInstruction table (cut ++ more) table') (hcut : cut ≠ []) (hmore : more ≠ []) :
    Cut table cut := by
  obtain ⟨b, cut, rfl⟩ := List.exists_cons_of_ne_nil hcut
  generalize hbytes : b :: cut ++ more = bytes at h
  -- the first integer is not all there
  have hinteger : ∀ {k v : Nat} {lead back : Bytes}, Qpack.leadBits b = k → back ≠ [] →
      lead = cut ++ back → decodeIntPartial b k lead = .ok (some (v, lead.length)) →
      Cut table (b :: cut) := by
    rintro k v lead back rfl hback rfl hint
    exact .integer (.intro (decodeIntPartial_of_cut hint hback))
  cases h with
  | withName hkind hint hname hvalue =>
      obtain ⟨rfl, heq⟩ := List.cons.inj hbytes
      rcases split_cases heq.symm with ⟨back, hback, hlead⟩ | ⟨front, rfl, rfl⟩
      · exact hinteger (if_pos hkind) hback hlead hint
      · exact .value hkind hint hname (cutString_of_append hvalue hmore)
  | withLiteral hkind hint hsize hname hvalue =>
      obtain ⟨rfl, heq⟩ := List.cons.inj hbytes
      rcases split_cases heq.symm with ⟨back, hback, hlead⟩ | ⟨front, rfl, hrest⟩
      · exact hinteger (if_neg (not_not_intro hkind.1)) hback hlead hint
      rcases split_cases hrest with ⟨back, hback, rfl⟩ | ⟨front, rfl, rfl⟩
      · refine .name hkind hint hsize ?_
        have hpos := List.length_pos_of_ne_nil hback
        rw [List.length_append]
        omega
      · exact .literalValue hkind hint hsize hname (cutString_of_append hvalue hmore)
  | setCapacity hkind hint =>
      obtain ⟨rfl, heq⟩ := List.cons.inj hbytes
      exact hinteger (if_neg (not_not_intro hkind.1)) hmore heq.symm hint
  | duplicate hkind hint =>
      obtain ⟨rfl, heq⟩ := List.cons.inj hbytes
      exact hinteger (if_neg (not_not_intro hkind.1)) hmore heq.symm hint

/-- Wherever a stream of instructions is cut, what is there are whole ones and what is there of
the next one. -/
theorem Applies.split {table table' : DynamicTable} {bytes : Bytes} (h : Applies table bytes table')
    {front back : Bytes} (hsplit : bytes = front ++ back) :
    ∃ taken rest table₁, front = taken ++ rest ∧ Applies table taken table₁ ∧
      (rest = [] ∨ Cut table₁ rest) := by
  induction h generalizing front with
  | nil table =>
      obtain ⟨rfl, -⟩ := List.append_eq_nil_iff.mp hsplit.symm
      exact ⟨[], [], table, rfl, .nil table, .inl rfl⟩
  | @cons table table₁ table₂ bytes rest hfirst hrest ih =>
      rcases List.append_eq_append_iff.mp hsplit with ⟨more, rfl, hmore⟩ | ⟨more, rfl, hback⟩
      · obtain ⟨taken, cut, table₃, rfl, happ, hcut⟩ := ih hmore
        exact ⟨bytes ++ taken, cut, table₃, (List.append_assoc _ _ _).symm, .cons hfirst happ, hcut⟩
      · by_cases hnone : more = []
        · subst hnone
          rw [List.append_nil] at hfirst
          have happ := Applies.cons hfirst (.nil table₁)
          rw [List.append_nil] at happ
          exact ⟨front, [], table₁, (List.append_nil _).symm, happ, .inl rfl⟩
        by_cases hempty : front = []
        · exact ⟨[], [], table, hempty, .nil table, .inl rfl⟩
        · exact ⟨[], front, table, rfl, .nil table, .inr (cut_of_append hfirst hempty hnone)⟩

/-! ## The passes -/

/-- The inner loop of `apply_encoder_instructions` is a run of the reader. -/
theorem applyLoop_eq (fuel : Nat) (table : DynamicTable) (buf : Bytes) (p : Nat) :
    encoderReader.loop fuel table (buf.drop p) =
      ((Qpack.applyLoop fuel table buf p).1.map (buf.drop ·),
        (Qpack.applyLoop fuel table buf p).2) := by
  induction fuel generalizing table p with
  | zero => rfl
  | succ fuel ih =>
      have hstep : encoderReader.step = decodeEncoderInstruction := rfl
      rw [Base.Reader.loop, Qpack.applyLoop, hstep]
      cases decodeEncoderInstruction table (buf.drop p) with
      | error e => rfl
      | ok out =>
          cases out with
          | none => rfl
          | some x =>
              dsimp only
              rw [List.drop_drop, ih]

/-- Whole instructions are used up. -/
theorem applyLoop_of_applies {table table' : DynamicTable} {bytes : Bytes}
    (h : Applies table bytes table') (front : Bytes) {fuel : Nat} (hfuel : bytes.length ≤ fuel) :
    Qpack.applyLoop fuel table (front ++ bytes) front.length =
      (.ok (front.length + bytes.length), table') := by
  induction h generalizing front fuel with
  | nil table =>
      cases fuel with
      | zero => rfl
      | succ fuel =>
          rw [Qpack.applyLoop, List.drop_left]
          rfl
  | @cons table table₁ table₂ bytes rest hfirst hrest ih =>
      have hpos := List.length_pos_of_ne_nil hfirst.ne_nil
      rw [List.length_append] at hfuel
      obtain ⟨fuel, rfl⟩ := Nat.exists_eq_add_of_le' (show 1 ≤ fuel by omega)
      have hnext := ih (front ++ bytes) (show rest.length ≤ fuel by omega)
      rw [List.append_assoc, List.length_append, Nat.add_assoc] at hnext
      rw [Qpack.applyLoop, List.drop_left, hfirst.decode rest, List.length_append]
      exact hnext

theorem applyEncoderInstructions_of_applies {table table' : DynamicTable} {bytes : Bytes}
    (h : Applies table bytes table') :
    Qpack.applyEncoderInstructions table bytes = (.ok bytes.length, table') := by
  have hall := applyLoop_of_applies h [] (Nat.le_refl bytes.length)
  rwa [List.nil_append, List.length_nil, Nat.zero_add] at hall

theorem run_eq_apply (table : DynamicTable) (buf : Bytes) :
    encoderReader.run table buf =
      ((Qpack.applyEncoderInstructions table buf).1.map (buf.drop ·),
        (Qpack.applyEncoderInstructions table buf).2) :=
  applyLoop_eq buf.length table buf 0

/-- Processing a stream that is known to be the encoder's. -/
theorem process_encoder (table : DynamicTable) (buf : Bytes) :
    UniStreamState.process ⟨buf, some typeQpackEncoder⟩ table =
      match encoderReader.run table buf with
      | (.error e, table) => (.error e, table)
      | (.ok rest, table) => (.ok ⟨rest, some typeQpackEncoder⟩, table) := by
  rw [run_eq_apply]
  cases happly : Qpack.applyEncoderInstructions table buf with
  | mk res table' =>
      simp only [UniStreamState.process, UniStreamState.classify, happly, if_true]
      cases res <;> rfl

/-- The reads of a pass that fit the buffer come to one. -/
theorem foldlM_append {reads : List Bytes} {entry : UniStreamState}
    (h : entry.buf.length + reads.flatten.length ≤ maxUniBuffer) :
    reads.foldlM UniStreamState.append entry =
      .ok { entry with buf := entry.buf ++ reads.flatten } := by
  induction reads generalizing entry with
  | nil =>
      rw [List.flatten_nil, List.append_nil]
      rfl
  | cons piece reads ih =>
      rw [List.flatten_cons, List.length_append] at h
      have hfits : ¬maxUniBuffer < entry.buf.length + piece.length := by omega
      have hpiece : entry.append piece = .ok { entry with buf := entry.buf ++ piece } := by
        rw [UniStreamState.append, if_neg hfits]
      have hrest := @ih { entry with buf := entry.buf ++ piece } (by
        rw [List.length_append]
        omega)
      rw [List.foldlM_cons, hpiece, List.flatten_cons, ← List.append_assoc]
      exact hrest

/-- A pass over a stream known to be the encoder's, as a run of the reader. -/
theorem drainUniStream_encoder {st : Http3State} {sid : Nat} {buf : Bytes} {reads : List Bytes}
    (hentry : st.uniEntry sid = ⟨buf, some typeQpackEncoder⟩)
    (hfits : buf.length + reads.flatten.length ≤ maxUniBuffer) :
    st.drainUniStream sid reads =
      match encoderReader.run st.dynTable (buf ++ reads.flatten) with
      | (.error e, table) => (.error e, { st with dynTable := table })
      | (.ok rest, table) =>
          (.ok (), { st with dynTable := table }.setUni sid ⟨rest, some typeQpackEncoder⟩) := by
  have hreads : reads.foldlM UniStreamState.append (st.uniEntry sid) =
      .ok ⟨buf ++ reads.flatten, some typeQpackEncoder⟩ := by
    rw [hentry]
    exact foldlM_append hfits
  rw [Http3State.drainUniStream, hreads]
  simp only [process_encoder]
  cases encoderReader.run st.dynTable (buf ++ reads.flatten) with
  | mk res table => cases res <;> rfl

theorem uniEntry_setUni (st : Http3State) (sid : Nat) (entry : UniStreamState) :
    (st.setUni sid entry).uniEntry sid = entry := by
  rw [Http3State.uniEntry, Http3State.setUni, AList.lookup_insert, Option.getD_some]

/-- The passes over one stream. -/
def Http3State.drains (st : Http3State) (sid : Nat) (passes : List (List Bytes)) :
    Result Unit × Http3State :=
  Http3State.drainUniStreams (passes.map (sid, ·)) st

theorem drains_cons (st : Http3State) (sid : Nat) (pass : List Bytes)
    (passes : List (List Bytes)) :
    st.drains sid (pass :: passes) =
      match st.drainUniStream sid pass with
      | (.error e, st) => (.error e, st)
      | (.ok (), st) => st.drains sid passes := rfl

/-- The passes came to what the reader came to. -/
inductive Ends (sid : Nat) : Except Error Bytes × DynamicTable → Result Unit × Http3State → Prop
  | error {e : Error} {table : DynamicTable} {st : Http3State} (htable : st.dynTable = table) :
      Ends sid (.error e, table) (.error e, st)
  | ok {rest : Bytes} {table : DynamicTable} {st : Http3State} (htable : st.dynTable = table)
      (hentry : st.uniEntry sid = ⟨rest, some typeQpackEncoder⟩) :
      Ends sid (.ok rest, table) (.ok (), st)

theorem Ends.same {sid : Nat} {r : Except Error Bytes × DynamicTable}
    {x y : Result Unit × Http3State} (hx : Ends sid r x) (hy : Ends sid r y) :
    x.1 = y.1 ∧ x.2.dynTable = y.2.dynTable := by
  cases hx with
  | error htable =>
      cases hy with
      | error htable' => exact ⟨rfl, htable.trans htable'.symm⟩
  | ok htable hentry =>
      cases hy with
      | ok htable' hentry' => exact ⟨rfl, htable.trans htable'.symm⟩

theorem Ends.of_ok {sid : Nat} {rest : Bytes} {table : DynamicTable}
    {x : Result Unit × Http3State} (h : Ends sid (.ok rest, table) x) :
    x.1 = .ok () ∧ x.2.dynTable = table ∧
      x.2.uniEntry sid = ⟨rest, some typeQpackEncoder⟩ := by
  cases h with
  | ok htable hentry => exact ⟨rfl, htable, hentry⟩

theorem Ends.to_ok {sid : Nat} {r : Except Error Bytes × DynamicTable} {rest : Bytes}
    {x : Result Unit × Http3State} (h : Ends sid r x) (hok : x.1 = .ok ())
    (hentry : x.2.uniEntry sid = ⟨rest, some typeQpackEncoder⟩) :
    r = (.ok rest, x.2.dynTable) := by
  cases h with
  | error htable => cases hok
  | ok htable hentry' =>
      have hrest := congrArg UniStreamState.buf (hentry'.symm.trans hentry)
      dsimp only at hrest ⊢
      rw [hrest, htable]

/-- Passes over the stream feed the reader. -/
theorem drains_feed {st : Http3State} {sid : Nat} {buf : Bytes} {passes : List (List Bytes)}
    (hentry : st.uniEntry sid = ⟨buf, some typeQpackEncoder⟩)
    (hfits : buf.length + passes.flatten.flatten.length ≤ maxUniBuffer) :
    Ends sid (encoderReader.feed (passes.map List.flatten) st.dynTable buf)
      (st.drains sid passes) := by
  induction passes generalizing st buf with
  | nil => exact .ok rfl hentry
  | cons pass passes ih =>
      rw [List.flatten_cons, List.flatten_append, List.length_append] at hfits
      rw [List.map_cons, Base.Reader.feed, drains_cons,
        drainUniStream_encoder hentry (by omega)]
      obtain ⟨taken, rest, table, heq, -, ⟨-, hrun⟩ | ⟨e, -, hrun⟩⟩ :=
        encoderReader.run_cases st.dynTable (buf ++ pass.flatten)
      · have hlen := congrArg List.length heq
        rw [List.length_append, List.length_append] at hlen
        rw [hrun]
        exact ih (uniEntry_setUni { st with dynTable := table } sid _) (by omega)
      · rw [hrun]
        exact .error rfl

/-! ## Chunking -/

/-- What a stream of instructions comes to does not depend on the passes it is read in, and
what a pass has cut is kept and goes on where it was cut. -/
structure ChunkLaw (st : Http3State) (sid : Nat) (passes : List (List Bytes)) : Prop where
  same : (st.drains sid passes).1 = (st.drains sid [[passes.flatten.flatten]]).1 ∧
    (st.drains sid passes).2.dynTable = (st.drains sid [[passes.flatten.flatten]]).2.dynTable
  retained : ∀ k taken rest table, (passes.take k).flatten.flatten = taken ++ rest →
    Applies st.dynTable taken table → rest = [] ∨ Cut table rest →
    (st.drains sid (passes.take k)).1 = .ok () ∧
      (st.drains sid (passes.take k)).2.dynTable = table ∧
      (st.drains sid (passes.take k)).2.uniEntry sid = ⟨rest, some typeQpackEncoder⟩

/-- No pass ends inside the integer that an instruction starts with. -/
def IntegersWhole (table : DynamicTable) (passes : List (List Bytes)) : Prop :=
  ∀ k taken rest table', (passes.take k).flatten.flatten = taken ++ rest →
    Applies table taken table' → ¬CutInteger rest

theorem flatten_take_map (passes : List (List Bytes)) (k : Nat) :
    ((passes.map List.flatten).take k).flatten = (passes.take k).flatten.flatten := by
  rw [List.flatten_flatten, List.map_take]

theorem length_flatten_take (passes : List (List Bytes)) (k : Nat) :
    (passes.take k).flatten.flatten.length ≤ passes.flatten.flatten.length := by
  have hsplit := congrArg (fun l => l.flatten.flatten.length) (List.take_append_drop k passes)
  simp only [List.flatten_append, List.length_append] at hsplit
  omega

/-- A stream that is cut well is read as if it had arrived at once. -/
theorem feed_of_integersWhole {table : DynamicTable} {passes : List (List Bytes)}
    (h : IntegersWhole table passes) :
    encoderReader.feed (passes.map List.flatten) table [] =
      encoderReader.run table passes.flatten.flatten := by
  have hfeed : encoderReader.feed (passes.map List.flatten) table [] =
      encoderReader.run table (passes.map List.flatten).flatten :=
    Base.Reader.feed_eq_run (encoderReader.idle table) fun k taken rest table' heq htakes => by
      rw [List.nil_append, flatten_take_map] at heq
      exact Qpack.encoderReader_firm table' (h k taken rest table' heq (takes_iff_applies.mp htakes))
  rwa [← List.flatten_flatten] at hfeed

/-- The passes of a stream, all at once. -/
theorem drains_whole {st : Http3State} {sid : Nat} {bytes : Bytes}
    (hentry : st.uniEntry sid = ⟨[], some typeQpackEncoder⟩) (hfits : bytes.length ≤ maxUniBuffer) :
    Ends sid (encoderReader.run st.dynTable bytes) (st.drains sid [[bytes]]) := by
  have hflat : [[bytes]].flatten.flatten = bytes := by
    rw [List.flatten_cons, List.flatten_nil, List.append_nil, List.flatten_cons, List.flatten_nil,
      List.append_nil]
  have hroom : ([] : Bytes).length + [[bytes]].flatten.flatten.length ≤ maxUniBuffer := by
    rw [hflat, List.length_nil, Nat.zero_add]
    exact hfits
  have hends := drains_feed hentry hroom
  rwa [List.map_cons, List.map_nil, List.flatten_cons, List.flatten_nil, List.append_nil,
    Base.Reader.feed_singleton] at hends

theorem IntegersWhole.take {table : DynamicTable} {passes : List (List Bytes)}
    (h : IntegersWhole table passes) (k : Nat) : IntegersWhole table (passes.take k) := by
  intro j taken rest table' heq
  rw [List.take_take] at heq
  exact h _ taken rest table' heq

/-- A pass that ends inside the first integer of an instruction is an error, and nothing else
that the passes do differs from reading all at once. -/
theorem chunkLaw_iff {st : Http3State} {sid : Nat} {passes : List (List Bytes)}
    (hentry : st.uniEntry sid = ⟨[], some typeQpackEncoder⟩)
    (hfits : passes.flatten.flatten.length ≤ maxUniBuffer) :
    ChunkLaw st sid passes ↔ IntegersWhole st.dynTable passes := by
  have hfeed : ∀ k, Ends sid
      (encoderReader.feed ((passes.take k).map List.flatten) st.dynTable [])
      (st.drains sid (passes.take k)) := fun k => by
    have hle := length_flatten_take passes k
    exact drains_feed hentry (by
      rw [List.length_nil, Nat.zero_add]
      exact Nat.le_trans hle hfits)
  constructor
  · intro hlaw k taken rest table' heq happ hcut
    obtain ⟨hok, htable, hkept⟩ := hlaw.retained k taken rest table' heq happ (.inr (.integer hcut))
    have hrun := (hfeed k).to_ok hok hkept
    have hwait := Base.Reader.step_of_feed (encoderReader.idle st.dynTable) hrun
    rw [htable] at hwait
    have herr := Qpack.decodeEncoderInstruction_of_cut table' hcut
    cases herr.symm.trans hwait
  · intro hwhole
    refine ⟨?_, ?_⟩
    · have hall := hfeed passes.length
      rw [List.take_length, feed_of_integersWhole hwhole] at hall
      exact hall.same (drains_whole hentry hfits)
    · intro k taken rest table' heq happ hrest
      have hends := hfeed k
      rw [feed_of_integersWhole (hwhole.take k), heq,
        Base.Reader.run_of_takes (takes_iff_applies.mpr happ)] at hends
      have hwait : decodeEncoderInstruction table' rest = .ok none := by
        rcases hrest with rfl | hcut
        · rfl
        · exact hcut.decode (hwhole k taken rest table' heq happ)
      rw [Base.Reader.run_of_none hwait] at hends
      exact hends.of_ok

/-- An encoder stream of which the type has been read. -/
def encoderOpened : Http3State := (Http3State.new none).setUni 7 ⟨[], some typeQpackEncoder⟩

/-- A capacity and a literal insert, cut inside the name and inside the value. -/
theorem chunkLaw_iff_sample :
    encoderOpened.uniEntry 7 = ⟨[], some typeQpackEncoder⟩ ∧
      ([[[0x3f], [0xe1, 0x1f, 0x42, 0x61]], [[0x62, 0x02, 0x63], [0x64]]] :
        List (List Bytes)).flatten.flatten.length ≤ maxUniBuffer ∧
      (ChunkLaw encoderOpened 7 [[[0x3f], [0xe1, 0x1f, 0x42, 0x61]], [[0x62, 0x02, 0x63], [0x64]]] ↔
        IntegersWhole encoderOpened.dynTable
          [[[0x3f], [0xe1, 0x1f, 0x42, 0x61]], [[0x62, 0x02, 0x63], [0x64]]]) :=
  ⟨rfl, by decide, chunkLaw_iff rfl (by decide)⟩

/-- Set Dynamic Table Capacity to 4096, cut behind its first byte. -/
theorem capacity_cut : ¬ChunkLaw encoderOpened 7 [[[0x3f]], [[0xe1, 0x1f]]] := by
  intro h
  have hsame := h.same.1
  have hcut : (encoderOpened.drains 7 [[[0x3f]], [[0xe1, 0x1f]]]).1 =
      .error (bad [.str "qpack int truncated"]) := rfl
  have hwhole : (encoderOpened.drains 7 [[[0x3f, 0xe1, 0x1f]]]).1 = .ok () := rfl
  rw [hcut] at hsame
  cases hsame.trans hwhole

end Rsurl.H3
