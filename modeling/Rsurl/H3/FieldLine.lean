/-
# `Rsurl.H3.FieldLine` — the lines of a field section

A field line in two steps: what its bytes say, for which no table is needed,
and the entry it comes to when its references are looked up.
`decodeLine_eq_ok_iff` takes the decoder of a line apart into the two, and
`decodeFieldSectionWith_eq_ok_iff` the decoder of a section.
-/
import Rsurl.H2.HpackSync
import Rsurl.H3.Instruction

namespace Rsurl.H3.Qpack

/-! ## What a line says -/

/-- A reference to an entry: of the static table, back from Base, or on from Base. -/
inductive Ref where
  | static (i : Nat)
  | relative (i : Nat)
  | postBase (i : Nat)
deriving DecidableEq, Repr

/-- A field line. -/
inductive Line where
  | indexed (ref : Ref)
  | named (ref : Ref) (value : Text)
  | literal (name value : Text)
deriving DecidableEq

/-- The absolute index of an entry of the dynamic table. -/
def Ref.absolute (base : Nat) : Ref → Option Nat
  | .static _ => none
  | .relative i => if 1 + i ≤ base then some (base - 1 - i) else none
  | .postBase i => if base + i < 2 ^ 64 then some (base + i) else none

/-- The entry that is referred to. -/
def Ref.entry (table : DynamicTable) (base : Nat) (ref : Ref) : Option (Text × Text) :=
  match ref with
  | .static i => staticEntry i
  | ref => (ref.absolute base).bind fun abs => (table.getAbsolute abs).toOption

/-- The reference of a line. -/
def Line.ref? : Line → Option Ref
  | .indexed ref => some ref
  | .named ref _ => some ref
  | .literal _ _ => none

/-- The field of a line, by the entries that are referred to. -/
def Line.field (entry : Ref → Option (Text × Text)) : Line → Option (Text × Text)
  | .indexed ref => entry ref
  | .named ref value => (entry ref).map fun e => (e.1, value)
  | .literal name value => some (name, value)

/-- A line with the value `value` behind `p` bytes. -/
def valuedLine (buf : Bytes) (p : Nat) (line : Text → Line) : Result (Line × Nat) := do
  let (value, vlen) ← decodeLiteralString7bit (buf.drop p)
  .ok (line value, p + vlen)

/-- The line at the front of the bytes, and the bytes it takes. -/
def parseLine (buf : Bytes) : Result (Line × Nat) :=
  match buf with
  | [] => .error (bad [])
  | b :: rest =>
      if b &&& 0x80 ≠ 0 then do
        let (idx, used) ← decodeInt b 6 rest
        .ok (.indexed (if b &&& 0x40 ≠ 0 then .static idx else .relative idx), 1 + used)
      else if b &&& 0x40 ≠ 0 then do
        let (idx, used) ← decodeInt b 4 rest
        valuedLine buf (1 + used)
          (.named (if b &&& 0x10 ≠ 0 then .static idx else .relative idx))
      else if b &&& 0x20 ≠ 0 then do
        let (nlen, used) ← decodeInt b 3 rest
        if buf.length < 1 + used + nlen then
          .error (bad [.str "qpack: truncated/oversized literal name"])
        else
          let name ← decodeStringBytes ((buf.drop (1 + used)).take nlen) (b &&& 0x08 ≠ 0)
            "literal name"
          valuedLine buf (1 + used + nlen) (.literal name)
      else if b &&& 0x10 ≠ 0 then do
        let (idx, used) ← decodeInt b 4 rest
        .ok (.indexed (.postBase idx), 1 + used)
      else do
        let (idx, used) ← decodeInt b 3 rest
        valuedLine buf (1 + used) (.named (.postBase idx))

/-! ## Looking up -/

section

variable {table : DynamicTable} {base idx : Nat} {e : Text × Text}

theorem staticField_eq_ok {m : String} :
    staticField idx m = .ok e ↔ (Ref.static idx).entry table base = some e := by
  rw [staticField]
  show _ ↔ staticEntry idx = some e
  cases staticEntry idx with
  | none => exact ⟨fun h => (nomatch h), fun h => (nomatch h)⟩
  | some x => exact ⟨fun h => congrArg some (Except.ok.inj h), fun h => congrArg _ (Option.some.inj h)⟩

theorem toOption_eq_some {α : Type} {x : Result α} {a : α} : x.toOption = some a ↔ x = .ok a := by
  cases x with
  | error err => exact ⟨fun h => (nomatch h), fun h => (nomatch h)⟩
  | ok y => exact ⟨fun h => congrArg _ (Option.some.inj h), fun h => congrArg some (Except.ok.inj h)⟩

theorem fieldRelativeToAbsolute_eq_ok {abs : Nat} :
    fieldRelativeToAbsolute base idx = .ok abs ↔ (Ref.relative idx).absolute base = some abs := by
  rw [fieldRelativeToAbsolute, Ref.absolute]
  split
  · exact ⟨fun h => congrArg some (Except.ok.inj h), fun h => congrArg _ (Option.some.inj h)⟩
  · exact ⟨fun h => (nomatch h), fun h => (nomatch h)⟩

theorem postBaseToAbsolute_eq_ok {abs : Nat} :
    postBaseToAbsolute base idx = .ok abs ↔ (Ref.postBase idx).absolute base = some abs := by
  rw [postBaseToAbsolute, Ref.absolute]
  split
  · rename_i hover
    rw [if_neg (Nat.not_lt.mpr hover)]
    exact ⟨fun h => (nomatch h), fun h => (nomatch h)⟩
  · rename_i hfit
    rw [if_pos (Nat.not_le.mp hfit)]
    exact ⟨fun h => congrArg some (Except.ok.inj h), fun h => congrArg _ (Option.some.inj h)⟩

/-- Both steps of a relative reference. -/
theorem relative_eq_ok :
    (fieldRelativeToAbsolute base idx >>= table.getAbsolute) = .ok e ↔
      (Ref.relative idx).entry table base = some e := by
  show _ ↔ (((Ref.relative idx).absolute base).bind fun abs => (table.getAbsolute abs).toOption) = _
  rw [Result.bind_eq_ok, Option.bind_eq_some_iff]
  exact exists_congr fun abs => and_congr fieldRelativeToAbsolute_eq_ok toOption_eq_some.symm

theorem postBase_eq_ok :
    (postBaseToAbsolute base idx >>= table.getAbsolute) = .ok e ↔
      (Ref.postBase idx).entry table base = some e := by
  show _ ↔ (((Ref.postBase idx).absolute base).bind fun abs => (table.getAbsolute abs).toOption) = _
  rw [Result.bind_eq_ok, Option.bind_eq_some_iff]
  exact exists_congr fun abs => and_congr postBaseToAbsolute_eq_ok toOption_eq_some.symm

theorem literalValue_eq_ok {buf : Bytes} {p used : Nat} {name : Text} :
    literalValue buf p name = .ok (e, used) ↔
      ∃ value vlen, decodeLiteralString7bit (buf.drop p) = .ok (value, vlen) ∧
        e = (name, value) ∧ used = p + vlen := by
  rw [literalValue, Result.bind_eq_ok]
  constructor
  · rintro ⟨⟨value, vlen⟩, hvalue, h⟩
    cases h
    exact ⟨value, vlen, hvalue, rfl, rfl⟩
  · rintro ⟨value, vlen, hvalue, rfl, rfl⟩
    exact ⟨(value, vlen), hvalue, rfl⟩

theorem valuedLine_eq_ok {buf : Bytes} {p used : Nat} {mk : Text → Line} {line : Line} :
    valuedLine buf p mk = .ok (line, used) ↔
      ∃ value vlen, decodeLiteralString7bit (buf.drop p) = .ok (value, vlen) ∧
        line = mk value ∧ used = p + vlen := by
  rw [valuedLine, Result.bind_eq_ok]
  constructor
  · rintro ⟨⟨value, vlen⟩, hvalue, h⟩
    cases h
    exact ⟨value, vlen, hvalue, rfl, rfl⟩
  · rintro ⟨value, vlen, hvalue, rfl, rfl⟩
    exact ⟨(value, vlen), hvalue, rfl⟩

/-- An indexed line: its entry. -/
theorem indexed_eq_ok {x : Result (Text × Text)} {ref : Ref} {n used : Nat}
    (hx : ∀ e, x = .ok e ↔ ref.entry table base = some e) :
    (x >>= fun entry => (.ok (entry, n) : Result ((Text × Text) × Nat))) = .ok (e, used) ↔
      ∃ line, (.ok (.indexed ref, n) : Result (Line × Nat)) = .ok (line, used) ∧
        line.field (Ref.entry table base) = some e := by
  rw [Result.bind_eq_ok]
  constructor
  · rintro ⟨entry, hentry, h⟩
    cases h
    exact ⟨.indexed ref, rfl, (hx e).mp hentry⟩
  · rintro ⟨line, h, hfield⟩
    cases h
    exact ⟨e, (hx e).mpr hfield, rfl⟩

/-- A line with a name reference: the name of the entry, and the value. -/
theorem named_eq_ok {x : Result (Text × Text)} {ref : Ref} {buf : Bytes} {p used : Nat}
    (hx : ∀ e, x = .ok e ↔ ref.entry table base = some e) :
    (x >>= fun entry => literalValue buf p entry.1) = .ok (e, used) ↔
      ∃ line, valuedLine buf p (.named ref) = .ok (line, used) ∧
        line.field (Ref.entry table base) = some e := by
  rw [Result.bind_eq_ok]
  constructor
  · rintro ⟨entry, hentry, h⟩
    obtain ⟨value, vlen, hvalue, rfl, rfl⟩ := literalValue_eq_ok.mp h
    refine ⟨.named ref value, valuedLine_eq_ok.mpr ⟨value, vlen, hvalue, rfl, rfl⟩, ?_⟩
    rw [Line.field, (hx entry).mp hentry]
    rfl
  · rintro ⟨line, h, hfield⟩
    obtain ⟨value, vlen, hvalue, rfl, rfl⟩ := valuedLine_eq_ok.mp h
    obtain ⟨entry, hentry, rfl⟩ := Option.map_eq_some_iff.mp hfield
    exact ⟨entry, (hx entry).mpr hentry, literalValue_eq_ok.mpr ⟨value, vlen, hvalue, rfl, rfl⟩⟩

theorem literal_eq_ok {name : Text} {buf : Bytes} {p used : Nat} :
    literalValue buf p name = .ok (e, used) ↔
      ∃ line, valuedLine buf p (.literal name) = .ok (line, used) ∧
        line.field (Ref.entry table base) = some e := by
  rw [literalValue_eq_ok]
  constructor
  · rintro ⟨value, vlen, hvalue, rfl, rfl⟩
    exact ⟨.literal name value, valuedLine_eq_ok.mpr ⟨value, vlen, hvalue, rfl, rfl⟩, rfl⟩
  · rintro ⟨line, h, hfield⟩
    obtain ⟨value, vlen, hvalue, rfl, rfl⟩ := valuedLine_eq_ok.mp h
    exact ⟨value, vlen, hvalue, (Option.some.inj hfield).symm, rfl⟩

end

/-- Behind the first computation of both sides. -/
theorem bind_congr_ok {α β γ : Type} {x : Result α} {f : α → Result β}
    {g : α → Result (γ × Nat)} {b : β} {n : Nat} {P : γ → Prop}
    (h : ∀ a, f a = .ok b ↔ ∃ c, g a = .ok (c, n) ∧ P c) :
    (x >>= f) = .ok b ↔ ∃ c, (x >>= g) = .ok (c, n) ∧ P c := by
  cases x with
  | error e => exact ⟨fun h => (nomatch h), fun ⟨_, h, _⟩ => (nomatch h)⟩
  | ok a => exact h a

/-- A line is decoded when its bytes say something and every reference leads to an entry. -/
theorem decodeLine_eq_ok_iff {table : DynamicTable} {base : Nat} {buf : Bytes} {e : Text × Text}
    {used : Nat} :
    decodeLine table base buf = .ok (e, used) ↔
      ∃ line, parseLine buf = .ok (line, used) ∧ line.field (Ref.entry table base) = some e := by
  cases buf with
  | nil => simp only [decodeLine, parseLine, reduceCtorEq, false_and, exists_false]
  | cons b rest =>
      rw [decodeLine, parseLine]
      split
      · refine bind_congr_ok fun x => ?_
        by_cases hstatic : b &&& 0x40 ≠ 0
        · simp only [if_pos hstatic]
          exact indexed_eq_ok fun e => staticField_eq_ok
        · simp only [if_neg hstatic]
          rw [← bind_assoc]
          exact indexed_eq_ok fun e => relative_eq_ok
      split
      · refine bind_congr_ok fun x => ?_
        by_cases hstatic : b &&& 0x10 ≠ 0
        · simp only [if_pos hstatic]
          exact named_eq_ok fun e => staticField_eq_ok
        · simp only [if_neg hstatic]
          rw [← bind_assoc]
          exact named_eq_ok fun e => relative_eq_ok
      split
      · refine bind_congr_ok fun x => ?_
        dsimp only
        split
        · simp only [reduceCtorEq, false_and, exists_false]
        · exact bind_congr_ok fun name => literal_eq_ok
      split
      · refine bind_congr_ok fun x => ?_
        dsimp only
        rw [← bind_assoc]
        exact indexed_eq_ok fun e => postBase_eq_ok
      · refine bind_congr_ok fun x => ?_
        dsimp only
        rw [← bind_assoc]
        exact named_eq_ok fun e => postBase_eq_ok

/-! ## Sections -/

theorem parseLine_used {buf : Bytes} {line : Line} {used : Nat}
    (h : parseLine buf = .ok (line, used)) : 1 ≤ used := by
  cases buf with
  | nil => cases h
  | cons b rest =>
      have hvalued : ∀ {p : Nat} {mk : Text → Line}, 1 ≤ p →
          valuedLine (b :: rest) p mk = .ok (line, used) → 1 ≤ used := fun hp hv => by
        obtain ⟨value, vlen, -, -, rfl⟩ := valuedLine_eq_ok.mp hv
        omega
      rw [parseLine] at h
      split at h
      · obtain ⟨x, -, h⟩ := Result.bind_eq_ok.mp h
        cases h
        exact Nat.le_add_right _ _
      split at h
      · obtain ⟨x, -, h⟩ := Result.bind_eq_ok.mp h
        exact hvalued (Nat.le_add_right _ _) h
      split at h
      · obtain ⟨x, -, h⟩ := Result.bind_eq_ok.mp h
        dsimp only at h
        split at h
        · cases h
        · obtain ⟨name, -, h⟩ := Result.bind_eq_ok.mp h
          exact hvalued (by omega) h
      split at h
      · obtain ⟨x, -, h⟩ := Result.bind_eq_ok.mp h
        cases h
        exact Nat.le_add_right _ _
      · obtain ⟨x, -, h⟩ := Result.bind_eq_ok.mp h
        exact hvalued (Nat.le_add_right _ _) h

/-- The bytes are these lines, one after the other. -/
inductive Lines : Bytes → List Line → Prop
  | nil : Lines [] []
  | cons {buf : Bytes} {line : Line} {used : Nat} {lines : List Line}
      (hline : parseLine buf = .ok (line, used)) (hrest : Lines (buf.drop used) lines) :
      Lines buf (line :: lines)

/-- The fields of lines, when all of them are there. -/
def fieldsOf (entry : Ref → Option (Text × Text)) (lines : List Line) : Option Fields :=
  lines.mapM (Line.field entry)

theorem lines_nil_iff {lines : List Line} : Lines [] lines ↔ lines = [] := by
  constructor
  · intro h
    cases h with
    | nil => rfl
    | cons hline hrest => cases hline
  · rintro rfl
    exact .nil

theorem fieldsOf_cons_eq_some {entry : Ref → Option (Text × Text)} {line : Line}
    {lines : List Line} {fields : Fields} :
    fieldsOf entry (line :: lines) = some fields ↔
      ∃ e rest, line.field entry = some e ∧ fieldsOf entry lines = some rest ∧
        fields = e :: rest := by
  rw [fieldsOf, List.mapM_cons]
  cases hfield : line.field entry with
  | none => exact ⟨fun h => (nomatch h), fun ⟨_, _, h, _⟩ => (nomatch h)⟩
  | some e =>
      show ((fieldsOf entry lines).bind fun rest => some (e :: rest)) = some fields ↔ _
      rw [Option.bind_eq_some_iff]
      constructor
      · rintro ⟨rest, hrest, h⟩
        exact ⟨e, rest, rfl, hrest, (Option.some.inj h).symm⟩
      · rintro ⟨e', rest, he, hrest, rfl⟩
        cases he
        exact ⟨rest, hrest, rfl⟩

/-- A line that comes to a field refers to an entry. -/
theorem entry_of_ref {entry : Ref → Option (Text × Text)} {line : Line} {ref : Ref}
    {e : Text × Text} (h : line.field entry = some e) (href : line.ref? = some ref) :
    ∃ e', entry ref = some e' := by
  cases line with
  | indexed r =>
      cases href
      exact ⟨e, h⟩
  | named r value =>
      cases href
      obtain ⟨e', he', -⟩ := Option.map_eq_some_iff.mp h
      exact ⟨e', he'⟩
  | literal name value => cases href

/-- At the end of a section. -/
theorem lines_end {entry : Ref → Option (Text × Text)} {size : Nat} {out fields : Fields}
    (hsize : size ≤ maxDecodedHeaderList) :
    (.ok out : Result Fields) = .ok fields ↔
      ∃ lines rest, Lines [] lines ∧ fieldsOf entry lines = some rest ∧
        fields = out ++ rest ∧ size + H2.listSize rest ≤ maxDecodedHeaderList := by
  constructor
  · intro h
    cases h
    exact ⟨[], [], .nil, rfl, (List.append_nil out).symm, hsize⟩
  · rintro ⟨lines, rest, hlines, hfields, rfl, -⟩
    rw [lines_nil_iff.mp hlines] at hfields
    obtain rfl : [] = rest := Option.some.inj hfields
    rw [List.append_nil]

/-- The loop over the lines reads all of them and keeps within the limit. -/
theorem lineLoop_eq_ok_iff {fuel : Nat} {table : DynamicTable} {base : Nat} {buf : Bytes}
    {size : Nat} {out fields : Fields} (hfuel : buf.length ≤ fuel)
    (hsize : size ≤ maxDecodedHeaderList) :
    lineLoop fuel table base buf size out = .ok fields ↔
      ∃ lines rest, Lines buf lines ∧ fieldsOf (Ref.entry table base) lines = some rest ∧
        fields = out ++ rest ∧ size + H2.listSize rest ≤ maxDecodedHeaderList := by
  induction fuel generalizing buf size out with
  | zero =>
      have hnil : buf = [] := List.length_eq_zero_iff.mp (Nat.le_zero.mp hfuel)
      subst hnil
      exact lines_end hsize
  | succ fuel ih =>
      rw [lineLoop]
      split
      · rename_i hnil
        subst hnil
        exact lines_end hsize
      rename_i hne
      have hlen : ∀ {used}, 1 ≤ used → (buf.drop used).length ≤ fuel := fun hused => by
        have hpos := List.length_pos_of_ne_nil hne
        rw [List.length_drop]
        omega
      rw [Result.bind_eq_ok]
      constructor
      · rintro ⟨⟨e, used⟩, hdecode, h⟩
        obtain ⟨line, hline, hfield⟩ := decodeLine_eq_ok_iff.mp hdecode
        dsimp only at h
        split at h
        · cases h
        · rename_i hroom
          obtain ⟨lines, rest, hlines, hfields, rfl, hrest⟩ :=
            (ih (hlen (parseLine_used hline)) (Nat.not_lt.mp hroom)).mp h
          refine ⟨line :: lines, e :: rest, .cons hline hlines,
            fieldsOf_cons_eq_some.mpr ⟨e, rest, hfield, hfields, rfl⟩, ?_, ?_⟩
          · rw [List.append_assoc]
            rfl
          · rw [H2.listSize_cons, ← Nat.add_assoc]
            exact hrest
      · rintro ⟨lines, rest, hlines, hfields, rfl, hrest⟩
        cases hlines with
        | nil => exact absurd rfl hne
        | @cons _ line used lines hline hlines =>
            obtain ⟨e, rest, hfield, hfields', rfl⟩ := fieldsOf_cons_eq_some.mp hfields
            rw [H2.listSize_cons, ← Nat.add_assoc] at hrest
            have hroom : size + H2.entrySize e ≤ maxDecodedHeaderList :=
              Nat.le_trans (Nat.le_add_right _ _) hrest
            refine ⟨(e, used), decodeLine_eq_ok_iff.mpr ⟨line, hline, hfield⟩, ?_⟩
            dsimp only
            rw [if_neg (Nat.not_lt.mpr hroom)]
            refine (ih (hlen (parseLine_used hline)) hroom).mpr
              ⟨lines, rest, hlines, hfields', ?_, hrest⟩
            rw [List.append_assoc]
            rfl

/-- What the prefix of a section says: the encoded Required Insert Count, the sign and the size
of Delta Base, and the bytes it takes. -/
def parsePrefix (buf : Bytes) : Result (Nat × Bool × Nat × Nat) :=
  match buf with
  | [] => .error (bad [])
  | b :: rest => do
      let (enc, n₁) ← decodeInt b 8 rest
      match buf.drop (1 + n₁) with
      | [] => .error (bad [])
      | s :: rest => do
          let (delta, n₂) ← decodeInt s 7 rest
          .ok (enc, s &&& 0x80 ≠ 0, delta, 1 + n₁ + (1 + n₂))

/-- The Base that they come to. -/
def baseOf (sign : Bool) (delta ric : Nat) : Option Nat :=
  if sign then if delta + 1 ≤ ric then some (ric - delta - 1) else none
  else if ric + delta < 2 ^ 64 then some (ric + delta) else none

theorem decodeBase_eq_ok_iff {s : UInt8} {rest : Bytes} {ric base n : Nat} :
    decodeBase s rest ric = .ok (base, n) ↔
      ∃ delta, decodeInt s 7 rest = .ok (delta, n) ∧
        baseOf (s &&& 0x80 ≠ 0) delta ric = some base := by
  rw [decodeBase, Result.bind_eq_ok]
  constructor
  · rintro ⟨⟨delta, used⟩, hdelta, h⟩
    dsimp only at h
    split at h
    · rename_i hsign
      split at h
      · rename_i hle
        cases h
        exact ⟨delta, hdelta, by rw [baseOf, decide_eq_true hsign, if_pos rfl, if_pos hle]⟩
      · cases h
    · rename_i hsign
      split at h
      · cases h
      · rename_i hlt
        cases h
        refine ⟨delta, hdelta, ?_⟩
        rw [baseOf, decide_eq_false hsign, if_neg Bool.false_ne_true, if_pos (Nat.not_le.mp hlt)]
  · rintro ⟨delta, hdelta, hbase⟩
    refine ⟨(delta, n), hdelta, ?_⟩
    rw [baseOf] at hbase
    dsimp only
    split
    · rename_i hsign
      rw [decide_eq_true hsign, if_pos rfl] at hbase
      split at hbase
      · rename_i hle
        rw [if_pos hle, Option.some.inj hbase]
      · cases hbase
    · rename_i hsign
      rw [decide_eq_false hsign, if_neg Bool.false_ne_true] at hbase
      split at hbase
      · rename_i hlt
        rw [if_neg (Nat.not_le.mpr hlt), Option.some.inj hbase]
      · cases hbase

/-- The prefix of a section: what it says, and what that comes to for the table. -/
theorem decodePrefix_eq_ok_iff {buf : Bytes} {table : DynamicTable} {ric base p : Nat} :
    decodePrefix buf table = .ok (ric, base, p) ↔
      ∃ enc sign delta, parsePrefix buf = .ok (enc, sign, delta, p) ∧
        decodeRequiredInsertCount enc table.insertCount = .ok ric ∧ ric ≤ table.insertCount ∧
        baseOf sign delta ric = some base := by
  cases buf with
  | nil => exact ⟨fun h => (nomatch h), fun ⟨_, _, _, h, _⟩ => (nomatch h)⟩
  | cons b rest =>
      rw [decodePrefix, parsePrefix]
      constructor
      · intro h
        obtain ⟨⟨enc, n₁⟩, henc, h⟩ := Result.bind_eq_ok.mp h
        obtain ⟨ric', hric, h⟩ := Result.bind_eq_ok.mp h
        split at h
        · cases h
        rename_i hle
        dsimp only at h
        split at h
        · cases h
        rename_i s rest' hdrop
        obtain ⟨⟨base', n₂⟩, hbase, h⟩ := Result.bind_eq_ok.mp h
        cases h
        obtain ⟨delta, hdelta, hbase⟩ := decodeBase_eq_ok_iff.mp hbase
        refine ⟨enc, s &&& 0x80 ≠ 0, delta, Result.bind_eq_ok.mpr ⟨(enc, n₁), henc, ?_⟩, hric,
          Nat.not_lt.mp hle, hbase⟩
        dsimp only
        rw [hdrop]
        exact Result.bind_eq_ok.mpr ⟨(delta, n₂), hdelta, rfl⟩
      · rintro ⟨enc, sign, delta, h, hric, hle, hbase⟩
        obtain ⟨⟨enc', n₁⟩, henc, h⟩ := Result.bind_eq_ok.mp h
        dsimp only at h
        split at h
        · cases h
        rename_i s rest' hdrop
        obtain ⟨⟨delta', n₂⟩, hdelta, h⟩ := Result.bind_eq_ok.mp h
        cases h
        refine Result.bind_eq_ok.mpr ⟨(enc, n₁), henc, Result.bind_eq_ok.mpr ⟨ric, hric, ?_⟩⟩
        rw [if_neg (Nat.not_lt.mpr hle)]
        dsimp only
        rw [hdrop]
        exact Result.bind_eq_ok.mpr
          ⟨(base, n₂), decodeBase_eq_ok_iff.mpr ⟨delta', hdelta, hbase⟩, rfl⟩

/-- A section is decoded when its prefix is, its bytes are lines, every reference leads to an
entry, and the fields keep within the limit. -/
theorem decodeFieldSectionWith_eq_ok_iff {buf : Bytes} {table : DynamicTable} {fields : Fields} :
    decodeFieldSectionWith buf table = .ok fields ↔
      ∃ ric base p lines, decodePrefix buf table = .ok (ric, base, p) ∧
        Lines (buf.drop p) lines ∧ fieldsOf (Ref.entry table base) lines = some fields ∧
        H2.listSize fields ≤ maxDecodedHeaderList := by
  rw [decodeFieldSectionWith, Result.bind_eq_ok]
  constructor
  · rintro ⟨⟨ric, base, p⟩, hpre, h⟩
    obtain ⟨lines, rest, hlines, hfields, rfl, hsize⟩ :=
      (lineLoop_eq_ok_iff (Nat.le_refl _) (Nat.zero_le _)).mp h
    rw [Nat.zero_add] at hsize
    exact ⟨ric, base, p, lines, hpre, hlines, hfields, hsize⟩
  · rintro ⟨ric, base, p, lines, hpre, hlines, hfields, hsize⟩
    refine ⟨(ric, base, p), hpre, (lineLoop_eq_ok_iff (Nat.le_refl _) (Nat.zero_le _)).mpr
      ⟨lines, fields, hlines, hfields, rfl, ?_⟩⟩
    rw [Nat.zero_add]
    exact hsize

end Rsurl.H3.Qpack
