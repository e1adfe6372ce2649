/-
# `Rsurl.H3.InsertCount` — the Required Insert Count of a section

The Required Insert Count should bound every reference to the dynamic table: a
section that needs the table then says so, and is acknowledged.  The decoder
checks the count against the table and every reference against the table, but
no reference against the count.  Whether the bound holds can be read off the
wire, from the sign and size of Delta Base and the indices of the lines.
-/
import Rsurl.H3.FieldLine
import Rsurl.H3.Response

namespace Rsurl.H3.Qpack

/-- An accepted section with the count `ric` has resolved the entry `abs`. -/
inductive Resolves (table : DynamicTable) (buf : Bytes) (ric abs : Nat) : Prop
  | intro {base p : Nat} {lines : List Line} {line : Line} {ref : Ref}
      (hpre : decodePrefix buf table = .ok (ric, base, p)) (hlines : Lines (buf.drop p) lines)
      (hline : line ∈ lines) (href : line.ref? = some ref) (habs : ref.absolute base = some abs)

/-- What the Required Insert Count of an accepted section promises. -/
structure InsertCountLaw (table : DynamicTable) (buf : Bytes) : Prop where
  below : ∀ ric abs, Resolves table buf ric abs → abs < ric
  owed : ∀ ric abs, Resolves table buf ric abs → ric ≠ 0 ∧
    ∀ total headers body, ∃ headers' body',
      takeFrame typeHeaders total buf headers body table = .consumed total true headers' body'
  independent : ∀ base p, decodePrefix buf table = .ok (0, base, p) → ∀ table',
    decodeFieldSectionWith buf table' = decodeFieldSectionWith buf table

/-- A reference that lies below the count: behind Base with Delta Base not negative, or not
further ahead of it than Delta Base goes back. -/
def Ref.Within (sign : Bool) (delta : Nat) : Ref → Prop
  | .static _ => True
  | .relative i => sign = false → delta ≤ i
  | .postBase i => sign = true ∧ i ≤ delta

/-- Every reference of the section lies below the count. -/
def RefsWithin (buf : Bytes) : Prop :=
  ∀ enc sign delta p lines, parsePrefix buf = .ok (enc, sign, delta, p) →
    Lines (buf.drop p) lines → ∀ line ∈ lines, ∀ ref, line.ref? = some ref → ref.Within sign delta

section

variable {table : DynamicTable} {buf : Bytes} {fields : Fields}

/-- The encoded count is zero when the count is. -/
theorem decodeRequiredInsertCount_zero_iff {enc total : Nat} :
    decodeRequiredInsertCount enc total = .ok 0 ↔ enc = 0 := by
  constructor
  · intro h
    by_contra hne
    rw [decodeRequiredInsertCount, if_neg hne] at h
    dsimp only at h
    split_ifs at h with hrange hunder hover hzero hzero
    · exact hzero (Except.ok.inj h)
    · exact hzero (Except.ok.inj h)
  · rintro rfl
    rfl

theorem lines_functional {lines lines' : List Line} (h : Lines buf lines) (h' : Lines buf lines') :
    lines = lines' := by
  induction h generalizing lines' with
  | nil => exact (lines_nil_iff.mp h').symm
  | cons hline hrest ih =>
      cases h' with
      | nil => cases hline
      | cons hline' hrest' =>
          cases hline.symm.trans hline'
          rw [ih hrest']

/-- The lines of an accepted section lead to entries. -/
theorem field_of_mem {entry : Ref → Option (Text × Text)} {lines : List Line} {line : Line}
    (h : fieldsOf entry lines = some fields) (hmem : line ∈ lines) :
    ∃ e, line.field entry = some e := by
  induction lines generalizing fields with
  | nil => cases hmem
  | cons first lines ih =>
      obtain ⟨e, rest, hfield, hrest, -⟩ := fieldsOf_cons_eq_some.mp h
      rcases List.mem_cons.mp hmem with rfl | hmem
      · exact ⟨e, hfield⟩
      · exact ih hrest hmem

theorem fieldsOf_congr {entry entry' : Ref → Option (Text × Text)} {lines : List Line}
    (h : ∀ line ∈ lines, ∀ ref, line.ref? = some ref → entry ref = entry' ref) :
    fieldsOf entry lines = fieldsOf entry' lines := by
  induction lines with
  | nil => rfl
  | cons line lines ih =>
      have hrest := ih fun l hl => h l (List.mem_cons_of_mem line hl)
      have hline : line.field entry = line.field entry' := by
        cases line with
        | indexed ref => exact h _ List.mem_cons_self ref rfl
        | named ref value =>
            show (entry ref).map _ = (entry' ref).map _
            rw [h _ List.mem_cons_self ref rfl]
        | literal name value => rfl
      simp only [fieldsOf, List.mapM_cons] at hrest ⊢
      rw [hline, hrest]

/-- An absolute index is below the count exactly when the reference is within. -/
theorem absolute_lt_iff {sign : Bool} {delta ric base abs : Nat} {ref : Ref}
    (hbase : baseOf sign delta ric = some base) (habs : ref.absolute base = some abs) :
    abs < ric ↔ ref.Within sign delta := by
  have hsigned : (sign = true ∧ delta + 1 ≤ ric ∧ base = ric - delta - 1) ∨
      (sign = false ∧ base = ric + delta) := by
    cases sign with
    | true =>
        rw [baseOf, if_pos rfl] at hbase
        split at hbase
        · rename_i hle
          exact .inl ⟨rfl, hle, (Option.some.inj hbase).symm⟩
        · cases hbase
    | false =>
        rw [baseOf, if_neg Bool.false_ne_true] at hbase
        split at hbase
        · exact .inr ⟨rfl, (Option.some.inj hbase).symm⟩
        · cases hbase
  cases ref with
  | static i => cases habs
  | relative i =>
      rw [Ref.absolute] at habs
      split at habs
      · rename_i hle
        cases habs
        show _ ↔ (sign = false → delta ≤ i)
        rcases hsigned with ⟨rfl, hric, rfl⟩ | ⟨rfl, rfl⟩
        · exact ⟨fun _ h => Bool.noConfusion h, fun _ => by omega⟩
        · exact ⟨fun h _ => by omega, fun h => by have := h rfl; omega⟩
      · cases habs
  | postBase i =>
      rw [Ref.absolute] at habs
      split at habs
      · cases habs
        show _ ↔ sign = true ∧ i ≤ delta
        rcases hsigned with ⟨rfl, hric, rfl⟩ | ⟨rfl, rfl⟩
        · exact ⟨fun h => ⟨rfl, by omega⟩, fun h => by have := h.2; omega⟩
        · exact ⟨fun h => by omega, fun h => Bool.noConfusion h.1⟩
      · cases habs

/-- The count of an accepted section bounds its references exactly when they are within. -/
theorem below_iff (h : decodeFieldSectionWith buf table = .ok fields) :
    (∀ ric abs, Resolves table buf ric abs → abs < ric) ↔ RefsWithin buf := by
  obtain ⟨ric, base, p, lines, hpre, hlines, hfields, -⟩ :=
    decodeFieldSectionWith_eq_ok_iff.mp h
  obtain ⟨enc, sign, delta, hparse, -, -, hbase⟩ := decodePrefix_eq_ok_iff.mp hpre
  constructor
  · intro hbelow enc' sign' delta' p' lines' hparse' hlines' line hline ref href
    cases hparse.symm.trans hparse'
    obtain rfl := lines_functional hlines hlines'
    obtain ⟨e, hfield⟩ := field_of_mem hfields hline
    obtain ⟨e', hentry⟩ := entry_of_ref hfield href
    cases habs : ref.absolute base with
    | some abs =>
        exact (absolute_lt_iff hbase habs).mp (hbelow ric abs ⟨hpre, hlines, hline, href, habs⟩)
    | none =>
        cases ref with
        | static i => trivial
        | relative i =>
            rw [Ref.entry, habs] at hentry
            · cases hentry
            · exact fun i h => nomatch h
        | postBase i =>
            rw [Ref.entry, habs] at hentry
            · cases hentry
            · exact fun i h => nomatch h
  · rintro hwithin ric' abs ⟨hpre', hlines', hline, href, habs⟩
    cases hpre.symm.trans hpre'
    exact (absolute_lt_iff hbase habs).mpr
      (hwithin enc sign delta p _ hparse hlines' _ hline _ href)

/-- A section with a count is acknowledged. -/
theorem acknowledged {ric base p : Nat} (hdecode : decodeFieldSectionWith buf table = .ok fields)
    (hpre : decodePrefix buf table = .ok (ric, base, p)) (hric : ric ≠ 0) (total : Nat)
    (headers : Option Fields) (body : Bytes) : ∃ headers' body',
      takeFrame typeHeaders total buf headers body table = .consumed total true headers' body' := by
  obtain ⟨enc, sign, delta, hparse, hcount, -, -⟩ := decodePrefix_eq_ok_iff.mp hpre
  have hne : enc ≠ 0 := by
    rintro rfl
    exact hric (Except.ok.inj hcount).symm
  have hrefs : blockReferencesDynamicTable buf = true := by
    cases buf with
    | nil => cases hparse
    | cons b rest =>
        obtain ⟨⟨enc', n⟩, henc, h⟩ := Result.bind_eq_ok.mp hparse
        dsimp only at h
        split at h
        · cases h
        obtain ⟨⟨delta', n'⟩, -, h⟩ := Result.bind_eq_ok.mp h
        cases h
        rw [blockReferencesDynamicTable, henc]
        exact decide_eq_true hne
  refine ⟨headers.or (some fields), body, ?_⟩
  rw [takeFrame, if_pos rfl, hdecode]
  dsimp only
  rw [hrefs]

/-- A section without a count that refers to nothing says the same to every table. -/
theorem independent_of_table {base p : Nat} (hdecode : decodeFieldSectionWith buf table = .ok fields)
    (hpre : decodePrefix buf table = .ok (0, base, p))
    (hnone : ∀ abs, ¬Resolves table buf 0 abs) (table' : DynamicTable) :
    decodeFieldSectionWith buf table' = .ok fields := by
  obtain ⟨ric', base', p', lines, hpre', hlines, hfields, hsize⟩ :=
    decodeFieldSectionWith_eq_ok_iff.mp hdecode
  cases hpre.symm.trans hpre'
  obtain ⟨enc, sign, delta, hparse, hcount, -, hbase⟩ := decodePrefix_eq_ok_iff.mp hpre
  have henc := decodeRequiredInsertCount_zero_iff.mp hcount
  have hpre'' : decodePrefix buf table' = .ok (0, base, p) :=
    decodePrefix_eq_ok_iff.mpr ⟨enc, sign, delta, hparse,
      decodeRequiredInsertCount_zero_iff.mpr henc, Nat.zero_le _, hbase⟩
  refine decodeFieldSectionWith_eq_ok_iff.mpr ⟨0, base, p, lines, hpre'', hlines, ?_, hsize⟩
  rw [← hfields]
  refine fieldsOf_congr fun line hline ref href => ?_
  have habs : ref.absolute base = none := by
    cases habs : ref.absolute base with
    | none => rfl
    | some abs => exact absurd ⟨hpre, hlines, hline, href, habs⟩ (hnone abs)
  cases ref with
  | static i => rfl
  | relative i =>
      show ((Ref.relative i).absolute base).bind _ = ((Ref.relative i).absolute base).bind _
      rw [habs]
      rfl
  | postBase i =>
      show ((Ref.postBase i).absolute base).bind _ = ((Ref.postBase i).absolute base).bind _
      rw [habs]
      rfl

/-- The Required Insert Count of an accepted section is sound exactly when no reference reaches
beyond it: no post-base reference and none before Base by less than Delta Base when that is not
negative, none ahead of Base by more than Delta Base goes back when it is. -/
theorem insertCountLaw_iff (h : decodeFieldSectionWith buf table = .ok fields) :
    InsertCountLaw table buf ↔ RefsWithin buf := by
  constructor
  · exact fun hlaw => (below_iff h).mp hlaw.below
  · intro hwithin
    have hbelow := (below_iff h).mpr hwithin
    refine ⟨hbelow, ?_, ?_⟩
    · intro ric abs hres
      have hric : ric ≠ 0 := fun hzero => Nat.not_lt_zero abs (hzero ▸ hbelow ric abs hres)
      refine ⟨hric, ?_⟩
      obtain ⟨hpre, -, -, -, -⟩ := hres
      exact acknowledged h hpre hric
    · intro base p hpre table'
      rw [h]
      exact independent_of_table h hpre (fun abs hres => Nat.not_lt_zero abs (hbelow 0 abs hres))
        table'

end

/-- A table with one entry. -/
def oneEntry : DynamicTable :=
  (DynamicTable.new.resize 4096 (Nat.le_refl _)).add ("a".toList, "b".toList)
    (by decide : H2.entrySize ("a".toList, "b".toList) ≤ 4096)

/-- A section that needs the entry, and says so. -/
theorem insertCountLaw_iff_sample :
    decodeFieldSectionWith [2, 0, 0x80] oneEntry = .ok [("a".toList, "b".toList)] ∧
      (InsertCountLaw oneEntry [2, 0, 0x80] ↔ RefsWithin [2, 0, 0x80]) :=
  have h : decodeFieldSectionWith [2, 0, 0x80] oneEntry = .ok [("a".toList, "b".toList)] := by
    decide +kernel
  ⟨h, insertCountLaw_iff h⟩

/-- One that needs it and says that it needs nothing: Delta Base puts Base behind the entry. -/
theorem entry_without_count :
    decodeFieldSectionWith [0, 1, 0x80] oneEntry = .ok [("a".toList, "b".toList)] ∧
      ¬InsertCountLaw oneEntry [0, 1, 0x80] := by
  refine ⟨by decide +kernel, fun h => ?_⟩
  have hpre : decodePrefix [0, 1, 0x80] oneEntry = .ok (0, 1, 2) := by decide +kernel
  have hlines : Lines ([0, 1, 0x80].drop 2) [.indexed (.relative 0)] :=
    .cons (by decide : parseLine [0x80] = .ok (.indexed (.relative 0), 1)) .nil
  exact Nat.not_lt_zero 0 (h.below 0 0 ⟨hpre, hlines, List.mem_cons_self, rfl, rfl⟩)

end Rsurl.H3.Qpack
