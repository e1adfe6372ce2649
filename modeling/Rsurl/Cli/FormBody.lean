/-
# `Rsurl.Cli.FormBody` — the body of the data options

`src/bin/rsurl.rs`: the options `-d`, `--data-raw`, `--data-binary` and
`--data-urlencode` each give a part, and `assemble_form_body` is to join the
parts with `&`.  It writes the separator when something has been written, not
when a part has gone before, so the empty parts in front are dropped with their
separators (`assembleFormBody_eq`).
-/
import Mathlib.Data.List.Forall2
import Rsurl.Error
import Rsurl.Text.Fields
import Rsurl.Text.Percent

namespace Rsurl.Cli

/-! ## The encoder -/

/-- A byte that `percent_encode_form` leaves alone. -/
def isFormPlain (b : UInt8) : Bool :=
  (65 ≤ b && b ≤ 90) || (97 ≤ b && b ≤ 122) || (48 ≤ b && b ≤ 57) || b == 45 || b == 46 ||
    b == 95 || b == 126

/-- What one byte is written as. -/
def formByte (b : UInt8) : Text :=
  if isFormPlain b then [Char.ofNat b.toNat]
  else if b = 32 then ['+']
  else ['%', upperHex (b.toNat / 16), upperHex (b.toNat % 16)]

def percentEncodeForm (bytes : Bytes) : Text := bytes.flatMap formByte

def stripNewlines (data : Bytes) : Bytes := data.filter fun b => b ≠ 13 ∧ b ≠ 10 ∧ b ≠ 0

/-! ## The parts -/

inductive DataPart where
  | plain (value : Text) (atFileOk : Bool)
  | binary (value : Text)
  | urlEncoded (value : Text)
deriving DecidableEq, Repr

section

-- What `std::fs::read` gives for a path: the bytes, or an error as it is displayed.
variable (read : Text → Except Text Bytes)

def readAtFile (path : Text) : Except Msg Bytes :=
  (read path).mapError fun e => [.str "can't read ", .debug path, .str ": ", .display e]

/-- `name=` in front of what is encoded, if there is a name; the name is not encoded. -/
def named (name encoded : Text) : Bytes :=
  if name = [] then encoded.utf8 else (name ++ '=' :: encoded).utf8

def encodeUrlencoded (spec : Text) : Except Msg Bytes :=
  match Text.splitOnce '=' spec with
  | some (name, value) => .ok (named name (percentEncodeForm value.utf8))
  | none =>
      match Text.splitOnce '@' spec with
      | some (name, path) => do
          let bytes ← readAtFile read path
          return named name (percentEncodeForm bytes)
      | none => .ok (percentEncodeForm spec.utf8).utf8

/-- What the loop adds for a part, behind the separator. -/
def partBytes : DataPart → Except Msg Bytes
  | .plain value atFileOk =>
      match if atFileOk then Text.stripPrefix ['@'] value else none with
      | some path => (readAtFile read path).map stripNewlines
      | none => .ok value.utf8
  | .binary value =>
      match Text.stripPrefix ['@'] value with
      | some path => readAtFile read path
      | none => .ok value.utf8
  | .urlEncoded value => encodeUrlencoded read value

/-- The loop of `assemble_form_body`. -/
def assemble (out : Bytes) : List DataPart → Except Msg Bytes
  | [] => .ok out
  | part :: parts => do
      let out := if out ≠ [] then out ++ [38] else out
      let bytes ← partBytes read part
      assemble (out ++ bytes) parts

def assembleFormBody (parts : List DataPart) : Except Msg (Option Bytes) :=
  if parts = [] then .ok none else (assemble read [] parts).map some

/-- The encodings of the parts, in order. -/
def Encodings (parts : List DataPart) (es : List Bytes) : Prop :=
  List.Forall₂ (fun part e => partBytes read part = .ok e) parts es

end

/-- The part is a reference to a file. -/
def DataPart.readsFile : DataPart → Bool
  | .plain value atFileOk => atFileOk && (Text.stripPrefix ['@'] value).isSome
  | .binary value => (Text.stripPrefix ['@'] value).isSome
  | .urlEncoded value => !value.contains '=' && value.contains '@'

/-- The part has nothing to write. -/
def DataPart.isSilent : DataPart → Bool
  | .plain value _ => value == []
  | .binary value => value == []
  | .urlEncoded value => value == [] || value == ['=']

theorem encodings_unique {read : Text → Except Text Bytes} {parts : List DataPart}
    {es es' : List Bytes} (h : Encodings read parts es) (h' : Encodings read parts es') : es = es' :=
  List.right_unique_forall₂' (fun _ _ _ h h' => Except.ok.inj (h.symm.trans h')) h h'

/-! ## What the loop does -/

theorem dropWhile_empty (es : List Bytes) : ([] :: es).dropWhile (· = []) = es.dropWhile (· = []) :=
  List.dropWhile_cons_of_pos rfl

theorem dropWhile_written {e : Bytes} (he : e ≠ []) (es : List Bytes) :
    (e :: es).dropWhile (· = []) = e :: es :=
  List.dropWhile_cons_of_neg (by simpa using he)

theorem intercalate_append_cons (sep a b : Bytes) (es : List Bytes) :
    sep.intercalate ((a ++ b) :: es) = a ++ sep.intercalate (b :: es) := by
  cases es with
  | nil => rw [List.intercalate_singleton, List.intercalate_singleton]
  | cons e es => simp only [List.intercalate_cons_cons, List.append_assoc]

section

variable {read : Text → Except Text Bytes}

/-- Once something is written, every part comes behind a separator. -/
theorem assemble_eq {out : Bytes} {parts : List DataPart} {es : List Bytes} (hout : out ≠ [])
    (h : Encodings read parts es) :
    assemble read out parts = .ok ([38].intercalate (out :: es)) := by
  induction h generalizing out with
  | nil => rw [assemble, List.intercalate_singleton]
  | cons hpart _ ih =>
      rw [assemble, if_pos hout, hpart]
      refine (ih (by simp [hout])).trans (congrArg Except.ok ?_)
      rw [List.intercalate_cons_cons, intercalate_append_cons]

/-- Before that, the parts that write nothing leave no separator. -/
theorem assemble_nil {parts : List DataPart} {es : List Bytes} (h : Encodings read parts es) :
    assemble read [] parts = .ok ([38].intercalate (es.dropWhile (· = []))) := by
  induction h with
  | nil => rfl
  | @cons part e parts es hpart hrest ih =>
      rw [assemble, if_neg (not_not.mpr rfl), hpart]
      by_cases he : e = []
      · rw [he, dropWhile_empty, ← ih]
        rfl
      · rw [dropWhile_written he]
        exact assemble_eq he hrest

theorem assembleFormBody_eq {parts : List DataPart} {es : List Bytes} (hne : parts ≠ [])
    (h : Encodings read parts es) :
    assembleFormBody read parts = .ok (some ([38].intercalate (es.dropWhile (· = [])))) := by
  rw [assembleFormBody, if_neg hne, assemble_nil h]
  rfl

end

/-! ## Empty parts in front -/

theorem length_intercalate_dropWhile (es : List Bytes) :
    ([38].intercalate (es.dropWhile (· = []))).length ≤ (([38] : Bytes).intercalate es).length := by
  induction es with
  | nil => exact le_rfl
  | cons e es ih =>
      by_cases he : e = []
      · rw [he, dropWhile_empty]
        refine ih.trans ?_
        cases es with
        | nil => exact Nat.zero_le _
        | cons e' es =>
            rw [List.intercalate_cons_cons, List.length_append]
            exact Nat.le_add_left _ _
      · rw [dropWhile_written he]

/-- Dropping the empty parts in front changes nothing just if there is one part, or none in front. -/
theorem intercalate_dropWhile_iff (e : Bytes) (es : List Bytes) :
    [38].intercalate ((e :: es).dropWhile (· = [])) = [38].intercalate (e :: es) ↔
      es = [] ∨ e ≠ [] := by
  by_cases he : e = []
  · rw [he, dropWhile_empty]
    cases es with
    | nil => simp
    | cons e' es =>
        refine iff_of_false (fun h => ?_) (by simp)
        have hle := length_intercalate_dropWhile (e' :: es)
        rw [h, List.intercalate_cons_cons] at hle
        simp at hle
  · rw [dropWhile_written he]
    exact iff_of_true rfl (.inr he)

/-! ## The encodings of parts that read no file -/

theorem partBytes_plain {value : Text} {atFileOk : Bool} (read : Text → Except Text Bytes)
    (h : (DataPart.plain value atFileOk).readsFile = false) :
    partBytes read (.plain value atFileOk) = .ok value.utf8 := by
  cases atFileOk with
  | false => rfl
  | true =>
      have hnone : Text.stripPrefix ['@'] value = none := Option.not_isSome_iff_eq_none.mp (by simpa [DataPart.readsFile] using h)
      simp only [partBytes, hnone, if_true]

theorem partBytes_binary {value : Text} (read : Text → Except Text Bytes)
    (h : (DataPart.binary value).readsFile = false) :
    partBytes read (.binary value) = .ok value.utf8 := by
  have hnone : Text.stripPrefix ['@'] value = none := Option.not_isSome_iff_eq_none.mp (by simpa [DataPart.readsFile] using h)
  simp only [partBytes, hnone]

theorem formByte_ne_nil (b : UInt8) : formByte b ≠ [] := by
  unfold formByte
  split
  · exact List.cons_ne_nil _ _
  · split <;> exact List.cons_ne_nil _ _

theorem percentEncodeForm_eq_nil {bytes : Bytes} : percentEncodeForm bytes = [] ↔ bytes = [] := by
  rw [percentEncodeForm, List.flatMap_eq_nil_iff]
  constructor
  · intro h
    cases bytes with
    | nil => rfl
    | cons b bytes => exact absurd (h b List.mem_cons_self) (formByte_ne_nil b)
  · rintro rfl
    exact nofun

theorem named_eq_nil {name encoded : Text} : named name encoded = [] ↔ name = [] ∧ encoded = [] := by
  unfold named
  split
  · next hname => rw [Text.utf8_eq_nil, and_iff_right hname]
  · next hname =>
      rw [Text.utf8_eq_nil]
      exact iff_of_false (by simp) fun h => hname h.1

theorem percentEncodeForm_utf8_eq_nil {t : Text} : percentEncodeForm t.utf8 = [] ↔ t = [] := by
  rw [percentEncodeForm_eq_nil, Text.utf8_eq_nil]

theorem encodeUrlencoded_of_text {value : Text} (read : Text → Except Text Bytes)
    (h : (DataPart.urlEncoded value).readsFile = false) :
    ∃ e, encodeUrlencoded read value = .ok e ∧
      (e = [] ↔ (DataPart.urlEncoded value).isSilent = true) := by
  have hsilent : (DataPart.urlEncoded value).isSilent = true ↔ value = [] ∨ value = ['='] := by
    rw [DataPart.isSilent, Bool.or_eq_true, beq_iff_eq, beq_iff_eq]
  rw [hsilent, encodeUrlencoded]
  cases hcut : Text.splitOnce '=' value with
  | some split =>
      obtain ⟨rfl, hname⟩ := Text.splitOnce_eq_some.mp hcut
      refine ⟨_, rfl, ?_⟩
      rw [named_eq_nil, percentEncodeForm_utf8_eq_nil]
      constructor
      · rintro ⟨hname, hvalue⟩
        exact .inr (by rw [hname, hvalue, List.nil_append])
      · rintro (h | h)
        · exact absurd h (by simp)
        · exact (by simpa [List.append_eq_cons_iff] using h)
  | none =>
      have heq := Text.splitOnce_eq_none.mp hcut
      have hat : Text.splitOnce '@' value = none := by
        rw [Text.splitOnce_eq_none]
        simpa [DataPart.readsFile, heq] using h
      rw [hat]
      refine ⟨_, rfl, ?_⟩
      rw [Text.utf8_eq_nil, percentEncodeForm_utf8_eq_nil, or_iff_left]
      rintro rfl
      exact heq List.mem_cons_self

/-- Every part that reads no file has an encoding, empty just if the part has nothing to write. -/
theorem partBytes_of_text {part : DataPart} (read : Text → Except Text Bytes)
    (h : part.readsFile = false) :
    ∃ e, partBytes read part = .ok e ∧ (e = [] ↔ part.isSilent = true) := by
  cases part with
  | plain value atFileOk =>
      refine ⟨_, partBytes_plain read h, ?_⟩
      rw [Text.utf8_eq_nil]
      exact beq_iff_eq.symm
  | binary value =>
      refine ⟨_, partBytes_binary read h, ?_⟩
      rw [Text.utf8_eq_nil]
      exact beq_iff_eq.symm
  | urlEncoded value => exact encodeUrlencoded_of_text read h

theorem exists_encodings {parts : List DataPart} (read : Text → Except Text Bytes)
    (h : ∀ part ∈ parts, part.readsFile = false) : ∃ es, Encodings read parts es := by
  induction parts with
  | nil => exact ⟨[], .nil⟩
  | cons part parts ih =>
      obtain ⟨hpart, hparts⟩ := List.forall_mem_cons.mp h
      obtain ⟨e, he, -⟩ := partBytes_of_text read hpart
      obtain ⟨es, hes⟩ := ih hparts
      exact ⟨e :: es, .cons he hes⟩

/-! ## Reading a form -/

/-- The decoding of a form's values: a plus sign is a space, `%HH` is a byte. -/
def formDecode (bytes : Bytes) : Bytes :=
  percentDecodeBytes (bytes.map fun b => if b = 43 then 32 else b)

theorem formDecode_plus (rest : Bytes) : formDecode (43 :: rest) = 32 :: formDecode rest :=
  percentDecodeBytes_plain (by decide) _

theorem formDecode_plain {b : UInt8} (hplus : b ≠ 43) (hpercent : b ≠ 37) (rest : Bytes) :
    formDecode (b :: rest) = b :: formDecode rest := by
  rw [formDecode, List.map_cons, if_neg hplus, percentDecodeBytes_plain hpercent, formDecode]

theorem formDecode_escape {h l : Char} {high low : Nat} (hh : hexDigit h = some high)
    (hl : hexDigit l = some low) (rest : Bytes) :
    formDecode (37 :: UInt8.ofNat h.toNat :: UInt8.ofNat l.toNat :: rest) =
      UInt8.ofNat (16 * high + low) :: formDecode rest := by
  obtain ⟨-, hhigh, -, hhVal⟩ := hexVal_of_hexDigit hh
  obtain ⟨-, hlow, -, hlVal⟩ := hexVal_of_hexDigit hl
  have hkept : ∀ {b v : UInt8}, hexVal b = some v → (if b = 43 then 32 else b) = b := by
    rintro b v hb
    refine if_neg ?_
    rintro rfl
    cases hb
  rw [formDecode, List.map_cons, List.map_cons, List.map_cons, hkept hhVal, hkept hlVal]
  refine (percentDecodeBytes_escape hhVal hlVal _).trans ?_
  rw [combine_digits hhigh hlow, formDecode]

/-- A byte that is left alone is that of an ASCII character, and no sign of the encoding. -/
theorem plain_ascii {b : UInt8} (h : isFormPlain b = true) :
    (Char.ofNat b.toNat).toNat = b.toNat ∧ b.toNat < 128 ∧ b ≠ 43 ∧ b ≠ 37 := by
  have hall : ∀ n : Fin 256, isFormPlain (UInt8.ofNat n.val) = true →
      (Char.ofNat n.val).toNat = n.val ∧ n.val < 128 ∧ UInt8.ofNat n.val ≠ 43 ∧
        UInt8.ofNat n.val ≠ 37 := by decide +kernel
  have hb := hall ⟨b.toNat, b.toNat_lt⟩
  rw [UInt8.ofNat_toNat] at hb
  exact hb h

theorem formDecode_formByte (b : UInt8) (rest : Bytes) :
    formDecode (Text.utf8 (formByte b) ++ rest) = b :: formDecode rest := by
  have hlt := b.toNat_lt
  unfold formByte
  split
  · next hb =>
      obtain ⟨hchar, hascii, hplus, hpercent⟩ := plain_ascii hb
      rw [utf8_cons_ascii (by omega), hchar, UInt8.ofNat_toNat]
      exact formDecode_plain hplus hpercent rest
  · split
    · next hspace =>
        rw [hspace]
        exact formDecode_plus rest
    · next hother =>
        have hhigh := hexDigit_upperHex (n := b.toNat / 16) (by omega)
        have hlow := hexDigit_upperHex (n := b.toNat % 16) (by omega)
        rw [utf8_cons_ascii (by decide), utf8_cons_ascii (hexVal_of_hexDigit hhigh).1,
          utf8_cons_ascii (hexVal_of_hexDigit hlow).1]
        refine (formDecode_escape hhigh hlow rest).trans ?_
        rw [Nat.div_add_mod, UInt8.ofNat_toNat]

theorem formDecode_percentEncodeForm (bytes : Bytes) :
    formDecode (percentEncodeForm bytes).utf8 = bytes := by
  induction bytes with
  | nil => rfl
  | cons b bytes ih =>
      have hcons : (percentEncodeForm (b :: bytes)).utf8 =
          (formByte b).utf8 ++ (percentEncodeForm bytes).utf8 := List.flatMap_append
      rw [hcons, formDecode_formByte, ih]

/-! ## The law of the data options -/

/-- The body is the parts' own encodings, a separator between each two of them. -/
def Joined (read : Text → Except Text Bytes) (parts : List DataPart) : Prop :=
  ∃ es, Encodings read parts es ∧ assembleFormBody read parts = .ok (some ([38].intercalate es))

/-- What is written for `=content` is read as the content. -/
def ReadsBack (read : Text → Except Text Bytes) (content : Text) : Prop :=
  ∃ e, encodeUrlencoded read ('=' :: content) = .ok e ∧ formDecode e = content.utf8

theorem readsBack (read : Text → Except Text Bytes) (content : Text) : ReadsBack read content := by
  refine ⟨(percentEncodeForm content.utf8).utf8, ?_, formDecode_percentEncodeForm _⟩
  have hcut : Text.splitOnce '=' ('=' :: content) = some ([], content) :=
    Text.splitOnce_eq_some.mpr ⟨rfl, List.not_mem_nil⟩
  rw [encodeUrlencoded, hcut]
  rfl

/-- Parts without files are joined, and their contents can be read, just if there is one part or
the first has something to write. -/
theorem dataLaw_iff {read : Text → Except Text Bytes} {first : DataPart} {parts : List DataPart}
    (hfiles : ∀ part ∈ first :: parts, part.readsFile = false) :
    (Joined read (first :: parts) ∧ ∀ content, ReadsBack read content) ↔
      parts = [] ∨ first.isSilent = false := by
  obtain ⟨es, hes⟩ := exists_encodings read hfiles
  rw [and_iff_left (readsBack read)]
  cases hes with
  | @cons _ e _ es hfirst hrest =>
      obtain ⟨e', he', hsilent⟩ := partBytes_of_text read (hfiles first List.mem_cons_self)
      obtain rfl : e = e' := Except.ok.inj (hfirst.symm.trans he')
      have hall : Encodings read (first :: parts) (e :: es) := .cons hfirst hrest
      have hparts : parts = [] ↔ es = [] := by
        rw [← List.length_eq_zero_iff, ← List.length_eq_zero_iff, hrest.length_eq]
      have hempty : first.isSilent = false ↔ e ≠ [] := by
        rw [ne_eq, hsilent, Bool.not_eq_true]
      rw [hparts, hempty, ← intercalate_dropWhile_iff, Joined,
        assembleFormBody_eq (List.cons_ne_nil _ _) hall]
      constructor
      · rintro ⟨es', hes', hbody⟩
        obtain rfl := encodings_unique hall hes'
        exact Option.some.inj (Except.ok.inj hbody)
      · intro hjoin
        exact ⟨e :: es, hall, by rw [hjoin]⟩

/-- Two of the parts have something to write. -/
theorem dataLaw_iff_sample :
    (Joined (fun _ => .error []) [.urlEncoded "k=a b".toList, .plain [] true, .binary "c".toList] ∧
        ∀ content, ReadsBack (fun _ => .error []) content) ↔
      [DataPart.plain [] true, .binary "c".toList] = [] ∨
        (DataPart.urlEncoded "k=a b".toList).isSilent = false :=
  dataLaw_iff (by decide)

/-- The separator behind an empty part in front is missing: `-d "" -d a`. -/
theorem separator_dropped :
    ¬ ((∃ es, Encodings (fun _ => .error []) [.plain [] true, .plain ['a'] true] es ∧
        assembleFormBody (fun _ => .error []) [.plain [] true, .plain ['a'] true] =
          .ok (some ([38].intercalate es))) ∧
      ∀ content, ReadsBack (fun _ => .error []) content) := by
  rintro ⟨⟨es, hes, hbody⟩, -⟩
  have hparts : Encodings (fun _ => .error []) [.plain [] true, .plain ['a'] true] [[], [97]] :=
    .cons rfl (.cons rfl .nil)
  obtain rfl := encodings_unique hparts hes
  cases hbody

end Rsurl.Cli
