/-
# `Rsurl.Cli.FormData` — reading what the `-F` options send

The body read as `multipart/form-data`: its frame, the header lines of a
content, the attributes of its disposition, with the escaping of the mode
undone.  Whatever the names are, the body is read as its parts, with the
attributes that the reader gets (`readForm_framed`).
-/
import Rsurl.Base.Framed
import Rsurl.Cli.Multipart

namespace Rsurl.Cli.Multipart

open Base (Frame)

/-! ## The reader -/

/-- The frame of a boundary. -/
def frame (boundary : Bytes) (h : 13 ∉ boundary) : Frame UInt8 where
  dash := [45, 45]
  delimiter := 45 :: 45 :: boundary
  first := 13
  second := [10]
  first_not_mem := by simpa using h
  dash_ne := ⟨45, [45], rfl, by decide⟩

/-- What is behind an opening quote, up to the closing one, without the backslashes. -/
def readQuoted : Bytes → Option (Bytes × Bytes)
  | [] => none
  | 34 :: rest => some ([], rest)
  | 92 :: 34 :: rest => (readQuoted rest).map fun (v, r) => (34 :: v, r)
  | 92 :: 92 :: rest => (readQuoted rest).map fun (v, r) => (92 :: v, r)
  | b :: rest => (readQuoted rest).map fun (v, r) => (b :: v, r)

/-- The value of an attribute, its escaping undone. -/
def readAttr (escape : Bool) (input : Bytes) : Option (Text × Bytes) :=
  if escape then do
    let (v, _, rest) ← Base.cut (· == 34) input
    return (← fromUtf8 (percentDecodeBytes v), rest)
  else do
    let (v, rest) ← readQuoted input
    return (← fromUtf8 v, rest)

/-- The attributes behind `form-data`. -/
def readParams (escape : Bool) : Nat → Bytes → Option (List (Bytes × Text))
  | 0, _ => none
  | n + 1, input =>
      if input = [] then some []
      else do
        let input ← input.dropPrefix? (Text.utf8 "; ".toList)
        let (attr, _, input) ← Base.cut (· == 61) input
        let input ← input.dropPrefix? [34]
        let (value, rest) ← readAttr escape input
        let params ← readParams escape n rest
        return (attr, value) :: params

/-- A lower-case byte. -/
def lowerByte (b : UInt8) : UInt8 := if 65 ≤ b ∧ b ≤ 90 then b + 32 else b

/-- A header line: its name in lower case, and its value behind a blank. -/
def readField (line : Bytes) : Option (Bytes × Bytes) :=
  (Base.cut (· == 58) line).map fun (name, _, value) =>
    (name.map lowerByte, (value.dropPrefix? [32]).getD value)

/-- A part, as it is received. -/
structure Received where
  name : Text
  filename : Option Text
  contentType : Option Text
  body : Bytes
deriving DecidableEq, Repr

/-- The part of these fields and this body. -/
def readFields (escape : Bool) (fields : List (Bytes × Bytes)) (body : Bytes) : Option Received := do
  let disposition ← fields.lookup (Text.utf8 "content-disposition".toList)
  let attrs ← disposition.dropPrefix? (Text.utf8 "form-data".toList)
  let params ← readParams escape (attrs.length + 1) attrs
  let name ← params.lookup (Text.utf8 "name".toList)
  let contentType ← (fields.lookup (Text.utf8 "content-type".toList)).mapM fromUtf8
  return ⟨name, params.lookup (Text.utf8 "filename".toList), contentType, body⟩

def readPart (escape : Bool) (content : Bytes) : Option Received := do
  let (lines, body) ← (frame [] List.not_mem_nil).headLines content.length content
  let fields ← lines.mapM readField
  readFields escape fields body

def readForm (escape : Bool) (boundary body : Bytes) : Option (List Received) :=
  if h : 13 ∉ boundary then
    ((frame boundary h).read body).bind fun contents => contents.mapM (readPart escape)
  else none

/-! ## What was sent -/

def FormExtra.type? : FormExtra → Option Text
  | .type t => some t
  | _ => none

def FormExtra.filename? : FormExtra → Option Text
  | .filename f => some f
  | _ => none

/-- The last `;filename=`. -/
def filename (part : FormPart) : Option Text := (part.extras.filterMap FormExtra.filename?).getLast?

/-- The last `;type=`, or the type of a file without one. -/
def sentType (part : FormPart) : Option Text :=
  (part.extras.filterMap FormExtra.type?).getLast?.or
    ((filename part).map fun _ => "application/octet-stream".toList)

/-- The bytes of a body that is no file. -/
def literalBytes : FormBody → Option Bytes
  | .literal s | .literalStrict s => some s.utf8
  | .file _ | .fileAsField _ => none

def sent (part : FormPart) : Received :=
  ⟨part.name, filename part, sentType part, (literalBytes part.body).getD []⟩

def NoBreak (t : Text) : Prop := '\r' ∉ t ∧ '\n' ∉ t

/-- A part the format has room for: no delimiter in the body, no line break in a header. -/
structure Sendable (escape : Bool) (boundary : Bytes) (part : FormPart) : Prop where
  body : ∃ bytes, literalBytes part.body = some bytes ∧
    ¬ crlf ++ 45 :: 45 :: boundary <:+: crlf ++ bytes
  names : escape = false → NoBreak part.name
  types : ∀ t, .type t ∈ part.extras → NoBreak t
  filenames : ∀ f, .filename f ∈ part.extras → escape = false → NoBreak f
  headersFiles : ∀ path, .headersFile path ∉ part.extras

/-! ## What is written for a part -/

theorem getLast?_cons_or (a : Text) (l : List Text) (o : Option Text) :
    (a :: l).getLast?.or o = l.getLast?.or (some a) := by
  rw [List.getLast?_cons]
  cases l.getLast? <;> rfl

/-- The modifiers set the last type and the last file name, which makes the part an upload. -/
theorem foldlM_applyExtra (read : Text → Except Text Bytes) {extras : List FormExtra}
    (h : ∀ path, .headersFile path ∉ extras) (o : Overrides) :
    extras.foldlM (applyExtra read) o = .ok
      { ctype := (extras.filterMap FormExtra.type?).getLast?.or o.ctype
        filename := (extras.filterMap FormExtra.filename?).getLast?.or o.filename
        extraHeaders := o.extraHeaders
        promoteToUpload := (extras.filterMap FormExtra.filename?).getLast?.isSome ||
          o.promoteToUpload } := by
  induction extras generalizing o with
  | nil => rfl
  | cons extra extras ih =>
      have hrest := ih fun path hmem => h path (List.mem_cons_of_mem _ hmem)
      cases extra with
      | type t =>
          have htypes : (FormExtra.type t :: extras).filterMap FormExtra.type? =
              t :: extras.filterMap FormExtra.type? := rfl
          have hnames : (FormExtra.type t :: extras).filterMap FormExtra.filename? =
              extras.filterMap FormExtra.filename? := rfl
          rw [htypes, hnames, getLast?_cons_or]
          exact hrest _
      | filename f =>
          have htypes : (FormExtra.filename f :: extras).filterMap FormExtra.type? =
              extras.filterMap FormExtra.type? := rfl
          have hnames : (FormExtra.filename f :: extras).filterMap FormExtra.filename? =
              f :: extras.filterMap FormExtra.filename? := rfl
          rw [htypes, hnames, getLast?_cons_or, List.getLast?_cons, Option.isSome_some, Bool.true_or]
          refine (hrest _).trans ?_
          rw [Bool.or_true]
      | headersFile path => exact absurd List.mem_cons_self (h path)

/-- `name` and `filename` of a disposition. -/
def attrsOf (name : Text) (filename : Option Text) (escape : Bool) : Bytes :=
  Text.utf8 "; name=\"".toList ++ ((encodeAttr name escape).utf8 ++ 34 :: match filename with
    | some f => Text.utf8 "; filename=\"".toList ++ ((encodeAttr f escape).utf8 ++ [34])
    | none => [])

/-- The header lines of a part. -/
def linesOf (name : Text) (filename ctype : Option Text) (escape : Bool) : List Bytes :=
  (Text.utf8 "Content-Disposition: form-data".toList ++ attrsOf name filename escape) ::
    (ctype.map fun t => Text.utf8 "Content-Type: ".toList ++ t.utf8).toList

theorem disposition_eq {name : Text} {o : Overrides} (h : o.promoteToUpload = o.filename.isSome)
    (escape : Bool) :
    disposition name o escape =
      Text.utf8 "Content-Disposition: form-data".toList ++ attrsOf name o.filename escape ++ crlf := by
  have hfront : Text.utf8 "Content-Disposition: form-data; name=\"".toList =
      Text.utf8 "Content-Disposition: form-data".toList ++ Text.utf8 "; name=\"".toList := rfl
  rw [disposition, hfront, h]
  cases o.filename with
  | none => simp [attrsOf]
  | some f => simp [attrsOf]

theorem contentType_eq {o : Overrides} (h : o.promoteToUpload = o.filename.isSome) :
    contentType o = ((o.ctype.or (o.filename.map fun _ => "application/octet-stream".toList)).map
      fun t => Text.utf8 "Content-Type: ".toList ++ t.utf8).toList.flatMap (· ++ crlf) := by
  rw [contentType, h]
  cases o.ctype with
  | some t => simp
  | none =>
      cases o.filename with
      | none => rfl
      | some f => rfl

/-- A part with a literal body is written as its lines, an empty one and the body. -/
theorem writePart_eq (read : Text → Except Text Bytes) {part : FormPart} {bytes : Bytes}
    (f : Frame UInt8) (heol : f.eol = crlf) (hbody : literalBytes part.body = some bytes)
    (hextras : ∀ path, .headersFile path ∉ part.extras) (escape : Bool) (out : Bytes) :
    writePart read part escape out = .ok (out ++
      f.headed (linesOf part.name (filename part) (sentType part) escape) bytes) := by
  have hread : bodyBytes read part.body = .ok (bytes, none, false) := by
    cases hb : part.body with
    | literal s => rw [hb] at hbody; cases hbody; rfl
    | literalStrict s => rw [hb] at hbody; cases hbody; rfl
    | file path => rw [hb] at hbody; cases hbody
    | fileAsField path => rw [hb] at hbody; cases hbody
  have hfold := foldlM_applyExtra read hextras ⟨none, none, [], false⟩
  simp only [Option.or_none, Bool.or_false] at hfold
  rw [writePart, hread]
  simp only [bind, Except.bind, hfold]
  rw [disposition_eq rfl, contentType_eq rfl, Frame.headed, linesOf, List.flatMap_cons, heol, filename,
    sentType, filename]
  simp only [List.append_assoc, List.append_nil]
  rfl

/-! ## Reading an attribute -/

/-- What the reader gets for an attribute. -/
def received (escape : Bool) (t : Text) : Option Text :=
  if escape then fromUtf8 (percentDecodeBytes (encodeAttr t true).utf8) else some t

theorem readQuoted_plain {b : UInt8} (hquote : b ≠ 34) (hslash : b ≠ 92) (rest : Bytes) :
    readQuoted (b :: rest) = (readQuoted rest).map fun (v, r) => (b :: v, r) := by
  rw [readQuoted]
  · exact hquote
  · rintro _ rfl -
    exact hslash rfl
  · rintro _ rfl -
    exact hslash rfl

theorem readQuoted_append {bs : Bytes} (hquote : 34 ∉ bs) (hslash : 92 ∉ bs) (rest : Bytes) :
    readQuoted (bs ++ rest) = (readQuoted rest).map fun (v, r) => (bs ++ v, r) := by
  induction bs with
  | nil => simp
  | cons b bs ih =>
      simp only [List.mem_cons, not_or] at hquote hslash
      rw [List.cons_append, readQuoted_plain (Ne.symm hquote.1) (Ne.symm hslash.1),
        ih hquote.2 hslash.2, Option.map_map]
      rfl

/-- The backslashes of the default mode are read away. -/
theorem readQuoted_encodeAttr (t : Text) (rest : Bytes) :
    readQuoted ((encodeAttr t false).utf8 ++ 34 :: rest) = some (t.utf8, rest) := by
  induction t with
  | nil => rw [encodeAttr, if_neg Bool.false_ne_true]; rfl
  | cons c t ih =>
      have hcons : (encodeAttr (c :: t) false).utf8 =
          (escapeChar c).utf8 ++ (encodeAttr t false).utf8 := Text.utf8_append _ _
      rw [hcons, List.append_assoc, Text.utf8_cons]
      by_cases hquote : c = '"'
      · have hbytes : Text.utf8 (escapeChar '"') = [92, 34] := rfl
        rw [hquote, hbytes, List.cons_append, List.cons_append, List.nil_append, readQuoted, ih]
        rfl
      by_cases hslash : c = '\\'
      · have hbytes : Text.utf8 (escapeChar '\\') = [92, 92] := rfl
        rw [hslash, hbytes, List.cons_append, List.cons_append, List.nil_append, readQuoted, ih]
        rfl
      · have hone : Text.utf8 [c] = String.utf8EncodeChar c := List.append_nil _
        have hq : 34 ∉ Text.utf8 [c] :=
          Text.not_mem_utf8 (c := '"') (by decide) (by simpa using Ne.symm hquote)
        have hs : 92 ∉ Text.utf8 [c] :=
          Text.not_mem_utf8 (c := '\\') (by decide) (by simpa using Ne.symm hslash)
        rw [escapeChar, if_neg hquote, if_neg hslash, readQuoted_append hq hs, ih, hone]
        rfl

/-- No quote is left in an attribute of the escape mode, and no line break. -/
theorem not_mem_escaped {t : Text} {c : Char} (hc : c = '"' ∨ c = '\r') : c ∉ encodeAttr t true := by
  rw [encodeAttr, if_pos rfl, List.mem_flatMap]
  rintro ⟨b, -, hb⟩
  have hall : ∀ n : Fin 256, '"' ∉ escapeByte (UInt8.ofNat n.val) ∧
      '\r' ∉ escapeByte (UInt8.ofNat n.val) := by decide +kernel
  have hnone := hall ⟨b.toNat, b.toNat_lt⟩
  rw [UInt8.ofNat_toNat] at hnone
  rcases hc with rfl | rfl
  · exact hnone.1 hb
  · exact hnone.2 hb

theorem readAttr_encodeAttr (escape : Bool) (t : Text) (rest : Bytes) :
    readAttr escape ((encodeAttr t escape).utf8 ++ 34 :: rest) =
      (received escape t).map fun t => (t, rest) := by
  cases escape with
  | false =>
      rw [readAttr, if_neg Bool.false_ne_true, readQuoted_encodeAttr]
      simp only [Option.bind_eq_bind, Option.bind_some, fromUtf8_utf8]
      rfl
  | true =>
      have hcut : Base.cut (· == 34) ((encodeAttr t true).utf8 ++ 34 :: rest) =
          some ((encodeAttr t true).utf8, 34, rest) := by
        refine Base.cut_append (fun b hb => ?_) rfl
        have hquote : (34 : UInt8) ∉ (encodeAttr t true).utf8 :=
          Text.not_mem_utf8 (c := '"') (by decide) (not_mem_escaped (.inl rfl))
        exact beq_eq_false_iff_ne.mpr fun h => hquote (h ▸ hb)
      rw [readAttr, if_pos rfl, hcut, received, if_pos rfl]
      simp only [Option.bind_eq_bind, Option.bind_some, Option.map_eq_bind]
      rfl

/-! ## Reading a part -/

/-- One attribute, and those behind it. -/
theorem readParams_cons {attr : Bytes} (hattr : 61 ∉ attr) (escape : Bool) (t : Text) (rest : Bytes)
    (n : Nat) :
    readParams escape (n + 1)
        (Text.utf8 "; ".toList ++ (attr ++ 61 :: 34 :: ((encodeAttr t escape).utf8 ++ 34 :: rest))) =
      (received escape t).bind fun t => (readParams escape n rest).map ((attr, t) :: ·) := by
  have hcut : ∀ tail, Base.cut (· == 61) (attr ++ 61 :: tail) = some (attr, 61, tail) := fun tail =>
    Base.cut_append (fun b hb => beq_eq_false_iff_ne.mpr fun h => hattr (h ▸ hb)) rfl
  have hquote : ∀ tail : Bytes, (34 :: tail).dropPrefix? [34] = some tail := fun tail =>
    Base.dropPrefix?_append [34] tail
  rw [readParams, if_neg (List.append_ne_nil_of_left_ne_nil (by decide) _), Base.dropPrefix?_append]
  simp only [Option.bind_eq_bind, Option.bind_some, hcut, hquote, readAttr_encodeAttr]
  cases received escape t with
  | none => rfl
  | some t => cases hrest : readParams escape n rest <;> simp [hrest]

theorem readParams_attrsOf (name : Text) (filename : Option Text) (escape : Bool) (n : Nat) :
    readParams escape (n + 3) (attrsOf name filename escape) =
      (received escape name).bind fun name => (filename.mapM (received escape)).map fun filename =>
        (Text.utf8 "name".toList, name) ::
          (filename.map fun f => (Text.utf8 "filename".toList, f)).toList := by
  have hname : ∀ rest, Text.utf8 "; name=\"".toList ++ rest =
      Text.utf8 "; ".toList ++ (Text.utf8 "name".toList ++ 61 :: 34 :: rest) := fun _ => rfl
  have hfile : ∀ rest, Text.utf8 "; filename=\"".toList ++ rest =
      Text.utf8 "; ".toList ++ (Text.utf8 "filename".toList ++ 61 :: 34 :: rest) := fun _ => rfl
  have hend : ∀ n, readParams escape (n + 1) [] = some [] := fun n => if_pos rfl
  unfold attrsOf
  rw [hname, readParams_cons (by decide)]
  cases filename with
  | none =>
      simp only [hend]
      rfl
  | some f =>
      have hlast : ∀ n, readParams escape (n + 2) (Text.utf8 "; filename=\"".toList ++
          ((encodeAttr f escape).utf8 ++ [34])) =
            (received escape f).map fun f => [(Text.utf8 "filename".toList, f)] := by
        intro n
        rw [hfile, readParams_cons (by decide), hend]
        exact (Option.map_eq_bind ..).symm
      have hmap : (some f).mapM (received escape) = (received escape f).map some := by
        rw [Option.mapM_some]
        cases received escape f <;> rfl
      generalize Text.utf8 "filename".toList = key at hlast
      rw [hlast, hmap]
      refine congrArg _ (funext fun name => ?_)
      rw [Option.map_map, Option.map_map]
      rfl

/-! ## Reading a part -/

theorem readField_eq (name : Bytes) (h : 58 ∉ name) (value : Bytes) :
    readField (name ++ 58 :: 32 :: value) = some (name.map lowerByte, value) := by
  have hcut : Base.cut (· == 58) (name ++ 58 :: 32 :: value) = some (name, 58, 32 :: value) :=
    Base.cut_append (fun b hb => beq_eq_false_iff_ne.mpr fun he => h (he ▸ hb)) rfl
  have hblank : (32 :: value).dropPrefix? [32] = some value := Base.dropPrefix?_append [32] value
  rw [readField, hcut]
  refine congrArg some (Prod.ext rfl ?_)
  show ((32 :: value).dropPrefix? [32]).getD _ = value
  rw [hblank, Option.getD_some]

/-- The fields of a part's lines, by their names in lower case. -/
theorem mapM_linesOf (name : Text) (filename ctype : Option Text) (escape : Bool) :
    (linesOf name filename ctype escape).mapM readField =
      some ((Text.utf8 "content-disposition".toList,
          Text.utf8 "form-data".toList ++ attrsOf name filename escape) ::
        (ctype.map fun t => (Text.utf8 "content-type".toList, t.utf8)).toList) := by
  have hdisposition : readField
      (Text.utf8 "Content-Disposition: form-data".toList ++ attrsOf name filename escape) =
        some (Text.utf8 "content-disposition".toList,
          Text.utf8 "form-data".toList ++ attrsOf name filename escape) :=
    readField_eq (Text.utf8 "Content-Disposition".toList) (by decide)
      (Text.utf8 "form-data".toList ++ attrsOf name filename escape)
  have htype : ∀ t : Text, readField (Text.utf8 "Content-Type: ".toList ++ t.utf8) =
      some (Text.utf8 "content-type".toList, t.utf8) := fun t =>
    readField_eq (Text.utf8 "Content-Type".toList) (by decide) t.utf8
  rw [linesOf, List.mapM_cons, hdisposition]
  cases ctype with
  | none => rfl
  | some t =>
      rw [Option.map_some, Option.toList_some, List.mapM_cons, htype]
      rfl

theorem lookup_other {k k' : Bytes} (h : k ≠ k') {β : Type} (v : β) (rest : List (Bytes × β)) :
    ((k', v) :: rest).lookup k = rest.lookup k := by
  rw [List.lookup_cons, beq_false_of_ne h]

theorem readFields_eq (name : Text) (filename ctype : Option Text) (escape : Bool) (bytes : Bytes) :
    readFields escape ((Text.utf8 "content-disposition".toList,
        Text.utf8 "form-data".toList ++ attrsOf name filename escape) ::
        (ctype.map fun t => (Text.utf8 "content-type".toList, t.utf8)).toList) bytes =
      (received escape name).bind fun name => (filename.mapM (received escape)).map fun filename =>
        ⟨name, filename, ctype, bytes⟩ := by
  have hfile : Text.utf8 "filename".toList ≠ Text.utf8 "name".toList := by decide
  have hother : Text.utf8 "content-type".toList ≠ Text.utf8 "content-disposition".toList := by decide
  obtain ⟨n, hn⟩ : ∃ n, (attrsOf name filename escape).length + 1 = n + 3 := by
    refine ⟨(attrsOf name filename escape).length - 2, ?_⟩
    have hlength : 2 ≤ (attrsOf name filename escape).length := by
      unfold attrsOf
      rw [List.length_append]
      exact Nat.le_add_right_of_le (by decide)
    omega
  rw [readFields, List.lookup_cons_self, lookup_other hother]
  simp only [Option.bind_eq_bind, Option.bind_some, Base.dropPrefix?_append, hn, readParams_attrsOf]
  generalize Text.utf8 "name".toList = nameKey at hfile ⊢
  generalize Text.utf8 "filename".toList = filenameKey at hfile ⊢
  generalize Text.utf8 "content-type".toList = typeKey
  have hctype : ((ctype.map fun t => (typeKey, t.utf8)).toList.lookup typeKey).mapM fromUtf8 =
      some ctype := by
    cases ctype with
    | none => rfl
    | some t => rw [Option.map_some, Option.toList_some, List.lookup_cons_self, Option.mapM_some,
        fromUtf8_utf8]; rfl
  rw [hctype]
  cases received escape name with
  | none => rfl
  | some name =>
      cases filename.mapM (received escape) with
      | none => rfl
      | some filename =>
          simp only [Option.bind_some, Option.map_some, List.lookup_cons_self, lookup_other hfile]
          cases filename with
          | none => rfl
          | some f => rw [Option.map_some, Option.toList_some, List.lookup_cons_self]; rfl

/-- A part's lines and body are read as what the reader gets for its attributes. -/
theorem readPart_headed {name : Text} {filename ctype : Option Text} {escape : Bool} (f : Frame UInt8)
    (heol : f.eol = crlf)
    (hlines : ∀ l ∈ linesOf name filename ctype escape, l ≠ [] ∧ 13 ∉ l) (bytes : Bytes) :
    readPart escape (f.headed (linesOf name filename ctype escape) bytes) =
      (received escape name).bind fun name => (filename.mapM (received escape)).map fun filename =>
        ⟨name, filename, ctype, bytes⟩ := by
  have hframe : f.headed (linesOf name filename ctype escape) bytes =
      (frame [] List.not_mem_nil).headed (linesOf name filename ctype escape) bytes := by
    unfold Frame.headed
    rw [heol]
    rfl
  have hlength := Frame.length_lt_headed (f := frame [] List.not_mem_nil)
    (linesOf name filename ctype escape) bytes
  have hhead := Frame.headLines_headed (f := frame [] List.not_mem_nil) hlines bytes hlength
  rw [readPart, hframe, hhead]
  simp only [Option.bind_eq_bind, Option.bind_some, mapM_linesOf, readFields_eq]

/-! ## The lines of a part -/

theorem not_mem_encodeAttr {escape : Bool} {t : Text} (h : escape = false → NoBreak t) :
    13 ∉ (encodeAttr t escape).utf8 := by
  refine Text.not_mem_utf8 (c := '\r') (by decide) ?_
  cases escape with
  | true => exact not_mem_escaped (.inr rfl)
  | false =>
      rw [encodeAttr, if_neg Bool.false_ne_true, List.mem_flatMap]
      rintro ⟨c, hc, hmem⟩
      unfold escapeChar at hmem
      split at hmem
      · exact absurd hmem (by decide)
      · split at hmem
        · exact absurd hmem (by decide)
        · rw [List.mem_singleton] at hmem
          exact (h rfl).1 (hmem ▸ hc)

theorem linesOf_clean {name : Text} {filename ctype : Option Text} {escape : Bool}
    (hname : escape = false → NoBreak name)
    (hfilename : ∀ f, filename = some f → escape = false → NoBreak f)
    (htype : ∀ t, ctype = some t → NoBreak t) :
    ∀ l ∈ linesOf name filename ctype escape, 13 ∉ l ∧ ∃ a t, l = a :: t ∧ 45 ≠ a := by
  have hattrs : 13 ∉ attrsOf name filename escape := by
    unfold attrsOf
    rw [List.mem_append, List.mem_append, List.mem_cons]
    rintro (h | h | h | h)
    · exact absurd h (by decide)
    · exact not_mem_encodeAttr hname h
    · exact absurd h (by decide)
    · cases hf : filename with
      | none => rw [hf] at h; cases h
      | some f =>
          rw [hf] at h
          rcases List.mem_append.mp h with h | h
          · exact absurd h (by decide)
          · rcases List.mem_append.mp h with h | h
            · exact not_mem_encodeAttr (hfilename f hf) h
            · exact absurd h (by decide)
  rw [linesOf, List.forall_mem_cons]
  refine ⟨⟨?_, 67, _, rfl, by decide⟩, ?_⟩
  · rw [List.mem_append]
    rintro (h | h)
    · exact absurd h (by decide)
    · exact hattrs h
  · intro l hl
    obtain ⟨t, ht, rfl⟩ := Option.map_eq_some_iff.mp (Option.mem_toList.mp hl)
    refine ⟨?_, 67, _, rfl, by decide⟩
    rw [List.mem_append]
    rintro (h | h)
    · exact absurd h (by decide)
    · exact Text.not_mem_utf8 (c := '\r') (by decide) (htype t ht).1 h

/-! ## The body -/

/-- The content of a part. -/
def contentOf (f : Frame UInt8) (escape : Bool) (part : FormPart) : Bytes :=
  f.headed (linesOf part.name (filename part) (sentType part) escape) ((literalBytes part.body).getD [])

/-- The part, as it is received. -/
def receivedPart (escape : Bool) (part : FormPart) : Option Received :=
  (received escape part.name).bind fun name =>
    ((filename part).mapM (received escape)).map fun filename =>
      ⟨name, filename, sentType part, (literalBytes part.body).getD []⟩

theorem lowerHex_ne {n : Nat} (h : n < 16) : '\r' ≠ lowerHex n := by
  have hall : ∀ n : Fin 16, '\r' ≠ lowerHex n.val := by decide
  exact hall ⟨n, h⟩

theorem not_mem_makeBoundary (buf : Bytes) : 13 ∉ (makeBoundary buf).utf8 := by
  have hchar : '\r' ∉ makeBoundary buf := by
    intro h
    rcases List.mem_append.mp h with h | h
    · exact absurd h (by decide)
    · obtain ⟨b, -, hb⟩ := List.mem_flatMap.mp h
      have hlt := b.toNat_lt
      rcases List.mem_cons.mp hb with hb | hb
      · exact lowerHex_ne (by omega) hb
      · exact lowerHex_ne (by omega) (List.mem_singleton.mp hb)
  exact Text.not_mem_utf8 (c := '\r') (by decide) hchar

section

variable {read : Text → Except Text Bytes} {escape : Bool} {boundary : Text} {parts : List FormPart}
  {part : FormPart}

theorem Sendable.clean (h : Sendable escape boundary.utf8 part) :
    ∀ l ∈ linesOf part.name (filename part) (sentType part) escape,
      13 ∉ l ∧ ∃ a t, l = a :: t ∧ 45 ≠ a := by
  refine linesOf_clean h.names (fun f hf => h.filenames f ?_) fun t ht => ?_
  · obtain ⟨extra, hmem, hextra⟩ := List.mem_filterMap.mp (List.mem_of_getLast? hf)
    cases extra with
    | filename f' => cases hextra; exact hmem
    | type t => cases hextra
    | headersFile path => cases hextra
  · rw [sentType] at ht
    cases hlast : (part.extras.filterMap FormExtra.type?).getLast? with
    | none =>
        rw [hlast, Option.none_or] at ht
        obtain ⟨_, _, rfl⟩ := Option.map_eq_some_iff.mp ht
        exact ⟨by decide, by decide⟩
    | some t' =>
        rw [hlast, Option.some_or] at ht
        cases ht
        obtain ⟨extra, hmem, hextra⟩ := List.mem_filterMap.mp (List.mem_of_getLast? hlast)
        cases extra with
        | type t => cases hextra; exact h.types _ hmem
        | filename f => cases hextra
        | headersFile path => cases hextra

theorem writeParts_eq (hboundary : 13 ∉ boundary.utf8)
    (h : ∀ part ∈ parts, Sendable escape boundary.utf8 part) (out : Bytes) :
    ∃ w, writeParts read boundary escape out parts = .ok w ∧
      w ++ [45, 45] ++ boundary.utf8 ++ [45, 45] ++ crlf = out ++
        (frame boundary.utf8 hboundary).framed
          (parts.map (contentOf (frame boundary.utf8 hboundary) escape)) := by
  induction parts generalizing out with
  | nil =>
      refine ⟨out, rfl, ?_⟩
      simp only [List.append_assoc]
      rfl
  | cons part parts ih =>
      obtain ⟨hpart, hparts⟩ := List.forall_mem_cons.mp h
      obtain ⟨bytes, hbytes, -⟩ := hpart.body
      have hwrite := writePart_eq read (frame boundary.utf8 hboundary) rfl hbytes
        hpart.headersFiles escape (out ++ [45, 45] ++ boundary.utf8 ++ crlf)
      obtain ⟨w, hw, hframed⟩ := ih hparts (out ++ [45, 45] ++ boundary.utf8 ++ crlf ++
        contentOf (frame boundary.utf8 hboundary) escape part ++ crlf)
      refine ⟨w, ?_, ?_⟩
      · rw [writeParts, hwrite]
        rw [contentOf, hbytes] at hw
        exact hw
      · rw [hframed, List.map_cons]
        simp only [Frame.framed, Frame.behind, List.append_assoc]
        rfl

theorem build_eq {buf : Bytes} (h : ∀ part ∈ parts, Sendable escape (makeBoundary buf).utf8 part) :
    build read buf parts escape = .ok (makeBoundary buf,
      (frame (makeBoundary buf).utf8 (not_mem_makeBoundary buf)).framed
        (parts.map (contentOf (frame (makeBoundary buf).utf8 (not_mem_makeBoundary buf)) escape))) := by
  obtain ⟨w, hw, hframed⟩ : ∃ w, writeParts read (makeBoundary buf) escape [] parts = .ok w ∧ _ :=
    writeParts_eq (not_mem_makeBoundary buf) h []
  rw [build, hw]
  exact congrArg (fun body => Except.ok (makeBoundary buf, body)) hframed

/-- Every content is read as the part that is received. -/
theorem readForm_framed (hboundary : 13 ∉ boundary.utf8)
    (h : ∀ part ∈ parts, Sendable escape boundary.utf8 part) :
    readForm escape boundary.utf8 ((frame boundary.utf8 hboundary).framed
        (parts.map (contentOf (frame boundary.utf8 hboundary) escape))) =
      parts.mapM (receivedPart escape) := by
  have hcontent : ∀ part ∈ parts, readPart escape (contentOf (frame boundary.utf8 hboundary) escape part) =
      receivedPart escape part := by
    intro part hpart
    refine readPart_headed _ rfl (fun l hl => ?_) _
    obtain ⟨hcr, a, t, rfl, -⟩ := (h part hpart).clean l hl
    exact ⟨List.cons_ne_nil _ _, hcr⟩
  have hfree : ∀ c ∈ parts.map (contentOf (frame boundary.utf8 hboundary) escape),
      ¬ (frame boundary.utf8 hboundary).eol ++ (frame boundary.utf8 hboundary).delimiter <:+: c := by
    intro c hc
    obtain ⟨part, hpart, rfl⟩ := List.mem_map.mp hc
    obtain ⟨bytes, hbytes, hbody⟩ := (h part hpart).body
    refine Frame.not_infix_headed rfl ?_ (h part hpart).clean
    rw [hbytes]
    exact hbody
  rw [readForm, dif_pos hboundary, Frame.read_framed hfree, Option.bind_some]
  clear hfree h
  induction parts with
  | nil => rfl
  | cons part parts ih =>
      obtain ⟨hpart, hparts⟩ := List.forall_mem_cons.mp hcontent
      rw [List.map_cons, List.mapM_cons, List.mapM_cons, hpart, ih hparts]

end

end Rsurl.Cli.Multipart
