/-
# `Rsurl.Http.Chunked` — the chunked coding

The grammar of RFC 9112 on octets: sizes in any spelling, extensions with
tokens and quoted strings, a trailer section.  `read_chunked` takes from a size
line what is in front of the first `;` and from a trailer line only whether it
is empty; for every coding of a body that is enough to come out behind the last
CRLF.
-/
import Mathlib.Data.List.DropRight
import Rsurl.Http.Head
import Rsurl.Http.Write
import Rsurl.Text.Numerals

namespace Rsurl.Http

namespace Chunked

/-! ## The grammar -/

def crlf : Bytes := [13, 10]

/-- `HEXDIG` in either case. -/
def hexValue (b : UInt8) : Option Nat :=
  if 0x30 ≤ b ∧ b ≤ 0x39 then some (b.toNat - 0x30)
  else if 0x41 ≤ b ∧ b ≤ 0x46 then some (b.toNat - 0x41 + 10)
  else if 0x61 ≤ b ∧ b ≤ 0x66 then some (b.toNat - 0x61 + 10)
  else none

/-- `chunk-size`: digits, with any number of zeros in front. -/
structure IsSize (size : Bytes) (n : Nat) : Prop where
  nonempty : size ≠ []
  value : ∃ digits, size.mapM hexValue = some digits ∧
    n = digits.foldl (fun acc d => acc * 16 + d) 0

/-- `BWS` and `OWS`. -/
def IsBlank (bs : Bytes) : Prop := ∀ b ∈ bs, b = 0x20 ∨ b = 0x09

def IsToken (bs : Bytes) : Prop :=
  bs ≠ [] ∧ ∀ b ∈ bs, b < 0x80 ∧ isTokenChar (Char.ofNat b.toNat) = true

/-- `HTAB / SP / VCHAR / obs-text`. -/
def IsTextOctet (b : UInt8) : Prop := b = 0x09 ∨ 0x20 ≤ b ∧ b ≠ 0x7f

/-- What stands between the quotes of a `quoted-string`. -/
inductive QuotedText : Bytes → Prop
  | nil : QuotedText []
  | plain {b : UInt8} {bs : Bytes} (h : IsTextOctet b) (hquote : b ≠ 0x22) (hescape : b ≠ 0x5c)
      (hrest : QuotedText bs) : QuotedText (b :: bs)
  | pair {b : UInt8} {bs : Bytes} (h : IsTextOctet b) (hrest : QuotedText bs) :
      QuotedText (0x5c :: b :: bs)

/-- `chunk-ext-val`. -/
inductive IsValue : Bytes → Prop
  | token {bs : Bytes} (h : IsToken bs) : IsValue bs
  | quoted {bs : Bytes} (h : QuotedText bs) : IsValue (0x22 :: (bs ++ [0x22]))

/-- One extension, a name alone or with a value. -/
inductive IsExtension : Bytes → Prop
  | bare {w w' name : Bytes} (hw : IsBlank w) (hw' : IsBlank w') (hname : IsToken name) :
      IsExtension (w ++ 0x3b :: (w' ++ name))
  | valued {w w' name v v' value : Bytes} (hw : IsBlank w) (hw' : IsBlank w')
      (hname : IsToken name) (hv : IsBlank v) (hv' : IsBlank v') (hvalue : IsValue value) :
      IsExtension (w ++ 0x3b :: (w' ++ (name ++ (v ++ 0x3d :: (v' ++ value)))))

/-- `chunk-ext`. -/
inductive IsExtensions : Bytes → Prop
  | nil : IsExtensions []
  | cons {ext exts : Bytes} (h : IsExtension ext) (hrest : IsExtensions exts) :
      IsExtensions (ext ++ exts)

/-- The line in front of a chunk, of a length the reader admits. -/
inductive IsSizeLine : Bytes → Nat → Prop
  | intro {size ext : Bytes} {n : Nat} (hsize : IsSize size n) (hext : IsExtensions ext)
      (hlimit : (size ++ ext ++ crlf).length ≤ maxHeaderBytes + 1) :
      IsSizeLine (size ++ ext ++ crlf) n

/-- `trailer-section CRLF`, of lines the reader admits. -/
inductive IsTrailers : Bytes → Prop
  | done : IsTrailers crlf
  | field {name value rest : Bytes} (hname : IsToken name) (hvalue : ∀ b ∈ value, IsTextOctet b)
      (hlimit : (name ++ 0x3a :: value ++ crlf).length ≤ maxHeaderBytes + 1)
      (hrest : IsTrailers rest) : IsTrailers (name ++ 0x3a :: value ++ crlf ++ rest)

/-- `chunked-body`: a body cut into chunks in any way. -/
inductive IsCoded : Bytes → Bytes → Prop
  | last {line trailers : Bytes} (hline : IsSizeLine line 0) (htrailers : IsTrailers trailers) :
      IsCoded (line ++ trailers) []
  | chunk {line data wire body : Bytes} (hline : IsSizeLine line data.length) (hdata : data ≠ [])
      (hrest : IsCoded wire body) : IsCoded (line ++ (data ++ (crlf ++ wire))) (data ++ body)

/-! ## No line is cut short -/

theorem IsTextOctet.ne_lf {b : UInt8} (h : IsTextOctet b) : b ≠ 10 := by
  rintro rfl
  exact absurd h (by unfold IsTextOctet; decide)

theorem IsBlank.ne_lf {bs : Bytes} (h : IsBlank bs) : 10 ∉ bs := fun hmem =>
  absurd (h 10 hmem) (by decide)

theorem IsToken.ne_lf {bs : Bytes} (h : IsToken bs) : 10 ∉ bs := fun hmem =>
  absurd (h.2 10 hmem).2 (by decide)

theorem QuotedText.ne_lf {bs : Bytes} (h : QuotedText bs) : 10 ∉ bs := by
  induction h with
  | nil => exact List.not_mem_nil
  | plain hb _ _ _ ih => simp [hb.ne_lf.symm, ih]
  | pair hb _ ih => simp [hb.ne_lf.symm, ih]

theorem IsValue.ne_lf {bs : Bytes} (h : IsValue bs) : 10 ∉ bs := by
  cases h with
  | token h => exact h.ne_lf
  | quoted h => simp [h.ne_lf]

theorem IsExtension.ne_lf {ext : Bytes} (h : IsExtension ext) : 10 ∉ ext := by
  cases h with
  | bare hw hw' hname => simp [hw.ne_lf, hw'.ne_lf, hname.ne_lf]
  | valued hw hw' hname hv hv' hvalue =>
      simp [hw.ne_lf, hw'.ne_lf, hname.ne_lf, hv.ne_lf, hv'.ne_lf, hvalue.ne_lf]

theorem IsExtensions.ne_lf {ext : Bytes} (h : IsExtensions ext) : 10 ∉ ext := by
  induction h with
  | nil => exact List.not_mem_nil
  | cons h _ ih => simp [h.ne_lf, ih]

/-- Behind the size there is nothing, or blanks and a semicolon. -/
theorem IsExtensions.front {ext : Bytes} (h : IsExtensions ext) :
    ext = [] ∨ ∃ w more, IsBlank w ∧ ext = w ++ 0x3b :: more := by
  cases h with
  | nil => exact .inl rfl
  | cons h _ =>
      refine .inr ?_
      cases h with
      | bare hw => exact ⟨_, _, hw, by rw [List.append_assoc, List.cons_append]⟩
      | valued hw => exact ⟨_, _, hw, by rw [List.append_assoc, List.cons_append]⟩

theorem hexValue_bounds {b : UInt8} {d : Nat} (h : hexValue b = some d) :
    0x30 ≤ b.toNat ∧ b.toNat < 0x67 := by
  unfold hexValue at h
  simp only [UInt8.le_iff_toNat_le] at h
  split at h
  · next hd => exact ⟨hd.1, Nat.lt_of_le_of_lt hd.2 (by decide)⟩
  split at h
  · next hd => exact ⟨Nat.le_trans (by decide) hd.1, Nat.lt_of_le_of_lt hd.2 (by decide)⟩
  split at h
  · next hd => exact ⟨Nat.le_trans (by decide) hd.1, Nat.lt_of_le_of_lt hd.2 (by decide)⟩
  · cases h

/-! ## Texts of octets -/

/-- Octets below 128 as characters. -/
def chars (bs : Bytes) : Text := bs.map fun b => Char.ofNat b.toNat

/-- They are decoded as they are, whatever follows. -/
theorem fromUtf8Lossy_append {front : Bytes} (h : ∀ b ∈ front, b < 0x80) (more : Bytes) :
    fromUtf8Lossy (front ++ more) = chars front ++ fromUtf8Lossy more := by
  induction front with
  | nil => rfl
  | cons b front ih =>
      have hb : startSequence b = .inl (Char.ofNat b.toNat) := if_pos (h b List.mem_cons_self)
      have hrest := ih fun x hx => h x (List.mem_cons_of_mem _ hx)
      rw [fromUtf8Lossy] at hrest ⊢
      rw [List.cons_append, lossyFrom, hb]
      simp only [hrest]
      rfl

/-! ## Sizes -/

/-- A digit is one to `char::to_digit`, and nothing else that the reader looks for. -/
structure IsHexDigit (c : Char) (d : Nat) : Prop where
  digit : toDigit 16 c = some d
  visible : isWhitespace c = false
  plus : c ≠ '+'
  semicolon : c ≠ ';'

theorem isHexDigit_of_hexValue {b : UInt8} {d : Nat} (h : hexValue b = some d) :
    IsHexDigit (Char.ofNat b.toNat) d := by
  have hall : ∀ n < 0x67, (hexValue (UInt8.ofNat n)).all (fun d =>
      toDigit 16 (Char.ofNat n) == some d && !isWhitespace (Char.ofNat n) &&
        Char.ofNat n != '+' && Char.ofNat n != ';') = true := by
    decide +kernel
  have hb := hall b.toNat (hexValue_bounds h).2
  rw [UInt8.ofNat_toNat, h, Option.all_some] at hb
  simp only [Bool.and_eq_true, beq_iff_eq, bne_iff_ne, Bool.not_eq_true'] at hb
  exact ⟨hb.1.1.1, hb.1.1.2, hb.1.2, hb.2⟩

theorem mapM_toDigit_chars {size : Bytes} {digits : List Nat} (h : size.mapM hexValue = some digits) :
    (chars size).mapM (toDigit 16) = some digits := by
  induction size generalizing digits with
  | nil => exact h
  | cons b size ih =>
      rw [List.mapM_cons] at h
      obtain ⟨d, hd, h⟩ := Option.bind_eq_some_iff.mp h
      obtain ⟨ds, hds, h⟩ := Option.bind_eq_some_iff.mp h
      rw [chars, List.map_cons, List.mapM_cons, (isHexDigit_of_hexValue hd).digit, ← chars, ih hds]
      exact h

/-- A size is a numeral. -/
theorem IsSize.numeral_chars {size : Bytes} {n : Nat} (h : IsSize size n) :
    numeral 16 (chars size) = some n := by
  obtain ⟨digits, hdigits, rfl⟩ := h.value
  have hne : chars size ≠ [] := fun hnil => h.nonempty (List.map_eq_nil_iff.mp hnil)
  rw [numeral, if_neg hne, mapM_toDigit_chars hdigits]
  rfl

theorem IsSize.hexValue {size : Bytes} {n : Nat} (h : IsSize size n) :
    ∀ b ∈ size, ∃ d, hexValue b = some d := by
  obtain ⟨digits, hdigits, -⟩ := h.value
  clear h
  induction size generalizing digits with
  | nil => nofun
  | cons b size ih =>
      intro x hx
      rw [List.mapM_cons] at hdigits
      obtain ⟨d, hd, hdigits⟩ := Option.bind_eq_some_iff.mp hdigits
      obtain ⟨ds, hds, -⟩ := Option.bind_eq_some_iff.mp hdigits
      rcases List.mem_cons.mp hx with rfl | hx
      · exact ⟨d, hd⟩
      · exact ih ds hds x hx

theorem IsSize.digit {size : Bytes} {n : Nat} (h : IsSize size n) :
    ∀ c ∈ chars size, ∃ d, IsHexDigit c d := by
  intro c hc
  obtain ⟨b, hb, rfl⟩ := List.mem_map.mp hc
  obtain ⟨d, hd⟩ := h.hexValue b hb
  exact ⟨d, isHexDigit_of_hexValue hd⟩

/-- In front of the first semicolon are the size and blanks. -/
theorem IsSizeLine.size {line : Bytes} {n : Nat} (h : IsSizeLine line n) :
    ∃ size w, IsSize size n ∧ IsBlank w ∧
      (fromUtf8Lossy line).trimEndCrlf.takeWhile (· ≠ ';') = chars size ++ chars w := by
  cases h with
  | @intro size ext n hsize hext hlimit =>
      have hdigit := hsize.digit
      have hascii : ∀ b ∈ size, b < 0x80 := by
        intro b hb
        obtain ⟨d, hd⟩ := hsize.hexValue b hb
        exact UInt8.lt_iff_toNat_lt.mpr (Nat.lt_trans (hexValue_bounds hd).2 (by decide))
      have hbefore : ∀ c ∈ chars size, c ≠ ';' := fun c hc => (hdigit c hc).choose_spec.semicolon
      rcases hext.front with rfl | ⟨w, more, hw, rfl⟩
      · refine ⟨size, [], hsize, nofun, ?_⟩
        have hend : (chars size ++ fromUtf8Lossy crlf).trimEndCrlf = chars size := by
          have hcrlf : fromUtf8Lossy crlf = ['\r', '\n'] := by decide +kernel
          have hends : ∀ c ∈ ['\r', '\n'], (c == '\r' || c == '\n') = true := by simp
          rw [Text.trimEndCrlf, hcrlf, rdropWhile_append_of_all hends]
          refine List.rdropWhile_eq_self_iff.mpr fun hne hlast => ?_
          obtain ⟨d, hd⟩ := hdigit _ (List.getLast_mem hne)
          have hvisible := hd.visible
          rcases Bool.or_eq_true_iff.mp hlast with heq | heq
          · rw [beq_iff_eq.mp heq] at hvisible
            exact absurd hvisible (by decide)
          · rw [beq_iff_eq.mp heq] at hvisible
            exact absurd hvisible (by decide)
        rw [List.append_nil, fromUtf8Lossy_append hascii, hend]
        simpa [chars] using hbefore
      · refine ⟨size, w, hsize, hw, ?_⟩
        have hblank : ∀ c ∈ chars w, c ≠ ';' := by
          intro c hc
          obtain ⟨b, hb, rfl⟩ := List.mem_map.mp hc
          rcases hw b hb with rfl | rfl
          · decide
          · decide
        have hfront : ∀ b ∈ size ++ (w ++ [0x3b]), b < 0x80 := by
          intro b hb
          rcases List.mem_append.mp hb with hb | hb
          · exact hascii b hb
          rcases List.mem_append.mp hb with hb | hb
          · rcases hw b hb with rfl | rfl
            · decide
            · decide
          · obtain rfl := List.mem_singleton.mp hb
            decide
        have hline : size ++ (w ++ 0x3b :: more) ++ crlf =
            size ++ (w ++ [0x3b]) ++ (more ++ crlf) := by simp
        have hchars : chars (size ++ (w ++ [0x3b])) ++ fromUtf8Lossy (more ++ crlf) =
            chars size ++ chars w ++ ';' :: fromUtf8Lossy (more ++ crlf) := by
          simp [chars]
        have hmore := trimEndCrlf_append (chars size ++ chars w) (c := ';') (by decide)
          (fromUtf8Lossy (more ++ crlf))
        rw [hline, fromUtf8Lossy_append hfront, hchars, hmore,
          List.takeWhile_append_of_pos, List.takeWhile_cons_of_neg (by decide), List.append_nil]
        intro c hc
        rcases List.mem_append.mp hc with hc | hc
        · simpa using hbefore c hc
        · simpa using hblank c hc

/-- The size line gives the size. -/
theorem chunkSize_of_isSizeLine {line : Bytes} {n : Nat} (h : IsSizeLine line n)
    (hn : n < 2 ^ 64) : chunkSize (fromUtf8Lossy line) = .ok n := by
  obtain ⟨size, w, hsize, hw, hstr⟩ := h.size
  have hblank : ∀ c ∈ chars w, isWhitespace c = true := by
    intro c hc
    obtain ⟨b, hb, rfl⟩ := List.mem_map.mp hc
    rcases hw b hb with rfl | rfl
    · decide
    · decide
  have hnum := ((numeral_core_iff ⟨[], chars w, rfl, nofun, hblank⟩).mp hsize.numeral_chars).1
  have hparse := (parseUnsigned_iff (by decide)).mpr ⟨hnum, Nat.le_sub_one_of_lt hn⟩
  rw [List.nil_append] at hparse
  rw [chunkSize]
  simp only [hstr, hparse]

/-! ## Reading -/

/-- A line within the limit is read, and nothing behind it. -/
theorem readLineCapped_crlf {line : Bytes} (hlf : 10 ∉ line)
    (hlimit : (line ++ crlf).length ≤ maxHeaderBytes + 1) (rest : Bytes) (tail : Option IoKind) :
    readLineCapped ⟨line ++ crlf ++ rest, tail⟩ maxHeaderBytes = (.ok (line ++ crlf), ⟨rest, tail⟩) := by
  have hfront : 10 ∉ line ++ [13] := by simp [hlf]
  have hline : IsLine (line ++ crlf) :=
    ⟨⟨line ++ [13], by rw [List.append_assoc]; rfl, hfront⟩, hlimit⟩
  exact readLineCapped_of_isLine hline rest tail

theorem IsSizeLine.front {line : Bytes} {n : Nat} (h : IsSizeLine line n) :
    ∃ front, line = front ++ crlf ∧ 10 ∉ front ∧ (front ++ crlf).length ≤ maxHeaderBytes + 1 := by
  cases h with
  | @intro size ext _ hsize hext hlimit =>
      refine ⟨size ++ ext, rfl, fun hmem => ?_, hlimit⟩
      rcases List.mem_append.mp hmem with hmem | hmem
      · obtain ⟨d, hd⟩ := hsize.hexValue 10 hmem
        exact absurd (hexValue_bounds hd).1 (by decide)
      · exact hext.ne_lf hmem

theorem readLineCapped_of_isSizeLine {line : Bytes} {n : Nat} (h : IsSizeLine line n)
    (rest : Bytes) (tail : Option IoKind) :
    readLineCapped ⟨line ++ rest, tail⟩ maxHeaderBytes = (.ok line, ⟨rest, tail⟩) := by
  obtain ⟨front, rfl, hlf, hlimit⟩ := h.front
  exact readLineCapped_crlf hlf hlimit rest tail

theorem IsSizeLine.ne_nil {line : Bytes} {n : Nat} (h : IsSizeLine line n) : line ≠ [] := by
  obtain ⟨front, rfl, -⟩ := h.front
  exact List.append_ne_nil_of_right_ne_nil _ (List.cons_ne_nil _ _)

/-- A trailer line is not taken for the empty one: a name begins it. -/
theorem trimEndCrlf_ne_nil {name : Bytes} (hname : IsToken name) (more : Bytes) :
    (fromUtf8Lossy (name ++ more)).trimEndCrlf ≠ [] := by
  obtain ⟨b, name, rfl⟩ := List.exists_cons_of_ne_nil hname.1
  obtain ⟨hascii, htoken⟩ := hname.2 b List.mem_cons_self
  have hend : (Char.ofNat b.toNat == '\r' || Char.ofNat b.toNat == '\n') = false := by
    rw [Bool.or_eq_false_iff]
    refine ⟨beq_eq_false_iff_ne.mpr fun heq => ?_, beq_eq_false_iff_ne.mpr fun heq => ?_⟩
    · rw [heq] at htoken
      exact absurd htoken (by decide)
    · rw [heq] at htoken
      exact absurd htoken (by decide)
  have hfront : ∀ x ∈ [b], x < 0x80 := fun x hx => List.mem_singleton.mp hx ▸ hascii
  have hlossy := fromUtf8Lossy_append hfront (name ++ more)
  have hmore := trimEndCrlf_append [] hend (fromUtf8Lossy (name ++ more))
  have hline : fromUtf8Lossy (b :: name ++ more) =
      [] ++ Char.ofNat b.toNat :: fromUtf8Lossy (name ++ more) := hlossy
  rw [hline, hmore]
  exact List.cons_ne_nil _ _

theorem readTrailers_of_isTrailers {trailers : Bytes} (h : IsTrailers trailers) {fuel : Nat}
    (hfuel : trailers.length < fuel) (rest : Bytes) (tail : Option IoKind) :
    readTrailers fuel ⟨trailers ++ rest, tail⟩ = (.ok (), ⟨rest, tail⟩) := by
  induction h generalizing fuel with
  | done =>
      obtain ⟨fuel, rfl⟩ := Nat.exists_eq_add_of_lt hfuel
      have hempty : (fromUtf8Lossy crlf).trimEndCrlf = [] := by decide +kernel
      have hread := @readLineCapped_crlf [] List.not_mem_nil (by decide) rest tail
      rw [List.nil_append] at hread
      rw [readTrailers, hread]
      simp only [hempty, or_true, if_true]
  | @field name value more hname hvalue hlimit _ ih =>
      obtain ⟨fuel, rfl⟩ := Nat.exists_eq_add_of_lt hfuel
      have hlf : 10 ∉ name ++ 0x3a :: value := by
        have hvalue' : 10 ∉ value := fun hmem => (hvalue 10 hmem).ne_lf rfl
        simp [hname.ne_lf, hvalue']
      have hread := readLineCapped_crlf hlf hlimit (more ++ rest) tail
      have hne : ¬ (name ++ 0x3a :: value ++ crlf = [] ∨
          (fromUtf8Lossy (name ++ 0x3a :: value ++ crlf)).trimEndCrlf = []) := by
        rintro (hnil | hempty)
        · simp [crlf] at hnil
        · rw [List.append_assoc] at hempty
          exact trimEndCrlf_ne_nil hname _ hempty
      rw [List.append_assoc _ more, readTrailers, hread]
      simp only [if_neg hne]
      refine ih ?_
      have hlen : (name ++ 0x3a :: value ++ crlf ++ more).length =
          name.length + (value.length + 1) + 2 + more.length := by
        rw [List.length_append, List.length_append, List.length_append, List.length_cons]
        rfl
      omega

/-! ## The body -/

/-- From any chunk on, what is there already stays in front. -/
theorem readChunked_append {wire body : Bytes} (h : IsCoded wire body) {fuel : Nat}
    (hfuel : wire.length < fuel) {acc : Bytes}
    (hcap : acc.length + body.length ≤ Compress.maxBodyBytes) (rest : Bytes)
    (tail : Option IoKind) :
    readChunked fuel ⟨wire ++ rest, tail⟩ acc = (.ok (acc ++ body), ⟨rest, tail⟩) := by
  induction h generalizing fuel acc with
  | @last line trailers hline htrailers =>
      obtain ⟨fuel, rfl⟩ := Nat.exists_eq_add_of_lt hfuel
      have hread := readLineCapped_of_isSizeLine hline (trailers ++ rest) tail
      have hsize := chunkSize_of_isSizeLine hline (by decide)
      have hroom : ¬ Compress.maxBodyBytes < acc.length + 0 := Nat.not_lt.mpr hcap
      have htrail := readTrailers_of_isTrailers htrailers
        (by rw [List.length_append]; omega : trailers.length < (trailers ++ rest).length + 1)
        rest tail
      rw [List.append_assoc, readChunked, hread]
      simp only [if_neg hline.ne_nil, hsize, if_neg hroom, if_true, htrail, List.append_nil]
  | @chunk line data wire body hline hdata _ ih =>
      obtain ⟨fuel, rfl⟩ := Nat.exists_eq_add_of_lt hfuel
      rw [List.length_append] at hcap
      have hlimit : Compress.maxBodyBytes < 2 ^ 64 := by decide
      have hread := readLineCapped_of_isSizeLine hline (data ++ (crlf ++ (wire ++ rest))) tail
      have hsize := chunkSize_of_isSizeLine hline (by omega)
      have hroom : ¬ Compress.maxBodyBytes < acc.length + data.length := by omega
      have hpos : ¬ data.length = 0 := fun hzero => hdata (List.length_eq_zero_iff.mp hzero)
      have hchunk := @Source.readExact_append data (crlf ++ (wire ++ rest)) tail
      have hends : Source.readExact ⟨crlf ++ (wire ++ rest), tail⟩ 2 =
          (.ok crlf, ⟨wire ++ rest, tail⟩) := @Source.readExact_append crlf (wire ++ rest) tail
      have hsplit : line ++ (data ++ (crlf ++ wire)) ++ rest =
          line ++ (data ++ (crlf ++ (wire ++ rest))) := by simp only [List.append_assoc]
      have hline' := List.length_pos_of_ne_nil hline.ne_nil
      have hmore := @ih ((line ++ (data ++ (crlf ++ wire))).length + fuel)
        (by simp only [List.length_append]; omega) (acc ++ data)
        (by rw [List.length_append]; omega)
      rw [hsplit, readChunked, hread]
      simp only [if_neg hline.ne_nil, hsize, if_neg hroom, if_neg hpos, hchunk, hends]
      rw [if_pos (show crlf = [13, 10] from rfl), hmore, List.append_assoc]

/-- Every coding of a body within the cap is read to its end, whatever follows it. -/
theorem readChunked_of_isCoded {wire body : Bytes} (h : IsCoded wire body)
    (hcap : body.length ≤ Compress.maxBodyBytes) (rest : Bytes) (tail : Option IoKind) :
    readChunked ((wire ++ rest).length + 1) ⟨wire ++ rest, tail⟩ [] =
      (.ok body, ⟨rest, tail⟩) := by
  have hfuel : wire.length < (wire ++ rest).length + 1 := by
    rw [List.length_append]
    omega
  refine readChunked_append h hfuel ?_ rest tail
  rw [List.length_nil, Nat.zero_add]
  exact hcap

/-- `0A ;a=";"`, ten octets, a last chunk `00` and one trailer. -/
theorem readChunked_of_isCoded_sample :
    readChunked 43 ⟨Text.utf8 "0A ;a=\";\"\r\n0123456789\r\n00\r\nt:v\r\n\r\nHTTP".toList, none⟩ [] =
      (.ok (Text.utf8 "0123456789".toList), ⟨Text.utf8 "HTTP".toList, none⟩) := by
  have hquoted : QuotedText [0x3b] :=
    .plain (.inr (by decide)) (by decide) (by decide) .nil
  have hext_name : IsToken [0x61] := ⟨List.cons_ne_nil _ _, by decide +kernel⟩
  have hname : IsToken [0x74] := ⟨List.cons_ne_nil _ _, by decide +kernel⟩
  have hvalue : ∀ b ∈ [0x76], IsTextOctet b :=
    fun b hb => .inr (List.mem_singleton.mp hb ▸ by decide)
  have hext : IsExtensions
      ([0x20] ++ 0x3b :: ([] ++ ([0x61] ++ ([] ++ 0x3d :: ([] ++ 0x22 :: ([0x3b] ++ [0x22]))))) ++
        []) :=
    .cons (.valued (fun b hb => .inl (List.mem_singleton.mp hb)) nofun hext_name nofun nofun
      (.quoted hquoted)) .nil
  have hfirst : IsSizeLine _ (Text.utf8 "0123456789".toList).length :=
    .intro (⟨by decide, [0, 10], by decide, by decide⟩ : IsSize [0x30, 0x41] 10) hext (by decide)
  have hlast : IsSizeLine _ 0 :=
    .intro (⟨by decide, [0, 0], by decide, by decide⟩ : IsSize [0x30, 0x30] 0) .nil (by decide)
  have htrailers : IsTrailers _ := .field hname hvalue (by decide) .done
  have hcoded := IsCoded.chunk hfirst (by decide) (.last hlast htrailers)
  exact readChunked_of_isCoded hcoded (by decide) (Text.utf8 "HTTP".toList) none

end Chunked
end Rsurl.Http
