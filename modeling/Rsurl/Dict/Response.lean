/-
# `Rsurl.Dict.Response` — the answers to DEFINE and MATCH, and what panics

A status line of RFC 2229 is three digits and a message; a text block is lines
with a dot more in front of a leading dot, up to a line that is only a dot.
The client finds the code by its length in bytes: whatever a server sends, the
response panics exactly if it reads a status line whose third byte is not the
last of a character.
-/
import Rsurl.Dict
import Rsurl.Ftp.Replies
import Rsurl.Text.Numerals

namespace Rsurl

theorem length_utf8_cons (c : Char) (t : Text) :
    (Text.utf8 (c :: t)).length = c.utf8Size + t.utf8.length := by
  rw [Text.utf8_cons, List.length_append, String.length_utf8EncodeChar]

theorem length_utf8_of_single {t : Text} (h : ∀ c ∈ t, c.utf8Size = 1) :
    t.utf8.length = t.length := by
  induction t with
  | nil => rfl
  | cons c t ih =>
      rw [length_utf8_cons, h c List.mem_cons_self, ih fun x hx => h x (List.mem_cons_of_mem c hx),
        List.length_cons, Nat.add_comm]

theorem Text.splitAt_append (a b : Text) : Text.splitAt (a ++ b) (Text.utf8 a).length = some (a, b) := by
  induction a with
  | nil =>
      cases b <;> rfl
  | cons c a ih =>
      have hpos := c.utf8Size_pos
      rw [length_utf8_cons]
      obtain ⟨n, hn⟩ : ∃ n, c.utf8Size + (Text.utf8 a).length = n + 1 :=
        ⟨c.utf8Size + (Text.utf8 a).length - 1, by omega⟩
      have hrest : n + 1 - c.utf8Size = (Text.utf8 a).length := by omega
      rw [hn, List.cons_append, Text.splitAt, if_pos (by omega), hrest, ih]
      rfl

theorem Text.splitAt_eq_some {t a b : Text} {n : Nat} (h : t.splitAt n = some (a, b)) :
    t = a ++ b ∧ a.utf8.length = n := by
  induction t generalizing n a with
  | nil =>
      cases n with
      | zero =>
          obtain ⟨rfl, rfl⟩ := Prod.mk.inj (Option.some.inj h)
          exact ⟨rfl, rfl⟩
      | succ n => cases h
  | cons c t ih =>
      cases n with
      | zero =>
          obtain ⟨rfl, rfl⟩ := Prod.mk.inj (Option.some.inj h)
          exact ⟨rfl, rfl⟩
      | succ n =>
          rw [Text.splitAt] at h
          split at h
          · next hle =>
              obtain ⟨⟨a', b'⟩, hsplit, heq⟩ := Option.map_eq_some_iff.mp h
              obtain ⟨rfl, rfl⟩ := Prod.mk.inj heq
              obtain ⟨rfl, hlen⟩ := ih hsplit
              refine ⟨rfl, ?_⟩
              rw [length_utf8_cons, hlen]
              omega
          · cases h

/-- The byte is inside a character. -/
def Text.Inside (t : Text) (n : Nat) : Prop :=
  ∃ (front : Text) (c : Char) (back : Text), t = front ++ c :: back ∧
    front.utf8.length < n ∧ n < front.utf8.length + c.utf8Size

theorem Text.splitAt_eq_none_iff {t : Text} {n : Nat} (h : n ≤ t.utf8.length) :
    t.splitAt n = none ↔ t.Inside n := by
  constructor
  · intro hnone
    induction t generalizing n with
    | nil =>
        obtain rfl : n = 0 := Nat.le_zero.mp h
        cases hnone
    | cons c t ih =>
        cases n with
        | zero => cases hnone
        | succ n =>
            rw [Text.splitAt] at hnone
            split at hnone
            · next hle =>
                rw [length_utf8_cons] at h
                obtain ⟨front, d, back, rfl, hlow, hhigh⟩ :=
                  ih (by omega) (Option.map_eq_none_iff.mp hnone)
                refine ⟨c :: front, d, back, rfl, ?_⟩
                rw [length_utf8_cons]
                omega
            · next hgt =>
                exact ⟨[], c, t, rfl, Nat.succ_pos n, by simpa using Nat.lt_of_not_le hgt⟩
  · rintro ⟨front, c, back, rfl, hlow, hhigh⟩
    cases hsplit : Text.splitAt (front ++ c :: back) n with
    | none => rfl
    | some halves =>
        obtain ⟨a, b⟩ := halves
        obtain ⟨hcat, rfl⟩ := Text.splitAt_eq_some hsplit
        -- the first half ends in front of the character or behind it
        rcases List.append_eq_append_iff.mp hcat with ⟨more, rfl, hmore⟩ | ⟨more, rfl, -⟩
        · cases more with
          | nil => simp at hlow
          | cons d more =>
              obtain ⟨rfl, -⟩ := List.cons.inj hmore
              rw [Text.utf8_append, List.length_append, length_utf8_cons] at hhigh
              omega
        · rw [Text.utf8_append, List.length_append] at hlow
          omega

/-- An LF at the end of the bytes is one at the end of the text. -/
theorem exists_concat_of_utf8 {t : Text} {a : Bytes} (h : t.utf8 = a ++ [10]) :
    ∃ t' : Text, t = t' ++ ['\n'] ∧ t'.utf8 = a := by
  cases t using List.reverseRecOn with
  | nil => simp at h
  | append_singleton t c =>
      have hsplit : Text.utf8 t ++ String.utf8EncodeChar c = a ++ [10] := by
        rw [← h, Text.utf8_append, Text.utf8_cons, Text.utf8_nil, List.append_nil]
      have hmem : (10 : UInt8) ∈ String.utf8EncodeChar c := by
        have hlast := congrArg List.getLast? hsplit
        rw [List.getLast?_concat, List.getLast?_append] at hlast
        cases hc : (String.utf8EncodeChar c).getLast? with
        | none => exact absurd (List.getLast?_eq_none_iff.mp hc) String.utf8EncodeChar_ne_nil
        | some b =>
            rw [hc] at hlast
            obtain rfl : b = 10 := Option.some.inj hlast
            exact List.mem_of_getLast? hc
      obtain rfl : c = '\n' := Char.toNat_inj.mp (toNat_of_mem_utf8EncodeChar hmem (by decide))
      exact ⟨t, rfl, List.append_cancel_right hsplit⟩

namespace Dict

open Base (Checked)

/-! ## Lines -/

/-- The bytes of a line and the LF that ends it. -/
def lfEnded (line : Text) : Bytes := Text.utf8 (line ++ ['\n'])

theorem lfEnded_eq (line : Text) : lfEnded line = line.utf8 ++ [10] := Text.utf8_append _ _

theorem lfEnded_ne_nil (line : Text) : lfEnded line ≠ [] := by
  rw [lfEnded_eq]
  exact List.append_ne_nil_of_right_ne_nil _ (List.cons_ne_nil 10 [])

/-- No byte of a line is an LF. -/
theorem ne_lf_of_mem_utf8 {line : Text} (hline : '\n' ∉ line) :
    ∀ x ∈ line.utf8, (x == 10) = false := by
  intro x hx
  refine beq_eq_false_iff_ne.mpr fun hlf => ?_
  rw [hlf] at hx
  exact Text.not_mem_utf8 (c := '\n') (by decide) hline hx

theorem through_lfEnded {line : Text} (hline : '\n' ∉ line) (rest : Bytes) :
    Base.Segment.through (· == 10) (lfEnded line ++ rest) = some (lfEnded line, rest) := by
  rw [lfEnded_eq, List.append_assoc]
  exact Base.Segment.through_append (ne_lf_of_mem_utf8 hline) rfl

theorem readLine_of_line {line : Text} (hline : '\n' ∉ line) {b : Buffered} {rest : Bytes}
    (h : b.pending = lfEnded line ++ rest) :
    ∃ b', readLine b = (.ok (line ++ ['\n']), b') ∧ b'.pending = rest ∧ b'.tail = b.tail := by
  obtain ⟨b', hread, hrest, htail⟩ := readLine_of_through (h ▸ through_lfEnded hline rest)
  refine ⟨b', ?_, hrest, htail⟩
  rw [hread, textOf, lfEnded, fromUtf8_utf8]

theorem readLine_of_last {line : Text} (hline : '\n' ∉ line) (hne : line ≠ []) {b : Buffered}
    (h : b.pending = line.utf8) (htail : b.tail = none) : (readLine b).1 = .ok line := by
  have hthrough : Base.Segment.through (· == 10) b.pending = none := by
    rw [h]
    exact Option.map_eq_none_iff.mpr (Base.cut_eq_none.mpr (ne_lf_of_mem_utf8 hline))
  have hbytes : b.pending ≠ [] := by
    rw [h]
    exact fun hnil => hne (Text.utf8_eq_nil.mp hnil)
  rw [readLine_of_end hthrough, htail]
  refine (if_neg hbytes).trans ?_
  rw [h, textOf, fromUtf8_utf8]

theorem textOf_eq_ok {bs : Bytes} {t : Text} (h : textOf bs = .ok t) : t.utf8 = bs := by
  unfold textOf at h
  split at h
  · next text htext =>
      obtain rfl := Except.ok.inj h
      exact utf8_of_fromUtf8 htext
  · cases h

/-- A line that is read ends with an LF, or it is all that was left of a stream that is over. -/
theorem readLine_eq_ok {b : Buffered} {line : Text} (h : (readLine b).1 = .ok line) :
    (readLine b).2.tail = b.tail ∧
    ((∃ t, '\n' ∉ t ∧ line = t ++ ['\n'] ∧ b.pending = lfEnded t ++ (readLine b).2.pending) ∨
      ('\n' ∉ line ∧ b.pending = line.utf8 ∧ b.tail = none ∧ (readLine b).2.pending = [])) := by
  cases hthrough : Base.Segment.through (· == 10) b.pending with
  | some out =>
      obtain ⟨b', hread, hrest, htail⟩ := readLine_of_through hthrough
      obtain ⟨hsplit, a, x, hline, hx, hclean⟩ := Base.Segment.through_eq_some hthrough
      obtain rfl : x = 10 := beq_iff_eq.mp hx
      rw [hread] at h ⊢
      have hbytes := textOf_eq_ok h
      rw [hline] at hbytes
      obtain ⟨t, rfl, ht⟩ := exists_concat_of_utf8 hbytes
      refine ⟨htail, .inl ⟨t, fun hmem => ?_, rfl, ?_⟩⟩
      · have hin : (10 : UInt8) ∈ a := by
          rw [← ht]
          exact List.mem_flatMap.mpr ⟨'\n', hmem, List.mem_singleton.mpr rfl⟩
        exact absurd (hclean 10 hin) (by decide)
      · rw [hsplit, hline, lfEnded_eq, ht, hrest]
  | none =>
      rw [readLine_of_end hthrough] at h ⊢
      cases htail : b.tail with
      | some kind =>
          rw [htail] at h
          cases h
      | none =>
          rw [htail] at h
          by_cases hnil : b.pending = []
          · simp only [if_pos hnil] at h
            cases h
          · simp only [if_neg hnil] at h
            have hbytes := textOf_eq_ok h
            refine ⟨rfl, .inr ⟨fun hmem => ?_, hbytes.symm, rfl, rfl⟩⟩
            have hin : (10 : UInt8) ∈ b.pending := by
              rw [← hbytes]
              exact List.mem_flatMap.mpr ⟨'\n', hmem, List.mem_singleton.mpr rfl⟩
            have hclean := Base.cut_eq_none.mp (Option.map_eq_none_iff.mp hthrough)
            exact absurd (hclean 10 hin) (by decide)

/-! ## Status lines -/

/-- The line begins with three digits, and `n` is what they write. -/
def HasCode (line : Text) (n : Nat) : Prop :=
  ∃ (a b c : Char) (more : Text), line = a :: b :: c :: more ∧ a.isDigit = true ∧
    b.isDigit = true ∧ c.isDigit = true ∧ Ftp.codeOf a b c = n

/-- What is behind the code, a space apart. -/
def messageOf (rest : Text) : Text := (Text.stripPrefix [' '] rest).getD rest

theorem trimEndCrlf_lf (line : Text) : (line ++ ['\n']).trimEndCrlf = line.trimEndCrlf := by
  rw [Text.trimEndCrlf, List.rdropWhile_concat_pos _ _ _ (by decide)]
  rfl

theorem trimEndCrlf_crlf (line : Text) :
    (line ++ ['\r'] ++ ['\n']).trimEndCrlf = line.trimEndCrlf := by
  rw [trimEndCrlf_lf, Text.trimEndCrlf, List.rdropWhile_concat_pos _ _ _ (by decide)]
  rfl

theorem trimEndCrlf_initial (line : Text) : line.trimEndCrlf <+: line :=
  List.rdropWhile_prefix _ _

theorem not_lineEnd_of_isDigit {c : Char} (h : c.isDigit = true) :
    (c == '\r' || c == '\n') = false := by
  rw [Bool.eq_false_iff]
  intro hend
  rcases Bool.or_eq_true_iff.mp hend with heq | heq
  · rw [beq_iff_eq.mp heq] at h
    cases h
  · rw [beq_iff_eq.mp heq] at h
    cases h

theorem HasCode.trimEndCrlf {line : Text} {n : Nat} (h : HasCode line n) :
    HasCode line.trimEndCrlf n := by
  obtain ⟨a, b, c, more, rfl, ha, hb, hc, rfl⟩ := h
  exact ⟨a, b, c, more.trimEndCrlf, trimEndCrlf_append [a, b] (not_lineEnd_of_isDigit hc) more,
    ha, hb, hc, rfl⟩

/-- The first three bytes are the code. -/
theorem parseStatus_digits {a b c : Char} (ha : a.isDigit = true) (hb : b.isDigit = true)
    (hc : c.isDigit = true) {line rest : Text} (h : line.trimEndCrlf = a :: b :: c :: rest) :
    parseStatus line = Checked.ofExcept (.ok (Ftp.codeOf a b c, messageOf rest)) := by
  have hsize : (Text.utf8 [a, b, c]).length = 3 := by
    rw [length_utf8_cons, length_utf8_cons, length_utf8_cons, (Ftp.utf8_cons_digit ha []).2.2,
      (Ftp.utf8_cons_digit hb []).2.2, (Ftp.utf8_cons_digit hc []).2.2]
    rfl
  have hsplit : Text.splitAt ([a, b, c] ++ rest) 3 = some ([a, b, c], rest) := by
    rw [← hsize]
    exact Text.splitAt_append [a, b, c] rest
  have hlong : ¬ Text.len ([a, b, c] ++ rest) < 3 := by
    rw [Text.len, Text.utf8_append, List.length_append, hsize]
    omega
  have hnat : (UInt16.ofNat (Ftp.codeOf a b c)).toNat = Ftp.codeOf a b c := by
    have hlt := Ftp.codeOf_lt ha hb hc
    rw [UInt16.toNat_ofNat', Nat.mod_eq_of_lt (by omega)]
  have htrim : line.trimEndCrlf = [a, b, c] ++ rest := h
  rw [parseStatus, htrim, if_neg hlong, hsplit]
  simp only [Ftp.parseU16_code ha hb hc, hnat]
  rfl

/-- A status line panics exactly if its third byte boundary is inside a character. -/
theorem parseStatus_eq_none_iff {line : Text} :
    (parseStatus line).run = none ↔ line.trimEndCrlf.Inside 3 := by
  rw [parseStatus]
  by_cases hshort : line.trimEndCrlf.len < 3
  · rw [if_pos hshort]
    refine ⟨nofun, ?_⟩
    rintro ⟨front, c, back, heq, hlow, hhigh⟩
    rw [heq, Text.len, Text.utf8_append, List.length_append, length_utf8_cons] at hshort
    omega
  · rw [if_neg hshort, ← Text.splitAt_eq_none_iff (Nat.le_of_not_lt hshort)]
    cases line.trimEndCrlf.splitAt 3 with
    | none => exact ⟨fun _ => rfl, fun _ => rfl⟩
    | some halves =>
        refine ⟨fun h => ?_, nofun⟩
        simp only at h
        split at h <;> cases h

theorem isDigit_of_toDigit {c : Char} (h : (toDigit 10 c).isSome = true) : c.isDigit = true := by
  obtain ⟨d, hd⟩ := Option.isSome_iff_exists.mp h
  obtain ⟨hhex, hlt⟩ := Option.filter_eq_some_iff.mp hd
  rw [decide_eq_true_eq] at hlt
  unfold hexDigit at hhex
  split at hhex
  · next hrange => exact isDigit_iff.mpr hrange
  split at hhex
  · cases hhex
    omega
  split at hhex
  · cases hhex
    omega
  · cases hhex

/-- A number from 100 on takes three bytes, when these are digits and no sign. -/
theorem exists_digits_of_parseU16 {t : Text} {v : UInt16} (h : parseU16 t = some v)
    (hlen : t.utf8.length = 3) (hv : 100 ≤ v.toNat) :
    ∃ a b c : Char, t = [a, b, c] ∧ a.isDigit = true ∧ b.isDigit = true ∧ c.isDigit = true := by
  have hone : ∀ c ∈ t, c.utf8Size = 1 := by
    intro c hc
    rcases mem_of_parseU16 h hc with rfl | hdigit
    · rfl
    · have hrange := isDigit_iff.mp (isDigit_of_toDigit hdigit)
      exact utf8Size_of_ascii (by omega)
  obtain ⟨value, hvalue, rfl⟩ := Option.map_eq_some_iff.mp h
  obtain ⟨digits, ht, -, hparse⟩ := parseUnsigned_eq_some hvalue
  have hdigits : ∀ c ∈ digits, c.isDigit = true := fun c hc =>
    isDigit_of_toDigit (isSome_toDigit_of_parseDigits hparse c hc)
  have hcount : t.length = 3 := by rw [← length_utf8_of_single hone, hlen]
  obtain ⟨a, b, c, rfl⟩ := List.length_eq_three.mp hcount
  rcases ht with ht | rfl
  · obtain ⟨rfl, rfl⟩ := List.cons.inj ht
    -- behind a sign there is room for two digits only
    obtain ⟨rfl, hle⟩ := parseDigits_eq_some hdigits (Nat.zero_le _) hparse
    have hb := isDigit_iff.mp (hdigits b (by simp))
    have hc := isDigit_iff.mp (hdigits c (by simp))
    have hsmall : Nat.ofDigitChars 10 [b, c] 0 < 100 := by
      simp only [Nat.ofDigitChars_cons, Nat.ofDigitChars_nil]
      have hzero : '0'.toNat = 48 := rfl
      omega
    rw [UInt16.toNat_ofNat', Nat.mod_eq_of_lt (by omega)] at hv
    omega
  · exact ⟨a, b, c, rfl, hdigits a (by simp), hdigits b (by simp), hdigits c (by simp)⟩

/-- A code of three digits is what the line begins with. -/
theorem hasCode_of_parseStatus {line msg : Text} {n : Nat} (hn : 100 ≤ n)
    (h : (parseStatus line).run = some (.ok (n, msg))) : HasCode line.trimEndCrlf n := by
  rw [parseStatus] at h
  by_cases hshort : line.trimEndCrlf.len < 3
  · rw [if_pos hshort] at h
    cases h
  rw [if_neg hshort] at h
  cases hsplit : line.trimEndCrlf.splitAt 3 with
  | none =>
      rw [hsplit] at h
      cases h
  | some halves =>
      obtain ⟨code, rest⟩ := halves
      obtain ⟨heq, hlen⟩ := Text.splitAt_eq_some hsplit
      rw [hsplit] at h
      simp only at h
      split at h
      · cases h
      next value hparse =>
      obtain ⟨rfl, -⟩ := Prod.mk.inj (Except.ok.inj (Option.some.inj h))
      obtain ⟨a, b, c, rfl, ha, hb, hc⟩ := exists_digits_of_parseU16 hparse hlen hn
      refine ⟨a, b, c, rest, heq, ha, hb, hc, ?_⟩
      rw [Ftp.parseU16_code ha hb hc] at hparse
      have hlt := Ftp.codeOf_lt ha hb hc
      rw [← Option.some.inj hparse, UInt16.toNat_ofNat', Nat.mod_eq_of_lt (by omega)]

/-! ## Text blocks -/

/-- A line of a text block, without its end and the dot that was put in front of a dot. -/
def unstuffed (line : Text) : Text :=
  if line.trimEndCrlf.head? = some '.' then
    (Text.stripPrefix ['.'] line.trimEndCrlf).getD line.trimEndCrlf
  else line.trimEndCrlf

/-- The lines of a text block, the last of which is only a dot. -/
structure IsBlock (lines : List Text) (last : Text) : Prop where
  lines_lf : ∀ l ∈ lines, '\n' ∉ l
  lines_dot : ∀ l ∈ lines, l.trimEndCrlf ≠ ['.']
  last_lf : '\n' ∉ last
  last_dot : last.trimEndCrlf = ['.']

/-- The bytes of a text block. -/
def blockBytes (lines : List Text) (last : Text) : Bytes := lines.flatMap lfEnded ++ lfEnded last

theorem blockBytes_ne_nil (lines : List Text) (last : Text) : blockBytes lines last ≠ [] :=
  List.append_ne_nil_of_right_ne_nil _ (lfEnded_ne_nil last)

/-- One turn of the loop. -/
theorem readTextBlock_turn {b : Buffered} {line : Text} (out : Bytes)
    (h : (readLine b).1 = .ok line) :
    readTextBlock out b =
      if line.trimEndCrlf = ['.'] then (.ok (), out, (readLine b).2)
      else readTextBlock (out ++ (unstuffed line).utf8 ++ [10]) (readLine b).2 := by
  rw [readTextBlock]
  split
  · next e he =>
      rw [h] at he
      cases he
  · next line' hline =>
      rw [h] at hline
      cases hline
      rfl

/-- A text block is read to its end. -/
theorem readTextBlock_of_isBlock {lines : List Text} {last : Text} (h : IsBlock lines last)
    (out : Bytes) {b : Buffered} {rest : Bytes} (hb : b.pending = blockBytes lines last ++ rest) :
    ∃ b', readTextBlock out b =
        (.ok (), out ++ lines.flatMap (fun l => (unstuffed l).utf8 ++ [10]), b') ∧
      b'.pending = rest ∧ b'.tail = b.tail := by
  induction lines generalizing out b with
  | nil =>
      rw [blockBytes, List.flatMap_nil, List.nil_append] at hb
      obtain ⟨b', hread, hrest, htail⟩ := readLine_of_line h.last_lf hb
      refine ⟨b', ?_, hrest, htail⟩
      have hdot : (last ++ ['\n']).trimEndCrlf = ['.'] := by rw [trimEndCrlf_lf, h.last_dot]
      rw [readTextBlock_turn out (congrArg Prod.fst hread), if_pos hdot, hread, List.flatMap_nil,
        List.append_nil]
  | cons l lines ih =>
      have hlines : IsBlock lines last :=
        ⟨fun x hx => h.lines_lf x (List.mem_cons_of_mem l hx),
          fun x hx => h.lines_dot x (List.mem_cons_of_mem l hx), h.last_lf, h.last_dot⟩
      rw [blockBytes, List.flatMap_cons, List.append_assoc, List.append_assoc] at hb
      obtain ⟨b₁, hread, hrest, htail⟩ := readLine_of_line (h.lines_lf l List.mem_cons_self) hb
      rw [← List.append_assoc] at hrest
      have hdot : ¬ (l ++ ['\n']).trimEndCrlf = ['.'] := by
        rw [trimEndCrlf_lf]
        exact h.lines_dot l List.mem_cons_self
      have hwritten : unstuffed (l ++ ['\n']) = unstuffed l := by
        rw [unstuffed, trimEndCrlf_lf, unstuffed]
      obtain ⟨b', hblock, hpending, htail'⟩ :=
        ih hlines (out ++ (unstuffed l).utf8 ++ [10]) hrest
      refine ⟨b', ?_, hpending, htail'.trans htail⟩
      rw [readTextBlock_turn out (congrArg Prod.fst hread), if_neg hdot, hread, hwritten, hblock,
        List.flatMap_cons]
      simp only [List.append_assoc]

/-- What is read as a text block is one, unless the stream is over with it. -/
theorem isBlock_of_readTextBlock {out : Bytes} {b : Buffered}
    (h : (readTextBlock out b).1 = .ok ()) :
    (readTextBlock out b).2.2.tail = b.tail ∧ ((readTextBlock out b).2.2.pending = [] ∨
      ∃ lines last, IsBlock lines last ∧
        b.pending = blockBytes lines last ++ (readTextBlock out b).2.2.pending) := by
  fun_induction readTextBlock out b with
  | case1 out b e hline => cases h
  | case2 out b line hline body hend =>
      obtain ⟨htail, ⟨t, ht, rfl, hb⟩ | ⟨-, -, -, hnil⟩⟩ := readLine_eq_ok hline
      · refine ⟨htail, .inr ⟨[], t, ⟨by simp, by simp, ht, ?_⟩, hb⟩⟩
        rw [← trimEndCrlf_lf]
        exact hend
      · exact ⟨htail, .inl hnil⟩
  | case3 out b line hline body hend unescaped toWrite ih =>
      obtain ⟨htail, hcases⟩ := readLine_eq_ok hline
      obtain ⟨htail', hrest⟩ := ih h
      refine ⟨htail'.trans htail, ?_⟩
      rcases hrest with hnil | ⟨lines, last, hblock, hbytes⟩
      · exact .inl hnil
      rcases hcases with ⟨t, ht, rfl, hb⟩ | ⟨-, -, -, hnil⟩
      · refine .inr ⟨t :: lines, last, ⟨?_, ?_, hblock.last_lf, hblock.last_dot⟩, ?_⟩
        · exact List.forall_mem_cons.mpr ⟨ht, hblock.lines_lf⟩
        · refine List.forall_mem_cons.mpr ⟨?_, hblock.lines_dot⟩
          rw [← trimEndCrlf_lf]
          exact hend
        · rw [hb, blockBytes, List.flatMap_cons, List.append_assoc, List.append_assoc,
            ← List.append_assoc (lines.flatMap lfEnded)]
          exact congrArg (lfEnded t ++ ·) hbytes
      · rw [hnil] at hbytes
        exact absurd hbytes.symm (List.append_ne_nil_of_left_ne_nil (blockBytes_ne_nil lines last) _)

/-! ## What panics -/

/-- The codes that the loop passes over. -/
def passCodes : Verb → List Nat
  | .define => [150, 130, 230]
  | .matchWord | .showDatabases => [130, 230]

/-- The code of a text block. -/
def blockCode : Verb → Nat
  | .define => 151
  | .matchWord => 152
  | .showDatabases => 110

/-- The stream comes to a status line whose third byte boundary is inside a character, behind
status lines that are passed over and text blocks; `tail` is what a read finds at its end. -/
inductive Severed (verb : Verb) (tail : Option IoKind) : Bytes → Prop
  | here {line : Text} {rest : Bytes} (hline : '\n' ∉ line) (h : line.trimEndCrlf.Inside 3) :
      Severed verb tail (lfEnded line ++ rest)
  | last {line : Text} (htail : tail = none) (hline : '\n' ∉ line)
      (h : line.trimEndCrlf.Inside 3) : Severed verb tail line.utf8
  | pass {line : Text} {code : Nat} {rest : Bytes} (hline : '\n' ∉ line)
      (hcode : HasCode line code) (hpass : code ∈ passCodes verb) (hrest : Severed verb tail rest) :
      Severed verb tail (lfEnded line ++ rest)
  | block {line : Text} {lines : List Text} {last : Text} {rest : Bytes} (hline : '\n' ∉ line)
      (hcode : HasCode line (blockCode verb)) (hblock : IsBlock lines last)
      (hrest : Severed verb tail rest) :
      Severed verb tail (lfEnded line ++ (blockBytes lines last ++ rest))

theorem not_severed_nil {verb : Verb} {tail : Option IoKind} {bytes : Bytes}
    (h : Severed verb tail bytes) : bytes ≠ [] := by
  cases h with
  | here hline h => exact List.append_ne_nil_of_left_ne_nil (lfEnded_ne_nil _) _
  | last htail hline h =>
      intro hnil
      obtain ⟨front, c, back, heq, -⟩ := h
      rw [Text.utf8_eq_nil.mp hnil] at heq
      simp [Text.trimEndCrlf] at heq
  | pass hline hcode hpass hrest => exact List.append_ne_nil_of_left_ne_nil (lfEnded_ne_nil _) _
  | block hline hcode hblock hrest => exact List.append_ne_nil_of_left_ne_nil (lfEnded_ne_nil _) _

theorem dispatch_pass {verb : Verb} {code : Nat} (h : code ∈ passCodes verb) (msg : Text)
    (out : Bytes) (b : Buffered) :
    isErrorCode code = false ∧ dispatch verb code msg out b = (.next, out, b) := by
  cases verb with
  | define =>
      simp only [passCodes, List.mem_cons, List.not_mem_nil, or_false] at h
      rcases h with rfl | rfl | rfl <;> exact ⟨rfl, rfl⟩
  | matchWord | showDatabases =>
      simp only [passCodes, List.mem_cons, List.not_mem_nil, or_false] at h
      rcases h with rfl | rfl <;> exact ⟨rfl, rfl⟩

/-- What is written in front of a text block. -/
def blockHeader : Verb → Text → Bytes
  | .define, msg => msg.utf8 ++ [10]
  | .matchWord, _ | .showDatabases, _ => []

theorem dispatch_block (verb : Verb) (msg : Text) (out : Bytes) (b : Buffered) :
    isErrorCode (blockCode verb) = false ∧ dispatch verb (blockCode verb) msg out b =
      behind (readTextBlock (out ++ blockHeader verb msg) b) := by
  cases verb with
  | define => exact ⟨rfl, by rw [blockHeader, ← List.append_assoc]; rfl⟩
  | matchWord => exact ⟨rfl, by rw [blockHeader, List.append_nil]; rfl⟩
  | showDatabases => exact ⟨rfl, by rw [blockHeader, List.append_nil]; rfl⟩

theorem behind_next {x : Result Unit × Bytes × Buffered} (h : (behind x).1 = .next) :
    x.1 = .ok () ∧ (behind x).2 = x.2 := by
  obtain ⟨r, out, b⟩ := x
  cases r with
  | error e => cases h
  | ok u => exact ⟨rfl, rfl⟩

/-- The loop goes on only behind one of these codes. -/
theorem dispatch_next {verb : Verb} {code : Nat} {msg : Text} {out : Bytes} {b : Buffered}
    (h : (dispatch verb code msg out b).1 = .next) :
    code ∈ passCodes verb ∨ code = blockCode verb := by
  unfold dispatch at h
  split at h
  · exact .inr rfl
  · exact .inr rfl
  · exact .inl (by simp [passCodes])
  · exact .inr rfl
  · cases h
  · exact .inl (by cases verb <;> simp [passCodes])
  · exact .inl (by cases verb <;> simp [passCodes])
  · split at h <;> cases h

theorem hundred_le_of_next {verb : Verb} {code : Nat}
    (h : code ∈ passCodes verb ∨ code = blockCode verb) : 100 ≤ code := by
  cases verb <;> simp only [passCodes, blockCode, List.mem_cons, List.not_mem_nil, or_false] at h <;>
    omega

/-- A turn of the loop behind a status line. -/
theorem readResponse_turn {verb : Verb} {out : Bytes} {b : Buffered} {status msg : Text}
    {code : Nat} (hread : (readLine b).1 = .ok status)
    (hparse : parseStatus status = Checked.ofExcept (.ok (code, msg)))
    (hcode : isErrorCode code = false) :
    readResponse verb out b =
      match (dispatch verb code msg out (readLine b).2).1 with
      | .stop r => some (r, (dispatch verb code msg out (readLine b).2).2)
      | .next => readResponse verb (dispatch verb code msg out (readLine b).2).2.1
          (dispatch verb code msg out (readLine b).2).2.2 := by
  rw [readResponse]
  split
  · next e he =>
      rw [hread] at he
      cases he
  next status' hstatus =>
  obtain rfl : status = status' := Except.ok.inj (hread.symm.trans hstatus)
  have hgood : ¬ isErrorCode code = true := by
    rw [hcode]
    exact Bool.false_ne_true
  rw [hparse]
  exact if_neg hgood

theorem readResponse_of_panic {verb : Verb} {out : Bytes} {b : Buffered} {status : Text}
    (hread : (readLine b).1 = .ok status) (hparse : (parseStatus status).run = none) :
    readResponse verb out b = none := by
  rw [readResponse]
  split
  · next e he =>
      rw [hread] at he
      cases he
  next status' hstatus =>
  obtain rfl : status = status' := Except.ok.inj (hread.symm.trans hstatus)
  rw [hparse]

theorem parseStatus_of_hasCode {line : Text} {n : Nat} (h : HasCode line n) :
    ∃ msg, parseStatus (line ++ ['\n']) = Checked.ofExcept (.ok (n, msg)) := by
  obtain ⟨a, b, c, more, heq, ha, hb, hc, rfl⟩ := h.trimEndCrlf
  rw [← trimEndCrlf_lf] at heq
  exact ⟨_, parseStatus_digits ha hb hc heq⟩

theorem readResponse_of_severed {verb : Verb} {tail : Option IoKind} {bytes : Bytes}
    (h : Severed verb tail bytes) (out : Bytes) {b : Buffered} (hb : b.pending = bytes)
    (htail : b.tail = tail) : readResponse verb out b = none := by
  induction h generalizing out b with
  | here hline hinside =>
      obtain ⟨b', hread, -⟩ := readLine_of_line hline hb
      refine readResponse_of_panic (congrArg Prod.fst hread) (parseStatus_eq_none_iff.mpr ?_)
      rwa [trimEndCrlf_lf]
  | @last line hclean hline hinside =>
      have hne : line ≠ [] := by
        rintro rfl
        obtain ⟨front, c, back, heq, -⟩ := hinside
        simp [Text.trimEndCrlf] at heq
      have hread := readLine_of_last hline hne hb (htail.trans hclean)
      exact readResponse_of_panic hread (parseStatus_eq_none_iff.mpr hinside)
  | pass hline hcode hpass hrest ih =>
      obtain ⟨b', hread, hpending, htail'⟩ := readLine_of_line hline hb
      obtain ⟨msg, hparse⟩ := parseStatus_of_hasCode hcode
      obtain ⟨hgood, hnext⟩ := dispatch_pass hpass msg out b'
      rw [readResponse_turn (congrArg Prod.fst hread) hparse hgood, hread]
      simp only [hnext]
      exact ih out hpending (htail'.trans htail)
  | block hline hcode hblock hrest ih =>
      obtain ⟨b', hread, hpending, htail'⟩ := readLine_of_line hline hb
      obtain ⟨msg, hparse⟩ := parseStatus_of_hasCode hcode
      obtain ⟨hgood, hnext⟩ := dispatch_block verb msg out b'
      obtain ⟨b'', hread', hpending', htail''⟩ :=
        readTextBlock_of_isBlock hblock (out ++ blockHeader verb msg) hpending
      rw [readResponse_turn (congrArg Prod.fst hread) hparse hgood, hread]
      simp only [hnext, hread', behind]
      exact ih _ hpending' (htail''.trans (htail'.trans htail))

theorem HasCode.of_prefix {line line' : Text} {n : Nat} (h : HasCode line n) (hpre : line <+: line') :
    HasCode line' n := by
  obtain ⟨a, b, c, more, rfl, ha, hb, hc, rfl⟩ := h
  obtain ⟨rest, rfl⟩ := hpre
  exact ⟨a, b, c, more ++ rest, rfl, ha, hb, hc, rfl⟩

theorem severed_of_readResponse {verb : Verb} {out : Bytes} {b : Buffered}
    (h : readResponse verb out b = none) : Severed verb b.tail b.pending := by
  fun_induction readResponse verb out b with
  | case1 out b e hline => cases h
  | case2 out b status hline hparse =>
      have hinside := parseStatus_eq_none_iff.mp hparse
      obtain ⟨-, ⟨t, ht, rfl, hb⟩ | ⟨hlf, hb, htail, -⟩⟩ := readLine_eq_ok hline
      · rw [trimEndCrlf_lf] at hinside
        rw [hb]
        exact .here ht hinside
      · rw [hb]
        exact .last htail hlf hinside
  | case3 out b status hline e hparse => cases h
  | case4 out b status hline code msg hparse herror => cases h
  | case5 out b status hline code msg hparse herror after r hstop => cases h
  | case6 out b status hline code msg hparse herror after hnext ih =>
      have hcodes := dispatch_next hnext
      have hcode := hasCode_of_parseStatus (hundred_le_of_next hcodes) hparse
      have hsevered := ih h
      -- behind the last line of a stream there is nothing to panic on
      obtain ⟨htail, ⟨t, ht, rfl, hb⟩ | ⟨-, -, -, hnil⟩⟩ := readLine_eq_ok hline
      · rw [trimEndCrlf_lf] at hcode
        have hcode' := hcode.of_prefix (trimEndCrlf_initial t)
        rcases hcodes with hpass | rfl
        · have hafter : after.2 = (out, (readLine b).2) :=
            congrArg Prod.snd (dispatch_pass hpass msg out (readLine b).2).2
          rw [hafter, htail] at hsevered
          rw [hb]
          exact .pass ht hcode' hpass hsevered
        · have hafter : after = _ := (dispatch_block verb msg out (readLine b).2).2
          rw [hafter] at hnext hsevered
          obtain ⟨hok, hbehind⟩ := behind_next hnext
          rw [hbehind] at hsevered
          obtain ⟨htail', hnil | ⟨lines, last, hblock, hbytes⟩⟩ := isBlock_of_readTextBlock hok
          · exact absurd hnil (not_severed_nil hsevered)
          · rw [htail', htail] at hsevered
            rw [hb, hbytes]
            exact .block ht hcode' hblock hsevered
      · have hle := length_dispatch_le verb code msg out (readLine b).2
        rw [hnil] at hle
        exact absurd (List.length_eq_zero_iff.mp (Nat.le_zero.mp hle)) (not_severed_nil hsevered)

/-- The responses that panic. -/
theorem readResponse_eq_none_iff {verb : Verb} {out : Bytes} {b : Buffered} :
    readResponse verb out b = none ↔ Severed verb b.tail b.pending :=
  ⟨severed_of_readResponse, fun h => readResponse_of_severed h out rfl rfl⟩

end Dict
end Rsurl
