/-
# `Rsurl.Ftp.Replies` — a reply, from its first line to its last

A reply of RFC 959 is one line, or a line with a hyphen behind the code, any
lines that do not begin with the code and a space, and one that does.  Whatever
the stream holds, the loop over the lines ends, and none of the slices and
conversions of a line fails.
-/
import Rsurl.Ftp
import Rsurl.Text.Fields
import Rsurl.Text.Utf8

namespace Rsurl.Ftp

open Base (Program)

/-! ## A line, byte by byte -/

/-- `&s[n..]`; `none` where it panics, between the bytes of a character or behind the end. -/
def dropBytes : Text → Nat → Option Text
  | t, 0 => some t
  | [], _ + 1 => none
  | c :: t, n + 1 => if c.utf8Size ≤ n + 1 then dropBytes t (n + 1 - c.utf8Size) else none

/-- `u8::is_ascii_digit`. -/
def isDigitByte (b : UInt8) : Bool := 48 ≤ b && b ≤ 57

/-- `split_code` with the bytes it looks at and the slices it takes; `none` where it panics. -/
def splitCodeBytes (line : Text) : Option (Result (Nat × Char × Text)) :=
  let bytes := line.utf8
  if bytes.length < 4 ∨ !isDigitByte (bytes.getD 0 0) ∨ !isDigitByte (bytes.getD 1 0) ∨
      !isDigitByte (bytes.getD 2 0) then
    some (.error (.badResponse [.str "ftp reply: no 3-digit code: ", .display line.trimEnd]))
  else
    let sep := Char.ofNat (bytes.getD 3 0).toNat
    if sep ≠ ' ' ∧ sep ≠ '-' then
      some (.error (.badResponse [.str "ftp reply: bad separator: ", .display line.trimEnd]))
    else do
      let code ← parseU16 (← line.takeBytes 3)
      let rest ← dropBytes line 4
      return .ok (code.toNat, sep, rest.trimEndCrlf)

theorem isDigitByte_iff {b : UInt8} : isDigitByte b = true ↔ 48 ≤ b.toNat ∧ b.toNat ≤ 57 := by
  simp [isDigitByte, UInt8.le_iff_toNat_le]

/-- A digit of a text is the byte that it is. -/
theorem utf8_cons_digit {c : Char} (h : c.isDigit = true) (t : Text) :
    Text.utf8 (c :: t) = UInt8.ofNat c.toNat :: t.utf8 ∧
      isDigitByte (UInt8.ofNat c.toNat) = true ∧ c.utf8Size = 1 := by
  obtain ⟨hlow, hhigh⟩ := isDigit_iff.mp h
  have hascii : c.toNat < 128 := by omega
  refine ⟨utf8_cons_ascii hascii t, isDigitByte_iff.mpr ?_, utf8Size_of_ascii hascii⟩
  rw [UInt8.toNat_ofNat', Nat.mod_eq_of_lt (by omega)]
  exact ⟨hlow, hhigh⟩

theorem exists_cons_of_digit {t : Text} {b : UInt8} {bs : Bytes} (h : t.utf8 = b :: bs)
    (hb : isDigitByte b = true) :
    ∃ (c : Char) (t' : Text), t = c :: t' ∧ c.isDigit = true ∧ bs = t'.utf8 := by
  obtain ⟨hlow, hhigh⟩ := isDigitByte_iff.mp hb
  obtain ⟨c, t', ht, hc, hbs⟩ := exists_cons_of_ascii h (by omega)
  exact ⟨c, t', ht, isDigit_iff.mpr (by omega), hbs⟩

/-- Of the fourth character it only matters whether it is one of the separators. -/
theorem separator_byte {sep : Char} {rest : Text} {d : UInt8} {ds : Bytes}
    (h : Text.utf8 (sep :: rest) = d :: ds) :
    (Char.ofNat d.toNat = sep ∧ sep.utf8Size = 1) ∨
      (Char.ofNat d.toNat ≠ ' ' ∧ Char.ofNat d.toNat ≠ '-' ∧ sep ≠ ' ' ∧ sep ≠ '-') := by
  by_cases hd : d.toNat < 128
  · obtain ⟨c, t', ht, hc, -⟩ := exists_cons_of_ascii h hd
    obtain ⟨rfl, -⟩ := List.cons.inj ht
    exact .inl ⟨by rw [← hc, Char.ofNat_toNat], utf8Size_of_ascii (hc.trans_lt hd)⟩
  · have hlt := d.toNat_lt
    have hall : ∀ n : Fin 256, (Char.ofNat n.val).toNat = n.val := by decide +kernel
    have hval : (Char.ofNat d.toNat).toNat = d.toNat := hall ⟨d.toNat, hlt⟩
    refine .inr ⟨?_, ?_, ?_, ?_⟩
    · intro hspace
      rw [hspace] at hval
      exact hd (hval ▸ by decide)
    · intro hhyphen
      rw [hhyphen] at hval
      exact hd (hval ▸ by decide)
    · rintro rfl
      rw [utf8_cons_ascii (by decide)] at h
      exact hd ((List.cons.inj h).1 ▸ by decide)
    · rintro rfl
      rw [utf8_cons_ascii (by decide)] at h
      exact hd ((List.cons.inj h).1 ▸ by decide)

theorem codeOf_lt {a b c : Char} (ha : a.isDigit) (hb : b.isDigit) (hc : c.isDigit) :
    codeOf a b c < 1000 := by
  have ha' := isDigit_iff.mp ha
  have hb' := isDigit_iff.mp hb
  have hc' := isDigit_iff.mp hc
  have hzero : '0'.toNat = 48 := rfl
  rw [codeOf, hzero]
  omega

theorem parseU16_code {a b c : Char} (ha : a.isDigit) (hb : b.isDigit) (hc : c.isDigit) :
    parseU16 [a, b, c] = some (UInt16.ofNat (codeOf a b c)) := by
  have hd : ∀ x ∈ [a, b, c], x.isDigit = true := by simp [ha, hb, hc]
  have hval : Nat.ofDigitChars 10 [a, b, c] 0 = codeOf a b c := by
    simp only [Nat.ofDigitChars_cons, Nat.ofDigitChars_nil, codeOf]
    omega
  have hle : Nat.ofDigitChars 10 [a, b, c] 0 ≤ 65535 := by
    rw [hval]
    exact (codeOf_lt ha hb hc).le.trans (by decide)
  rw [parseU16, parseUnsigned, stripPlus_of_digits hd, if_neg (List.cons_ne_nil _ _),
    parseDigits_ofDigitChars hd hle, hval, Option.map_some]

/-- A line with a code, character by character. -/
theorem splitCodeBytes_digits {a b c sep : Char} {rest : Text} (ha : a.isDigit) (hb : b.isDigit)
    (hc : c.isDigit) : splitCodeBytes (a :: b :: c :: sep :: rest) =
      some (splitCode (a :: b :: c :: sep :: rest)) := by
  obtain ⟨hbytesA, hdigitA, hsizeA⟩ := utf8_cons_digit ha (b :: c :: sep :: rest)
  obtain ⟨hbytesB, hdigitB, hsizeB⟩ := utf8_cons_digit hb (c :: sep :: rest)
  obtain ⟨hbytesC, hdigitC, hsizeC⟩ := utf8_cons_digit hc (sep :: rest)
  have hne : Text.utf8 (sep :: rest) ≠ [] := fun h => List.cons_ne_nil _ _ (Text.utf8_eq_nil.mp h)
  obtain ⟨d, ds, hbytes⟩ := List.exists_cons_of_ne_nil hne
  have hall : Text.utf8 (a :: b :: c :: sep :: rest) = UInt8.ofNat a.toNat ::
      UInt8.ofNat b.toNat :: UInt8.ofNat c.toNat :: d :: ds := by
    rw [hbytesA, hbytesB, hbytesC, hbytes]
  have hfront : ¬((Text.utf8 (a :: b :: c :: sep :: rest)).length < 4 ∨
      !isDigitByte ((Text.utf8 (a :: b :: c :: sep :: rest)).getD 0 0) ∨
      !isDigitByte ((Text.utf8 (a :: b :: c :: sep :: rest)).getD 1 0) ∨
      !isDigitByte ((Text.utf8 (a :: b :: c :: sep :: rest)).getD 2 0)) := by
    rw [hall]
    simp [hdigitA, hdigitB, hdigitC]
  have hsepByte : (Text.utf8 (a :: b :: c :: sep :: rest)).getD 3 0 = d := by rw [hall]; rfl
  have hcode : ¬¬((a.isDigit : Prop) ∧ (b.isDigit : Prop) ∧ (c.isDigit : Prop)) :=
    not_not_intro ⟨ha, hb, hc⟩
  rw [splitCodeBytes]
  dsimp only
  rw [if_neg hfront, hsepByte, splitCode, if_neg hcode]
  rcases separator_byte hbytes with ⟨hsep, hsize⟩ | ⟨hspace, hhyphen, hspace', hhyphen'⟩
  · rw [hsep]
    by_cases hbad : sep ≠ ' ' ∧ sep ≠ '-'
    · rw [if_pos hbad, if_pos hbad]
    · have htake : Text.takeBytes (a :: b :: c :: sep :: rest) 3 = some [a, b, c] := by
        simp [Text.takeBytes, hsizeA, hsizeB, hsizeC]
      have hdrop : dropBytes (a :: b :: c :: sep :: rest) 4 = some rest := by
        simp [dropBytes, hsizeA, hsizeB, hsizeC, hsize]
      have hnat : (UInt16.ofNat (codeOf a b c)).toNat = codeOf a b c := by
        have hlt := codeOf_lt ha hb hc
        rw [UInt16.toNat_ofNat', Nat.mod_eq_of_lt (by omega)]
      rw [if_neg hbad, if_neg hbad, htake, hdrop]
      simp only [Option.bind_eq_bind, Option.bind_some, parseU16_code ha hb hc, hnat]
      rfl
  · rw [if_pos ⟨hspace, hhyphen⟩, if_pos ⟨hspace', hhyphen'⟩]

/-- Nothing panics, and the code is what the first three characters say. -/
theorem splitCodeBytes_eq (line : Text) : splitCodeBytes line = some (splitCode line) := by
  by_cases hshape : ∃ a b c sep rest, line = a :: b :: c :: sep :: rest ∧ a.isDigit = true ∧
      b.isDigit = true ∧ c.isDigit = true
  · obtain ⟨a, b, c, sep, rest, rfl, ha, hb, hc⟩ := hshape
    exact splitCodeBytes_digits ha hb hc
  · have hfront : line.utf8.length < 4 ∨ !isDigitByte (line.utf8.getD 0 0) ∨
        !isDigitByte (line.utf8.getD 1 0) ∨ !isDigitByte (line.utf8.getD 2 0) := by
      by_contra hno
      simp only [not_or, Nat.not_lt, Bool.not_eq_true', Bool.not_eq_false] at hno
      obtain ⟨hlength, h0, h1, h2⟩ := hno
      match hbytes : line.utf8, hlength with
      | x :: y :: z :: w :: ws, _ =>
          rw [hbytes] at h0 h1 h2
          obtain ⟨a, t₁, rfl, ha, hb₁⟩ := exists_cons_of_digit hbytes h0
          obtain ⟨b, t₂, rfl, hb, hb₂⟩ := exists_cons_of_digit hb₁.symm h1
          obtain ⟨c, t₃, rfl, hc, hb₃⟩ := exists_cons_of_digit hb₂.symm h2
          cases t₃ with
          | nil => cases hb₃
          | cons sep rest => exact hshape ⟨a, b, c, sep, rest, rfl, ha, hb, hc⟩
    have hcode : splitCode line =
        .error (.badResponse [.str "ftp reply: no 3-digit code: ", .display line.trimEnd]) := by
      match line, hshape with
      | [], _ | [_], _ | [_, _], _ | [_, _, _], _ => rfl
      | a :: b :: c :: sep :: rest, hshape =>
          have hno : ¬((a.isDigit : Prop) ∧ (b.isDigit : Prop) ∧ (c.isDigit : Prop)) :=
            fun ⟨ha, hb, hc⟩ => hshape ⟨a, b, c, sep, rest, rfl, ha, hb, hc⟩
          rw [splitCode, if_pos hno]
    rw [splitCodeBytes, hcode]
    dsimp only
    rw [if_pos hfront]

/-! ## The loop ends -/

/-- The loop of `read_reply`, one line at a time; no rule lets a line panic. -/
inductive Continued (code : Nat) : Text → Control → Except Error (Nat × Text) × Control → Prop
  | fail {text : Text} {e : Error} {c c' : Control} (hline : readLine.exec c = (.error e, c')) :
      Continued code text c (.error e, c')
  | last {text line rest : Text} {c c' : Control} (hline : readLine.exec c = (.ok line, c'))
      (hsplit : splitCodeBytes line = some (.ok (code, ' ', rest))) :
      Continued code text c (.ok (code, text ++ '\n' :: rest), c')
  | other {text line rest : Text} {n : Nat} {sep : Char} {c c' : Control}
      {out : Except Error (Nat × Text) × Control} (hline : readLine.exec c = (.ok line, c'))
      (hsplit : splitCodeBytes line = some (.ok (n, sep, rest))) (hmore : ¬(n = code ∧ sep = ' '))
      (hrest : Continued code (text ++ '\n' :: rest) c' out) : Continued code text c out
  | plain {text line : Text} {e : Error} {c c' : Control}
      {out : Except Error (Nat × Text) × Control} (hline : readLine.exec c = (.ok line, c'))
      (hsplit : splitCodeBytes line = some (.error e))
      (hrest : Continued code (text ++ '\n' :: line.trimEndCrlf) c' out) : Continued code text c out

/-- `read_reply`, as far as it gets. -/
inductive Replied : Control → Except Error (Nat × Text) × Control → Prop
  | fail {e : Error} {c c' : Control} (hline : readLine.exec c = (.error e, c')) :
      Replied c (.error e, c')
  | bad {line : Text} {e : Error} {c c' : Control} (hline : readLine.exec c = (.ok line, c'))
      (hsplit : splitCodeBytes line = some (.error e)) : Replied c (.error e, c')
  | single {line rest : Text} {code : Nat} {c c' : Control}
      (hline : readLine.exec c = (.ok line, c'))
      (hsplit : splitCodeBytes line = some (.ok (code, ' ', rest))) : Replied c (.ok (code, rest), c')
  | multi {line rest : Text} {code : Nat} {sep : Char} {c c' : Control}
      {out : Except Error (Nat × Text) × Control} (hline : readLine.exec c = (.ok line, c'))
      (hsplit : splitCodeBytes line = some (.ok (code, sep, rest))) (hsep : sep ≠ ' ')
      (hrest : Continued code rest c' out) : Replied c out

theorem length_readLine_lt {c c' : Control} {line : Text}
    (h : readLine.exec c = (.ok line, c')) : c'.ctrl.pending.length < c.ctrl.pending.length := by
  change readLine c = _ at h
  rw [readLine] at h
  rcases hread : Rtsp.readLine c.ctrl with ⟨e | ⟨text, n⟩, b'⟩
  · rw [hread] at h
    cases h
  · rw [hread] at h
    dsimp only at h
    by_cases hn : n = 0
    · rw [if_pos hn] at h
      cases h
    · rw [if_neg hn] at h
      obtain ⟨-, rfl⟩ := Prod.mk.inj h
      have hlt : (Rtsp.readLine c.ctrl).2.pending.length < _ :=
        Rtsp.length_readLine_lt (by rw [hread]) hn
      rwa [hread] at hlt

/-- With a turn for every byte, and one for the end of the stream, the loop is never cut off. -/
theorem continued_continueReply {fuel code : Nat} {text : Text} {c : Control}
    (h : c.ctrl.pending.length < fuel) :
    Continued code text c ((continueReply fuel code text).exec c) := by
  induction fuel generalizing text c with
  | zero => cases h
  | succ fuel ih =>
      rw [continueReply, Program.exec_bind]
      rcases hline : readLine.exec c with ⟨res | line, c'⟩
      · exact .fail hline
      · have hlt : c'.ctrl.pending.length < fuel := by
          have := length_readLine_lt hline
          omega
        have hbytes := splitCodeBytes_eq line
        dsimp only
        rcases hsplit : splitCode line with e | ⟨n, sep, rest⟩
        · exact .plain hline (hsplit ▸ hbytes) (ih hlt)
        · dsimp only
          by_cases hend : n = code ∧ sep = ' '
          · obtain ⟨rfl, rfl⟩ := hend
            rw [if_pos ⟨rfl, rfl⟩]
            exact .last hline (hsplit ▸ hbytes)
          · rw [if_neg hend]
            exact .other hline (hsplit ▸ hbytes) hend (ih hlt)

theorem replied_readReply (c : Control) : Replied c (readReply.exec c) := by
  rw [readReply, Program.exec_bind]
  rcases hline : readLine.exec c with ⟨res | line, c'⟩
  · exact .fail hline
  · have hbytes := splitCodeBytes_eq line
    dsimp only
    rw [Program.exec_bind]
    rcases hsplit : splitCode line with e | ⟨code, sep, rest⟩
    · exact .bad hline (hsplit ▸ hbytes)
    · show Replied c (Program.exec (if sep = ' ' then pure (code, rest) else _) c')
      by_cases hsep : sep = ' '
      · subst hsep
        rw [if_pos rfl]
        exact .single hline (hsplit ▸ hbytes)
      · rw [if_neg hsep]
        exact .multi hline (hsplit ▸ hbytes) hsep (continued_continueReply (Nat.lt_succ_self _))

/-! ## A reply is read to its end -/

/-- The lines of a reply, without their ends, and its code. -/
inductive IsReplyLines : Nat → List Text → Prop
  | single {a b c : Char} (ha : a.isDigit) (hb : b.isDigit) (hc : c.isDigit) (text : Text) :
      IsReplyLines (codeOf a b c) [a :: b :: c :: ' ' :: text]
  | multi {a b c : Char} (ha : a.isDigit) (hb : b.isDigit) (hc : c.isDigit) (first : Text)
      {inner : List Text} (hinner : ∀ l ∈ inner, ¬[a, b, c, ' '] <+: l) (last : Text) :
      IsReplyLines (codeOf a b c)
        ((a :: b :: c :: '-' :: first) :: (inner ++ [a :: b :: c :: ' ' :: last]))

/-- The lines on the wire. -/
def wire (lines : List Text) : Bytes := lines.flatMap fun l => l.utf8 ++ crlf

theorem readLine_wire {l : Text} (hl : '\n' ∉ l) {c : Control} {rest : Bytes}
    (h : c.ctrl.pending = l.utf8 ++ crlf ++ rest) :
    ∃ b', readLine.exec c = (.ok (l ++ ['\r', '\n']), { c with ctrl := b' }) ∧ b'.pending = rest := by
  have hline : (l ++ ['\r', '\n']).utf8 = l.utf8 ++ crlf := Text.utf8_append _ _
  have hthrough : Base.Segment.through (· == 10) c.ctrl.pending = some (l.utf8 ++ crlf, rest) := by
    have hsplit : l.utf8 ++ crlf ++ rest = (l.utf8 ++ [13]) ++ 10 :: rest := by simp [crlf]
    have hfirst : l.utf8 ++ crlf = (l.utf8 ++ [13]) ++ [10] := by simp [crlf]
    have hclean : (10 : UInt8) ∉ l.utf8 := Text.not_mem_utf8 (by decide) hl
    rw [h, hsplit, hfirst]
    refine Base.Segment.through_append (fun y hy => ?_) rfl
    rcases List.mem_append.mp hy with hy | hy
    · exact beq_eq_false_iff_ne.mpr fun he => hclean (he ▸ hy)
    · rw [List.mem_singleton.mp hy]
      rfl
  obtain ⟨b', hread, hrest, -⟩ := Rtsp.readLine_of_through hthrough
  have hpos : (l.utf8 ++ crlf).length ≠ 0 := by simp [crlf]
  refine ⟨b', ?_, hrest⟩
  show readLine c = _
  rw [readLine, hread, Rtsp.lineOf, ← hline, fromUtf8_utf8, hline]
  exact if_neg hpos

theorem codeOf_inj {a b c a' b' c' : Char} (ha : a.isDigit) (hb : b.isDigit) (hc : c.isDigit)
    (ha' : a'.isDigit) (hb' : b'.isDigit) (hc' : c'.isDigit) (h : codeOf a b c = codeOf a' b' c') :
    a = a' ∧ b = b' ∧ c = c' := by
  have hranges := And.intro (isDigit_iff.mp ha) (And.intro (isDigit_iff.mp hb) (isDigit_iff.mp hc))
  have hranges' :=
    And.intro (isDigit_iff.mp ha') (And.intro (isDigit_iff.mp hb') (isDigit_iff.mp hc'))
  have hzero : '0'.toNat = 48 := rfl
  rw [codeOf, codeOf, hzero] at h
  refine ⟨Char.toNat_inj.mp ?_, Char.toNat_inj.mp ?_, Char.toNat_inj.mp ?_⟩ <;> omega

/-- A line inside a reply does not end it. -/
theorem splitCode_inner {a b c : Char} (ha : a.isDigit) (hb : b.isDigit) (hc : c.isDigit) {l : Text}
    (hl : ¬[a, b, c, ' '] <+: l) {rest : Text} :
    splitCode (l ++ ['\r', '\n']) ≠ .ok (codeOf a b c, ' ', rest) := by
  intro h
  have hcr : '\r' ∉ [a, b, c, ' '] := by
    simp only [List.mem_cons, List.not_mem_nil, not_or]
    refine ⟨?_, ?_, ?_, by decide, not_false⟩ <;> rintro rfl
    · cases ha
    · cases hb
    · cases hc
  obtain ⟨tail, htail⟩ : [a, b, c, ' '] <+: l ++ ['\r', '\n'] := by
    generalize l ++ ['\r', '\n'] = line at h
    match line, h with
    | [], h | [_], h | [_, _], h | [_, _, _], h => cases h
    | a' :: b' :: c' :: sep :: tail, h =>
        rw [splitCode] at h
        split at h
        · cases h
        · next hdigits =>
            split at h
            · cases h
            · obtain ⟨hcode, hsep, -⟩ : codeOf a' b' c' = codeOf a b c ∧ sep = ' ' ∧ _ := by
                simpa using h
              obtain ⟨ha', hb', hc'⟩ := not_not.mp hdigits
              obtain ⟨rfl, rfl, rfl⟩ := codeOf_inj ha' hb' hc' ha hb hc hcode
              exact ⟨tail, by rw [hsep]; rfl⟩
  -- the prefix ends before the line end does
  rcases List.append_eq_append_iff.mp htail with ⟨more, hmore, -⟩ | ⟨more, hmore, htail'⟩
  · exact hl ⟨more, hmore.symm⟩
  · cases more with
    | nil => exact hl ⟨[], by simpa using hmore⟩
    | cons x more =>
        obtain ⟨rfl, -⟩ := List.cons.inj htail'
        exact hcr (hmore ▸ by simp)

theorem splitCode_code {a b c sep : Char} (ha : a.isDigit) (hb : b.isDigit) (hc : c.isDigit)
    (hsep : sep = ' ' ∨ sep = '-') (rest : Text) :
    splitCode (a :: b :: c :: sep :: rest) = .ok (codeOf a b c, sep, rest.trimEndCrlf) := by
  rw [splitCode, if_neg (not_not_intro ⟨ha, hb, hc⟩), if_neg]
  rintro ⟨hspace, hhyphen⟩
  exact hsep.elim hspace hhyphen

theorem continueReply_wire {a b c : Char} (ha : a.isDigit) (hb : b.isDigit) (hc : c.isDigit)
    {inner : List Text} (hinner : ∀ l ∈ inner, ¬[a, b, c, ' '] <+: l) {last : Text}
    (hlines : ∀ l ∈ inner ++ [a :: b :: c :: ' ' :: last], '\n' ∉ l) {fuel : Nat} {ctl : Control}
    {rest : Bytes} (h : ctl.ctrl.pending = wire (inner ++ [a :: b :: c :: ' ' :: last]) ++ rest)
    (hfuel : ctl.ctrl.pending.length < fuel) (text : Text) :
    ∃ text' b', (continueReply fuel (codeOf a b c) text).exec ctl =
      (.ok (codeOf a b c, text'), { ctl with ctrl := b' }) ∧ b'.pending = rest := by
  induction inner generalizing fuel ctl text with
  | nil =>
      obtain ⟨fuel, rfl⟩ := Nat.exists_eq_succ_of_ne_zero (Nat.ne_zero_of_lt hfuel)
      obtain ⟨b', hline, hrest⟩ := readLine_wire (hlines _ List.mem_cons_self)
        (h.trans (by rw [wire, List.nil_append, List.flatMap_singleton]))
      have hsplit := splitCode_code ha hb hc (.inl rfl) (last ++ ['\r', '\n'])
      refine ⟨text ++ '\n' :: Text.trimEndCrlf (last ++ ['\r', '\n']), b', ?_, hrest⟩
      rw [continueReply, Program.exec_bind_ok hline]
      simp only [List.cons_append, hsplit, and_self, if_true, Program.exec_pure]
  | cons l inner ih =>
      obtain ⟨fuel, rfl⟩ := Nat.exists_eq_succ_of_ne_zero (Nat.ne_zero_of_lt hfuel)
      have hl := hinner l List.mem_cons_self
      have hwire : wire (l :: inner ++ [a :: b :: c :: ' ' :: last]) ++ rest =
          l.utf8 ++ crlf ++ (wire (inner ++ [a :: b :: c :: ' ' :: last]) ++ rest) := by
        rw [wire, List.cons_append, List.flatMap_cons, List.append_assoc, wire]
      obtain ⟨b', hline, hrest⟩ := readLine_wire (hlines l List.mem_cons_self) (h.trans hwire)
      have hless : b'.pending.length < fuel := by
        have hlt := length_readLine_lt hline
        dsimp only at hlt
        omega
      have hpending : ({ ctl with ctrl := b' } : Control).ctrl.pending = _ := hrest
      have hmore := ih (fun m hm => hinner m (List.mem_cons_of_mem _ hm))
        (fun m hm => hlines m (List.mem_cons_of_mem _ hm)) hpending hless
      rw [continueReply, Program.exec_bind_ok hline]
      rcases hsplit : splitCode (l ++ ['\r', '\n']) with e | ⟨n, sep, tail⟩
      · exact hmore _
      · have hgoes : ¬(n = codeOf a b c ∧ sep = ' ') := by
          rintro ⟨rfl, rfl⟩
          exact splitCode_inner ha hb hc hl hsplit
        dsimp only
        rw [if_neg hgoes]
        exact hmore _

/-- Every run of `read_reply` ends without a panic; and where the stream has a reply, whatever is
behind it, it gives the reply's code and stands behind its last line. -/
theorem readReply_reads (ctl : Control) :
    Replied ctl (readReply.exec ctl) ∧
      ∀ {code : Nat} {lines : List Text} {rest : Bytes}, IsReplyLines code lines →
        (∀ l ∈ lines, '\n' ∉ l) → ctl.ctrl.pending = wire lines ++ rest →
        ∃ text b', readReply.exec ctl = (.ok (code, text), { ctl with ctrl := b' }) ∧
          b'.pending = rest := by
  refine ⟨replied_readReply ctl, fun hreply hlines h => ?_⟩
  cases hreply with
  | @single a b c ha hb hc text =>
      obtain ⟨b', hline, hrest⟩ := readLine_wire (hlines _ List.mem_cons_self)
        (h.trans (by rw [wire, List.flatMap_singleton]))
      have hsplit := splitCode_code ha hb hc (.inl rfl) (text ++ ['\r', '\n'])
      refine ⟨Text.trimEndCrlf (text ++ ['\r', '\n']), b', ?_, hrest⟩
      rw [readReply, Program.exec_bind_ok hline]
      simp only [List.cons_append, hsplit]
      rfl
  | @multi a b c ha hb hc first inner hinner last =>
      obtain ⟨b', hline, hrest⟩ := readLine_wire (hlines _ List.mem_cons_self)
        (h.trans (by rw [wire, List.flatMap_cons, List.append_assoc]))
      have hsplit := splitCode_code ha hb hc (.inr rfl) (first ++ ['\r', '\n'])
      have hpending : ({ ctl with ctrl := b' } : Control).ctrl.pending = _ := hrest
      obtain ⟨text', b₂, hmore, hrest₂⟩ := continueReply_wire ha hb hc hinner
        (fun m hm => hlines m (List.mem_cons_of_mem _ hm)) hpending (Nat.lt_succ_self _)
        (Text.trimEndCrlf (first ++ ['\r', '\n']))
      refine ⟨text', b₂, ?_, hrest₂⟩
      rw [readReply, Program.exec_bind_ok hline]
      simp only [List.cons_append, hsplit]
      exact hmore

/-- A reply with a line that begins with other digits and one with the code and a hyphen. -/
theorem readReply_reads_multi :
    let lines : List Text := ["220-a".toList, "221 b".toList, "220-c".toList, "220 d".toList]
    let ctl : Control := ⟨⟨wire lines ++ [50], [], none⟩, ⟨[], none, none⟩, [], [], none⟩
    IsReplyLines 220 lines ∧ ∃ text b', readReply.exec ctl = (.ok (220, text), { ctl with ctrl := b' }) ∧
      b'.pending = [50] := by
  intro lines ctl
  have hinner : ∀ l ∈ ["221 b".toList, "220-c".toList], ¬['2', '2', '0', ' '] <+: l := by decide
  have hreply : IsReplyLines 220 lines := .multi rfl rfl rfl ['a'] hinner ['d']
  have hlines : ∀ l ∈ lines, '\n' ∉ l := by decide
  exact ⟨hreply, (readReply_reads ctl).2 hreply hlines (List.append_nil _)⟩

end Rsurl.Ftp
