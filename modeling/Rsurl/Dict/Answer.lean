/-
# `Rsurl.Dict.Answer` — well-formed answers to DEFINE and MATCH

An answer as RFC 2229 has it: the definitions, or the matches, as lines of text
with CR LF behind them.  The client prints the message of each definition and
the lines of the text, an LF behind each of them; it takes off all CRs at the end
of a line, so the text is what was sent exactly if no line ends with a CR of its
own.
-/
import Rsurl.Dict.Response

namespace Rsurl.Dict

open Base (Checked)

/-! ## Answers on the wire -/

/-- A line of text, without its end. -/
abbrev Line := {t : Text // '\n' ∉ t}

/-- The bytes of a line and the CR LF that ends it. -/
def crlfEnded (t : Text) : Bytes := lfEnded (t ++ ['\r'])

/-- A code, a space and a message. -/
def statusLine (code : Nat) (message : Text) : Text := decimal code ++ ' ' :: message

/-- RFC 2229: a dot more in front of a line that begins with one. -/
def stuff (t : Text) : Text := if t.head? = some '.' then '.' :: t else t

/-- The stuffed lines, and a line that is only a dot. -/
def textBlock (lines : List Line) : Bytes :=
  lines.flatMap (fun l => crlfEnded (stuff l.val)) ++ crlfEnded ['.']

/-- The message and the text of a definition. -/
structure Definition where
  message : Line
  lines : List Line
deriving DecidableEq

inductive Answer where
  | define (count : Option Line) (definitions : List Definition) (final : Line)
  | matchWord (count : Line) (lines : List Line) (final : Line)
deriving DecidableEq

namespace Answer

/-- The command that is answered. -/
def verb : Answer → Verb
  | define .. => .define
  | matchWord .. => .matchWord

/-- The status lines and text blocks, up to the final status line. -/
def wire : Answer → Bytes
  | define count definitions final =>
      (count.elim [] fun m => crlfEnded (statusLine 150 m.val)) ++
        (definitions.flatMap (fun d =>
          crlfEnded (statusLine 151 d.message.val) ++ textBlock d.lines) ++
        crlfEnded (statusLine 250 final.val))
  | matchWord count lines final =>
      crlfEnded (statusLine 152 count.val) ++
        (textBlock lines ++ crlfEnded (statusLine 250 final.val))

/-- What a reader of the answer is to see, line by line. -/
def texts : Answer → List Line
  | define _ definitions _ => definitions.flatMap fun d => d.message :: d.lines
  | matchWord _ lines _ => lines

end Answer

/-- Each text with an LF behind it. -/
def printed (texts : List Text) : Bytes := texts.flatMap lfEnded

theorem printed_append (a b : List Text) : printed (a ++ b) = printed a ++ printed b :=
  List.flatMap_append

/-! ## Text blocks -/

theorem not_mem_stuff {t : Text} (h : '\n' ∉ t) : '\n' ∉ stuff t := by
  unfold stuff
  split
  · exact fun hmem => (List.mem_cons.mp hmem).elim (by decide) h
  · exact h

theorem stuff_dot (t : Text) : stuff ('.' :: t) = '.' :: '.' :: t := rfl

theorem stuff_of_ne {t : Text} (h : t.head? ≠ some '.') : stuff t = t := if_neg h

theorem head?_trimEndCrlf {t : Text} (h : t.head? ≠ some '.') : t.trimEndCrlf.head? ≠ some '.' := by
  intro hdot
  obtain ⟨rest, hrest⟩ := trimEndCrlf_initial t
  obtain ⟨more, hmore⟩ := List.head?_eq_some_iff.mp hdot
  rw [← hrest, hmore] at h
  exact h rfl

/-- What is read is the line, without the CRs at its end. -/
theorem stuffed_line (t : Text) :
    (stuff t ++ ['\r']).trimEndCrlf ≠ ['.'] ∧ unstuffed (stuff t ++ ['\r']) = t.trimEndCrlf := by
  have hcr : (stuff t ++ ['\r']).trimEndCrlf = (stuff t).trimEndCrlf :=
    List.rdropWhile_concat_pos _ _ _ (by decide)
  rw [unstuffed, hcr]
  by_cases hdot : t.head? = some '.'
  · obtain ⟨t, rfl⟩ := List.head?_eq_some_iff.mp hdot
    have hone : Text.trimEndCrlf ('.' :: t) = '.' :: Text.trimEndCrlf t :=
      trimEndCrlf_append [] (by decide) t
    have htwo : Text.trimEndCrlf ('.' :: '.' :: t) = '.' :: '.' :: Text.trimEndCrlf t :=
      trimEndCrlf_append ['.'] (by decide) t
    rw [stuff_dot, htwo, hone]
    exact ⟨by simp, rfl⟩
  · have hhead := head?_trimEndCrlf hdot
    rw [stuff_of_ne hdot, if_neg hhead]
    refine ⟨fun heq => hhead ?_, rfl⟩
    rw [heq]
    rfl

/-- The bytes that the text block of an answer is read from. -/
def blockLines (lines : List Line) : List Text := lines.map fun l => stuff l.val ++ ['\r']

theorem isBlock_blockLines (lines : List Line) : IsBlock (blockLines lines) ['.', '\r'] where
  lines_lf := by
    intro l hl
    obtain ⟨t, -, rfl⟩ := List.mem_map.mp hl
    refine fun hmem => (List.mem_append.mp hmem).elim (not_mem_stuff t.property) ?_
    decide
  lines_dot := by
    intro l hl
    obtain ⟨t, -, rfl⟩ := List.mem_map.mp hl
    exact (stuffed_line t.val).1
  last_lf := by decide
  last_dot := by decide

theorem textBlock_eq (lines : List Line) :
    textBlock lines = blockBytes (blockLines lines) ['.', '\r'] := by
  rw [textBlock, blockBytes, blockLines, List.flatMap_map]
  rfl

theorem readTextBlock_textBlock (lines : List Line) (out : Bytes) {b : Buffered} {rest : Bytes}
    (hb : b.pending = textBlock lines ++ rest) :
    ∃ b', readTextBlock out b =
        (.ok (), out ++ printed (lines.map fun l => l.val.trimEndCrlf), b') ∧
      b'.pending = rest := by
  rw [textBlock_eq] at hb
  obtain ⟨b', hread, hrest, -⟩ := readTextBlock_of_isBlock (isBlock_blockLines lines) out hb
  refine ⟨b', ?_, hrest⟩
  have hwritten : (blockLines lines).flatMap (fun l => (unstuffed l).utf8 ++ [10]) =
      printed (lines.map fun l => l.val.trimEndCrlf) := by
    rw [blockLines, printed, List.flatMap_map, List.flatMap_map]
    refine List.flatMap_congr fun l _ => ?_
    rw [(stuffed_line l.val).2, lfEnded_eq]
  rw [hread, hwritten]

/-! ## Status lines -/

theorem parseStatus_statusLine {code : Nat} {a b c : Char} (hcode : decimal code = [a, b, c])
    (hn : Ftp.codeOf a b c = code) (message : Text) :
    parseStatus (statusLine code message ++ ['\r'] ++ ['\n']) =
      Checked.ofExcept (.ok (code, message.trimEndCrlf)) := by
  have hdigit : ∀ x ∈ [a, b, c], x.isDigit = true := by
    rw [← hcode]
    exact fun x hx => isDigit_of_mem_decimal hx
  have hline : (statusLine code message ++ ['\r'] ++ ['\n']).trimEndCrlf =
      a :: b :: c :: ' ' :: message.trimEndCrlf := by
    rw [trimEndCrlf_crlf, statusLine, hcode]
    exact trimEndCrlf_append [a, b, c] (by decide) message
  rw [parseStatus_digits (hdigit a (by simp)) (hdigit b (by simp)) (hdigit c (by simp)) hline, hn]
  rfl

theorem not_mem_statusLine {code : Nat} {message : Text} (h : '\n' ∉ message) :
    '\n' ∉ statusLine code message ++ ['\r'] := by
  intro hmem
  rcases List.mem_append.mp hmem with hmem | hmem
  · rcases List.mem_append.mp hmem with hmem | hmem
    · exact not_mem_decimal (by decide) hmem
    · exact (List.mem_cons.mp hmem).elim (by decide) h
  · exact absurd hmem (by decide)

/-! ## Whole answers -/

variable {rest : Bytes} {b : Buffered}

/-- A turn of the loop at a status line of an answer. -/
theorem readResponse_statusLine (verb : Verb) (out : Bytes) {code : Nat} {x y z : Char}
    (hcode : decimal code = [x, y, z]) (hn : Ftp.codeOf x y z = code)
    (hgood : isErrorCode code = false) (message : Line)
    (hb : b.pending = crlfEnded (statusLine code message.val) ++ rest) :
    ∃ b', b'.pending = rest ∧ readResponse verb out b =
      match (dispatch verb code message.val.trimEndCrlf out b').1 with
      | .stop r => some (r, (dispatch verb code message.val.trimEndCrlf out b').2)
      | .next => readResponse verb (dispatch verb code message.val.trimEndCrlf out b').2.1
          (dispatch verb code message.val.trimEndCrlf out b').2.2 := by
  obtain ⟨b', hread, hrest, -⟩ := readLine_of_line (not_mem_statusLine message.property) hb
  refine ⟨b', hrest, ?_⟩
  have hline : (readLine b).1 = _ := congrArg Prod.fst hread
  obtain rfl : (readLine b).2 = b' := congrArg Prod.snd hread
  exact readResponse_turn hline (parseStatus_statusLine hcode hn _) hgood

/-- The final status line ends the response, and nothing behind it is read. -/
theorem readResponse_final (verb : Verb) (out : Bytes) (final : Line)
    (hb : b.pending = crlfEnded (statusLine 250 final.val) ++ rest) :
    ∃ b', readResponse verb out b = some (.ok (), out, b') ∧ b'.pending = rest := by
  have hcode : decimal 250 = ['2', '5', '0'] := by decide
  obtain ⟨b', hrest, hturn⟩ := readResponse_statusLine verb out hcode rfl rfl final hb
  refine ⟨b', ?_, hrest⟩
  rw [hturn]
  cases verb <;> rfl

/-- The lines as they are printed, without the CRs at the end of each. -/
def shown (texts : List Line) : Bytes := printed (texts.map fun t => t.val.trimEndCrlf)

theorem shown_append (a b : List Line) : shown (a ++ b) = shown a ++ shown b := by
  rw [shown, List.map_append, printed_append, shown, shown]

theorem readResponse_definition (out : Bytes) (d : Definition)
    (hb : b.pending = crlfEnded (statusLine 151 d.message.val) ++ textBlock d.lines ++ rest) :
    ∃ b', readResponse .define out b =
        readResponse .define (out ++ shown (d.message :: d.lines)) b' ∧ b'.pending = rest := by
  have hcode : decimal 151 = ['1', '5', '1'] := by decide
  rw [List.append_assoc] at hb
  obtain ⟨b₁, hpending, hturn⟩ := readResponse_statusLine .define out hcode rfl rfl d.message hb
  obtain ⟨b', hread, hrest⟩ := readTextBlock_textBlock d.lines
    (out ++ blockHeader .define d.message.val.trimEndCrlf) hpending
  have hdispatch : dispatch .define 151 d.message.val.trimEndCrlf out b₁ =
      (.next, out ++ shown (d.message :: d.lines), b') := by
    have hblock := (dispatch_block .define d.message.val.trimEndCrlf out b₁).2
    rw [hread] at hblock
    refine hblock.trans ?_
    have hheader : blockHeader .define d.message.val.trimEndCrlf =
        lfEnded d.message.val.trimEndCrlf := (lfEnded_eq _).symm
    rw [hheader, List.append_assoc]
    rfl
  refine ⟨b', ?_, hrest⟩
  rw [hturn, hdispatch]

theorem readResponse_definitions (out : Bytes) (definitions : List Definition)
    (hb : b.pending = definitions.flatMap (fun d =>
      crlfEnded (statusLine 151 d.message.val) ++ textBlock d.lines) ++ rest) :
    ∃ b', readResponse .define out b =
        readResponse .define (out ++ shown (definitions.flatMap fun d => d.message :: d.lines)) b' ∧
      b'.pending = rest := by
  induction definitions generalizing out b with
  | nil =>
      refine ⟨b, ?_, hb⟩
      rw [List.flatMap_nil, shown, List.map_nil, printed, List.flatMap_nil, List.append_nil]
  | cons d definitions ih =>
      rw [List.flatMap_cons, List.append_assoc] at hb
      obtain ⟨b₁, hfirst, hpending⟩ := readResponse_definition out d hb
      obtain ⟨b', hmore, hrest⟩ := ih (out ++ shown (d.message :: d.lines)) hpending
      refine ⟨b', ?_, hrest⟩
      rw [hfirst, hmore, List.flatMap_cons, shown_append, List.append_assoc]

/-- A well-formed answer is read to its end; a line has lost the CRs at its end. -/
theorem readResponse_wire (answer : Answer) (out : Bytes) (hb : b.pending = answer.wire ++ rest) :
    ∃ b', readResponse answer.verb out b = some (.ok (), out ++ shown answer.texts, b') ∧
      b'.pending = rest := by
  cases answer with
  | define count definitions final =>
      have hcode : decimal 150 = ['1', '5', '0'] := by decide
      rw [Answer.wire, List.append_assoc, List.append_assoc] at hb
      obtain ⟨b₁, hcount, hpending⟩ : ∃ b₁, readResponse .define out b = readResponse .define out b₁ ∧
          b₁.pending = definitions.flatMap (fun d =>
            crlfEnded (statusLine 151 d.message.val) ++ textBlock d.lines) ++
              (crlfEnded (statusLine 250 final.val) ++ rest) := by
        cases count with
        | none => exact ⟨b, rfl, hb⟩
        | some m =>
            obtain ⟨b₁, hpending, hturn⟩ := readResponse_statusLine .define out hcode rfl rfl m hb
            exact ⟨b₁, hturn, hpending⟩
      obtain ⟨b₂, hdefinitions, hpending'⟩ := readResponse_definitions out definitions hpending
      obtain ⟨b', hfinal, hrest⟩ := readResponse_final .define
        (out ++ shown (definitions.flatMap fun d => d.message :: d.lines)) final hpending'
      exact ⟨b', hcount.trans (hdefinitions.trans hfinal), hrest⟩
  | matchWord count lines final =>
      have hcode : decimal 152 = ['1', '5', '2'] := by decide
      rw [Answer.wire, List.append_assoc, List.append_assoc] at hb
      obtain ⟨b₁, hpending, hturn⟩ := readResponse_statusLine .matchWord out hcode rfl rfl count hb
      obtain ⟨b₂, hread, hpending'⟩ := readTextBlock_textBlock lines out hpending
      obtain ⟨b', hfinal, hrest⟩ := readResponse_final .matchWord (out ++ shown lines) final hpending'
      refine ⟨b', ?_, hrest⟩
      have hdispatch : dispatch .matchWord 152 count.val.trimEndCrlf out b₁ =
          (.next, out ++ shown lines, b₂) := congrArg behind hread
      change readResponse .matchWord out b = _
      rw [hturn, hdispatch]
      exact hfinal

/-! ## What is printed is what was sent -/

theorem trimEndCrlf_eq_self_iff {t : Text} (ht : '\n' ∉ t) :
    t.trimEndCrlf = t ↔ t.getLast? ≠ some '\r' := by
  rw [Text.trimEndCrlf, List.rdropWhile_eq_self_iff]
  constructor
  · intro h hlast
    have hne : t ≠ [] := by
      rintro rfl
      cases hlast
    rw [List.getLast?_eq_some_getLast hne] at hlast
    refine h hne ?_
    rw [Option.some.inj hlast]
    rfl
  · intro h hne hend
    rcases Bool.or_eq_true_iff.mp hend with hcr | hlf
    · refine h ?_
      rw [List.getLast?_eq_some_getLast hne, beq_iff_eq.mp hcr]
    · exact ht (beq_iff_eq.mp hlf ▸ List.getLast_mem hne)

theorem lfEnded_append_inj {s t : Text} (hs : '\n' ∉ s) (ht : '\n' ∉ t) {x y : Bytes} :
    lfEnded s ++ x = lfEnded t ++ y ↔ s = t ∧ x = y := by
  constructor
  · intro h
    have hthrough := congrArg (Base.Segment.through (· == 10)) h
    rw [through_lfEnded hs, through_lfEnded ht] at hthrough
    obtain ⟨hline, hrest⟩ := Prod.mk.inj (Option.some.inj hthrough)
    rw [lfEnded_eq, lfEnded_eq] at hline
    have hbytes := congrArg fromUtf8 (List.append_cancel_right hline)
    rw [fromUtf8_utf8, fromUtf8_utf8] at hbytes
    exact ⟨Option.some.inj hbytes, hrest⟩
  · rintro ⟨rfl, rfl⟩
    rfl

/-- No line makes up for what another one has lost. -/
theorem shown_eq_printed_iff {texts : List Line} :
    shown texts = printed (texts.map Subtype.val) ↔
      ∀ t ∈ texts, t.val.getLast? ≠ some '\r' := by
  induction texts with
  | nil => exact ⟨fun _ => nofun, fun _ => rfl⟩
  | cons t texts ih =>
      have htrim : '\n' ∉ t.val.trimEndCrlf := fun hmem =>
        t.property ((trimEndCrlf_initial t.val).subset hmem)
      have hsplit : shown (t :: texts) = printed ((t :: texts).map Subtype.val) ↔
          lfEnded t.val.trimEndCrlf ++ shown texts =
            lfEnded t.val ++ printed (texts.map Subtype.val) := Iff.rfl
      rw [hsplit, lfEnded_append_inj htrim t.property, trimEndCrlf_eq_self_iff t.property, ih,
        List.forall_mem_cons]

/-- What is asked of the reader of a response: it ends without a panic, and a well-formed answer
is printed line by line, with nothing read behind it. -/
structure Lawful (verb : Verb) (out : Bytes) (b : Buffered) : Prop where
  ends : ∃ r, readResponse verb out b = some r
  prints : ∀ (answer : Answer) (rest : Bytes), answer.verb = verb →
    b.pending = answer.wire ++ rest →
    ∃ b', readResponse verb out b =
        some (.ok (), out ++ printed (answer.texts.map Subtype.val), b') ∧ b'.pending = rest

/-- A response is read lawfully exactly if it does not come to a status line whose third byte
boundary is inside a character, and, where it is a well-formed answer, no line of it ends with a
CR of its own. -/
theorem lawful_iff {verb : Verb} {out : Bytes} {b : Buffered} :
    Lawful verb out b ↔ ¬ Severed verb b.tail b.pending ∧
      ∀ (answer : Answer) (rest : Bytes), answer.verb = verb → b.pending = answer.wire ++ rest →
        ∀ t ∈ answer.texts, t.val.getLast? ≠ some '\r' := by
  constructor
  · rintro ⟨⟨r, hr⟩, hprints⟩
    refine ⟨fun hsevered => ?_, fun answer rest hverb hb => ?_⟩
    · rw [readResponse_eq_none_iff.mpr hsevered] at hr
      cases hr
    · obtain ⟨b₁, hlaw, -⟩ := hprints answer rest hverb hb
      subst hverb
      obtain ⟨b₂, hread, -⟩ := readResponse_wire answer out hb
      rw [hread] at hlaw
      have hout := congrArg (fun r => r.2.1) (Option.some.inj hlaw)
      exact shown_eq_printed_iff.mp (List.append_cancel_left hout)
  · rintro ⟨hsevered, htexts⟩
    refine ⟨?_, fun answer rest hverb hb => ?_⟩
    · exact Option.ne_none_iff_exists'.mp (mt readResponse_eq_none_iff.mp hsevered)
    · have hprinted := shown_eq_printed_iff.mpr (htexts answer rest hverb hb)
      subst hverb
      obtain ⟨b', hread, hrest⟩ := readResponse_wire answer out hb
      exact ⟨b', by rw [hread, hprinted], hrest⟩

/-- A status line of two digits and a letter that takes two bytes. -/
theorem severed_status :
    ¬ Lawful .define [] ⟨Text.utf8 "12é no definition\r\n".toList, ⟨[], none⟩⟩ := by
  rintro ⟨⟨r, hr⟩, -⟩
  have hinside : Text.Inside (Text.trimEndCrlf "12é no definition\r".toList) 3 :=
    ⟨['1', '2'], 'é', " no definition".toList, by decide, by decide, by decide⟩
  have hsevered : Severed .define none (lfEnded "12é no definition\r".toList ++ []) :=
    .here (by decide) hinside
  rw [readResponse_of_severed hsevered [] (by decide) rfl] at hr
  cases hr

end Rsurl.Dict
