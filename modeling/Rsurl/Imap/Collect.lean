/-
# `Rsurl.Imap.Collect` — what is collected of an answer

A stream that is accepted is a sequence of replies: a line, and while a literal
is announced the literal and a further line.  The text of an answer has the
literals in it and is cut into lines again, so a reply is collected line by
line: it comes out whole, and a reply of another kind stays out, exactly under
the conditions `Plain` names.
-/
import Rsurl.Imap.Lines

namespace Rsurl.Imap

/-! ## Replies -/

/-- A reply: lines with the literals behind them, and the last line. -/
structure Reply where
  parts : List (Bytes × Bytes)
  last : Bytes
deriving DecidableEq, Repr

namespace Reply

def first (r : Reply) : Bytes := ((r.parts.head?).map Prod.fst).getD r.last

/-- All of a reply, the lines with their CRLF. -/
def bytes (r : Reply) : Bytes :=
  r.parts.flatMap (fun part => part.1 ++ crlf ++ part.2) ++ (r.last ++ crlf)

/-- A reply as it goes into the text. -/
def text (r : Reply) : Text :=
  r.parts.flatMap (fun part => lineText part.1 ++ fromUtf8Lossy part.2) ++ lineText r.last

def literals (r : Reply) : List Bytes := r.parts.map Prod.snd

end Reply

/-- The replies on a stream, up to the line that ends the answer, and the stream behind it. -/
inductive Replies (tag : Text) (tail : Option IoKind) : Bytes → List Reply → Bytes → Prop
  | stop {stream line rest : Bytes} (hline : Line tail stream line rest)
      (hno : ∀ n, ¬Marker (fromUtf8Lossy line) n) (hstop : Stops tag (fromUtf8Lossy line)) :
      Replies tag tail stream [⟨[], line⟩] rest
  | other {stream line rest rest' : Bytes} {rs : List Reply} (hline : Line tail stream line rest)
      (hno : ∀ n, ¬Marker (fromUtf8Lossy line) n) (hgo : ¬Stops tag (fromUtf8Lossy line))
      (hmore : Replies tag tail rest rs rest') :
      Replies tag tail stream (⟨[], line⟩ :: rs) rest'
  | literal {stream line bytes rest rest' : Bytes} {r : Reply} {rs : List Reply}
      (hline : Line tail stream line (bytes ++ rest))
      (hmark : Marker (fromUtf8Lossy line) bytes.length) (hcap : bytes.length ≤ maxLiteralBytes)
      (hmore : Replies tag tail rest (r :: rs) rest') :
      Replies tag tail stream (⟨(line, bytes) :: r.parts, r.last⟩ :: rs) rest'

theorem prepend_eq_ok {text t : Text} {literals ls : List Bytes} {out : Result (Text × List Bytes)}
    (h : prepend text literals out = .ok (t, ls)) :
    ∃ t' ls', out = .ok (t', ls') ∧ t = text ++ t' ∧ ls = literals ++ ls' := by
  obtain ⟨⟨t', ls'⟩, rfl, hout⟩ := Result.map_eq_ok h
  obtain ⟨rfl, rfl⟩ := Prod.mk.inj hout
  exact ⟨t', ls', rfl, rfl, rfl⟩

theorem Replies.ne_nil {tag : Text} {tail : Option IoKind} {stream rest : Bytes}
    {rs : List Reply} (h : Replies tag tail stream rs rest) : rs ≠ [] := by
  cases h <;> exact List.cons_ne_nil _ _

/-- An accepted answer is the replies of its stream, one after the other. -/
theorem Response.replies {tag : Text} {tail : Option IoKind} {stream rest : Bytes}
    {out : Result (Text × List Bytes)} (h : Response tag tail stream out rest) :
    ∀ {text : Text} {literals : List Bytes}, out = .ok (text, literals) →
      ∃ rs, Replies tag tail stream rs rest ∧ text = rs.flatMap Reply.text ∧
        literals = rs.flatMap Reply.literals := by
  induction h with
  | stop hline hno hstop =>
      rintro text literals hout
      obtain ⟨rfl, rfl⟩ := Prod.mk.inj (Except.ok.inj hout)
      exact ⟨_, .stop hline hno hstop, by simp [Reply.text], rfl⟩
  | other hline hno hgo hmore ih =>
      rintro text literals hout
      obtain ⟨t, ls, ht, rfl, rfl⟩ := prepend_eq_ok hout
      obtain ⟨rs, hrs, rfl, rfl⟩ := ih ht
      exact ⟨_, .other hline hno hgo hrs, rfl, rfl⟩
  | literal hline hmark hcap hmore ih =>
      rintro text literals hout
      obtain ⟨t, ls, ht, rfl, rfl⟩ := prepend_eq_ok hout
      obtain ⟨rs, hrs, rfl, rfl⟩ := ih ht
      obtain ⟨r, rs, rfl⟩ := List.exists_cons_of_ne_nil hrs.ne_nil
      refine ⟨_, .literal hline hmark hcap hrs, ?_, rfl⟩
      simp only [Reply.text, List.flatMap_cons, List.append_assoc]
  | tooLarge | short | unfinished =>
      rintro text literals hout
      cases hout

/-! ## Kinds -/

/-- The two answers a listing is made of. -/
inductive Kind where
  | list
  | fetch
deriving DecidableEq, Repr

namespace Kind

def word : Kind → String
  | .list => "LIST"
  | .fetch => "FETCH"

/-- A reply begins `* LIST`, or `* n FETCH` with a number. -/
def heads (kind : Kind) (line : Text) : Bool :=
  match kind, line.splitOn ' ' with
  | .list, star :: name :: _ => star == ['*'] && Text.eqIgnoreAsciiCase name "LIST".toList
  | .fetch, star :: number :: name :: _ =>
      star == ['*'] && number ≠ [] && number.all Char.isDigit &&
        Text.eqIgnoreAsciiCase name "FETCH".toList
  | _, _ => false

end Kind

/-- One of the first two words behind `* ` is the kind. -/
def namesKind (kind : String) (line : Text) : Bool :=
  match Text.stripPrefix "* ".toList line with
  | none => false
  | some rest =>
      Text.eqIgnoreAsciiCase (rest.splitWhitespace.headD []) kind.toList ||
        Text.eqIgnoreAsciiCase (rest.splitWhitespace.tail.headD []) kind.toList

theorem collectUntagged_eq (resp : Text) (kind : String) :
    collectUntagged resp kind = crlfLines (resp.lines.filter (namesKind kind)) := by
  rw [collectUntagged]
  induction resp.lines with
  | nil => rfl
  | cons line lines ih =>
      rw [List.flatMap_cons, ih]
      cases hstrip : Text.stripPrefix "* ".toList line with
      | none =>
          have hno : namesKind kind line = false := by rw [namesKind, hstrip]
          rw [List.filter_cons_of_neg (by rw [hno]; exact Bool.false_ne_true)]
          rfl
      | some rest =>
          have hnames : namesKind kind line =
              (Text.eqIgnoreAsciiCase (rest.splitWhitespace.headD []) kind.toList ||
                Text.eqIgnoreAsciiCase (rest.splitWhitespace.tail.headD []) kind.toList) := by
            rw [namesKind, hstrip]
          dsimp only
          rw [← hnames]
          cases hkind : namesKind kind line with
          | true => rw [if_pos rfl, List.filter_cons_of_pos hkind, crlfLines, crlfLines, List.flatMap_cons]
          | false =>
              rw [if_neg Bool.false_ne_true,
                List.filter_cons_of_neg (by rw [hkind]; exact Bool.false_ne_true)]
              rfl

/-! ## Collecting -/

theorem Reply.exists_text (r : Reply) : ∃ t, r.text = t ++ ['\n'] := by
  refine ⟨r.parts.flatMap (fun part => lineText part.1 ++ fromUtf8Lossy part.2) ++
    (fromUtf8Lossy r.last ++ ['\r']), ?_⟩
  rw [Reply.text, lineText, List.append_assoc, List.append_assoc]
  rfl

/-- The lines of an answer are the lines of its replies. -/
theorem lines_replies (rs : List Reply) :
    Text.lines (rs.flatMap Reply.text) = rs.flatMap fun r => r.text.lines := by
  induction rs with
  | nil => decide
  | cons r rs ih =>
      obtain ⟨t, ht⟩ := r.exists_text
      rw [List.flatMap_cons, List.flatMap_cons, ht, lines_append, ih]

/-- Replies are collected one by one. -/
theorem collectUntagged_replies (rs : List Reply) (kind : String) :
    collectUntagged (rs.flatMap Reply.text) kind =
      rs.flatMap fun r => collectUntagged r.text kind := by
  rw [collectUntagged_eq, lines_replies, List.filter_flatMap, crlfLines, List.flatMap_assoc]
  refine congrArg (rs.flatMap ·) (funext fun r => ?_)
  rw [collectUntagged_eq]
  rfl

/-- The text of a reply has the line ends of its bytes. -/
theorem scanText_lineText (s : Scan) (line : Bytes) :
    scanText s (lineText line) = scanBytes s (line ++ crlf) := by
  rw [lineText, scanText_append, scanText_fromUtf8Lossy, scanBytes_append]
  rfl

theorem scanText_text (r : Reply) (s : Scan) : scanText s r.text = scanBytes s r.bytes := by
  obtain ⟨parts, last⟩ := r
  rw [Reply.text, Reply.bytes]
  induction parts generalizing s with
  | nil => exact scanText_lineText s last
  | cons part parts ih =>
      simp only [List.flatMap_cons, scanText_append, scanText_lineText, scanText_fromUtf8Lossy,
        scanBytes_append] at ih ⊢
      exact ih _

/-- What a reply must be like to be collected: every line of it names the kind, those in the
literals too; it is UTF-8, line by line and literal by literal; and its lines end in CRLF. -/
structure Kept (kind : Kind) (r : Reply) : Prop where
  lines : ∀ line ∈ r.text.lines, namesKind kind.word line = true
  utf8 : r.text.utf8 = r.bytes
  ends : crlfLines r.text.lines = r.text

/-- A reply of the kind that is kept, or one of another kind of which no line names the kind. -/
def Plain (kind : Kind) (r : Reply) : Prop :=
  if kind.heads (fromUtf8Lossy r.first) then Kept kind r
  else ∀ line ∈ r.text.lines, namesKind kind.word line = false

/-- What a reply brings to the output is the whole of it, or nothing, exactly when it is plain. -/
theorem collected_reply_iff (kind : Kind) (r : Reply) :
    (collectUntagged r.text kind.word).utf8 =
        (if kind.heads (fromUtf8Lossy r.first) then r.bytes else []) ↔ Plain kind r := by
  obtain ⟨t, ht⟩ := r.exists_text
  obtain ⟨ps, hps, hjoin⟩ := exists_joinLines t
  rw [hjoin] at ht
  have hlines : r.text.lines = ps.map stripCr := by
    have hall := lines_joinLines hps []
    have hnil : Text.lines [] = [] := by decide
    rwa [List.append_nil, hnil, List.append_nil, ← ht] at hall
  have hscan : scanBytes ⟨false, 0, 0⟩ r.bytes = scanText ⟨false, 0, 0⟩ (joinLines ps) := by
    rw [← ht, scanText_text]
  rw [Plain, collectUntagged_eq]
  by_cases hkind : kind.heads (fromUtf8Lossy r.first) = true
  · rw [if_pos hkind, if_pos hkind]
    constructor
    · intro h
      rw [hlines] at h
      obtain ⟨hall, hends⟩ := crlfLines_filter_eq hps hscan h
      rw [List.filter_eq_self.mpr hall, hends, ← ht] at h
      exact ⟨hlines ▸ hall, h, by rw [hlines, hends, ht]⟩
    · rintro ⟨hall, hutf8, hends⟩
      rw [List.filter_eq_self.mpr hall, hends, hutf8]
  · rw [if_neg hkind, if_neg hkind, Text.utf8_eq_nil, crlfLines, List.flatMap_eq_nil_iff]
    constructor
    · intro h line hline
      by_contra hnames
      have hkeep := List.mem_filter.mpr ⟨hline, Bool.eq_true_of_not_eq_false hnames⟩
      exact absurd (h line hkeep) (by simp)
    · intro h line hline
      obtain ⟨hmem, hnames⟩ := List.mem_filter.mp hline
      rw [h line hmem] at hnames
      cases hnames

/-- An accepted answer is a sequence of replies, its collection what each of them brings; this is
every reply of the kind and nothing else exactly when all of them are plain. -/
theorem collected_iff {tag text : Text} {b b' : Buffered} (kind : Kind)
    (h : readResponse tag b = (.ok text, b')) :
    ∃ rs, Replies tag b.tail b.pending rs b'.pending ∧
      (collectUntagged text kind.word).utf8 =
        rs.flatMap (fun r => (collectUntagged r.text kind.word).utf8) ∧
      ((∀ r ∈ rs, (collectUntagged r.text kind.word).utf8 =
          if kind.heads (fromUtf8Lossy r.first) then r.bytes else []) ↔
        ∀ r ∈ rs, Plain kind r) := by
  obtain ⟨hread, hrest⟩ := Prod.mk.inj h
  obtain ⟨⟨text, literals⟩, hout, rfl⟩ := Result.map_eq_ok hread
  have hresponse := (@response_read tag b b rfl rfl).1
  rw [hout, hrest] at hresponse
  obtain ⟨rs, hrs, rfl, -⟩ := hresponse.replies rfl
  refine ⟨rs, hrs, ?_, forall₂_congr fun r _ => collected_reply_iff kind r⟩
  show (collectUntagged (rs.flatMap Reply.text) kind.word).utf8 = _
  rw [collectUntagged_replies, Text.utf8, List.flatMap_assoc]
  rfl

/-- A mailbox, a line of another kind, and a mailbox whose name comes as a literal. -/
def listAnswer : Text :=
  "* LIST () \"/\" a\r\n* 3 EXISTS\r\n* LIST () \"/\" {5}\r\nINBOX\r\na001 OK\r\n".toList

def listInput : Buffered := ⟨listAnswer.utf8, [], none⟩

theorem collected_iff_sample :
    ∃ text b' rs, readResponse "a001".toList listInput = (.ok text, b') ∧
      Replies "a001".toList listInput.tail listInput.pending rs b'.pending ∧
      (collectUntagged text "LIST").utf8 =
        rs.flatMap (fun r => (collectUntagged r.text "LIST").utf8) ∧
      ((∀ r ∈ rs, (collectUntagged r.text "LIST").utf8 =
          if Kind.list.heads (fromUtf8Lossy r.first) then r.bytes else []) ↔
        ∀ r ∈ rs, Plain .list r) := by
  have h : readResponse "a001".toList listInput = (.ok listAnswer, ⟨[], [], none⟩) := by
    decide +kernel
  obtain ⟨rs, hrs, hout, hiff⟩ := collected_iff .list h
  exact ⟨_, _, rs, h, hrs, hout, hiff⟩

/-- A mailbox whose name comes as a literal, and another reply whose literal looks like one. -/
def literalReplies : List Reply :=
  [⟨[(Text.utf8 "* LIST () \"/\" {5}".toList, Text.utf8 "INBOX".toList)], []⟩,
    ⟨[(Text.utf8 "* LSUB () \"/\" {8}".toList, Text.utf8 "* LIST x".toList)], []⟩,
    ⟨[], Text.utf8 "a001 OK".toList⟩]

def literalInput : Buffered := ⟨literalReplies.flatMap Reply.bytes, [], none⟩

theorem replies_literalInput :
    Replies "a001".toList none literalInput.pending literalReplies [] := by
  have hempty : Replies "a001".toList none (Text.utf8 "a001 OK\r\n".toList)
      [⟨[], Text.utf8 "a001 OK".toList⟩] [] :=
    .stop (.ended (by decide +kernel)) (no_marker (by decide +kernel))
      (endsResponse_iff.mp (by decide +kernel))
  have hline : ∀ {rest : Bytes} {rs : List Reply}, Replies "a001".toList none rest rs [] →
      Replies "a001".toList none (crlf ++ rest) (⟨[], []⟩ :: rs) [] := by
    intro rest rs hmore
    refine .other (.ended ?_) (no_marker (by decide +kernel))
      (mt endsResponse_iff.mpr (by decide +kernel)) hmore
    rfl
  have hsecond : Replies "a001".toList none
      (Text.utf8 "* LSUB () \"/\" {8}\r\n* LIST x\r\na001 OK\r\n".toList) literalReplies.tail [] :=
    .literal (.ended (by decide +kernel)) (extractLiteralSize_iff.mp (by decide +kernel)) (by decide)
      (hline hempty)
  exact .literal (.ended (by decide +kernel)) (extractLiteralSize_iff.mp (by decide +kernel))
    (by decide) (hline hsecond)

/-- The name is cut off the one, and the other is taken for a reply of the kind. -/
theorem literals_cut :
    ∃ text b', readResponse "a001".toList literalInput = (.ok text, b') ∧
      Replies "a001".toList literalInput.tail literalInput.pending literalReplies [] ∧
      (collectUntagged text "LIST").utf8 =
        Text.utf8 "* LIST () \"/\" {5}\r\n* LIST x\r\n".toList ∧
      literalReplies.flatMap
          (fun r => if Kind.list.heads (fromUtf8Lossy r.first) then r.bytes else []) =
        Text.utf8 "* LIST () \"/\" {5}\r\nINBOX\r\n".toList := by
  refine ⟨literalReplies.flatMap Reply.text, ⟨[], [], none⟩, ?_, replies_literalInput, ?_, ?_⟩
  · decide +kernel
  · decide +kernel
  · decide +kernel

end Rsurl.Imap
