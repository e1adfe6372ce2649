/-
# `Rsurl.Imap.Literals` — what a response is made of

A response on the stream, without buffers and reads: lines, each with the
literal its marker announces, up to the line that ends it.  The line reader
reads exactly that, wherever the reads of the socket end.
-/
import Rsurl.Imap

namespace Rsurl

theorem Text.stripLast_eq_some {c : Char} {t r : Text} :
    Text.stripLast c t = some r ↔ t = r ++ [c] := by
  simp only [Text.stripLast]
  split
  · next h =>
      rw [Option.some.injEq, ← List.dropLast_append_getLast? c h]
      simp [eq_comm]
  · next h =>
      simp only [reduceCtorEq, false_iff]
      rintro rfl
      exact h (by simp)

/-- Dropping more at an end drops what the first pass drops. -/
theorem rdropWhile_rdropWhile {α : Type*} {p q : α → Bool} (hpq : ∀ x, p x = true → q x = true)
    (l : List α) : (l.rdropWhile p).rdropWhile q = l.rdropWhile q := by
  induction l using List.reverseRecOn with
  | nil => rfl
  | append_singleton l x ih =>
      by_cases hp : p x = true
      · rw [List.rdropWhile_concat_pos p l x hp, List.rdropWhile_concat_pos q l x (hpq x hp), ih]
      · rw [List.rdropWhile_concat_neg p l x hp]

theorem Text.trimEnd_trimEndCrlf (t : Text) : t.trimEndCrlf.trimEnd = t.trimEnd := by
  refine rdropWhile_rdropWhile (fun c hc => ?_) t
  rcases Bool.or_eq_true_iff.mp hc with h | h
  · rw [beq_iff_eq.mp h]
    decide
  · rw [beq_iff_eq.mp h]
    decide

namespace Imap

/-! ## Markers -/

/-- The line ends, white space aside, in `{n}` or `{n+}`. -/
structure Marks (line before digits plus : Text) : Prop where
  text : line.trimEnd = before ++ '{' :: (digits ++ plus) ++ ['}']
  plus_eq : plus = [] ∨ plus = ['+']
  digits_ne : digits ≠ []
  digits_ok : ∀ c ∈ digits, c.isDigit = true

/-- A marker announces a literal of `n` bytes; a length is a `usize`. -/
def Marker (line : Text) (n : Nat) : Prop :=
  ∃ before digits plus, Marks line before digits plus ∧ n = Nat.ofDigitChars 10 digits 0 ∧
    n < 2 ^ 64

/-- The digits are read as the number they write. -/
theorem parse_digits_iff {digits : Text} {n : Nat} (hne : digits ≠ [])
    (hdigits : ∀ c ∈ digits, c.isDigit = true) :
    parseUnsigned 10 (2 ^ 64 - 1) digits = some n ↔
      n = Nat.ofDigitChars 10 digits 0 ∧ n < 2 ^ 64 := by
  rw [parseUnsigned, stripPlus_of_digits hdigits, if_neg hne]
  constructor
  · intro h
    obtain ⟨hn, hle⟩ := parseDigits_eq_some hdigits (Nat.zero_le _) h
    exact ⟨hn, by omega⟩
  · rintro ⟨rfl, hlt⟩
    exact parseDigits_ofDigitChars hdigits (by omega)

/-- The `+` is taken off, and nothing else. -/
theorem stripLast_plus {digits plus : Text} (hplus : plus = [] ∨ plus = ['+'])
    (hdigits : ∀ c ∈ digits, c.isDigit = true) :
    (Text.stripLast '+' (digits ++ plus)).getD (digits ++ plus) = digits := by
  rcases hplus with rfl | rfl
  · rw [List.append_nil]
    cases hstrip : Text.stripLast '+' digits with
    | none => rfl
    | some r =>
        have hmem : '+' ∈ digits := by
          rw [Text.stripLast_eq_some.mp hstrip]
          exact List.mem_append_right _ List.mem_cons_self
        exact absurd (hdigits '+' hmem) (by decide)
  · rw [Text.stripLast_eq_some.mpr rfl]
    rfl

theorem extractLiteralSize_iff {line : Text} {n : Nat} :
    extractLiteralSize line = some n ↔ Marker line n := by
  simp only [extractLiteralSize, Text.trimEnd_trimEndCrlf]
  constructor
  · intro h
    obtain ⟨rest, hrest, hopened⟩ := Option.bind_eq_some_iff.mp h
    obtain ⟨⟨before, inside⟩, hinside, hparse⟩ := Option.bind_eq_some_iff.mp hopened
    have htext := Text.stripLast_eq_some.mp hrest
    obtain ⟨hopen, -⟩ := Text.rsplitOnce_eq_some.mp hinside
    rw [hopen] at htext
    dsimp only at hparse
    split at hparse
    · cases hparse
    next hok =>
    simp only [not_or, List.any_eq_true, Bool.not_eq_true', not_exists, not_and,
      Bool.not_eq_false] at hok
    obtain ⟨hn, hlt⟩ := (parse_digits_iff hok.1 hok.2).mp hparse
    refine ⟨before, _, if Text.stripLast '+' inside = none then [] else ['+'],
      ⟨?_, ?_, hok.1, hok.2⟩, hn, hlt⟩
    · cases hplus : Text.stripLast '+' inside with
      | none => simp [htext]
      | some r => simp [htext, Text.stripLast_eq_some.mp hplus]
    · split
      · exact .inl rfl
      · exact .inr rfl
  · rintro ⟨before, digits, plus, ⟨htext, hplus, hne, hdigits⟩, hn, hlt⟩
    have hopen : '{' ∉ digits ++ plus := by
      intro hmem
      rcases List.mem_append.mp hmem with hmem | hmem
      · exact absurd (hdigits _ hmem) (by decide)
      · rcases hplus with rfl | rfl
        · cases hmem
        · exact absurd hmem (by decide)
    have hok : ¬(digits = [] ∨ digits.any (fun c => !c.isDigit) = true) := by
      simp only [not_or, List.any_eq_true, Bool.not_eq_true', not_exists, not_and,
        Bool.not_eq_false]
      exact ⟨hne, hdigits⟩
    rw [Text.stripLast_eq_some.mpr htext, Option.bind_eq_bind, Option.bind_some,
      Text.rsplitOnce_eq_some.mpr ⟨rfl, hopen⟩, Option.bind_eq_bind, Option.bind_some]
    simp only [stripLast_plus hplus hdigits]
    rw [if_neg hok]
    exact (parse_digits_iff hne hdigits).mpr ⟨hn, hlt⟩

theorem no_marker {line : Text} (h : extractLiteralSize line = none) (n : Nat) : ¬Marker line n := by
  intro hn
  rw [extractLiteralSize_iff.mpr hn] at h
  cases h

/-! ## Responses on the stream -/

/-- The stream's next line, and what comes behind it: up to the first CRLF, or all there is when
the stream ends without one. -/
inductive Line (tail : Option IoKind) : Bytes → Bytes → Bytes → Prop
  | ended {stream line rest : Bytes} (h : Base.cutSub crlf stream = some (line, rest)) :
      Line tail stream line rest
  | last {stream : Bytes} (hne : stream ≠ []) (h : Base.cutSub crlf stream = none)
      (htail : tail = none) : Line tail stream stream []

/-- No line is to come: nothing is, or reading fails inside it. -/
def Unfinished (tail : Option IoKind) (stream : Bytes) : Prop :=
  Base.cutSub crlf stream = none ∧ (tail ≠ none ∨ stream = [])

/-- White space aside, a line that asks to continue, or the expected tag and what it says. -/
def Stops (tag line : Text) : Prop :=
  line.trimEnd = ['+'] ∨ "+ ".toList <+: line.trimEnd ∨ tag ++ [' '] <+: line.trimEnd ∨
    line.trimEnd = tag

def oversized (n : Nat) : Error :=
  .badResponse [.str "imap: literal size ", .num n, .str " exceeds maximum ", .num maxLiteralBytes]

/-- What is read before the rest of a response. -/
def prepend (text : Text) (literals : List Bytes) :
    Result (Text × List Bytes) → Result (Text × List Bytes) :=
  Except.map fun out => (text ++ out.1, literals ++ out.2)

/-- The line as it goes into the text. -/
def lineText (line : Bytes) : Text := fromUtf8Lossy line ++ "\r\n".toList

/-- What a response on a stream comes to, and the stream behind it. -/
inductive Response (tag : Text) (tail : Option IoKind) :
    Bytes → Result (Text × List Bytes) → Bytes → Prop
  /-- A line outside any literal that announces none and ends the response. -/
  | stop {stream line rest : Bytes} (hline : Line tail stream line rest)
      (hno : ∀ n, ¬Marker (fromUtf8Lossy line) n) (hstop : Stops tag (fromUtf8Lossy line)) :
      Response tag tail stream (.ok (lineText line, [])) rest
  | other {stream line rest rest' : Bytes} {out : Result (Text × List Bytes)}
      (hline : Line tail stream line rest) (hno : ∀ n, ¬Marker (fromUtf8Lossy line) n)
      (hgo : ¬Stops tag (fromUtf8Lossy line)) (hmore : Response tag tail rest out rest') :
      Response tag tail stream (prepend (lineText line) [] out) rest'
  /-- The literal is as long as its marker says, and taken whatever it contains. -/
  | literal {stream line bytes rest rest' : Bytes} {out : Result (Text × List Bytes)}
      (hline : Line tail stream line (bytes ++ rest))
      (hmark : Marker (fromUtf8Lossy line) bytes.length) (hcap : bytes.length ≤ maxLiteralBytes)
      (hmore : Response tag tail rest out rest') :
      Response tag tail stream (prepend (lineText line ++ fromUtf8Lossy bytes) [bytes] out) rest'
  | tooLarge {stream line rest : Bytes} {n : Nat} (hline : Line tail stream line rest)
      (hmark : Marker (fromUtf8Lossy line) n) (hcap : maxLiteralBytes < n) :
      Response tag tail stream (.error (oversized n)) rest
  | short {stream line rest : Bytes} {n : Nat} (hline : Line tail stream line rest)
      (hmark : Marker (fromUtf8Lossy line) n) (hcap : n ≤ maxLiteralBytes)
      (hshort : rest.length < n) : Response tag tail stream (.error (endError tail)) []
  | unfinished {stream : Bytes} (h : Unfinished tail stream) :
      Response tag tail stream (.error (endError tail)) stream

/-! ## The reader on the stream -/

theorem endsResponse_iff {tag line : Text} : endsResponse tag line = true ↔ Stops tag line := by
  simp only [endsResponse, Stops, Bool.or_eq_true, beq_iff_eq, List.isPrefixOf_iff_prefix,
    or_assoc]

/-- A line is read, or none is to come. -/
theorem readLine_cases (b : Buffered) :
    (∃ line b', Line b.tail b.pending line b'.pending ∧ b'.tail = b.tail ∧
        readLine b = (.ok (fromUtf8Lossy line), b')) ∨
      (Unfinished b.tail b.pending ∧ ∃ b', b'.pending = b.pending ∧ b'.tail = b.tail ∧
        readLine b = (.error (endError b.tail), b')) := by
  cases hcut : Base.cutSub crlf b.pending with
  | some out =>
      obtain ⟨b', hread, hrest, htail⟩ := readLine_of_cut hcut
      exact .inl ⟨out.1, b', .ended (by rw [hrest, hcut]), htail, hread⟩
  | none =>
      have hread := readLine_of_not_cut hcut
      split at hread
      · next hend =>
          exact .inr ⟨⟨hcut, hend⟩, _, Buffered.pending_of_empty _ _, rfl, hread⟩
      · next hsome =>
          simp only [not_or, not_not] at hsome
          exact .inl ⟨b.pending, ⟨[], [], b.tail⟩, .last hsome.2 hcut hsome.1, rfl, hread⟩

theorem responseLoop_of_error {tag text : Text} {literals : List Bytes} {b b' : Buffered}
    {e : Error} (h : readLine b = (.error e, b')) :
    responseLoop tag text literals b = (.error e, b') := by
  rw [responseLoop]
  split
  · next e' hline =>
      rw [h] at hline
      rw [← Except.error.inj hline, h]
  · next line hline =>
      rw [h] at hline
      cases hline

/-- One turn of the loop. -/
theorem responseLoop_of_line {tag text line : Text} {literals : List Bytes} {b b' : Buffered}
    (h : readLine b = (.ok line, b')) :
    responseLoop tag text literals b =
      match extractLiteralSize line with
      | some n =>
          if n > maxLiteralBytes then (.error (oversized n), b')
          else
            match (readExact n b').1 with
            | .error e => (.error e, (readExact n b').2)
            | .ok bytes =>
                responseLoop tag (text ++ line ++ "\r\n".toList ++ fromUtf8Lossy bytes)
                  (literals ++ [bytes]) (readExact n b').2
      | none =>
          if endsResponse tag line then (.ok (text ++ line ++ "\r\n".toList, literals), b')
          else responseLoop tag (text ++ line ++ "\r\n".toList) literals b' := by
  rw [responseLoop]
  split
  · next e hline =>
      rw [h] at hline
      cases hline
  · next line' hline =>
      rw [h] at hline
      obtain rfl := Except.ok.inj hline
      simp only [h]
      rfl

theorem prepend_nil (out : Result (Text × List Bytes)) : prepend [] [] out = out := by
  rcases out with e | out
  · rfl
  · rfl

theorem prepend_prepend (text text' : Text) (literals literals' : List Bytes)
    (out : Result (Text × List Bytes)) :
    prepend text literals (prepend text' literals' out) =
      prepend (text ++ text') (literals ++ literals') out := by
  cases out with
  | error e => rfl
  | ok out => simp [prepend, Except.map]

/-- The loop reads the response that is on the stream, behind what it has. -/
theorem responseLoop_spec (tag text : Text) (literals : List Bytes) (b : Buffered) :
    ∃ out, Response tag b.tail b.pending out (responseLoop tag text literals b).2.pending ∧
      (responseLoop tag text literals b).1 = prepend text literals out := by
  induction hlen : b.pending.length using Nat.strongRecOn generalizing text literals b with
  | ind len ih =>
  rcases readLine_cases b with ⟨line, b', hline, htail, hread⟩ | ⟨hend, b', hsame, -, hread⟩
  · have hlt : b'.pending.length < len := by
      have hshorter : (readLine b).2.pending.length < b.pending.length :=
        length_readLine_lt (by rw [hread])
      rw [hread] at hshorter
      exact hlen ▸ hshorter
    rw [responseLoop_of_line hread]
    cases hmark : extractLiteralSize (fromUtf8Lossy line) with
    | none =>
        have hno := no_marker hmark
        by_cases hstop : endsResponse tag (fromUtf8Lossy line) = true
        · simp only [if_pos hstop]
          refine ⟨_, .stop hline hno (endsResponse_iff.mp hstop), ?_⟩
          simp [prepend, Except.map, lineText]
        · simp only [if_neg hstop]
          obtain ⟨out, hout, heq⟩ := ih _ hlt
            (text ++ fromUtf8Lossy line ++ "\r\n".toList) literals b' rfl
          rw [htail] at hout
          refine ⟨_, .other hline hno (fun h => hstop (endsResponse_iff.mpr h)) hout, ?_⟩
          rw [heq, prepend_prepend, lineText, List.append_nil, List.append_assoc]
    | some n =>
        have hn := extractLiteralSize_iff.mp hmark
        by_cases hcap : n > maxLiteralBytes
        · simp only [if_pos hcap]
          exact ⟨_, .tooLarge hline hn hcap, rfl⟩
        simp only [if_neg hcap]
        by_cases hlong : n ≤ b'.pending.length
        · have hsplit := (List.take_append_drop n b'.pending).symm
          obtain ⟨b'', hexact, hrest, htail'⟩ := readExact_of_front hsplit
          have hlength := List.length_take_of_le hlong
          rw [hlength] at hexact
          have hlt' : b''.pending.length < len := by
            rw [hrest, List.length_drop]
            omega
          simp only [hexact]
          obtain ⟨out, hout, heq⟩ := ih _ hlt' (text ++ fromUtf8Lossy line ++ "\r\n".toList ++
            fromUtf8Lossy (b'.pending.take n)) (literals ++ [b'.pending.take n]) b'' rfl
          rw [htail', htail] at hout
          rw [hsplit, ← hrest] at hline
          refine ⟨_, .literal hline (hlength.symm ▸ hn) (by omega) hout, ?_⟩
          rw [heq, prepend_prepend, lineText]
          simp only [List.append_assoc]
        · have hshort := Nat.lt_of_not_le hlong
          simp only [readExact_of_short hshort, htail]
          exact ⟨_, .short hline hn (by omega) hshort, rfl⟩
  · rw [responseLoop_of_error hread, hsame]
    exact ⟨_, .unfinished hend, rfl⟩

theorem readLine_of_line {b : Buffered} {line rest : Bytes}
    (h : Line b.tail b.pending line rest) :
    ∃ b', b'.pending = rest ∧ b'.tail = b.tail ∧ readLine b = (.ok (fromUtf8Lossy line), b') := by
  cases h with
  | ended hcut =>
      obtain ⟨b', hread, hrest, htail⟩ := readLine_of_cut hcut
      exact ⟨b', hrest, htail, hread⟩
  | last hne hcut htail =>
      have hread := readLine_of_not_cut hcut
      have hsome : ¬(b.tail ≠ none ∨ b.pending = []) := fun h => h.elim (fun h => h htail) hne
      rw [if_neg hsome] at hread
      exact ⟨⟨[], [], b.tail⟩, rfl, rfl, hread⟩

/-- A response on the stream is the one the loop reads, whatever the buffer holds of it. -/
theorem Response.read {tag : Text} {tail : Option IoKind} {stream rest : Bytes}
    {out : Result (Text × List Bytes)} (h : Response tag tail stream out rest) :
    ∀ {b : Buffered} (text : Text) (literals : List Bytes), b.pending = stream → b.tail = tail →
      (responseLoop tag text literals b).1 = prepend text literals out ∧
        (responseLoop tag text literals b).2.pending = rest := by
  induction h with
  | stop hline hno hstop =>
      rintro b text literals rfl rfl
      obtain ⟨b', hrest, -, hread⟩ := readLine_of_line hline
      have hmark := Option.eq_none_iff_forall_ne_some.mpr
        fun n hn => hno n (extractLiteralSize_iff.mp hn)
      rw [responseLoop_of_line hread]
      simp only [hmark, if_pos (endsResponse_iff.mpr hstop)]
      refine ⟨?_, hrest⟩
      simp [prepend, Except.map, lineText]
  | other hline hno hgo hmore ih =>
      rintro b text literals rfl rfl
      obtain ⟨b', hrest, htail, hread⟩ := readLine_of_line hline
      have hmark := Option.eq_none_iff_forall_ne_some.mpr
        fun n hn => hno n (extractLiteralSize_iff.mp hn)
      rw [responseLoop_of_line hread]
      simp only [hmark, if_neg fun h => hgo (endsResponse_iff.mp h)]
      rw [prepend_prepend, lineText, List.append_nil, ← List.append_assoc]
      exact ih _ _ hrest htail
  | literal hline hmark hcap hmore ih =>
      rintro b text literals rfl rfl
      obtain ⟨b', hrest, htail, hread⟩ := readLine_of_line hline
      obtain ⟨b'', hexact, hrest', htail'⟩ := readExact_of_front hrest
      rw [responseLoop_of_line hread]
      simp only [extractLiteralSize_iff.mpr hmark, if_neg (Nat.not_lt_of_le hcap), hexact]
      rw [prepend_prepend, lineText, ← List.append_assoc, ← List.append_assoc]
      exact ih _ _ hrest' (htail'.trans htail)
  | tooLarge hline hmark hcap =>
      rintro b text literals rfl rfl
      obtain ⟨b', hrest, -, hread⟩ := readLine_of_line hline
      rw [responseLoop_of_line hread]
      simp only [extractLiteralSize_iff.mpr hmark, if_pos hcap]
      exact ⟨rfl, hrest⟩
  | short hline hmark hcap hshort =>
      rintro b text literals rfl rfl
      obtain ⟨b', hrest, htail, hread⟩ := readLine_of_line hline
      rw [responseLoop_of_line hread]
      simp only [extractLiteralSize_iff.mpr hmark, if_neg (Nat.not_lt_of_le hcap),
        readExact_of_short (hrest ▸ hshort), htail]
      exact ⟨rfl, rfl⟩
  | unfinished hend =>
      rintro b text literals rfl rfl
      rcases readLine_cases b with ⟨line, b', hline, -⟩ | ⟨-, b', hsame, -, hread⟩
      · generalize b'.pending = rest at hline
        cases hline with
        | ended hcut => exact absurd (hcut.symm.trans hend.1) (by simp)
        | last hne _ htail => exact absurd hend.2 fun h => h.elim (fun h => h htail) hne
      · rw [responseLoop_of_error hread]
        exact ⟨rfl, hsame⟩

/-! ## Responses, however they arrive -/

/-- The response that is on the stream is read, and what is behind it is left; where the reads
end makes no difference. -/
theorem response_read {tag : Text} {b b' : Buffered} (hpending : b'.pending = b.pending)
    (htail : b'.tail = b.tail) :
    Response tag b.tail b.pending (readResponseWithLiterals tag b).1
        (readResponseWithLiterals tag b).2.pending ∧
      (readResponseWithLiterals tag b').1 = (readResponseWithLiterals tag b).1 ∧
      (readResponseWithLiterals tag b').2.pending =
        (readResponseWithLiterals tag b).2.pending := by
  obtain ⟨out, hout, heq⟩ := responseLoop_spec tag [] [] b
  rw [prepend_nil] at heq
  obtain ⟨hsame, hrest⟩ := hout.read [] [] hpending htail
  rw [prepend_nil] at hsame
  exact ⟨heq ▸ hout, hsame.trans heq.symm, hrest⟩

/-- A message whose text looks like the end of the response. -/
def fetchStream : Bytes :=
  Text.utf8 "* 1 FETCH {11}\r\na001 OK {9})\r\na001 OK\r\n* x".toList

theorem response_read_sample :
    let b : Buffered := ⟨[], [⟨fetchStream, by decide +kernel⟩], none⟩
    let b' : Buffered := ⟨fetchStream.take 3,
      [⟨(fetchStream.drop 3).take 17, by decide +kernel⟩, ⟨fetchStream.drop 20, by decide +kernel⟩],
      none⟩
    Response "a001".toList b.tail b.pending (readResponseWithLiterals "a001".toList b).1
        (readResponseWithLiterals "a001".toList b).2.pending ∧
      (readResponseWithLiterals "a001".toList b').1 =
        (readResponseWithLiterals "a001".toList b).1 ∧
      (readResponseWithLiterals "a001".toList b').2.pending =
        (readResponseWithLiterals "a001".toList b).2.pending :=
  response_read (by decide +kernel) rfl

/-- A tagged line that ends in a marker. -/
def taggedInput : Buffered :=
  ⟨Text.utf8 "a001 OK {3}\r\nabc\r\na001 OK\r\n".toList, [], none⟩

/-- A tagged line that ends in a marker does not end the response, and a marker above the cap is
not followed by a literal. -/
theorem tagged_marker_continues :
    Base.cutSub crlf taggedInput.pending =
        some (Text.utf8 "a001 OK {3}".toList, Text.utf8 "abc\r\na001 OK\r\n".toList) ∧
      (readResponseWithLiterals "a001".toList taggedInput).2.pending = [] ∧
      (readResponseWithLiterals "a001".toList
          ⟨Text.utf8 "* 1 FETCH {67108865}\r\nabc".toList, [], none⟩).1 =
        .error (oversized 67108865) := by
  decide +kernel

end Imap
end Rsurl
