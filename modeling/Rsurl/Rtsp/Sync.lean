/-
# `Rsurl.Rtsp.Sync` — whether requests and responses stay together

A server answers the requests in turn and puts `$`-framed data in between.
What a request finds is decided by where the one before stopped reading: the
buffer it read through is gone, and with it everything the last read brought
beyond the response.
-/
import Rsurl.Rtsp

namespace Rsurl.Rtsp

open Base (Program Segment)

/-! ## Readers -/

/-- Every segment is what one read of a full buffer returns. -/
def ReadSized (b : Buffered) : Prop := ∀ p ∈ b.socket.segments, p.val.length ≤ bufferBytes

/-- A reader that ends with `x` and in `b'`, wherever more arrives behind what there is; it does
not break a segment. -/
structure Yields {α : Type} (f : Buffered → Result α × Buffered) (b : Buffered) (x : Result α)
    (b' : Buffered) : Prop where
  run : f b = (x, b')
  whole : ReadSized b → b'.socket.segments <:+ b.socket.segments
  extend : ∀ more, f (b.extend more) = (x, b'.extend more)

theorem ReadSized.of_suffix {b b' : Buffered} (h : ReadSized b)
    (hsuffix : b'.socket.segments <:+ b.socket.segments) : ReadSized b' :=
  fun p hp => h p (hsuffix.subset hp)

theorem pull_yields {β : Type} {size : Bytes → Nat} {find : Bytes → Option (β × Bytes)}
    (hstable : Segment.Stable find) (hsize : ∀ l, bufferBytes ≤ size l) {b : Buffered} {x : β}
    {rest : Bytes} (h : find b.pending = some (x, rest)) :
    ∃ b', b'.pending = rest ∧ b.pull size find = (some x, b') ∧
      (ReadSized b → b'.socket.segments <:+ b.socket.segments) ∧
      ∀ more, (b.extend more).pull size find = (some x, b'.extend more) := by
  have hpos : ∀ l, find l = none → 0 < size l :=
    fun l _ => Nat.lt_of_lt_of_le (by decide) (hsize l)
  obtain ⟨b', hpull, hrest, -⟩ := Buffered.pull_of_find size hstable hpos h
  refine ⟨b', hrest, hpull, fun hsized => ?_, fun more => ?_⟩
  · have hsuffix : (b.pull size find).2.socket.segments <:+ b.socket.segments :=
      Segment.pull_suffix fun p hp l => (hsized p hp).trans (hsize l)
    rwa [hpull] at hsuffix
  · have hsome : find b.pending ≠ none := by
      rw [h]
      exact Option.some_ne_none _
    rw [Buffered.pull_extend hpos hsome more, hpull]

theorem readLine_yields {b : Buffered} {line rest : Bytes}
    (h : Segment.through (· == 10) b.pending = some (line, rest)) :
    ∃ b', b'.pending = rest ∧ Yields readLine b (lineOf line) b' := by
  obtain ⟨b', hrest, hpull, hwhole, hextend⟩ := pull_yields (Segment.through_stable _)
    (fun _ => Nat.le_refl bufferBytes) h
  refine ⟨b', hrest, ?_, hwhole, fun more => ?_⟩
  · rw [readLine, hpull]
  · rw [readLine, hextend]

theorem readBody_yields {b : Buffered} {body rest : Bytes} (h : b.pending = body ++ rest) :
    ∃ b', b'.pending = rest ∧ Yields (readBody body.length) b (.ok body) b' := by
  obtain ⟨b', hrest, hpull, hwhole, hextend⟩ := pull_yields (Segment.front_stable body.length)
    (fun l => Nat.le_max_left bufferBytes (body.length - l.length))
    (h ▸ Segment.front_append body rest)
  refine ⟨b', hrest, ?_, hwhole, fun more => ?_⟩
  · rw [readBody, hpull]
  · rw [readBody, hextend]

/-! ## A response on the wire -/

/-- A line with its end. -/
def ended (line : Text) : Bytes := (line ++ ['\r', '\n']).utf8

def statusLine (r : RtspResponse) : Text :=
  r.version ++ ' ' :: (decimal r.status.toNat ++ ' ' :: r.reason)

/-- The header lines and the empty one. -/
def headerBytes (lines : List Text) : Bytes := lines.flatMap ended ++ ended []

def encode (r : RtspResponse) (lines : List Text) : Bytes :=
  ended (statusLine r) ++ (headerBytes lines ++ r.body)

/-- One line's text. -/
def OneLine (t : Text) : Prop := '\r' ∉ t ∧ '\n' ∉ t

/-- A header line and the field it carries, white space aside. -/
def HeaderLine (line : Text) (h : Header) : Prop :=
  OneLine line ∧ ∃ k v : Text, line = k ++ ':' :: v ∧ ':' ∉ k ∧ h = (k.trim, v.trim)

/-- The response to the request numbered `cseq`, and its header lines. -/
structure Answers (cseq : UInt32) (r : RtspResponse) (lines : List Text) : Prop where
  version_rtsp : "RTSP/".toList <+: r.version
  version_word : ' ' ∉ r.version
  version_line : OneLine r.version
  reason_line : OneLine r.reason
  header_lines : List.Forall₂ HeaderLine lines r.headers
  cseq_field : Http.findHeader r.headers "CSeq".toList = some (decimal cseq.toNat)
  length_field : Http.findHeader r.headers "content-length".toList =
      some (decimal r.body.length) ∨
    Http.findHeader r.headers "content-length".toList = none ∧ r.body = []
  length_lt : r.body.length < 2 ^ 64

/-- The response is within the limits the reader sets. -/
def Fits (r : RtspResponse) (lines : List Text) : Prop :=
  (headerBytes lines).length ≤ maxHeaderBytes ∧ r.body.length ≤ maxBodyBytes

/-! ## Reading a response -/

theorem ended_eq (line : Text) : ended line = line.utf8 ++ [13, 10] := by
  rw [ended, Text.utf8_append]
  rfl

/-- A line that is one is read up to its end. -/
theorem through_ended {line : Text} (h : OneLine line) (rest : Bytes) :
    Segment.through (· == 10) (ended line ++ rest) = some (ended line, rest) := by
  have hnolf : ∀ b ∈ line.utf8 ++ [13], (b == 10) = false := by
    intro b hb
    rcases List.mem_append.mp hb with hb | hb
    · refine beq_eq_false_iff_ne.mpr fun heq => ?_
      rw [heq] at hb
      exact Text.not_mem_utf8 (c := '\n') (by decide) h.2 hb
    · obtain rfl := List.mem_singleton.mp hb
      rfl
  have hsplit : ended line = line.utf8 ++ [13] ++ [10] := by
    rw [ended_eq, List.append_assoc]
    rfl
  rw [hsplit, List.append_assoc]
  exact Segment.through_append hnolf rfl

theorem lineOf_ended (line : Text) :
    lineOf (ended line) = .ok (line ++ ['\r', '\n'], (ended line).length) := by
  rw [lineOf, ended, fromUtf8_utf8]

theorem length_ended_ne (line : Text) : (ended line).length ≠ 0 := by
  rw [ended_eq, List.length_append]
  exact Nat.succ_ne_zero _

theorem trimEndCrlf_ended {line : Text} (h : OneLine line) :
    (line ++ ['\r', '\n']).trimEndCrlf = line := by
  have hlf : (line ++ ['\r', '\n']).trimEndCrlf = (line ++ ['\r']).trimEndCrlf := by
    have hsplit : line ++ ['\r', '\n'] = line ++ ['\r'] ++ ['\n'] := by simp
    rw [Text.trimEndCrlf, hsplit, List.rdropWhile_concat_pos _ _ _ (by decide)]
    rfl
  rw [hlf, Text.trimEndCrlf, List.rdropWhile_concat_pos _ _ _ (by decide)]
  refine List.rdropWhile_eq_self_iff.mpr fun hne hlast => ?_
  have hmem := List.getLast_mem hne
  rcases Bool.or_eq_true_iff.mp hlast with heq | heq
  · exact h.1 (beq_iff_eq.mp heq ▸ hmem)
  · exact h.2 (beq_iff_eq.mp heq ▸ hmem)

theorem HeaderLine.parse {line : Text} {h : Header} (hline : HeaderLine line h) :
    line ≠ [] ∧ parseHeader line = .ok h := by
  obtain ⟨-, k, v, rfl, hcolon, rfl⟩ := hline
  refine ⟨by simp, ?_⟩
  rw [parseHeader, Text.splitOnce_eq_some.mpr ⟨rfl, hcolon⟩]

/-- One turn of the header loop. -/
theorem readHeaders_turn {b b' : Buffered} {line : Text} {n : Nat} (headers : List Header)
    (count : Nat) (h : readLine b = (.ok (line, n), b')) (hn : n ≠ 0) :
    readHeaders headers count b =
      if count + n > maxHeaderBytes then
        (.error (.badResponse [.str "headers exceed 64 KiB"]), b')
      else if line.trimEndCrlf = [] then (.ok headers, b')
      else
        match parseHeader line.trimEndCrlf with
        | .error e => (.error e, b')
        | .ok header => readHeaders (headers ++ [header]) (count + n) b' := by
  rw [readHeaders]
  split
  · next e hline =>
      rw [h] at hline
      cases hline
  · next line' n' hline =>
      rw [h] at hline
      obtain ⟨rfl, rfl⟩ := Prod.mk.inj (Except.ok.inj hline)
      obtain rfl : (readLine b).2 = b' := congrArg Prod.snd h
      exact dif_neg hn

theorem headerBytes_cons (line : Text) (lines : List Text) :
    headerBytes (line :: lines) = ended line ++ headerBytes lines := by
  rw [headerBytes, List.flatMap_cons, List.append_assoc]
  rfl

/-- The next line of what is pending, when it is one. -/
theorem readLine_ended {b : Buffered} {line : Text} {rest : Bytes} (hline : OneLine line)
    (h : b.pending = ended line ++ rest) :
    ∃ b', b'.pending = rest ∧
      Yields readLine b (.ok (line ++ ['\r', '\n'], (ended line).length)) b' := by
  have hthrough := through_ended hline rest
  rw [← h] at hthrough
  obtain ⟨b', hrest, hyields⟩ := readLine_yields hthrough
  rw [lineOf_ended] at hyields
  exact ⟨b', hrest, hyields⟩

theorem oneLine_nil : OneLine [] := ⟨List.not_mem_nil, List.not_mem_nil⟩

/-- The header lines are read into the fields they carry, if there is room for them. -/
theorem readHeaders_yields {lines : List Text} {fields : List Header}
    (hlines : List.Forall₂ HeaderLine lines fields) {rest : Bytes} :
    ∀ (headers : List Header) (count : Nat) (b : Buffered),
      b.pending = headerBytes lines ++ rest →
      count + (headerBytes lines).length ≤ maxHeaderBytes →
      ∃ b', b'.pending = rest ∧
        Yields (readHeaders headers count) b (.ok (headers ++ fields)) b' := by
  induction hlines with
  | nil =>
      intro headers count b hpending hroom
      obtain ⟨b', hrest, hyields⟩ := readLine_ended oneLine_nil hpending
      have hcount : ¬count + (ended []).length > maxHeaderBytes := Nat.not_lt_of_le hroom
      have htrim := trimEndCrlf_ended oneLine_nil
      refine ⟨b', hrest, ?_, hyields.whole, fun more => ?_⟩
      · rw [readHeaders_turn headers count hyields.run (length_ended_ne []), if_neg hcount,
          if_pos htrim, List.append_nil]
      · rw [readHeaders_turn headers count (hyields.extend more) (length_ended_ne []),
          if_neg hcount, if_pos htrim, List.append_nil]
  | @cons line field lines fields hline _ ih =>
      intro headers count b hpending hroom
      rw [headerBytes_cons, List.append_assoc] at hpending
      rw [headerBytes_cons, List.length_append, ← Nat.add_assoc] at hroom
      obtain ⟨b₁, hrest₁, hyields₁⟩ := readLine_ended hline.1 hpending
      obtain ⟨b', hrest, hyields⟩ :=
        ih (headers ++ [field]) (count + (ended line).length) b₁ hrest₁ hroom
      rw [List.append_assoc] at hyields
      have hcount : ¬count + (ended line).length > maxHeaderBytes :=
        Nat.not_lt_of_le (Nat.le_trans (Nat.le_add_right _ _) hroom)
      have htrim := trimEndCrlf_ended hline.1
      obtain ⟨hne, hparse⟩ := hline.parse
      refine ⟨b', hrest, ?_, fun hsized => ?_, fun more => ?_⟩
      · rw [readHeaders_turn headers count hyields₁.run (length_ended_ne line), if_neg hcount,
          htrim, if_neg hne, hparse]
        exact hyields.run
      · have hsuffix := hyields₁.whole hsized
        exact (hyields.whole (hsized.of_suffix hsuffix)).trans hsuffix
      · rw [readHeaders_turn headers count (hyields₁.extend more) (length_ended_ne line),
          if_neg hcount, htrim, if_neg hne, hparse]
        exact hyields.extend more

def headersTooLong : Error := .badResponse [.str "headers exceed 64 KiB"]

/-- Without room for all of them the header lines are refused. -/
theorem readHeaders_tooLong {lines : List Text} {fields : List Header}
    (hlines : List.Forall₂ HeaderLine lines fields) {rest : Bytes} :
    ∀ (headers : List Header) (count : Nat) (b : Buffered),
      b.pending = headerBytes lines ++ rest →
      maxHeaderBytes < count + (headerBytes lines).length →
      (readHeaders headers count b).1 = .error headersTooLong := by
  induction hlines with
  | nil =>
      intro headers count b hpending hroom
      obtain ⟨b', -, hyields⟩ := readLine_ended oneLine_nil hpending
      rw [readHeaders_turn headers count hyields.run (length_ended_ne [])]
      exact congrArg Prod.fst (if_pos hroom)
  | @cons line field lines fields hline _ ih =>
      intro headers count b hpending hroom
      rw [headerBytes_cons, List.append_assoc] at hpending
      rw [headerBytes_cons, List.length_append, ← Nat.add_assoc] at hroom
      obtain ⟨b₁, hrest₁, hyields₁⟩ := readLine_ended hline.1 hpending
      obtain ⟨hne, hparse⟩ := hline.parse
      rw [readHeaders_turn headers count hyields₁.run (length_ended_ne line),
        trimEndCrlf_ended hline.1, if_neg hne, hparse]
      by_cases hcount : count + (ended line).length > maxHeaderBytes
      · rw [if_pos hcount]
        rfl
      · rw [if_neg hcount]
        exact ih (headers ++ [field]) (count + (ended line).length) b₁ hrest₁ hroom

section Answered

variable {cseq : UInt32} {r : RtspResponse} {lines : List Text}

theorem Answers.parseStatusLine_eq (h : Answers cseq r lines) :
    parseStatusLine (statusLine r) = .ok (r.version, r.status, r.reason) := by
  have hrest : Text.splitOnce ' ' (decimal r.status.toNat ++ ' ' :: r.reason) =
      some (decimal r.status.toNat, r.reason) :=
    Text.splitOnce_eq_some.mpr ⟨rfl, not_mem_decimal (by decide)⟩
  have hversion : "RTSP/".toList.isPrefixOf r.version = true :=
    List.isPrefixOf_iff_prefix.mpr h.version_rtsp
  rw [parseStatusLine, statusLine, Text.splitOnce_eq_some.mpr ⟨rfl, h.version_word⟩]
  simp only [hversion, hrest, Option.getD_some, parseU16_decimal, Bool.not_true, Bool.false_eq_true,
    if_false]

theorem Answers.statusLine_line (h : Answers cseq r lines) : OneLine (statusLine r) := by
  have hone : ∀ c, c = '\r' ∨ c = '\n' → c ∉ r.version → c ∉ r.reason → c ∉ statusLine r := by
    intro c hc hversion hreason hmem
    simp only [statusLine, List.mem_append, List.mem_cons] at hmem
    have hdigit : c.isDigit = false := by rcases hc with rfl | rfl <;> rfl
    have hspace : c ≠ ' ' := by rcases hc with rfl | rfl <;> decide
    rcases hmem with hmem | hmem | hmem | hmem | hmem
    · exact hversion hmem
    · exact hspace hmem
    · exact not_mem_decimal hdigit hmem
    · exact hspace hmem
    · exact hreason hmem
  exact ⟨hone _ (.inl rfl) h.version_line.1 h.reason_line.1,
    hone _ (.inr rfl) h.version_line.2 h.reason_line.2⟩

theorem Answers.contentLength_eq (h : Answers cseq r lines) :
    contentLength r.headers = r.body.length := by
  rw [contentLength]
  rcases h.length_field with hfield | ⟨hfield, hbody⟩
  · rw [hfield, Option.bind_some, parseUnsigned_decimal (Nat.le_sub_one_of_lt h.length_lt)]
    rfl
  · rw [hfield, hbody]
    rfl

/-- What a reader makes of the status line and the headers. -/
theorem readResponse_head {b b₁ : Buffered} (h : Answers cseq r lines)
    (hstatus : readLine b = (.ok (statusLine r ++ ['\r', '\n'], (ended (statusLine r)).length), b₁)) :
    readResponse b =
      match readHeaders [] 0 b₁ with
      | (.error e, b) => (.error e, b)
      | (.ok headers, b) =>
          let length := contentLength headers
          if length > maxBodyBytes then
            (.error (.badResponse [.str "body too large: ", .num length]), b)
          else if length > 0 then
            match readBody length b with
            | (.error e, b) => (.error e, b)
            | (.ok body, b) => (.ok { r with headers, body }, b)
          else (.ok { r with headers, body := [] }, b) := by
  rw [readResponse, hstatus]
  dsimp only
  rw [if_neg (length_ended_ne _), trimEndCrlf_ended h.statusLine_line]
  split
  · next e he =>
      rw [h.parseStatusLine_eq] at he
      cases he
  · next version status reason hok =>
      rw [h.parseStatusLine_eq] at hok
      obtain ⟨rfl, rfl, rfl⟩ := Prod.mk.inj (Except.ok.inj hok) |>.imp id Prod.mk.inj
      rfl

/-- A response within the limits is read as what it is, up to its end. -/
theorem readResponse_yields (h : Answers cseq r lines) (hfits : Fits r lines) {b : Buffered}
    {rest : Bytes} (hpending : b.pending = encode r lines ++ rest) :
    ∃ b', b'.pending = rest ∧ Yields readResponse b (.ok r) b' := by
  rw [encode, List.append_assoc, List.append_assoc] at hpending
  obtain ⟨b₁, hrest₁, hstatus⟩ := readLine_ended h.statusLine_line hpending
  have hroom : 0 + (headerBytes lines).length ≤ maxHeaderBytes := by
    rw [Nat.zero_add]
    exact hfits.1
  obtain ⟨b₂, hrest₂, hheaders⟩ := readHeaders_yields h.header_lines [] 0 b₁ hrest₁ hroom
  rw [List.nil_append] at hheaders
  have hcap : ¬r.body.length > maxBodyBytes := Nat.not_lt_of_le hfits.2
  by_cases hbody : r.body.length > 0
  · obtain ⟨b', hrest, hread⟩ := readBody_yields hrest₂
    refine ⟨b', hrest, ?_, fun hsized => ?_, fun more => ?_⟩
    · rw [readResponse_head h hstatus.run, hheaders.run]
      simp only [h.contentLength_eq, if_neg hcap, if_pos hbody, hread.run]
    · have hsuffix₁ := hstatus.whole hsized
      have hsuffix₂ := (hheaders.whole (hsized.of_suffix hsuffix₁)).trans hsuffix₁
      exact (hread.whole (hsized.of_suffix hsuffix₂)).trans hsuffix₂
    · rw [readResponse_head h (hstatus.extend more), hheaders.extend more]
      simp only [h.contentLength_eq, if_neg hcap, if_pos hbody, hread.extend more]
  · have hnil : r.body = [] := List.eq_nil_of_length_eq_zero (Nat.eq_zero_of_not_pos hbody)
    refine ⟨b₂, by rw [hrest₂, hnil, List.nil_append], ?_, fun hsized => ?_, fun more => ?_⟩
    · rw [readResponse_head h hstatus.run, hheaders.run]
      simp only [h.contentLength_eq, if_neg hcap, if_neg hbody, ← hnil]
    · have hsuffix := hstatus.whole hsized
      exact (hheaders.whole (hsized.of_suffix hsuffix)).trans hsuffix
    · rw [readResponse_head h (hstatus.extend more), hheaders.extend more]
      simp only [h.contentLength_eq, if_neg hcap, if_neg hbody, ← hnil]

/-- The errors of a request that do not come from the status of its response. -/
def Garbled (e : Error) : Prop :=
  ∀ status reason, e ≠ .badResponse [.str "rtsp: ", .num status, .str " ", .display reason]

theorem garbled_of_head {head : String} (h : head ≠ "rtsp: ") (rest : Msg) :
    Garbled (.badResponse (.str head :: rest)) := fun _ _ he =>
  h (Piece.str.inj (List.cons.inj (Error.badResponse.inj he)).1)

/-- A response beyond a limit is refused. -/
theorem readResponse_tooLarge (h : Answers cseq r lines) (hfits : ¬Fits r lines) {b : Buffered}
    {rest : Bytes} (hpending : b.pending = encode r lines ++ rest) :
    ∃ e, (readResponse b).1 = .error e ∧ Garbled e := by
  rw [encode, List.append_assoc, List.append_assoc] at hpending
  obtain ⟨b₁, hrest₁, hstatus⟩ := readLine_ended h.statusLine_line hpending
  by_cases hroom : (headerBytes lines).length ≤ maxHeaderBytes
  · obtain ⟨b₂, -, hheaders⟩ := readHeaders_yields h.header_lines [] 0 b₁ hrest₁
      ((Nat.zero_add _).symm ▸ hroom)
    rw [List.nil_append] at hheaders
    have hcap : r.body.length > maxBodyBytes := Nat.lt_of_not_le fun hle => hfits ⟨hroom, hle⟩
    refine ⟨.badResponse [.str "body too large: ", .num r.body.length], ?_,
      garbled_of_head (by decide) _⟩
    rw [readResponse_head h hstatus.run, hheaders.run]
    simp only [h.contentLength_eq, if_pos hcap]
  · have hover : maxHeaderBytes < 0 + (headerBytes lines).length := by
      rw [Nat.zero_add]
      exact Nat.lt_of_not_le hroom
    have hheaders := readHeaders_tooLong h.header_lines [] 0 b₁ hrest₁ hover
    refine ⟨headersTooLong, ?_, garbled_of_head (by decide) _⟩
    rw [readResponse_head h hstatus.run]
    cases hout : readHeaders [] 0 b₁ with
    | mk out b₂ =>
        rw [hout] at hheaders
        dsimp only at hheaders
        rw [hheaders]

/-- Text that starts with a `$` is no status line. -/
theorem parseStatusLine_dollar (t : Text) : ∃ e,
    parseStatusLine (Text.trimEndCrlf ('$' :: t)) = .error e ∧ Garbled e := by
  have htrim : ∃ t', Text.trimEndCrlf ('$' :: t) = '$' :: t' := by
    obtain ⟨dropped, hdropped⟩ := List.rdropWhile_prefix (fun c => c == '\r' || c == '\n') ('$' :: t)
    cases hcase : Text.trimEndCrlf ('$' :: t) with
    | nil =>
        have hall := List.rdropWhile_eq_nil_iff.mp hcase '$' List.mem_cons_self
        exact absurd hall (by decide)
    | cons c t' =>
        change Text.trimEndCrlf ('$' :: t) ++ dropped = _ at hdropped
        rw [hcase] at hdropped
        obtain rfl := (List.cons.inj hdropped).1
        exact ⟨t', rfl⟩
  obtain ⟨t', ht'⟩ := htrim
  rw [ht', parseStatusLine]
  cases hsplit : Text.splitOnce ' ' ('$' :: t') with
  | none =>
      exact ⟨.badResponse [.str "not RTSP: ", .display ('$' :: t')], rfl,
        garbled_of_head (by decide) _⟩
  | some out =>
      obtain ⟨version, rest⟩ := out
      obtain ⟨heq, -⟩ := Text.splitOnce_eq_some.mp hsplit
      cases version with
      | nil => exact absurd (List.cons.inj heq).1 (by decide)
      | cons c v =>
          obtain rfl := (List.cons.inj heq).1
          exact ⟨.badResponse [.str "not RTSP: ", .display ('$' :: v)], rfl,
            garbled_of_head (by decide) _⟩

/-- So is a line that does. -/
theorem readResponse_dollar {b b' : Buffered} {line : Bytes}
    (hread : readLine b = (lineOf (0x24 :: line), b')) :
    ∃ e, (readResponse b).1 = .error e ∧ Garbled e := by
  cases htext : fromUtf8 (0x24 :: line) with
  | none =>
      rw [lineOf, htext] at hread
      exact ⟨.io .invalidData, by rw [readResponse, hread], fun _ _ he => by cases he⟩
  | some text =>
      rw [lineOf, htext] at hread
      have hutf8 := utf8_of_fromUtf8 htext
      cases text with
      | nil => cases hutf8
      | cons c t =>
          have hmem : (0x24 : UInt8) ∈ String.utf8EncodeChar c := by
            rw [Text.utf8_cons] at hutf8
            cases hencode : String.utf8EncodeChar c with
            | nil => exact absurd hencode String.utf8EncodeChar_ne_nil
            | cons b₀ bs =>
                rw [hencode] at hutf8
                rw [← (List.cons.inj hutf8).1]
                exact List.mem_cons_self
          obtain rfl : c = '$' := Char.toNat_inj.mp (toNat_of_mem_utf8EncodeChar hmem (by decide))
          obtain ⟨e, he, hgarbled⟩ := parseStatusLine_dollar t
          refine ⟨e, ?_, hgarbled⟩
          rw [readResponse, hread]
          simp only [List.length_cons, if_neg (Nat.succ_ne_zero _), he]

/-- Data in front of a response is taken for a status line. -/
theorem readResponse_data {b : Buffered} {rest : Bytes} (hpending : b.pending = 0x24 :: rest) :
    ∃ e, (readResponse b).1 = .error e ∧ Garbled e := by
  cases hthrough : Segment.through (· == 10) b.pending with
  | some out =>
      obtain ⟨line, after⟩ := out
      obtain ⟨hsplit, a, x, hline, -⟩ := Segment.through_eq_some hthrough
      obtain ⟨b', hread, -⟩ := readLine_of_through hthrough
      cases line with
      | nil => simp at hline
      | cons b₀ line =>
          rw [hpending] at hsplit
          obtain rfl := (List.cons.inj hsplit).1
          exact readResponse_dollar hread
  | none =>
      have hread := readLine_of_end hthrough
      rw [hpending] at hread
      cases htail : b.tail with
      | some kind =>
          simp only [htail] at hread
          exact ⟨.io kind, by rw [readResponse, hread], fun _ _ he => by cases he⟩
      | none =>
          simp only [htail] at hread
          exact readResponse_dollar hread

end Answered

/-! ## What the server sends -/

/-- What stands on the control connection: a response, or a frame of a media channel. -/
inductive Item where
  | response (r : RtspResponse) (lines : List Text)
  | data (channel : UInt8) (payload : Bytes)
deriving DecidableEq, Repr

def Item.wire : Item → Bytes
  | response r lines => encode r lines
  | data channel payload =>
      0x24 :: channel :: UInt8.ofNat (payload.length / 256) :: UInt8.ofNat payload.length :: payload

def wires (items : List Item) : Bytes := items.flatMap Item.wire

/-- The responses answer the requests from `cseq` on, in turn. -/
def Numbered : UInt32 → List Item → Prop
  | _, [] => True
  | cseq, .response r lines :: items => Answers cseq r lines ∧ Numbered (cseq + 1) items
  | cseq, .data _ payload :: items => payload.length < 65536 ∧ Numbered cseq items

/-- The next response, and what comes behind it. -/
def nextResponse : List Item → Option (RtspResponse × List Item)
  | [] => none
  | .response r _ :: items => some (r, items)
  | .data _ _ :: items => nextResponse items

/-! ## Runs of requests -/

/-- What a request reports of its response: the response when it is a 2xx, else its status. -/
def judge (r : RtspResponse) : Result RtspResponse :=
  if 200 ≤ r.status ∧ r.status < 300 then .ok r
  else .error (.badResponse [.str "rtsp: ", .num r.status.toNat, .str " ", .display r.reason])

/-- Each request reports the response with its own number, and when another request follows, what
is still to come is what is behind the response. -/
def InSync : List (Text × List Header) → List Item → Session → Prop
  | [], _, _ => True
  | (method, extra) :: requests, items, s =>
      ∃ r rest, nextResponse items = some (r, rest) ∧
        ((request method extra).exec s).1 = judge r ∧
        (requests = [] ∨
          Segment.stream ((request method extra).exec s).2.socket.segments = wires rest) ∧
        InSync requests rest ((request method extra).exec s).2

/-- For `n` requests: the responses stand behind each other, within the limits, and a read ends
where each but the last one ends. -/
def Aligned : Nat → List Item → List (Segment UInt8) → Prop
  | 0, _, _ => True
  | n + 1, .response r lines :: items, reads =>
      Fits r lines ∧ (n = 0 ∨ ∃ front back, reads = front ++ back ∧
        Segment.stream front = encode r lines ∧ Aligned n items back)
  | _ + 1, _, _ => False

/-- The stream takes what is written, and every segment is what one read returns. -/
structure Healthy (s : Session) : Prop where
  writes : s.sink.fault = none
  flushes : s.sink.flushFault = none
  reads : ReadSized ⟨[], s.socket⟩

theorem Answers.check {cseq : UInt32} {r : RtspResponse} {lines : List Text}
    (h : Answers cseq r lines) : checkResponse cseq r = judge r := by
  have htrim : (decimal cseq.toNat).trim = decimal cseq.toNat :=
    trim_of_digits fun c hc => isDigit_of_mem_decimal hc
  have hparse : parseU32 (decimal cseq.toNat) = some cseq := by
    rw [parseU32, parseUnsigned_decimal (Nat.le_sub_one_of_lt cseq.toNat_lt), Option.map_some,
      UInt32.ofNat_toNat]
  rw [checkResponse, h.cseq_field]
  simp only [htrim, hparse, ne_eq, not_true_eq_false, if_false, judge, ite_not]

/-- A session after a request, with what it has written and what it has read. -/
def afterRequest (s : Session) (text : Text) (b : Buffered) : Session :=
  { s with
    socket := b.socket, sink := { s.sink with written := s.sink.written ++ text.utf8 },
    cseq := s.cseq + 1 }

/-- A request that can be written reads one response. -/
theorem request_exec {s : Session} (h : Healthy s) (method : Text) (extra : List Header) :
    (request method extra).exec s =
      ((readResponse ⟨[], s.socket⟩).1.bind (checkResponse s.cseq),
        afterRequest s (buildRequest method s.uri s.cseq extra)
          (readResponse ⟨[], s.socket⟩).2) := by
  have hwrite : ∀ bytes, Sink.andThen (s.sink.writeAll bytes) Sink.flush =
      (.ok (), { s.sink with written := s.sink.written ++ bytes }) := by
    intro bytes
    simp only [Sink.writeAll, h.writes, Sink.andThen, Sink.flush, h.flushes]
  have htransmit : ∀ text : Text, (transmit text).exec { s with cseq := s.cseq + 1 } =
      (.ok (), { s with
        sink := { s.sink with written := s.sink.written ++ text.utf8 }, cseq := s.cseq + 1 }) := by
    intro text
    show (Prod.mk (Sink.andThen (s.sink.writeAll text.utf8) Sink.flush).1 _) = _
    rw [hwrite]
  rw [request, Program.exec_bind_ok (Program.exec_get s),
    Program.exec_bind_ok (Program.exec_modify _ s), Program.exec_bind_ok (htransmit _),
    Program.exec_bind]
  cases hread : readResponse ⟨[], s.socket⟩ with
  | mk out b =>
      have hreceive : receive.exec { s with
          sink := { s.sink with
            written := s.sink.written ++ (buildRequest method s.uri s.cseq extra).utf8 }
          cseq := s.cseq + 1 } =
          (out, afterRequest s (buildRequest method s.uri s.cseq extra) b) := by
        simp only [Program.exec, receive, hread, afterRequest]
      rw [hreceive]
      cases out with
      | error e => rfl
      | ok resp =>
          show Program.exec (Program.ofExcept (checkResponse s.cseq resp)) _ =
            (checkResponse s.cseq resp, _)
          cases checkResponse s.cseq resp with
          | error e => rfl
          | ok resp => rfl

/-! ## One request -/

theorem not_judge_of_garbled {e : Error} (h : Garbled e) (r : RtspResponse) :
    (.error e : Result RtspResponse) ≠ judge r := by
  rw [judge]
  split
  · exact fun he => by cases he
  · exact fun he => h _ _ (Except.error.inj he)

/-- A request that finds no response it can read reports none. -/
theorem request_garbled {s : Session} (h : Healthy s) (method : Text) (extra : List Header)
    (hread : ∃ e, (readResponse ⟨[], s.socket⟩).1 = .error e ∧ Garbled e) (r : RtspResponse) :
    ((request method extra).exec s).1 ≠ judge r := by
  obtain ⟨e, he, hgarbled⟩ := hread
  rw [request_exec h, he]
  exact not_judge_of_garbled hgarbled r

section Request

variable {s : Session} {r : RtspResponse} {lines : List Text} {rest : Bytes}

/-- A request that finds its response takes it off the stream, and what else its last read
brought with it. -/
theorem request_answered (h : Healthy s) (hr : Answers s.cseq r lines) (hfits : Fits r lines)
    (hstream : Segment.stream s.socket.segments = encode r lines ++ rest) (method : Text)
    (extra : List Header) :
    ∃ s' held, (request method extra).exec s = (judge r, s') ∧ Healthy s' ∧
      s'.cseq = s.cseq + 1 ∧ s'.socket = (readResponse ⟨[], s.socket⟩).2.socket ∧
      s'.socket.segments <:+ s.socket.segments ∧
      held ++ Segment.stream s'.socket.segments = rest := by
  obtain ⟨b', hrest, hyields⟩ := readResponse_yields (b := ⟨[], s.socket⟩) hr hfits hstream
  have hsuffix := hyields.whole h.reads
  refine ⟨afterRequest s (buildRequest method s.uri s.cseq extra) b', b'.held, ?_,
    ⟨h.writes, h.flushes, fun p hp => h.reads p (hsuffix.subset hp)⟩, rfl, ?_, hsuffix, hrest⟩
  · rw [request_exec h, hyields.run]
    exact Prod.ext hr.check rfl
  · rw [hyields.run]
    rfl

/-- When a read ends where the response ends, the next request starts there. -/
theorem readResponse_boundary {cseq : UInt32} (hr : Answers cseq r lines) (hfits : Fits r lines)
    {front : List (Segment UInt8)} (hfront : Segment.stream front = encode r lines)
    (back : List (Segment UInt8)) (tail : Option IoKind) :
    (readResponse ⟨[], ⟨front ++ back, tail⟩⟩).2.socket.segments = back := by
  have hpending : Buffered.pending ⟨[], ⟨front, tail⟩⟩ = encode r lines ++ [] := by
    rw [List.append_nil]
    exact hfront
  obtain ⟨b', hrest, hyields⟩ := readResponse_yields hr hfits hpending
  have hnone : b'.socket.segments = [] :=
    Segment.stream_eq_nil.mp (List.append_eq_nil_iff.mp hrest).2
  have hread := hyields.extend back
  show (readResponse (Buffered.extend ⟨[], ⟨front, tail⟩⟩ back)).2.socket.segments = back
  rw [hread]
  show b'.socket.segments ++ back = back
  rw [hnone, List.nil_append]

end Request

/-! ## Whole sessions -/

/-- A session stays in step with its server exactly when nothing but the responses stands on the
stream while requests are answered, and every response but the last one ends where a read
ends. -/
theorem inSync_iff {requests : List (Text × List Header)} {items : List Item} {s : Session}
    (h : Healthy s) (hnumbered : Numbered s.cseq items)
    (hstream : Segment.stream s.socket.segments = wires items) :
    InSync requests items s ↔ Aligned requests.length items s.socket.segments := by
  induction requests generalizing items s with
  | nil => exact ⟨fun _ => trivial, fun _ => trivial⟩
  | cons req requests ih =>
  obtain ⟨method, extra⟩ := req
  cases items with
  | nil => exact ⟨fun ⟨_, _, hnext, _⟩ => (nomatch hnext), False.elim⟩
  | cons item items =>
  have hpending : Segment.stream s.socket.segments = item.wire ++ wires items := hstream
  cases item with
  | data channel payload =>
      have hno := request_garbled h method extra
        (readResponse_data (b := ⟨[], s.socket⟩) hpending)
      exact ⟨fun ⟨r, _, _, hjudge, _⟩ => absurd hjudge (hno r), False.elim⟩
  | response r lines =>
  by_cases hfits : Fits r lines
  · obtain ⟨s', held, hexec, hhealthy, hcseq, hsocket, hsuffix, hheld⟩ :=
      request_answered h hnumbered.1 hfits hpending method extra
    constructor
    · rintro ⟨r', rest, hnext, -, hlossless, hmore⟩
      obtain ⟨-, rfl⟩ := Prod.mk.inj (Option.some.inj hnext)
      rw [hexec] at hlossless hmore
      refine ⟨hfits, ?_⟩
      rcases hlossless with rfl | hlossless
      · exact .inl rfl
      obtain ⟨front, hfront⟩ := hsuffix
      refine .inr ⟨front, s'.socket.segments, hfront.symm, ?_,
        (ih hhealthy (hcseq ▸ hnumbered.2) hlossless).mp hmore⟩
      rw [← hfront, Segment.stream_append] at hpending
      exact List.append_cancel_right (hpending.trans (congrArg _ hlossless.symm))
    · rintro ⟨-, halign⟩
      refine ⟨r, items, rfl, congrArg Prod.fst hexec, ?_⟩
      rw [hexec]
      rcases halign with hlast | ⟨front, back, hreads, hfront, halign⟩
      · obtain rfl := List.eq_nil_of_length_eq_zero hlast
        exact ⟨.inl rfl, trivial⟩
      · have hback : s'.socket.segments = back := by
          rw [hsocket]
          have hsplit : s.socket = ⟨front ++ back, s.socket.tail⟩ := by rw [← hreads]
          rw [hsplit]
          exact readResponse_boundary hnumbered.1 hfits hfront back _
        have hlossless : Segment.stream back = wires items := by
          rw [hreads, Segment.stream_append, hfront] at hpending
          exact List.append_cancel_left hpending
        rw [← hback] at hlossless halign
        exact ⟨.inr hlossless, (ih hhealthy (hcseq ▸ hnumbered.2) hlossless).mpr halign⟩
  · have hno := request_garbled h method extra
      (readResponse_tooLarge (b := ⟨[], s.socket⟩) hnumbered.1 hfits hpending)
    exact ⟨fun ⟨r, _, _, hjudge, _⟩ => absurd hjudge (hno r), fun hyes => absurd hyes.1 hfits⟩

/-- The shortest answer to the request numbered `cseq`. -/
def okResponse (cseq : Text) : RtspResponse :=
  ⟨"RTSP/1.0".toList, 200, "OK".toList, [("CSeq".toList, cseq)], []⟩

def okLines (cseq : Text) : List Text := ["CSeq: ".toList ++ cseq]

theorem okResponse_answers {n : UInt32} {digit : Char} (hn : decimal n.toNat = [digit])
    (htrim : Text.trim [' ', digit] = [digit]) (hline : digit ≠ '\r' ∧ digit ≠ '\n') :
    Answers n (okResponse [digit]) (okLines [digit]) where
  version_rtsp := show "RTSP/".toList <+: "RTSP/1.0".toList by decide
  version_word := show ' ' ∉ "RTSP/1.0".toList by decide
  version_line := show '\r' ∉ "RTSP/1.0".toList ∧ '\n' ∉ "RTSP/1.0".toList by decide
  reason_line := show '\r' ∉ "OK".toList ∧ '\n' ∉ "OK".toList by decide
  header_lines := by
    refine .cons ⟨⟨?_, ?_⟩, "CSeq".toList, [' ', digit], rfl, by decide, ?_⟩ .nil
    · simp [hline.1.symm]
    · simp [hline.2.symm]
    · rw [htrim]
      rfl
  cseq_field := by rw [hn]; rfl
  length_field := .inr ⟨rfl, rfl⟩
  length_lt := Nat.two_pow_pos 64

/-- A session before its first request, on a stream that arrives in these reads. -/
def sampleSession (reads : List (Segment UInt8)) : Session :=
  ⟨⟨reads, none⟩, ⟨[], none, none⟩, "rtsp://h/".toList, 1, none⟩

def sampleRequests : List (Text × List Header) := [("OPTIONS".toList, []), ("PLAY".toList, [])]

/-- Both responses before any data, a read for each. -/
def alignedItems : List Item :=
  [.response (okResponse ['1']) (okLines ['1']), .response (okResponse ['2']) (okLines ['2']),
    .data 0 [7]]

def alignedReads : List (Segment UInt8) :=
  [⟨(encode (okResponse ['1']) (okLines ['1'])).take 9, by decide +kernel⟩,
    ⟨(encode (okResponse ['1']) (okLines ['1'])).drop 9, by decide +kernel⟩,
    ⟨encode (okResponse ['2']) (okLines ['2']) ++ (Item.data 0 [7]).wire, by decide +kernel⟩]

theorem alignedItems_numbered : Numbered 1 alignedItems :=
  ⟨okResponse_answers rfl (by decide) (by decide), okResponse_answers rfl (by decide) (by decide),
    by decide, trivial⟩

theorem inSync_sample : InSync sampleRequests alignedItems (sampleSession alignedReads) :=
  (inSync_iff ⟨rfl, rfl, by unfold ReadSized; decide +kernel⟩ alignedItems_numbered
    (by decide +kernel)).mpr
    ⟨by unfold Fits; decide +kernel, .inr ⟨alignedReads.take 2, alignedReads.drop 2, rfl,
      by decide +kernel, by unfold Fits; decide +kernel, .inl rfl⟩⟩

/-- The answer to a SETUP, with a session. -/
def setupResponse : RtspResponse :=
  { okResponse ['3'] with headers := [("CSeq".toList, ['3']), ("Session".toList, ['s'])] }

def setupLines : List Text := okLines ['3'] ++ ["Session: s".toList]

theorem setupResponse_answers : Answers 3 setupResponse setupLines where
  version_rtsp := show "RTSP/".toList <+: "RTSP/1.0".toList by decide
  version_word := show ' ' ∉ "RTSP/1.0".toList by decide
  version_line := show '\r' ∉ "RTSP/1.0".toList ∧ '\n' ∉ "RTSP/1.0".toList by decide
  reason_line := show '\r' ∉ "OK".toList ∧ '\n' ∉ "OK".toList by decide
  header_lines :=
    .cons ⟨⟨by decide, by decide⟩, "CSeq".toList, " 3".toList, rfl, by decide, rfl⟩
      (.cons ⟨⟨by decide, by decide⟩, "Session".toList, " s".toList, rfl, by decide, rfl⟩ .nil)
  cseq_field := rfl
  length_field := .inr ⟨rfl, rfl⟩
  length_lt := Nat.two_pow_pos 64

/-- A whole session, with a frame of media data in front of the last response. -/
def mediaItems : List Item :=
  [.response (okResponse ['1']) (okLines ['1']), .response (okResponse ['2']) (okLines ['2']),
    .response setupResponse setupLines, .response (okResponse ['4']) (okLines ['4']), .data 0 [7],
    .response (okResponse ['5']) (okLines ['5'])]

/-- The read that brings the response to PLAY brings the first half of the frame, too. -/
def mediaReads : List (Segment UInt8) :=
  [⟨encode (okResponse ['1']) (okLines ['1']), by decide +kernel⟩,
    ⟨encode (okResponse ['2']) (okLines ['2']), by decide +kernel⟩,
    ⟨encode setupResponse setupLines, by decide +kernel⟩,
    ⟨encode (okResponse ['4']) (okLines ['4']) ++ [0x24, 0], by decide +kernel⟩,
    ⟨[0, 1, 7] ++ encode (okResponse ['5']) (okLines ['5']), by decide +kernel⟩]

/-- OPTIONS, DESCRIBE, SETUP and PLAY. -/
def played : Result RtspResponse × Session :=
  Program.exec (do
    let _ ← options
    let _ ← describe
    let _ ← setup
    play) (sampleSession mediaReads)

/-- The half that has been read with the response to PLAY is lost, and TEARDOWN takes the other
half for the start of its own response. -/
theorem media_loses_step :
    Numbered 1 mediaItems ∧
      Segment.stream (sampleSession mediaReads).socket.segments = wires mediaItems ∧
      played.1 = .ok (okResponse ['4']) ∧
      Segment.stream played.2.socket.segments ≠ wires (mediaItems.drop 4) ∧
      ((runMethod "TEARDOWN".toList).exec (sampleSession mediaReads)).1 =
        .error (.badResponse [.str "not RTSP: ",
          .display ([Char.ofNat 0, Char.ofNat 1, Char.ofNat 7] ++ "RTSP/1.0".toList)]) :=
  ⟨⟨okResponse_answers rfl (by decide) (by decide), okResponse_answers rfl (by decide) (by decide),
      setupResponse_answers, okResponse_answers rfl (by decide) (by decide), by decide,
      okResponse_answers rfl (by decide) (by decide), trivial⟩,
    by decide +kernel, by decide +kernel, by decide +kernel, by decide +kernel⟩

end Rsurl.Rtsp
