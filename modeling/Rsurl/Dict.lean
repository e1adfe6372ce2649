/-
# `Rsurl.Dict` — the DICT client's responses

From `src/dict.rs`: a response is status lines, some of them with a text block
behind, up to a final one.  A status line is split at its third byte, which may
be inside a character; a response that panics there is `none`.
-/
import Rsurl.Base.Checked
import Rsurl.Rtsp

namespace Rsurl

open Base (Checked)

/-- `str::split_at`; `none` where it panics, inside a character or behind the end. -/
def Text.splitAt : Text → Nat → Option (Text × Text)
  | t, 0 => some ([], t)
  | [], _ + 1 => none
  | c :: t, n + 1 =>
      if c.utf8Size ≤ n + 1 then
        (Text.splitAt t (n + 1 - c.utf8Size)).map fun (a, b) => (c :: a, b)
      else none

namespace Dict

/-- `Verb`. -/
inductive Verb where
  | define
  | matchWord
  | showDatabases
deriving DecidableEq, Repr

/-- `parse_status`: the code and the message. -/
def parseStatus (line : Text) : Checked Error (Nat × Text) :=
  let trimmed := line.trimEndCrlf
  if trimmed.len < 3 then
    throw (.badResponse [.str "dict: short status line '", .display trimmed, .str "'"])
  else
    match trimmed.splitAt 3 with
    | none => Checked.panic
    | some (codeStr, rest) =>
        match parseU16 codeStr with
        | none =>
            throw (.badResponse [.str "dict: non-numeric status '", .display trimmed, .str "'"])
        | some code => pure (code.toNat, (Text.stripPrefix [' '] rest).getD rest)

/-- `is_error_code`. -/
def isErrorCode (code : Nat) : Bool := 400 ≤ code && code < 600

/-- `read_line`. -/
def readLine (b : Buffered) : Result Text × Buffered :=
  match Rtsp.readLine b with
  | (.error e, b) => (.error e, b)
  | (.ok (line, n), b) => if n = 0 then (.error .unexpectedEof, b) else (.ok line, b)

/-- The bytes of a line as a `String`. -/
def textOf (line : Bytes) : Result Text :=
  match fromUtf8 line with
  | some text => .ok text
  | none => .error (.io .invalidData)

theorem readLine_of_through {b : Buffered} {line rest : Bytes}
    (h : Base.Segment.through (· == 10) b.pending = some (line, rest)) :
    ∃ b', readLine b = (textOf line, b') ∧ b'.pending = rest ∧ b'.tail = b.tail := by
  obtain ⟨b', hread, hrest, htail⟩ := Rtsp.readLine_of_through h
  refine ⟨b', ?_, hrest, htail⟩
  obtain ⟨-, a, x, rfl, -, -⟩ := Base.Segment.through_eq_some h
  have hlen : (a ++ [x]).length ≠ 0 := by simp
  rw [readLine, hread, Rtsp.lineOf, textOf]
  cases fromUtf8 (a ++ [x]) with
  | none => rfl
  | some text => exact if_neg hlen

theorem readLine_of_end {b : Buffered}
    (h : Base.Segment.through (· == 10) b.pending = none) :
    readLine b =
      (match b.tail with
      | some kind => .error (.io kind)
      | none => if b.pending = [] then .error .unexpectedEof else textOf b.pending,
      ⟨[], [], b.tail⟩) := by
  rw [readLine, Rtsp.readLine_of_end h]
  cases b.tail with
  | some kind => rfl
  | none =>
      simp only [Rtsp.lineOf, textOf]
      cases htext : fromUtf8 b.pending with
      | none =>
          have hne : b.pending ≠ [] := by
            intro hnil
            rw [hnil] at htext
            cases htext
          rw [if_neg hne]
      | some text =>
          by_cases hnil : b.pending = []
          · rw [if_pos hnil]
            exact if_pos (List.length_eq_zero_iff.mpr hnil)
          · rw [if_neg hnil]
            exact if_neg (mt List.length_eq_zero_iff.mp hnil)

theorem length_readLine_le (b : Buffered) :
    (readLine b).2.pending.length ≤ b.pending.length := by
  cases hthrough : Base.Segment.through (· == 10) b.pending with
  | some out =>
      obtain ⟨b', hread, hrest, -⟩ := readLine_of_through hthrough
      rw [hread, hrest, (Base.Segment.through_eq_some hthrough).1, List.length_append]
      exact Nat.le_add_left _ _
  | none =>
      rw [readLine_of_end hthrough]
      exact Nat.zero_le _

/-- A line takes something of the stream. -/
theorem length_readLine_lt {b : Buffered} {line : Text} (h : (readLine b).1 = .ok line) :
    (readLine b).2.pending.length < b.pending.length := by
  cases hthrough : Base.Segment.through (· == 10) b.pending with
  | some out =>
      obtain ⟨b', hread, hrest, -⟩ := readLine_of_through hthrough
      obtain ⟨hsplit, a, x, hline, -, -⟩ := Base.Segment.through_eq_some hthrough
      rw [hread, hrest, hsplit, hline, List.length_append, List.length_append,
        List.length_singleton]
      omega
  | none =>
      rw [readLine_of_end hthrough] at h ⊢
      refine List.length_pos_of_ne_nil fun hnil => ?_
      rw [hnil] at h
      cases htail : b.tail with
      | some kind =>
          rw [htail] at h
          cases h
      | none =>
          rw [htail] at h
          cases h

/-- The loop of `read_text_block`: its result, with what `out` has become. -/
def readTextBlock (out : Bytes) (b : Buffered) : Result Unit × Bytes × Buffered :=
  match hline : (readLine b).1 with
  | .error e => (.error e, out, (readLine b).2)
  | .ok line =>
      let body := line.trimEndCrlf
      if body = ['.'] then (.ok (), out, (readLine b).2)
      else
        let unescaped := (Text.stripPrefix ['.'] body).getD body
        let toWrite := if body.head? = some '.' then unescaped else body
        readTextBlock (out ++ toWrite.utf8 ++ [10]) (readLine b).2
termination_by b.pending.length
decreasing_by exact length_readLine_lt hline

theorem length_readTextBlock_le (out : Bytes) (b : Buffered) :
    (readTextBlock out b).2.2.pending.length ≤ b.pending.length := by
  fun_induction readTextBlock out b with
  | case1 out b e hline => exact length_readLine_le b
  | case2 out b line hline body hend => exact Nat.le_of_lt (length_readLine_lt hline)
  | case3 out b line hline body hend unescaped toWrite ih =>
      exact ih.trans (Nat.le_of_lt (length_readLine_lt hline))

/-- What a status line comes to: the loop goes on, or ends with a result. -/
inductive Flow where
  | next
  | stop (r : Result Unit)

/-- `?` behind a text block. -/
def behind : Result Unit × Bytes × Buffered → Flow × Bytes × Buffered
  | (.ok (), out, b) => (.next, out, b)
  | (.error e, out, b) => (.stop (.error e), out, b)

/-- The `match` of `read_response`. -/
def dispatch (verb : Verb) (code : Nat) (msg : Text) (out : Bytes) (b : Buffered) :
    Flow × Bytes × Buffered :=
  match verb, code with
  | .showDatabases, 110 => behind (readTextBlock out b)
  | .matchWord, 152 => behind (readTextBlock out b)
  | .define, 150 => (.next, out, b)
  | .define, 151 => behind (readTextBlock (out ++ msg.utf8 ++ [10]) b)
  | _, 250 => (.stop (.ok ()), out, b)
  | _, 130 => (.next, out, b)
  | _, 230 => (.next, out, b)
  | _, c =>
      if 200 ≤ c ∧ c < 300 then (.stop (.ok ()), out, b)
      else (.stop (.ok ()), out ++ msg.utf8 ++ [10], b)

theorem length_dispatch_le (verb : Verb) (code : Nat) (msg : Text) (out : Bytes) (b : Buffered) :
    (dispatch verb code msg out b).2.2.pending.length ≤ b.pending.length := by
  have hbehind : ∀ x : Result Unit × Bytes × Buffered, (behind x).2.2 = x.2.2 := by
    rintro ⟨⟨⟩ | ⟨⟩, out, b⟩ <;> rfl
  unfold dispatch
  split
  · rw [hbehind]
    exact length_readTextBlock_le _ _
  · rw [hbehind]
    exact length_readTextBlock_le _ _
  · exact Nat.le_refl _
  · rw [hbehind]
    exact length_readTextBlock_le _ _
  · exact Nat.le_refl _
  · exact Nat.le_refl _
  · exact Nat.le_refl _
  · split <;> exact Nat.le_refl _

/-- `read_response`: its result, with what `out` has become; a turn of the loop begins with the
status line. -/
def readResponse (verb : Verb) (out : Bytes) (b : Buffered) :
    Option (Result Unit × Bytes × Buffered) :=
  match _ : (readLine b).1 with
  | .error e => some (.error e, out, (readLine b).2)
  | .ok status =>
      match (parseStatus status).run with
      | none => none
      | some (.error e) => some (.error e, out, (readLine b).2)
      | some (.ok (code, msg)) =>
          if isErrorCode code then
            some (.error (.badResponse [.str "dict: ", .num code, .str " ", .display msg]), out,
              (readLine b).2)
          else
            let after := dispatch verb code msg out (readLine b).2
            match after.1 with
            | .stop r => some (r, after.2)
            | .next => readResponse verb after.2.1 after.2.2
termination_by b.pending.length
decreasing_by
  exact Nat.lt_of_le_of_lt (length_dispatch_le ..) (length_readLine_lt ‹_›)

end Dict
end Rsurl
