/-
# `Rsurl.Pop3` — the POP3 client's multi-line responses

From `src/pop3.rs`: a response is collected line by line up to the line that is
only a dot, and a message that is retrieved has the stuffed dots taken out of it.
-/
import Rsurl.Rtsp

namespace Rsurl.Pop3

/-- `BufReader::read_until(b'\n', ..)`: what is read is empty only at the end of the stream. -/
def readUntil (b : Buffered) : Result Bytes × Buffered :=
  match b.pull (fun _ => Rtsp.bufferBytes) (Base.Segment.through (· == 10)) with
  | (some line, b) => (.ok line, b)
  | (none, b) =>
      match b.tail with
      | some kind => (.error (.io kind), { b with held := [] })
      | none => (.ok b.held, { b with held := [] })

theorem readUntil_of_through {b : Buffered} {line rest : Bytes}
    (h : Base.Segment.through (· == 10) b.pending = some (line, rest)) :
    ∃ b', readUntil b = (.ok line, b') ∧ b'.pending = rest := by
  obtain ⟨b', hpull, hrest, -⟩ := Buffered.pull_of_find (fun _ => Rtsp.bufferBytes)
    (Base.Segment.through_stable _) (fun _ _ => by decide) h
  exact ⟨b', by rw [readUntil, hpull], hrest⟩

/-- Nothing is lost by reading. -/
theorem readUntil_append {b : Buffered} {line : Bytes} (h : (readUntil b).1 = .ok line) :
    b.pending = line ++ (readUntil b).2.pending := by
  cases hthrough : Base.Segment.through (· == 10) b.pending with
  | some out =>
      obtain ⟨b', hread, hrest⟩ := readUntil_of_through hthrough
      rw [hread] at h ⊢
      obtain rfl : out.1 = line := Except.ok.inj h
      rw [(Base.Segment.through_eq_some hthrough).1, hrest]
  | none =>
      have hpull := Buffered.pull_of_not_find (fun _ => Rtsp.bufferBytes)
        (Base.Segment.through_stable (· == 10)) (fun _ _ => by decide) hthrough
      have hread : readUntil b =
          match b.tail with
          | some kind => (.error (.io kind), ⟨[], [], b.tail⟩)
          | none => (.ok b.pending, ⟨[], [], b.tail⟩) := by
        rw [readUntil, hpull]
        rfl
      cases htail : b.tail with
      | some kind =>
          rw [hread, htail] at h
          cases h
      | none =>
          rw [hread, htail] at h ⊢
          obtain rfl : b.pending = line := Except.ok.inj h
          rw [Buffered.pending_of_empty, List.append_nil]

/-- The line that ends a response. -/
def isTerminator (line : Bytes) : Bool := line == [46, 13, 10] || line == [46, 10]

/-- The loop of `read_multiline`, with what it has collected. -/
def multilineLoop (out : Bytes) (b : Buffered) : Result Bytes × Buffered :=
  match _ : (readUntil b).1 with
  | .error e => (.error e, (readUntil b).2)
  | .ok line =>
      if _ : line = [] then (.error .unexpectedEof, (readUntil b).2)
      else if isTerminator line then (.ok out, (readUntil b).2)
      else multilineLoop (out ++ line) (readUntil b).2
termination_by b.pending.length
decreasing_by
  rw [readUntil_append ‹(readUntil b).1 = .ok line›, List.length_append]
  exact Nat.lt_add_of_pos_left (List.length_pos_of_ne_nil ‹_›)

/-- `Session::read_multiline`. -/
def readMultiline (b : Buffered) : Result Bytes × Buffered := multilineLoop [] b

/-- The loop of `un_dot_stuff`, with `at_line_start`. -/
def unDotStuffFrom : Bool → Bytes → Bytes
  | _, [] => []
  | atLineStart, b :: body =>
      if atLineStart && b == 46 then unDotStuffFrom false body
      else b :: unDotStuffFrom (b == 10) body

def unDotStuff (body : Bytes) : Bytes := unDotStuffFrom true body

end Rsurl.Pop3
