/-
# `Rsurl.Net` — the two halves of a connection

What the transport gives and takes.  The read half is the bytes the peer will
have sent and what a read finds behind them; the write half is what it has
taken and when it fails.  A result that is an error keeps the state it was
reached in, as the `&mut` arguments of the source do.
-/
import Rsurl.Error

namespace Rsurl

/-! ## Reading -/

/-- The read half of a connection: the bytes still to come, and what a read finds behind them,
the end of the stream (`none`) or an error. -/
structure Source where
  bytes : Bytes
  tail : Option IoKind
deriving DecidableEq, Repr

/-- `Read::read_exact`: too few bytes are consumed all the same. -/
def Source.readExact (s : Source) (n : Nat) : Except IoKind Bytes × Source :=
  if n ≤ s.bytes.length then (.ok (s.bytes.take n), { s with bytes := s.bytes.drop n })
  else (.error (s.tail.getD .unexpectedEof), { s with bytes := [] })

theorem Source.readExact_append {a b : Bytes} (tail : Option IoKind) :
    Source.readExact ⟨a ++ b, tail⟩ a.length = (.ok a, ⟨b, tail⟩) := by
  have hle : a.length ≤ (a ++ b).length := by
    rw [List.length_append]
    exact Nat.le_add_right _ _
  simp only [Source.readExact, if_pos hle, List.take_left, List.drop_left]

/-! ## Writing -/

/-- The write half of a connection: what it has taken, how many more bytes it takes
before it fails, and whether it fails to flush. -/
structure Sink where
  written : Bytes
  fault : Option (Nat × IoKind)
  flushFault : Option IoKind
deriving DecidableEq, Repr

/-- `Write::write_all`. -/
def Sink.writeAll (w : Sink) (bs : Bytes) : Result Unit × Sink :=
  match w.fault with
  | none => (.ok (), { w with written := w.written ++ bs })
  | some (room, kind) =>
      if bs.length ≤ room then
        (.ok (), { w with written := w.written ++ bs, fault := some (room - bs.length, kind) })
      else
        (.error (.io kind),
          { w with written := w.written ++ bs.take room, fault := some (0, kind) })

/-- `Write::flush`. -/
def Sink.flush (w : Sink) : Result Unit × Sink :=
  match w.flushFault with
  | some kind => (.error (.io kind), w)
  | none => (.ok (), w)

/-- `?` between two writes. -/
def Sink.andThen (out : Result Unit × Sink) (next : Sink → Result Unit × Sink) :
    Result Unit × Sink :=
  match out with
  | (.error e, w) => (.error e, w)
  | (.ok (), w) => next w

/-- A sink that was to take `bs` took all of it, or failed having taken some. -/
def Takes (w : Sink) (bs : Bytes) (out : Result Unit × Sink) : Prop :=
  (out.1 = .ok () ∧ out.2.written = w.written ++ bs) ∨
    ∃ kind sent, out.1 = .error (.io kind) ∧ sent <+: bs ∧
      out.2.written = w.written ++ sent

theorem takes_nil (w : Sink) : Takes w [] (.ok (), w) := .inl ⟨rfl, by simp⟩

theorem takes_writeAll (w : Sink) (bs : Bytes) : Takes w bs (w.writeAll bs) := by
  unfold Sink.writeAll
  split
  · exact .inl ⟨rfl, rfl⟩
  · next room kind _ =>
      split
      · exact .inl ⟨rfl, rfl⟩
      · exact .inr ⟨kind, bs.take room, rfl, List.take_prefix _ _, rfl⟩

theorem takes_flush (w : Sink) : Takes w [] w.flush := by
  unfold Sink.flush
  split
  · next kind _ => exact .inr ⟨kind, [], rfl, List.nil_prefix, by simp⟩
  · exact takes_nil w

/-- Writing one thing and then another takes both or breaks off inside them. -/
theorem Takes.andThen {w : Sink} {a b : Bytes} {out : Result Unit × Sink}
    {next : Sink → Result Unit × Sink} (ha : Takes w a out)
    (hb : ∀ w', Takes w' b (next w')) : Takes w (a ++ b) (Sink.andThen out next) := by
  obtain ⟨res, w₁⟩ := out
  rcases ha with ⟨hres, hw⟩ | ⟨kind, sent, hres, hsent, hw⟩
  · obtain rfl : res = .ok () := hres
    simp only at hw
    rcases hb w₁ with ⟨hres', hw'⟩ | ⟨kind, sent, hres', hsent, hw'⟩
    · exact .inl ⟨hres', by rw [Sink.andThen, hw', hw, List.append_assoc]⟩
    · refine .inr ⟨kind, a ++ sent, hres', (List.prefix_append_right_inj a).mpr hsent, ?_⟩
      rw [Sink.andThen, hw', hw, List.append_assoc]
  · obtain rfl : res = .error (.io kind) := hres
    exact .inr ⟨kind, sent, rfl, hsent.trans (List.prefix_append _ _), hw⟩

end Rsurl
