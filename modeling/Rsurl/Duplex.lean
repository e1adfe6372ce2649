/-
# `Rsurl.Duplex` — a connection that is written to and read from

What a text or message protocol runs over: a reader of some kind and the write
half.  A message is written piece by piece and flushed; an answer is read by a
function of the reader.  Writing leaves the reader alone, and reading the write
half.
-/
import Rsurl.Base.Dialogue
import Rsurl.Net

namespace Rsurl

open Base (Abides Completes Move Program)
open Base.Program (Follows Performs Silent)

/-! ## Writing a message -/

/-- `write_all` of one piece after another, then `flush`. -/
def Sink.writePieces : List Bytes → Sink → Result Unit × Sink
  | [], w => w.flush
  | p :: ps, w => Sink.andThen (w.writeAll p) (Sink.writePieces ps)

/-- It takes everything. -/
structure Sink.Healthy (w : Sink) : Prop where
  fault : w.fault = none
  flushFault : w.flushFault = none

/-- The same write half, with more written. -/
def Sink.wrote (w : Sink) (bs : Bytes) : Sink := { w with written := w.written ++ bs }

theorem Sink.Healthy.wrote {w : Sink} (h : w.Healthy) (bs : Bytes) : (w.wrote bs).Healthy :=
  ⟨h.fault, h.flushFault⟩

theorem Sink.Healthy.writeAll {w : Sink} (h : w.Healthy) (bs : Bytes) :
    w.writeAll bs = (.ok (), w.wrote bs) := by
  obtain ⟨written, fault, flushFault⟩ := w
  obtain rfl : fault = none := h.fault
  rfl

theorem Sink.Healthy.flush {w : Sink} (h : w.Healthy) : w.flush = (.ok (), w) := by
  unfold Sink.flush
  rw [h.flushFault]

theorem takes_writePieces (ps : List Bytes) (w : Sink) :
    Takes w ps.flatten (Sink.writePieces ps w) := by
  induction ps generalizing w with
  | nil => exact takes_flush w
  | cons p ps ih => exact (takes_writeAll w p).andThen fun w' => ih w'

theorem Sink.Healthy.writePieces {w : Sink} (h : w.Healthy) (ps : List Bytes) :
    Sink.writePieces ps w = (.ok (), w.wrote ps.flatten) := by
  induction ps generalizing w with
  | nil =>
      show w.flush = _
      rw [h.flush, List.flatten_nil, Sink.wrote, List.append_nil]
  | cons p ps ih =>
      rw [Sink.writePieces, h.writeAll, Sink.andThen, ih (h.wrote p), List.flatten_cons, Sink.wrote,
        Sink.wrote, Sink.wrote, List.append_assoc]

/-! ## Both halves -/

/-- A reader and the write half. -/
structure Duplex (ρ : Type) where
  input : ρ
  sink : Sink
deriving DecidableEq, Repr

namespace Duplex

variable {ρ α : Type}

/-- All that has been written. -/
def written (d : Duplex ρ) : Bytes := d.sink.written

/-- Write a message. -/
def transmit (pieces : List Bytes) : Program (Duplex ρ) Error Unit := fun d =>
  let out := Sink.writePieces pieces d.sink
  (out.1, { d with sink := out.2 })

/-- `write_all` alone. -/
def writeAll (bytes : Bytes) : Program (Duplex ρ) Error Unit := fun d =>
  let out := d.sink.writeAll bytes
  (out.1, { d with sink := out.2 })

/-- `flush` alone. -/
def flush : Program (Duplex ρ) Error Unit := fun d =>
  let out := d.sink.flush
  (out.1, { d with sink := out.2 })

/-- Read with a function of the reader. -/
def receive (read : ρ → Result α × ρ) : Program (Duplex ρ) Error α := fun d =>
  let out := read d.input
  (out.1, { d with input := out.2 })

/-- A step whose result is dropped. -/
def ignore (m : Program (Duplex ρ) Error α) : Program (Duplex ρ) Error Unit := do
  let _ ← m.attempt

/-- More has been written. -/
def wrote (d : Duplex ρ) (bs : Bytes) : Duplex ρ := { d with sink := d.sink.wrote bs }

theorem exec_transmit {d : Duplex ρ} (h : d.sink.Healthy) (pieces : List Bytes) :
    (transmit pieces).exec d = (.ok (), d.wrote pieces.flatten) := by
  show ((Sink.writePieces pieces d.sink).1, _) = _
  rw [h.writePieces]
  rfl

theorem exec_receive (read : ρ → Result α × ρ) (d : Duplex ρ) :
    (receive read).exec d = ((read d.input).1, { d with input := (read d.input).2 }) := rfl

/-- What is dropped does not stop anything. -/
theorem exec_ignore (m : Program (Duplex ρ) Error α) (d : Duplex ρ) :
    (ignore m).exec d = (.ok (), (m.exec d).2) := rfl

/-! ## What is written -/

variable {δ : Type} {inp : ρ → List δ} {script : List (Move UInt8 δ)}

theorem performs_of_takes {bs : Bytes} {m : Program (Duplex ρ) Error Unit}
    (htakes : ∀ d : Duplex ρ, Takes d.sink bs ((m.exec d).1, (m.exec d).2.sink))
    (hinput : ∀ d : Duplex ρ, (m.exec d).2.input = d.input) :
    Performs written (fun d => inp d.input) m [.put bs] := by
  intro d
  have hd := htakes d
  have hsame := hinput d
  revert hd hsame
  rcases m.exec d with ⟨e | a, d'⟩
  · rintro (⟨hres, -⟩ | ⟨kind, sent, -, hsent, hwritten⟩) -
    · cases hres
    · exact ⟨sent, hwritten, .part hsent⟩
  · rintro (⟨-, hwritten⟩ | ⟨kind, sent, hres, -⟩) hsame
    · exact ⟨[], bs, hwritten, congrArg inp hsame.symm, .one_put bs⟩
    · cases hres

theorem performs_transmit (pieces : List Bytes) :
    Performs written (fun d : Duplex ρ => inp d.input) (transmit pieces) [.put pieces.flatten] :=
  performs_of_takes (fun d => takes_writePieces pieces d.sink) fun _ => rfl

theorem performs_writeAll (bs : Bytes) :
    Performs written (fun d : Duplex ρ => inp d.input) (writeAll bs) [.put bs] :=
  performs_of_takes (fun d => takes_writeAll d.sink bs) fun _ => rfl

theorem silent_flush : Silent written (flush : Program (Duplex ρ) Error Unit) := by
  intro d
  show d.sink.flush.2.written = d.sink.written
  unfold Sink.flush
  split <;> rfl

theorem silent_receive (read : ρ → Result α × ρ) :
    Silent written (receive read : Program (Duplex ρ) Error α) := fun _ => rfl

theorem silent_ignore {m : Program (Duplex ρ) Error α} (h : Silent written m) :
    Silent written (ignore m) := h.attempt.bind fun _ => .pure ()

theorem follows_ignore {m : Program (Duplex ρ) Error α}
    (h : Follows written (fun d => inp d.input) m script) :
    Follows written (fun d => inp d.input) (ignore m) script := h.attempt.last fun _ => .pure ()

end Duplex
end Rsurl
