/-
# `Rsurl.Socket` — a socket and a buffer in front of it

The peer's bytes reach a socket in segments, and where one ends is not the
client's choice.  A reader with a buffer may hold bytes it has not used; what
is still to come is what it holds and what the socket will give.
-/
import Rsurl.Base.Segments
import Rsurl.Error

namespace Rsurl

/-- The read half of a socket: the segments still to arrive, and what a read finds behind them,
the end of the stream (`none`) or an error. -/
structure Socket where
  segments : List (Base.Segment UInt8)
  tail : Option IoKind
deriving DecidableEq, Repr

/-- A socket and the bytes that have been read from it and not used. -/
structure Buffered where
  held : Bytes
  socket : Socket
deriving DecidableEq, Repr

namespace Buffered

/-- The bytes still to come, wherever they are now. -/
def pending (b : Buffered) : Bytes := b.held ++ Base.Segment.stream b.socket.segments

def tail (b : Buffered) : Option IoKind := b.socket.tail

/-- Read from the socket, `size` bytes at most each time, until `find` finds something in what
is held. -/
def pull {β : Type} (size : Bytes → Nat) (find : Bytes → Option (β × Bytes)) (b : Buffered) :
    Option β × Buffered :=
  let out := Base.Segment.pull size find b.held b.socket.segments
  (out.1, ⟨out.2.1, ⟨out.2.2, b.socket.tail⟩⟩)

section Pull

variable {β : Type} (size : Bytes → Nat) {find : Bytes → Option (β × Bytes)}

theorem pull_of_find (hstable : Base.Segment.Stable find)
    (hsize : ∀ l, find l = none → 0 < size l) {b : Buffered} {x : β} {rest : Bytes}
    (h : find b.pending = some (x, rest)) :
    ∃ b', b.pull size find = (some x, b') ∧ b'.pending = rest ∧ b'.tail = b.tail := by
  obtain ⟨held, segments, hpull, hrest⟩ := Base.Segment.pull_of_find hstable hsize h
  exact ⟨⟨held, segments, b.socket.tail⟩, by rw [pull, hpull], hrest, rfl⟩

theorem pull_of_not_find (hstable : Base.Segment.Stable find)
    (hsize : ∀ l, find l = none → 0 < size l) {b : Buffered} (h : find b.pending = none) :
    b.pull size find = (none, ⟨b.pending, [], b.tail⟩) := by
  rw [pull, Base.Segment.pull_of_not_find hstable hsize h]
  rfl

end Pull

/-- More arrives behind what there is. -/
def extend (b : Buffered) (more : List (Base.Segment UInt8)) : Buffered :=
  { b with socket := { b.socket with segments := b.socket.segments ++ more } }

@[simp] theorem pending_extend (b : Buffered) (more : List (Base.Segment UInt8)) :
    (b.extend more).pending = b.pending ++ Base.Segment.stream more := by
  simp [pending, extend]

@[simp] theorem tail_extend (b : Buffered) (more : List (Base.Segment UInt8)) :
    (b.extend more).tail = b.tail := rfl

theorem pull_extend {β : Type} {size : Bytes → Nat} {find : Bytes → Option (β × Bytes)}
    (hsize : ∀ l, find l = none → 0 < size l) {b : Buffered} (h : find b.pending ≠ none)
    (more : List (Base.Segment UInt8)) :
    (b.extend more).pull size find = ((b.pull size find).1, (b.pull size find).2.extend more) := by
  rw [pull, extend, Base.Segment.pull_extend hsize h]
  rfl

theorem pending_of_empty (held : Bytes) (tail : Option IoKind) :
    pending ⟨held, [], tail⟩ = held := List.append_nil held

end Buffered

/-- What a read at the end of the stream fails with, when it needed more. -/
def endError : Option IoKind → Error
  | some kind => .io kind
  | none => .unexpectedEof

end Rsurl
