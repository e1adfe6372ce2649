/-
# `Rsurl.Error` — the crate-wide error type

`Error` has the source's constructors.  A formatted message is kept as the
list of pieces `format!` was given (`Msg`): literal text, a displayed string,
a `{:?}`-quoted string, a number.  Nothing is lost by that, and the one test
the client makes on a message, `starts_with` of a literal, reads the leading
literal piece.
-/
import Mathlib.Data.Int.Basic
import Rsurl.Text

namespace Rsurl

/-- One argument of a `format!`. -/
inductive Piece where
  | str (s : String)
  | display (t : Text)
  | debug (t : Text)
  | num (n : Int)
  | hex (n : Nat)
deriving DecidableEq, Repr

/-- A message, as the pieces it is formatted from. -/
abbrev Msg := List Piece

/-- `io::ErrorKind`: the kinds the client tells apart or produces. -/
inductive IoKind where
  | notFound
  | unexpectedEof
  | connectionReset
  | connectionAborted
  | brokenPipe
  | notConnected
  | timedOut
  | wouldBlock
  | invalidData
  | invalidInput
  | other
deriving DecidableEq, Repr

/-- `crate::error::Error`. -/
inductive Error where
  | invalidUrl (m : Msg)
  | unsupportedScheme (m : Msg)
  | io (kind : IoKind)
  | badResponse (m : Msg)
  | unexpectedEof
  | h2NotNegotiated
  | ssh (m : Msg)
deriving DecidableEq, Repr

/-- A message that is one string. -/
def Msg.ofText (t : Text) : Msg := [.display t]

/-- `crate::error::Result`. -/
abbrev Result (α : Type) := Except Error α

/-- A step that went well goes on. -/
theorem Result.ok_bind {α β : Type} (a : α) (f : α → Result β) :
    ((.ok a : Result α) >>= f) = f a := rfl

theorem Result.bind_eq_ok {α β : Type} {x : Result α} {f : α → Result β} {b : β} :
    (x >>= f) = .ok b ↔ ∃ a, x = .ok a ∧ f a = .ok b := by
  cases x with
  | error e => simp [bind, Except.bind]
  | ok a => simp [bind, Except.bind]

/-- A guard before a computation. -/
theorem Result.guard_eq_ok {β : Type} {x : Result Unit} {f : Unit → Result β} {b : β} :
    (x >>= f) = .ok b ↔ x = .ok () ∧ f () = .ok b := by
  rw [Result.bind_eq_ok]
  exact ⟨fun ⟨(), hx, hf⟩ => ⟨hx, hf⟩, fun ⟨hx, hf⟩ => ⟨(), hx, hf⟩⟩

theorem Result.map_eq_ok {α β : Type} {f : α → β} {x : Result α} {b : β} (h : x.map f = .ok b) :
    ∃ a, x = .ok a ∧ f a = b := by
  cases x with
  | error e => cases h
  | ok a => exact ⟨a, rfl, Except.ok.inj h⟩

end Rsurl
