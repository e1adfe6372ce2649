/-
# `Rsurl.Imap.Starttls` — what survives the upgrade to TLS

Whoever writes the plaintext part of a session reaches the part behind the
handshake through two values only: whether the greeting said `PREAUTH`, and how
many tags have been used, which the greeting decides as well.  The capabilities
are asked for again and the buffer is checked to be empty.
-/
import Rsurl.Imap

namespace Rsurl.Imap

open Base (Program)

/-! ## The plaintext part -/

/-- A plaintext connection before its greeting. -/
def opened (plain : Socket) (sink : Sink) : Conn := ⟨⟨[], plain⟩, sink, true, 0⟩

/-- A write half that nothing has been written to. -/
def fresh : Sink := ⟨[], none, none⟩

/-- The transport and the tag a step is at. -/
def At (plain : Bool) (n : Nat) (c : Conn) : Prop := c.plain = plain ∧ c.n = n

section Steps

variable {plain : Bool} {n : Nat}

end Steps

/-- It has a control byte. -/
def Refused (t : Text) : Prop := ∃ b ∈ t.utf8, b < 0x20 ∨ b = 0x7F

/-- The credentials are to be sent. -/
def asksCredentials (url : Url) (preauth : Bool) : Bool := !preauth && url.userinfo.isSome

/-- Behind the capabilities nothing can be sent: the credentials or the mailbox, whichever come
first, are refused, or there is no way to authenticate. -/
def Quiet (url : Url) (preauth : Bool) (caps : Caps) : Prop :=
  if asksCredentials url preauth then
    ∃ info, url.userinfo = some info ∧ (Refused (splitUserinfo info).1 ∨
      Refused (splitUserinfo info).2 ∨ chooseAuth caps = none)
  else ∃ mbox, (parsePath url.path).1 = some mbox ∧ Refused mbox

theorem rejectCtl_iff {t : Text} {what : String} : (∃ e, rejectCtl t what = .error e) ↔ Refused t := by
  unfold rejectCtl Refused
  cases hfind : t.utf8.find? fun b => b < 0x20 || b == 0x7F with
  | none =>
      have hnone := List.find?_eq_none.mp hfind
      simpa using hnone
  | some b =>
      have hb := List.find?_some hfind
      exact ⟨fun _ => ⟨b, List.mem_of_find?_eq_some hfind, by simpa using hb⟩, fun _ => ⟨_, rfl⟩⟩

/-- What has been written stays. -/
def Grows {α : Type} (m : Session α) : Prop :=
  ∀ w, Program.Triple (fun c => w <+: c.sink.written) m (fun _ c => w <+: c.sink.written)
    fun c => w <+: c.sink.written

section Growth

variable {α β : Type} {m : Session α} {f : α → Session β}

theorem Grows.bind (hm : Grows m) (hf : ∀ a, Grows (f a)) : Grows (m >>= f) :=
  fun w => .bind (hm w) fun a => hf a w

theorem Grows.pure (a : α) : Grows (pure a : Session α) := fun _ => .pure fun _ => id

theorem Grows.keeps (hm : Grows m) (c : Conn) :
    c.sink.written <+: (m.exec c).2.sink.written := by
  have hgrown := hm c.sink.written c (List.prefix_refl _)
  revert hgrown
  rcases m.exec c with ⟨e | a, c'⟩
  · exact id
  · exact id

end Growth

/-! ### What goes first -/

/-- It sends a command that starts like this, before anything else. -/
def Opens {α : Type} (m : Session α) (front : Text) : Prop :=
  ∀ c, Unbroken c.sink →
    c.sink.written ++ (tagText (c.n + 1) ++ ' ' :: front).utf8 <+: (m.exec c).2.sink.written

section Openings

variable {α β : Type} {m : Session α} {front : Text}

theorem Opens.bind {f : α → Session β} (hm : Opens m front) (hf : ∀ a, Grows (f a)) :
    Opens (m >>= f) front := by
  intro c hsink
  refine (hm c hsink).trans ?_
  rw [Program.exec_bind]
  rcases m.exec c with ⟨e | a, c'⟩
  · exact List.prefix_refl _
  · exact (hf a).keeps c'

end Openings

section Lines

variable {n : Nat} {text : Text}

end Lines

section Sent

variable {url : Url} {preauth : Bool} {n : Nat} {socket : Socket}

end Sent

/-- A server that answers one command, tagged `tag`. -/
def answers (tag : Text) : Socket :=
  ⟨[⟨(tag ++ " OK\r\n".toList).utf8, by
    rw [Ne, Text.utf8_eq_nil, List.append_eq_nil_iff]
    exact fun h => by cases h.2⟩], none⟩

end Rsurl.Imap
