/-
# `Rsurl.Message` — what a response is made of

The message grammar that HTTP/2 and HTTP/3 share, over what a stream carries up
to its end: header sections, pieces of content, and frames that say nothing.
A message is any number of interim responses, the head of the response, its
content, and at most one section of trailers.
-/
import Rsurl.Http

namespace Rsurl.Message

open Http (Header)

/-- What a frame brings to a stream. -/
inductive Event where
  | headers (fields : List Header)
  | data (payload : Bytes)
  | other
deriving DecidableEq

/-- A status and the fields that come with it. -/
structure Head where
  status : UInt16
  headers : List Header
deriving DecidableEq

/-- `1xx`. -/
def Head.Interim (h : Head) : Prop := 100 ≤ h.status ∧ h.status < 200

instance (h : Head) : Decidable h.Interim := inferInstanceAs (Decidable (_ ∧ _))

/-- A field that is no pseudo-header. -/
def Regular (f : Header) : Prop := f.1.head? ≠ some ':'

instance (f : Header) : Decidable (Regular f) := inferInstanceAs (Decidable (_ ≠ _))

/-- A header section that is a head: `:status`, then regular fields. -/
inductive IsHead : List Header → Head → Prop
  | intro {v : Text} {status : UInt16} {hdrs : List Header} (hstatus : parseU16 v = some status)
      (hregular : ∀ f ∈ hdrs, Regular f) : IsHead ((":status".toList, v) :: hdrs) ⟨status, hdrs⟩

/-- What follows the head: content, and trailers at its end. -/
inductive Content : List Event → Bytes → Prop
  | nil : Content [] []
  | data {payload body : Bytes} {rest : List Event} (hrest : Content rest body) :
      Content (.data payload :: rest) (payload ++ body)
  | other {body : Bytes} {rest : List Event} (hrest : Content rest body) :
      Content (.other :: rest) body
  | trailers {fields : List Header} {rest : List Event} (hfields : ∀ f ∈ fields, Regular f)
      (hrest : ∀ e ∈ rest, e = .other) : Content (.headers fields :: rest) []

/-- A message: its interim heads, its head and its content. -/
inductive Legal : List Event → List Head → Head → Bytes → Prop
  | final {fields : List Header} {head : Head} {body : Bytes} {rest : List Event}
      (hhead : IsHead fields head) (hfinal : ¬head.Interim) (hrest : Content rest body) :
      Legal (.headers fields :: rest) [] head body
  | interim {fields : List Header} {first head : Head} {heads : List Head} {body : Bytes}
      {rest : List Event} (hfirst : IsHead fields first) (hinterim : first.Interim)
      (hrest : Legal rest heads head body) :
      Legal (.headers fields :: rest) (first :: heads) head body
  | other {heads : List Head} {head : Head} {body : Bytes} {rest : List Event}
      (hrest : Legal rest heads head body) : Legal (.other :: rest) heads head body

/-! ## What there is of a kind -/

/-- The header section that an event is. -/
def Event.section? : Event → Option (List Header)
  | .headers fields => some fields
  | _ => none

/-- The content that an event brings. -/
def Event.payload : Event → Bytes
  | .data payload => payload
  | _ => []

/-- The header sections. -/
def sections (events : List Event) : List (List Header) := events.filterMap Event.section?

/-- All content. -/
def content (events : List Event) : Bytes := events.flatMap Event.payload

@[simp] theorem content_headers (fields : List Header) (events : List Event) :
    content (.headers fields :: events) = content events := rfl

@[simp] theorem content_data (payload : Bytes) (events : List Event) :
    content (.data payload :: events) = payload ++ content events := rfl

@[simp] theorem content_other (events : List Event) :
    content (.other :: events) = content events := rfl

theorem content_of_others {events : List Event} (h : ∀ e ∈ events, e = .other) :
    content events = [] := by
  induction events with
  | nil => rfl
  | cons e events ih =>
      rw [h e List.mem_cons_self, content_other]
      exact ih fun e he => h e (List.mem_cons_of_mem _ he)

theorem Content.content_eq {events : List Event} {body : Bytes} (h : Content events body) :
    content events = body := by
  induction h with
  | nil => rfl
  | data _ ih => rw [content_data, ih]
  | other _ ih => rw [content_other, ih]
  | trailers _ hrest => rw [content_headers, content_of_others hrest]

theorem Legal.content_eq {events : List Event} {heads : List Head} {head : Head} {body : Bytes}
    (h : Legal events heads head body) : content events = body := by
  induction h with
  | final _ _ hrest => rw [content_headers, hrest.content_eq]
  | interim _ _ _ ih => rw [content_headers, ih]
  | other _ ih => rw [content_other, ih]

/-- The first section of a message is its first head. -/
theorem Legal.first {events : List Event} {heads : List Head} {head : Head} {body : Bytes}
    (h : Legal events heads head body) :
    ∃ fields, (sections events).head? = some fields ∧ IsHead fields (heads.head?.getD head) := by
  induction h with
  | @final fields _ _ _ hhead => exact ⟨fields, rfl, hhead⟩
  | @interim fields _ _ _ _ _ hfirst => exact ⟨fields, rfl, hfirst⟩
  | other _ ih => exact ih

end Rsurl.Message
