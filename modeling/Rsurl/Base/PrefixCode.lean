/-
# `Rsurl.Base.PrefixCode` — codes no word of which starts another

A prefix code over an alphabet, and the two facts greedy decoding rests on:
the word a string starts with is unique, and a string that is cut short inside
a word starts with no word at all.
-/
import Mathlib.Data.List.Infix

namespace Rsurl.Base

/-- A code whose words are not prefixes of one another. -/
structure PrefixCode (σ α : Type*) where
  word : σ → List α
  prefix_free : ∀ s t, word s <+: word t → s = t

namespace PrefixCode

variable {σ α : Type*} (c : PrefixCode σ α)

/-- A string starts with at most one word. -/
theorem unique {l : List α} {s t : σ} (hs : c.word s <+: l) (ht : c.word t <+: l) : s = t := by
  rcases List.prefix_or_prefix_of_prefix hs ht with h | h
  · exact c.prefix_free s t h
  · exact (c.prefix_free t s h).symm

/-- A string strictly inside a word starts with no word. -/
theorem not_prefix_of_cut {l : List α} {s : σ} (hl : l <+: c.word s)
    (hlen : l.length < (c.word s).length) (t : σ) : ¬ c.word t <+: l := by
  intro ht
  obtain rfl := c.prefix_free t s (ht.trans hl)
  exact absurd ht.length_le (Nat.not_le_of_lt hlen)

/-- The concatenated words of a message. -/
def encode (msg : List σ) : List α := msg.flatMap c.word

@[simp] theorem encode_nil : c.encode [] = [] := rfl

@[simp] theorem encode_cons (s : σ) (msg : List σ) :
    c.encode (s :: msg) = c.word s ++ c.encode msg := List.flatMap_cons

/-- When a string starts with a word and continues a message followed by a cut-off
word, the message starts with that symbol. -/
theorem head_of_encode {msg : List σ} {tail rest : List α} {s eos : σ}
    (htail : tail <+: c.word eos) (hlen : tail.length < (c.word eos).length)
    (h : c.word s ++ rest = c.encode msg ++ tail) :
    ∃ msg', msg = s :: msg' ∧ rest = c.encode msg' ++ tail := by
  cases msg with
  | nil =>
      rw [encode_nil, List.nil_append] at h
      exact absurd ⟨rest, h⟩ (c.not_prefix_of_cut htail hlen s)
  | cons t msg =>
      rw [encode_cons, List.append_assoc] at h
      obtain rfl : s = t := c.unique ⟨rest, h⟩ ⟨c.encode msg ++ tail, rfl⟩
      exact ⟨msg, rfl, List.append_cancel_left h⟩

end PrefixCode
end Rsurl.Base
