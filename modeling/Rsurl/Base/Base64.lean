/-
# `Rsurl.Base.Base64` — reading Base64

The standard alphabet and the strict, padded decoding of RFC 4648, on the
values of sextets.
-/
import Mathlib.Data.List.Basic

namespace Rsurl.Base.Base64

/-- The value of a character of the alphabet. -/
def sextet (c : Char) : Option Nat :=
  if 'A' ≤ c ∧ c ≤ 'Z' then some (c.toNat - 'A'.toNat)
  else if 'a' ≤ c ∧ c ≤ 'z' then some (c.toNat - 'a'.toNat + 26)
  else if '0' ≤ c ∧ c ≤ '9' then some (c.toNat - '0'.toNat + 52)
  else if c = '+' then some 62
  else if c = '/' then some 63
  else none

theorem sextet_pad : sextet '=' = none := by decide

/-- The bytes of a text in groups of four; padding is only at the end, over bits that are 0. -/
def decode : List Char → Option (List UInt8)
  | [] => some []
  | c₀ :: c₁ :: c₂ :: c₃ :: rest => do
      let a ← sextet c₀
      let b ← sextet c₁
      let first := UInt8.ofNat (a * 4 + b / 16)
      if c₃ = '=' then
        if rest ≠ [] then none
        else if c₂ = '=' then if b % 16 = 0 then some [first] else none
        else do
          let c ← sextet c₂
          if c % 4 = 0 then some [first, UInt8.ofNat (b % 16 * 16 + c / 4)] else none
      else do
        let c ← sextet c₂
        let d ← sextet c₃
        let others ← decode rest
        some (first :: UInt8.ofNat (b % 16 * 16 + c / 4) :: UInt8.ofNat (c % 4 * 64 + d) :: others)
  | _ => none

/-- A full group in front. -/
theorem decode_group {c₀ c₁ c₂ c₃ : Char} {a b c d : Nat} {rest : List Char} {others : List UInt8}
    (h₀ : sextet c₀ = some a) (h₁ : sextet c₁ = some b) (h₂ : sextet c₂ = some c)
    (h₃ : sextet c₃ = some d) (hrest : decode rest = some others) :
    decode (c₀ :: c₁ :: c₂ :: c₃ :: rest) = some (UInt8.ofNat (a * 4 + b / 16) ::
      UInt8.ofNat (b % 16 * 16 + c / 4) :: UInt8.ofNat (c % 4 * 64 + d) :: others) := by
  have hpad : c₃ ≠ '=' := by
    rintro rfl
    rw [sextet_pad] at h₃
    cases h₃
  simp [decode, h₀, h₁, h₂, h₃, hpad, hrest]

/-- Two bytes at the end. -/
theorem decode_two {c₀ c₁ c₂ : Char} {a b c : Nat} (h₀ : sextet c₀ = some a)
    (h₁ : sextet c₁ = some b) (h₂ : sextet c₂ = some c) (hzero : c % 4 = 0) :
    decode [c₀, c₁, c₂, '='] =
      some [UInt8.ofNat (a * 4 + b / 16), UInt8.ofNat (b % 16 * 16 + c / 4)] := by
  have hpad : c₂ ≠ '=' := by
    rintro rfl
    rw [sextet_pad] at h₂
    cases h₂
  simp [decode, h₀, h₁, h₂, hpad, hzero]

/-- One byte at the end. -/
theorem decode_one {c₀ c₁ : Char} {a b : Nat} (h₀ : sextet c₀ = some a) (h₁ : sextet c₁ = some b)
    (hzero : b % 16 = 0) : decode [c₀, c₁, '=', '='] = some [UInt8.ofNat (a * 4 + b / 16)] := by
  simp [decode, h₀, h₁, hzero]

end Rsurl.Base.Base64
