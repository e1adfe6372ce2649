/-
# `Rsurl.Ldap.Encoders` — the two copies of the Base64 encoder

`websocket::base64_encode` and its copy in `ldap.rs` walk the input by an index
and read the alphabet at a computed position.  Here that loop is run with every
index checked: none is out of range (`encodeLoop_eq`), the text is the one of
the recursion over groups of three, and the copies agree.
-/
import Rsurl.Http
import Rsurl.Ldap.Ldif

namespace Rsurl.Ldap

open Base.Base64 (decode)

/-! ## The loop -/

/-- `ALPHA[i] as char`, checked. -/
def charAt (alphabet : Text) (i : UInt8) : Option Char := alphabet[i.toNat]?

/-- The characters of up to two bytes left behind the groups. -/
def encodeRest (alphabet : Text) (input : Bytes) (i : Nat) (out : Text) : Option Text := do
  let rem := input.length - i
  if rem = 1 then
    let b0 ← input[i]?
    let c0 ← charAt alphabet (b0 >>> 2)
    let c1 ← charAt alphabet ((b0 &&& 0x03) <<< 4)
    return out ++ [c0, c1, '=', '=']
  else if rem = 2 then
    let b0 ← input[i]?
    let b1 ← input[i + 1]?
    let c0 ← charAt alphabet (b0 >>> 2)
    let c1 ← charAt alphabet (((b0 &&& 0x03) <<< 4) ||| (b1 >>> 4))
    let c2 ← charAt alphabet ((b1 &&& 0x0f) <<< 2)
    return out ++ [c0, c1, c2, '=']
  else return out

/-- The loop from an index on; none is a panic. -/
def encodeLoop (alphabet : Text) (input : Bytes) (i : Nat) (out : Text) : Option Text :=
  if i + 3 ≤ input.length then do
    let b0 ← input[i]?
    let b1 ← input[i + 1]?
    let b2 ← input[i + 2]?
    let c0 ← charAt alphabet (b0 >>> 2)
    let c1 ← charAt alphabet (((b0 &&& 0x03) <<< 4) ||| (b1 >>> 4))
    let c2 ← charAt alphabet (((b1 &&& 0x0f) <<< 2) ||| (b2 >>> 6))
    let c3 ← charAt alphabet (b2 &&& 0x3f)
    encodeLoop alphabet input (i + 3) (out ++ [c0, c1, c2, c3])
  else encodeRest alphabet input i out
termination_by input.length - i

/-- `websocket::base64_encode`, by its loop. -/
def websocketEncode (input : Bytes) : Option Text := encodeLoop Rsurl.base64Alphabet input 0 []

/-- `ldap::base64_encode`, by its loop. -/
def ldapEncode (input : Bytes) : Option Text := encodeLoop Ldap.base64Alphabet input 0 []

/-! ## No index is out of range -/

theorem charAt_eq {i : UInt8} (h : i.toNat < 64) : charAt base64Alphabet i = some (base64Char i) := by
  have hlength : base64Alphabet.length = 64 := by decide
  rw [charAt, base64Char, List.getD_eq_getElem?_getD, List.getElem?_eq_getElem (by omega),
    Option.getD_some]

section

variable (b₀ b₁ b₂ : UInt8)

theorem charAt_high : charAt base64Alphabet (b₀ >>> 2) = some (base64Char (b₀ >>> 2)) := by
  have hlt := b₀.toNat_lt
  exact charAt_eq (by rw [toNat_high]; omega)

theorem charAt_second : charAt base64Alphabet (((b₀ &&& 0x03) <<< 4) ||| (b₁ >>> 4)) =
    some (base64Char (((b₀ &&& 0x03) <<< 4) ||| (b₁ >>> 4))) := by
  have hlt := b₁.toNat_lt
  exact charAt_eq (by rw [toNat_second]; omega)

theorem charAt_third : charAt base64Alphabet (((b₁ &&& 0x0f) <<< 2) ||| (b₂ >>> 6)) =
    some (base64Char (((b₁ &&& 0x0f) <<< 2) ||| (b₂ >>> 6))) := by
  have hlt := b₂.toNat_lt
  exact charAt_eq (by rw [toNat_third]; omega)

theorem charAt_low : charAt base64Alphabet (b₂ &&& 0x3f) = some (base64Char (b₂ &&& 0x3f)) :=
  charAt_eq (by rw [toNat_low]; omega)

theorem charAt_second_alone :
    charAt base64Alphabet ((b₀ &&& 0x03) <<< 4) = some (base64Char ((b₀ &&& 0x03) <<< 4)) :=
  charAt_eq (by rw [toNat_second_alone]; omega)

theorem charAt_third_alone :
    charAt base64Alphabet ((b₁ &&& 0x0f) <<< 2) = some (base64Char ((b₁ &&& 0x0f) <<< 2)) :=
  charAt_eq (by rw [toNat_third_alone]; omega)

end

theorem getElem?_behind (done rest : Bytes) (k : Nat) :
    (done ++ rest)[done.length + k]? = rest[k]? := by
  rw [List.getElem?_append_right (Nat.le_add_right _ _), Nat.add_sub_cancel_left]

theorem length_behind (done rest : Bytes) : (done ++ rest).length - done.length = rest.length := by
  rw [List.length_append, Nat.add_sub_cancel_left]

theorem not_group {done rest : Bytes} (h : rest.length < 3) :
    ¬ done.length + 3 ≤ (done ++ rest).length := by
  rw [List.length_append]
  omega

/-- From an index on the loop adds the text of what is left behind it. -/
theorem encodeLoop_eq (done rest : Bytes) (out : Text) :
    encodeLoop base64Alphabet (done ++ rest) done.length out = some (out ++ base64Encode rest) := by
  fun_induction base64Encode rest generalizing done out with
  | case1 b₀ b₁ b₂ rest ih =>
      have hgroup : done.length + 3 ≤ (done ++ b₀ :: b₁ :: b₂ :: rest).length := by
        rw [List.length_append]
        exact Nat.add_le_add_left (Nat.le_add_left 3 rest.length) _
      have hfirst := getElem?_behind done (b₀ :: b₁ :: b₂ :: rest) 0
      have hnext := fun text => ih (done ++ [b₀, b₁, b₂]) text
      rw [Nat.add_zero] at hfirst
      simp only [List.append_assoc, List.length_append, List.length_cons, List.length_nil,
        List.cons_append, List.nil_append, Nat.zero_add, Nat.reduceAdd] at hnext
      rw [encodeLoop, if_pos hgroup, hfirst, getElem?_behind, getElem?_behind]
      simp only [List.getElem?_cons_zero, List.getElem?_cons_succ, Option.bind_eq_bind,
        Option.bind_some, charAt_high, charAt_second, charAt_third, charAt_low]
      rw [hnext, List.append_assoc]
      rfl
  | case2 b₀ b₁ =>
      have hfirst := getElem?_behind done [b₀, b₁] 0
      rw [Nat.add_zero] at hfirst
      have hfew : [b₀, b₁].length < 3 := Nat.lt_succ_self 2
      rw [encodeLoop, if_neg (not_group hfew), encodeRest, length_behind, hfirst, getElem?_behind]
      simp only [List.getElem?_cons_zero, List.getElem?_cons_succ, Option.bind_eq_bind,
        Option.bind_some, charAt_high, charAt_second, charAt_third_alone]
      rfl
  | case3 b₀ =>
      have hfirst := getElem?_behind done [b₀] 0
      rw [Nat.add_zero] at hfirst
      have hfew : [b₀].length < 3 := Nat.le_add_left 2 1
      rw [encodeLoop, if_neg (not_group hfew), encodeRest, length_behind, hfirst]
      simp only [List.getElem?_cons_zero, Option.bind_eq_bind, Option.bind_some, charAt_high,
        charAt_second_alone]
      rfl
  | case4 =>
      have hfew : ([] : Bytes).length < 3 := by decide
      rw [encodeLoop, if_neg (not_group hfew), encodeRest, length_behind]
      exact congrArg some (List.append_nil out).symm

theorem encode_eq (input : Bytes) :
    encodeLoop base64Alphabet input 0 [] = some (base64Encode input) :=
  encodeLoop_eq [] input []

/-! ## The two copies -/

theorem base64Encode_copy (input : Bytes) : Rsurl.base64Encode input = base64Encode input := by
  have hchar : ∀ i, Rsurl.base64Char i = base64Char i := fun _ => rfl
  fun_induction base64Encode input with
  | case1 b₀ b₁ b₂ rest ih => rw [Rsurl.base64Encode, ih, hchar, hchar, hchar, hchar]
  | case2 b₀ b₁ => rfl
  | case3 b₀ => rfl
  | case4 => rfl

/-- Both loops end without a panic and with one text, which decodes to the input. -/
theorem encoders_exact (input : Bytes) :
    websocketEncode input = some (Rsurl.base64Encode input) ∧
      ldapEncode input = some (Rsurl.base64Encode input) ∧
      decode (Rsurl.base64Encode input) = some input := by
  rw [base64Encode_copy]
  exact ⟨encode_eq input, encode_eq input, decode_base64Encode input⟩

end Rsurl.Ldap
