/-
# `Rsurl.Base.Bits` — numbers as bit strings

The `len` low bits of a number, most significant first, and the number a bit
string writes.  Cutting a bit string is shifting and masking the number.
-/
import Mathlib.Data.Nat.Bitwise
import Mathlib.Data.List.Flatten
import Mathlib.Tactic.Ring

namespace Rsurl.Base

/-- The low `len` bits of `n`, most significant first. -/
def bitsOfNat : Nat → Nat → List Bool
  | 0, _ => []
  | len + 1, n => n.testBit len :: bitsOfNat len n

/-- The number a bit string writes. -/
def natOfBits : List Bool → Nat
  | [] => 0
  | b :: l => b.toNat * 2 ^ l.length + natOfBits l

@[simp] theorem length_bitsOfNat (len n : Nat) : (bitsOfNat len n).length = len := by
  induction len with
  | zero => rfl
  | succ len ih => simp [bitsOfNat, ih]

theorem natOfBits_lt (l : List Bool) : natOfBits l < 2 ^ l.length := by
  induction l with
  | nil => simp [natOfBits]
  | cons b l ih =>
      have hb : b.toNat ≤ 1 := Bool.toNat_le b
      have hmul : b.toNat * 2 ^ l.length ≤ 1 * 2 ^ l.length := Nat.mul_le_mul_right _ hb
      simp only [natOfBits, List.length_cons, Nat.pow_succ]
      omega

/-- Writing the low bits of a number and reading them back masks it. -/
theorem natOfBits_bitsOfNat (len n : Nat) : natOfBits (bitsOfNat len n) = n % 2 ^ len := by
  induction len with
  | zero => simp [bitsOfNat, natOfBits, Nat.mod_one]
  | succ len ih =>
      simp only [bitsOfNat, natOfBits, length_bitsOfNat, ih]
      rw [Nat.mod_pow_succ, Nat.toNat_testBit, Nat.add_comm, Nat.mul_comm]

/-- Only the low bits count. -/
theorem bitsOfNat_congr {len m n : Nat} (h : ∀ i < len, m.testBit i = n.testBit i) :
    bitsOfNat len m = bitsOfNat len n := by
  induction len with
  | zero => rfl
  | succ len ih =>
      rw [bitsOfNat, bitsOfNat, h len (Nat.lt_succ_self len),
        ih fun i hi => h i (Nat.lt_succ_of_lt hi)]

theorem bitsOfNat_mod {len k n : Nat} (h : len ≤ k) :
    bitsOfNat len (n % 2 ^ k) = bitsOfNat len n := by
  apply bitsOfNat_congr
  intro i hi
  simp [Nat.testBit_mod_two_pow, Nat.lt_of_lt_of_le hi h]

/-- The high bits are the shifted number's. -/
theorem bitsOfNat_add (a b n : Nat) :
    bitsOfNat (a + b) n = bitsOfNat a (n >>> b) ++ bitsOfNat b n := by
  induction a with
  | zero => simp [bitsOfNat]
  | succ a ih =>
      rw [Nat.add_right_comm, bitsOfNat, ih, bitsOfNat, Nat.testBit_shiftRight,
        Nat.add_comm b a, List.cons_append]

theorem take_bitsOfNat {a len : Nat} (n : Nat) (h : a ≤ len) :
    (bitsOfNat len n).take a = bitsOfNat a (n >>> (len - a)) := by
  obtain ⟨b, rfl⟩ := Nat.exists_eq_add_of_le h
  rw [bitsOfNat_add, Nat.add_sub_cancel_left]
  exact List.take_left' (length_bitsOfNat _ _)

theorem drop_bitsOfNat {a len : Nat} (n : Nat) (h : a ≤ len) :
    (bitsOfNat len n).drop a = bitsOfNat (len - a) n := by
  obtain ⟨b, rfl⟩ := Nat.exists_eq_add_of_le h
  rw [bitsOfNat_add, Nat.add_sub_cancel_left]
  exact List.drop_left' (length_bitsOfNat _ _)

/-- A bit string is the low bits of the number it writes. -/
theorem bitsOfNat_natOfBits (l : List Bool) : bitsOfNat l.length (natOfBits l) = l := by
  induction l with
  | nil => rfl
  | cons b l ih =>
      have hlt := natOfBits_lt l
      have hhead : (natOfBits (b :: l)).testBit l.length = b := by
        rw [natOfBits, Nat.mul_comm]
        cases b with
        | false => simpa using Nat.testBit_lt_two_pow hlt
        | true =>
            simp only [Bool.toNat_true, Nat.mul_one]
            rw [Nat.testBit_two_pow_add_eq, Nat.testBit_lt_two_pow hlt]
            rfl
      have htail : bitsOfNat l.length (natOfBits (b :: l)) = bitsOfNat l.length (natOfBits l) := by
        rw [← bitsOfNat_mod (n := natOfBits (b :: l)) (Nat.le_refl l.length), natOfBits,
          Nat.mul_add_mod_self_right, Nat.mod_eq_of_lt hlt]
      rw [List.length_cons, bitsOfNat, hhead, htail, ih]

theorem bitsOfNat_zero (len : Nat) : bitsOfNat len 0 = List.replicate len false := by
  induction len with
  | zero => rfl
  | succ len ih => simp [bitsOfNat, ih, List.replicate_succ]

/-- The number with all `len` bits set. -/
theorem bitsOfNat_mask (len : Nat) :
    bitsOfNat len (2 ^ len - 1) = List.replicate len true := by
  apply List.ext_getElem (by simp)
  intro i hi _
  have hall : ∀ k ≤ len, bitsOfNat k (2 ^ len - 1) = List.replicate k true := by
    intro k hk
    induction k with
    | zero => rfl
    | succ k ih =>
        rw [bitsOfNat, ih (Nat.le_of_succ_le hk), Nat.testBit_two_pow_sub_one,
          decide_eq_true (Nat.lt_of_succ_le hk), List.replicate_succ]
  simp only [hall len (Nat.le_refl len)]

theorem testBit_of_bitsOfNat_eq_zeros {len n i : Nat}
    (h : bitsOfNat len n = List.replicate len false) (hi : i < len) : n.testBit i = false := by
  induction len with
  | zero => omega
  | succ len ih =>
      rw [bitsOfNat, List.replicate_succ] at h
      obtain ⟨hhead, htail⟩ := List.cons.inj h
      rcases Nat.lt_succ_iff_lt_or_eq.mp hi with hi | rfl
      · exact ih htail hi
      · exact hhead

/-- A field of `a` bits is or-ed in above `c` free bits. -/
theorem bitsOfNat_or_shiftLeft {r a c n v : Nat} {p : List Bool} (hp : p.length = r)
    (h : bitsOfNat (r + (a + c)) n = p ++ List.replicate (a + c) false) (hv : v < 2 ^ a) :
    bitsOfNat (r + (a + c)) (n ||| v <<< c) =
      p ++ (bitsOfNat a v ++ List.replicate c false) := by
  rw [bitsOfNat_add] at h
  obtain ⟨hhigh, hfree⟩ := List.append_inj h (by rw [length_bitsOfNat, hp])
  rw [bitsOfNat_add, bitsOfNat_add a c, ← hhigh, ← bitsOfNat_zero c]
  congr 1
  · apply bitsOfNat_congr
    intro i _
    have hout : v.testBit (a + c + i - c) = false :=
      Nat.testBit_lt_two_pow
        (Nat.lt_of_lt_of_le hv (Nat.pow_le_pow_right (Nat.le_succ 1) (by omega)))
    simp [hout]
  congr 1
  · apply bitsOfNat_congr
    intro i hi
    have hzero : n.testBit (c + i) = false := testBit_of_bitsOfNat_eq_zeros hfree (by omega)
    simp [hzero]
  · apply bitsOfNat_congr
    intro i hi
    have hzero : n.testBit i = false := testBit_of_bitsOfNat_eq_zeros hfree (by omega)
    have hlow : ¬ c ≤ i := Nat.not_le_of_lt hi
    simp [hzero, hlow]

/-! ## Bytes -/

/-- The bits of some bytes, most significant first. -/
def bitsOf (bytes : List UInt8) : List Bool := bytes.flatMap fun b => bitsOfNat 8 b.toNat

@[simp] theorem bitsOf_nil : bitsOf [] = [] := rfl

@[simp] theorem bitsOf_cons (b : UInt8) (bytes : List UInt8) :
    bitsOf (b :: bytes) = bitsOfNat 8 b.toNat ++ bitsOf bytes := List.flatMap_cons

@[simp] theorem bitsOf_append (a b : List UInt8) : bitsOf (a ++ b) = bitsOf a ++ bitsOf b :=
  List.flatMap_append

@[simp] theorem length_bitsOf (bytes : List UInt8) : (bitsOf bytes).length = 8 * bytes.length := by
  induction bytes with
  | nil => rfl
  | cons b bytes ih =>
      rw [bitsOf_cons, List.length_append, length_bitsOfNat, ih, List.length_cons]
      omega

/-- Bytes are their bits. -/
theorem bitsOf_injective {xs ys : List UInt8} (h : bitsOf xs = bitsOf ys) : xs = ys := by
  induction xs generalizing ys with
  | nil =>
      have hlen := congrArg List.length h
      rw [length_bitsOf, length_bitsOf, List.length_nil] at hlen
      exact (List.length_eq_zero_iff.mp (by omega)).symm
  | cons x xs ih =>
      have hlen := congrArg List.length h
      rw [length_bitsOf, length_bitsOf, List.length_cons] at hlen
      obtain ⟨y, ys, rfl⟩ := List.exists_cons_of_length_pos (by omega : 0 < ys.length)
      rw [bitsOf_cons, bitsOf_cons] at h
      obtain ⟨hbyte, hrest⟩ := List.append_inj h (by simp)
      have hnat := congrArg natOfBits hbyte
      rw [natOfBits_bitsOfNat, natOfBits_bitsOfNat, Nat.mod_eq_of_lt x.toNat_lt,
        Nat.mod_eq_of_lt y.toNat_lt, UInt8.toNat_inj] at hnat
      rw [hnat, ih hrest]

theorem bitsOf_replicate_zero (n : Nat) :
    bitsOf (List.replicate n 0) = List.replicate (8 * n) false := by
  induction n with
  | zero => rfl
  | succ n ih =>
      have hzero : bitsOfNat 8 (0 : UInt8).toNat = List.replicate 8 false := bitsOfNat_zero 8
      rw [List.replicate_succ, bitsOf_cons, ih, hzero, List.replicate_append_replicate,
        Nat.mul_succ, Nat.add_comm]

/-- Or-ing a field of `a` bits into a byte string behind the `w` written so far, `c` bits
above the end of the byte. -/
theorem bitsOf_modify_or {out : List UInt8} {w : List Bool} {k a c v : Nat}
    (h : bitsOf out = w ++ List.replicate k false) (hk : 0 < k)
    (hac : w.length % 8 + (a + c) = 8) (hv : v < 2 ^ a) :
    bitsOf (out.modify (w.length / 8) (· ||| UInt8.ofNat (v <<< c))) =
      w ++ (bitsOfNat a v ++ List.replicate (k - a) false) := by
  have hlen := congrArg List.length h
  rw [length_bitsOf, List.length_append, List.length_replicate] at hlen
  have hi : w.length / 8 < out.length := by omega
  generalize hidx : w.length / 8 = i at hi
  obtain ⟨before, b, after, rfl, hbefore, hmod⟩ :=
    List.exists_of_modify (· ||| UInt8.ofNat (v <<< c)) hi
  obtain ⟨p, rfl⟩ : ∃ p, w = bitsOf before ++ p := by
    have hpre : bitsOf before <+: w ++ List.replicate k false :=
      ⟨_, (bitsOf_append before (b :: after)).symm.trans h⟩
    have hw : (bitsOf before).length ≤ w.length := by
      rw [length_bitsOf]
      omega
    obtain ⟨p, hp⟩ := List.prefix_of_prefix_length_le hpre (List.prefix_append w _) hw
    exact ⟨p, hp.symm⟩
  rw [List.length_append, length_bitsOf] at hidx hac
  rw [List.length_append, List.length_append, List.length_cons, length_bitsOf] at hlen
  have hp : p.length + (a + c) = 8 := by omega
  rw [bitsOf_append, bitsOf_cons, List.append_assoc] at h
  have hkac : k = (a + c) + (k - (a + c)) := by omega
  rw [hkac, ← List.replicate_append_replicate, ← List.append_assoc p] at h
  obtain ⟨hbyte, hafter⟩ := List.append_inj (List.append_cancel_left h) (by simp; omega)
  have hfit : v <<< c < 256 := by
    have hlt : v <<< c < 2 ^ (a + c) := by
      rw [Nat.shiftLeft_eq, Nat.pow_add]
      exact Nat.mul_lt_mul_of_pos_right hv (Nat.two_pow_pos c)
    exact Nat.lt_of_lt_of_le hlt
      (Nat.pow_le_pow_right (n := 2) (Nat.le_succ 1) (show a + c ≤ 8 by omega))
  have hor : bitsOfNat 8 (b ||| UInt8.ofNat (v <<< c)).toNat =
      p ++ (bitsOfNat a v ++ List.replicate c false) := by
    rw [UInt8.toNat_or, UInt8.toNat_ofNat', Nat.mod_eq_of_lt hfit, ← hp]
    rw [← hp] at hbyte
    exact bitsOfNat_or_shiftLeft rfl hbyte hv
  rw [hmod, bitsOf_append, bitsOf_cons, hor, hafter]
  simp only [List.append_assoc, List.replicate_append_replicate]
  rw [show c + (k - (a + c)) = k - a by omega]

end Rsurl.Base
