/-
# `Rsurl.Base.Twos` — two's-complement octets

Octets with the first bit set stand for a number below zero.  No octets are the
shortest for their number unless the first only repeats the sign of the second.
-/
import Mathlib.Tactic.Ring
import Rsurl.Base.Ber

namespace Rsurl.Base

/-- The value of two's-complement octets, the most significant first. -/
def twosValue (octets : List UInt8) : Int :=
  beValue octets - if 128 ≤ (octets.headD 0).toNat then 256 ^ octets.length else 0

/-- The fewest octets for a number. -/
structure ShortestTwos (octets : List UInt8) (v : Int) : Prop where
  ne_nil : octets ≠ []
  value : twosValue octets = v
  le : ∀ octets', octets' ≠ [] → twosValue octets' = v → octets.length ≤ octets'.length

/-- The first octet says more than the sign bit of the second. -/
def Tight : List UInt8 → Prop
  | first :: next :: _ =>
      (first = 0x00 → 128 ≤ next.toNat) ∧ (first = 0xff → next.toNat < 128)
  | _ => True

/-- So many octets have room for so much. -/
theorem twosValue_range (b : UInt8) (l : List UInt8) :
    -(128 * 256 ^ l.length) ≤ twosValue (b :: l) ∧ twosValue (b :: l) < 128 * 256 ^ l.length := by
  have hlt : ((beValue l : Nat) : Int) < 256 ^ l.length := by exact_mod_cast beValue_lt l
  have hb : (b.toNat : Int) < 256 := by exact_mod_cast b.toNat_lt
  have hpos : (0 : Int) ≤ beValue l := Int.natCast_nonneg _
  rw [twosValue, beValue_cons, List.headD_cons, List.length_cons, pow_succ]
  push_cast
  generalize (256 : Int) ^ l.length = k at hlt ⊢
  split
  · next hsign =>
      have hsign' : (128 : Int) ≤ b.toNat := by exact_mod_cast hsign
      constructor <;> nlinarith
  · next hsign =>
      have hsign' : (b.toNat : Int) < 128 := by exact_mod_cast Nat.lt_of_not_le hsign
      constructor <;> nlinarith

/-- And tight ones do not fit in fewer. -/
theorem not_fits_of_tight {b c : UInt8} {l : List UInt8} (h : Tight (b :: c :: l)) :
    twosValue (b :: c :: l) < -(128 * 256 ^ l.length) ∨
      128 * 256 ^ l.length ≤ twosValue (b :: c :: l) := by
  have hlt : ((beValue l : Nat) : Int) < 256 ^ l.length := by exact_mod_cast beValue_lt l
  have hc : (c.toNat : Int) < 256 := by exact_mod_cast c.toNat_lt
  have hc0 : (0 : Int) ≤ c.toNat := Int.natCast_nonneg _
  have hpos : (0 : Int) ≤ beValue l := Int.natCast_nonneg _
  rw [twosValue, beValue_cons, beValue_cons, List.headD_cons]
  simp only [List.length_cons, pow_succ]
  push_cast
  generalize (256 : Int) ^ l.length = k at hlt ⊢
  by_cases hsign : 128 ≤ b.toNat
  · rw [if_pos hsign]
    refine .inl ?_
    by_cases hff : b = 0xff
    · have hcl : (c.toNat : Int) < 128 := by exact_mod_cast h.2 hff
      subst hff
      have h255 : ((0xff : UInt8).toNat : Int) = 255 := rfl
      rw [h255]
      nlinarith
    · have hlt255 : (b.toNat : Int) ≤ 254 := by
        have hne : b.toNat ≠ 255 := fun he => hff (UInt8.toNat_inj.mp he)
        have hb := b.toNat_lt
        omega
      nlinarith
  · rw [if_neg hsign]
    refine .inr ?_
    by_cases hzero : b = 0x00
    · have hch : (128 : Int) ≤ c.toNat := by exact_mod_cast h.1 hzero
      subst hzero
      have h0 : ((0x00 : UInt8).toNat : Int) = 0 := rfl
      rw [h0]
      nlinarith
    · have hge : (1 : Int) ≤ b.toNat := by
        have hne : b.toNat ≠ 0 := fun he => hzero (UInt8.toNat_inj.mp he)
        omega
      nlinarith

theorem shortestTwos_of_tight {octets : List UInt8} {v : Int} (hne : octets ≠ [])
    (htight : Tight octets) (hvalue : twosValue octets = v) : ShortestTwos octets v where
  ne_nil := hne
  value := hvalue
  le octets' hne' hvalue' := by
    obtain ⟨b', l', rfl⟩ := List.exists_cons_of_ne_nil hne'
    match octets, htight with
    | [b], _ => exact Nat.succ_le_succ (Nat.zero_le _)
    | b :: c :: l, htight =>
        by_contra hshort
        -- the shorter octets have no room for the number
        have hle : l'.length ≤ l.length := by
          simp only [List.length_cons] at hshort
          omega
        have hpow : (256 : Int) ^ l'.length ≤ 256 ^ l.length := pow_le_pow_right₀ (by decide) hle
        have hrange := twosValue_range b' l'
        have hout := not_fits_of_tight htight
        rw [hvalue] at hout
        rw [hvalue'] at hrange
        omega

end Rsurl.Base
