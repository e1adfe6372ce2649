/-
# `Rsurl.H2.Integer` — what `decode_int` makes of any octets

A prefix of the octets is an integer in one way at most.  `decode_int` reads
that integer or fails, with one exception: the tenth octet behind a full prefix
is shifted by 63, so that only its lowest bit stays in the 64 bits that are
added.  Which octets are affected can be said without the decoder.
-/
import Rsurl.H2.Conformance

namespace Rsurl.H2

open Rfc (IsInt IntTail)

/-! ## One reading -/

theorem Rfc.IntTail.unique {tail tail' rest rest' : Bytes} {n n' : Nat} (h : IntTail tail n)
    (h' : IntTail tail' n') (heq : tail ++ rest = tail' ++ rest') : tail = tail' ∧ n = n' := by
  induction h generalizing tail' n' with
  | @last b hb =>
      cases h' with
      | last hb' =>
          obtain ⟨rfl, -⟩ := List.cons_eq_cons.mp heq
          exact ⟨rfl, rfl⟩
      | more hb' _ =>
          obtain ⟨rfl, -⟩ := List.cons_eq_cons.mp heq
          omega
  | @more b tail n hb _ ih =>
      cases h' with
      | last hb' =>
          obtain ⟨rfl, -⟩ := List.cons_eq_cons.mp heq
          omega
      | more hb' htail' =>
          obtain ⟨rfl, htails⟩ := List.cons_eq_cons.mp heq
          obtain ⟨rfl, rfl⟩ := ih htail' htails
          exact ⟨rfl, rfl⟩

/-- The octets start with one integer at most. -/
theorem Rfc.IsInt.unique {k : Nat} {octets octets' rest rest' : Bytes} {n n' : Nat}
    (h : IsInt k octets n) (h' : IsInt k octets' n') (heq : octets ++ rest = octets' ++ rest') :
    octets = octets' ∧ n = n' := by
  cases h with
  | small hsmall =>
      cases h' with
      | small hsmall' =>
          obtain ⟨rfl, -⟩ := List.cons_eq_cons.mp heq
          exact ⟨rfl, rfl⟩
      | full hfull' _ =>
          obtain ⟨rfl, -⟩ := List.cons_eq_cons.mp heq
          omega
  | full hfull htail =>
      cases h' with
      | small hsmall' =>
          obtain ⟨rfl, -⟩ := List.cons_eq_cons.mp heq
          omega
      | full hfull' htail' =>
          obtain ⟨rfl, htails⟩ := List.cons_eq_cons.mp heq
          obtain ⟨rfl, rfl⟩ := htail.unique htail' htails
          exact ⟨rfl, rfl⟩

/-- The last digit of a number, and any other in its place. -/
theorem Rfc.IntTail.last_digit {lead : Bytes} {b : UInt8} {n : Nat}
    (h : IntTail (lead ++ [b]) n) :
    b.toNat < 128 ∧ ∃ low, n = low + b.toNat * 128 ^ lead.length ∧
      ∀ c : UInt8, c.toNat < 128 → IntTail (lead ++ [c]) (low + c.toNat * 128 ^ lead.length) := by
  induction lead generalizing n with
  | nil =>
      cases h with
      | last hb =>
          refine ⟨hb, 0, by simp, fun c hc => ?_⟩
          simpa using IntTail.last hc
      | more _ htail => exact absurd rfl htail.ne_nil
  | cons x lead ih =>
      rw [List.cons_append] at h
      obtain ⟨hx, n, htail, rfl⟩ : 128 ≤ x.toNat ∧ ∃ m, IntTail (lead ++ [b]) m ∧
          n = x.toNat - 128 + 128 * m := by
        generalize htl : lead ++ [b] = tl at h
        cases h with
        | last => exact absurd htl (by simp)
        | more hx htail => exact ⟨hx, _, htail, rfl⟩
      obtain ⟨hb, low, rfl, hother⟩ := ih htail
      have hpow : ∀ d : Nat, x.toNat - 128 + 128 * low + d * 128 ^ (lead.length + 1) =
          x.toNat - 128 + 128 * (low + d * 128 ^ lead.length) := by
        intro d
        rw [Nat.pow_succ]
        ring
      refine ⟨hb, x.toNat - 128 + 128 * low, (hpow _).symm, fun c hc => ?_⟩
      rw [List.cons_append, List.length_cons, hpow]
      exact .more hx (hother c hc)

theorem Rfc.IsInt.last_digit {k : Nat} {x : UInt8} {lead : Bytes} {b : UInt8} {n : Nat}
    (h : IsInt k (x :: lead ++ [b]) n) :
    b.toNat < 128 ∧ ∃ low, n = low + b.toNat * 128 ^ lead.length ∧
      ∀ c : UInt8, c.toNat < 128 →
        IsInt k (x :: lead ++ [c]) (low + c.toNat * 128 ^ lead.length) := by
  rw [List.cons_append] at h
  obtain ⟨hx, n, htail, rfl⟩ : x.toNat % 2 ^ k = 2 ^ k - 1 ∧ ∃ m, IntTail (lead ++ [b]) m ∧
      n = 2 ^ k - 1 + m := by
    generalize htl : lead ++ [b] = tl at h
    cases h with
    | small => exact absurd htl (by simp)
    | full hx htail => exact ⟨hx, _, htail, rfl⟩
  obtain ⟨hb, low, rfl, hother⟩ := htail.last_digit
  refine ⟨hb, 2 ^ k - 1 + low, (Nat.add_assoc _ _ _).symm, fun c hc => ?_⟩
  rw [List.cons_append, Nat.add_assoc]
  exact .full hx (hother c hc)

/-! ## The tenth octet -/

/-- Ten octets behind a full prefix, the last above 1, and with no more than the lowest bit of
it the number would have 64 bits. -/
def Truncates (k : Nat) (octets : Bytes) : Prop :=
  ∃ lead b rest n, octets = lead ++ b :: rest ∧ lead.length = 10 ∧ 1 < b.toNat ∧
    b.toNat < 128 ∧ IsInt k (lead ++ [UInt8.ofNat (b.toNat % 2)]) n ∧ n < 2 ^ 64

/-- Only the lowest bit of a tenth octet counts. -/
theorem decodeIntRest_parity {b c : UInt8} (hb : b.toNat < 128) (hc : c.toNat < 128)
    (hparity : b.toNat % 2 = c.toNat % 2) (rest : Bytes) {lead : Bytes} {i value j : Nat}
    (hlen : lead.length + j = 9) :
    decodeIntRest (lead ++ b :: rest) i value (7 * j) =
      decodeIntRest (lead ++ c :: rest) i value (7 * j) := by
  induction lead generalizing i value j with
  | nil =>
      obtain rfl : j = 9 := by simpa using hlen
      have hdigit : (b.toNat % 128) <<< (7 * 9) % 2 ^ 64 =
          (c.toNat % 128) <<< (7 * 9) % 2 ^ 64 := by
        rw [Nat.shiftLeft_eq, Nat.shiftLeft_eq]
        omega
      rw [List.nil_append, List.nil_append, decodeIntRest, decodeIntRest, hdigit]
      simp only [(and_0x80_eq_zero b).mpr hb, (and_0x80_eq_zero c).mpr hc]
  | cons x lead ih =>
      rw [List.length_cons] at hlen
      rw [List.cons_append, List.cons_append, decodeIntRest, decodeIntRest, ← Nat.mul_succ,
        ih (by omega)]

theorem decodeInt_parity {b c : UInt8} (hb : b.toNat < 128) (hc : c.toNat < 128)
    (hparity : b.toNat % 2 = c.toNat % 2) (k : Nat) (rest : Bytes) {lead : Bytes}
    (hlen : lead.length = 10) :
    decodeInt (lead ++ b :: rest) k = decodeInt (lead ++ c :: rest) k := by
  obtain ⟨x, lead, rfl⟩ := List.exists_cons_of_length_pos (by omega : 0 < lead.length)
  have hrest := @decodeIntRest_parity b c hb hc hparity rest lead 1 (x.toNat % 2 ^ k) 0
    (by simpa using hlen)
  rw [Nat.mul_zero] at hrest
  rw [List.cons_append, List.cons_append, decodeInt, decodeInt, hrest]

theorem toNat_parity (b : UInt8) : (UInt8.ofNat (b.toNat % 2)).toNat = b.toNat % 2 :=
  toNat_ofNat_of_lt (by omega)

/-- What is read is the integer at the front, and has 64 bits. -/
theorem reads_of_decodeInt {buf : Bytes} {k v m : Nat} (h : decodeInt buf k = .ok (v, m))
    (htrunc : ¬ Truncates k buf) :
    m ≤ buf.length ∧ IsInt k (buf.take m) v ∧ v < 2 ^ 64 := by
  by_cases hspill : Spills k buf
  · obtain ⟨lead, b, rest, n, rfl, hint, hlen, hb⟩ := hspill
    obtain ⟨x, lead, rfl⟩ := List.exists_cons_of_length_pos (by omega : 0 < lead.length)
    obtain ⟨hlast, low, -, hother⟩ := hint.last_digit
    have hlow := toNat_parity b
    have hshort := hother (UInt8.ofNat (b.toNat % 2)) (by omega)
    -- With the lowest bit alone the number does not fit either, and that one does not spill.
    have hread : decodeInt (x :: lead ++ UInt8.ofNat (b.toNat % 2) :: rest) k = .ok (v, m) := by
      rw [← decodeInt_parity hlast (by omega) (by omega) k rest hlen]
      exact h
    have hwhole : ¬ Spills k (x :: lead ++ UInt8.ofNat (b.toNat % 2) :: rest) := by
      rintro ⟨lead', c, rest', n', heq, hint', -, hc⟩
      have heq' : x :: lead ++ [UInt8.ofNat (b.toNat % 2)] ++ rest = lead' ++ [c] ++ rest' := by
        rw [List.append_assoc, List.append_assoc]
        exact heq
      obtain ⟨hsame, -⟩ := hshort.unique hint' heq'
      have hlastSame := congrArg List.getLast? hsame
      rw [List.getLast?_append_cons, List.getLast?_append_cons] at hlastSame
      obtain rfl : UInt8.ofNat (b.toNat % 2) = c := Option.some.inj hlastSame
      omega
    obtain ⟨y, front, rest', heq, -, hreads⟩ := decodeInt_eq_ok hread hwhole
    have heq' : x :: lead ++ [UInt8.ofNat (b.toNat % 2)] ++ rest = y :: front ++ rest' := by
      rw [List.append_assoc]
      exact heq
    obtain ⟨-, hvalue⟩ := hshort.unique hreads.isInt heq'
    exact absurd ⟨x :: lead, b, rest, _, rfl, hlen, hb, hlast, hshort, hvalue ▸ hreads.accepted.2⟩
      htrunc
  · obtain ⟨b, lead, rest, rfl, rfl, hreads⟩ := decodeInt_eq_ok h hspill
    rw [List.take_left]
    refine ⟨?_, hreads.isInt, hreads.accepted.2⟩
    rw [List.length_append]
    omega

/-- An octet too many is cut off: what is read is not the integer at the front. -/
theorem decodeInt_of_truncates {buf : Bytes} {k : Nat} (h : Truncates k buf) :
    ∃ v, decodeInt buf k = .ok (v, 11) ∧ ¬ IsInt k (buf.take 11) v := by
  obtain ⟨lead, b, rest, n, rfl, hlen, hb, hlast, hint, hfits⟩ := h
  obtain ⟨x, lead, rfl⟩ := List.exists_cons_of_length_pos (by omega : 0 < lead.length)
  have hlow := toNat_parity b
  have hlen' : (x :: lead ++ [UInt8.ofNat (b.toNat % 2)]).length = 11 := by
    rw [List.length_append, hlen]
    rfl
  have hreads : ownProfile.Reads k (x :: lead ++ [UInt8.ofNat (b.toNat % 2)]) n :=
    ⟨hint, Nat.le_of_eq hlen', hfits⟩
  have hread := @decodeInt_of_reads _ rest _ _ hreads
  rw [hlen', List.append_assoc, List.singleton_append,
    ← decodeInt_parity hlast (by omega) (by omega) k rest hlen] at hread
  refine ⟨n, hread, fun hbad => ?_⟩
  have htake : (x :: lead ++ b :: rest).take 11 = x :: lead ++ [b] := by
    rw [List.take_append, List.take_of_length_le (by omega), hlen]
    rfl
  rw [htake] at hbad
  obtain ⟨-, low, hvalue, hother⟩ := hbad.last_digit
  have hshort := hother (UInt8.ofNat (b.toNat % 2)) (by omega)
  obtain ⟨-, hsame⟩ := @IsInt.unique _ _ _ [] [] _ _ hshort hint rfl
  have hpos : 0 < 128 ^ lead.length := Nat.pow_pos (by decide)
  have hdigits : b.toNat % 2 * 128 ^ lead.length < b.toNat * 128 ^ lead.length :=
    Nat.mul_lt_mul_of_pos_right (by omega) hpos
  rw [hlow] at hsame
  omega

end Rsurl.H2
