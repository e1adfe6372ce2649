/-
# `Rsurl.H3.Integer` — prefix integers in three copies

HPACK has one `decode_int`, QPACK two, and both have an `encode_int`.  The
three decoders read the same, except that a cut integer is no error to
`decode_int_partial`; so they are exact on the same octets, and each of them
reads what either encoder writes.
-/
import Rsurl.H2.Integer
import Rsurl.H3.Encoder

namespace Rsurl.H3

open H2.Rfc (IsInt IntTail)
open H2 (Truncates)
open Qpack

/-! ## The copies -/

theorem decodeIntRest_of_intLoop {buf : Bytes} {value shift used v u : Nat}
    (h : intLoop buf value shift used = .ok (some (v, u))) (i : Nat) :
    used ≤ u ∧ H2.decodeIntRest buf i value shift = .ok (v, i + (u - used)) := by
  induction buf generalizing i value shift used with
  | nil => cases h
  | cons b buf ih =>
      simp only [intLoop] at h
      simp only [H2.decodeIntRest]
      split at h
      · cases h
      next hover =>
      rw [if_neg hover]
      split at h
      · next hlast =>
          rw [if_pos hlast]
          cases h
          exact ⟨Nat.le_succ used, by rw [Nat.add_sub_cancel_left]⟩
      next hlast =>
      rw [if_neg hlast]
      split at h
      · cases h
      next hlong =>
      rw [if_neg hlong]
      obtain ⟨hle, hloop⟩ := ih h (i + 1)
      refine ⟨Nat.le_of_succ_le hle, hloop.trans ?_⟩
      congr 2
      omega

/-- The copies read the same; QPACK counts the octets behind the first. -/
theorem decodeIntPartial_eq_ok {first : UInt8} {k v m : Nat} {rest : Bytes} :
    decodeIntPartial first k rest = .ok (some (v, m)) ↔
      H2.decodeInt (first :: rest) k = .ok (v, m + 1) := by
  have hmask := Nat.mod_lt first.toNat (Nat.two_pow_pos k)
  rw [decodeIntPartial, H2.decodeInt]
  by_cases hsmall : first.toNat % 2 ^ k < 2 ^ k - 1
  · simp only [hsmall, if_true, Except.ok.injEq, Option.some.injEq, Prod.mk.injEq]
    omega
  · have hfull : first.toNat % 2 ^ k = 2 ^ k - 1 := by omega
    simp only [hfull, Nat.lt_irrefl, if_false]
    constructor
    · intro h
      obtain ⟨-, hrest⟩ := decodeIntRest_of_intLoop h 1
      rw [hrest, Nat.sub_zero, Nat.add_comm]
    · intro h
      obtain ⟨-, hloop⟩ := intLoop_of_decodeIntRest h 0
      rw [hloop, Nat.add_sub_cancel, Nat.zero_add]

theorem one_le_of_decodeInt {buf : Bytes} {k v n : Nat} (h : H2.decodeInt buf k = .ok (v, n)) :
    1 ≤ n := by
  cases buf with
  | nil => cases h
  | cons b buf =>
      rw [H2.decodeInt] at h
      split at h
      · cases h
        exact Nat.le_refl 1
      · exact (intLoop_of_decodeIntRest h 0).1

/-- The octets of the copies counted alike. -/
theorem decodeIntPartial_total {first : UInt8} {k v n : Nat} {rest : Bytes} :
    (decodeIntPartial first k rest).map (Option.map fun (v, n) => (v, n + 1)) =
        .ok (some (v, n)) ↔ H2.decodeInt (first :: rest) k = .ok (v, n) := by
  constructor
  · intro h
    cases hread : decodeIntPartial first k rest with
    | error e =>
        rw [hread] at h
        cases h
    | ok read =>
        cases read with
        | none =>
            rw [hread] at h
            cases h
        | some x =>
            rw [hread] at h
            cases h
            exact decodeIntPartial_eq_ok.mp hread
  · intro h
    obtain ⟨m, rfl⟩ := Nat.exists_eq_add_of_le' (one_le_of_decodeInt h)
    rw [decodeIntPartial_eq_ok.mpr h]
    rfl

theorem decodeInt_total {first : UInt8} {k v n : Nat} {rest : Bytes} :
    ((decodeInt first k rest).map fun (v, n) => some (v, n + 1)) = .ok (some (v, n)) ↔
      H2.decodeInt (first :: rest) k = .ok (v, n) := by
  rw [← decodeIntPartial_total, decodeInt]
  cases decodeIntPartial first k rest with
  | error e => exact Iff.rfl
  | ok read =>
      cases read with
      | none => simp only [Except.map, Option.map, Except.ok.injEq, reduceCtorEq]
      | some x => exact Iff.rfl

/-- An integer that is there as a whole is not taken for a cut one. -/
theorem intLoop_ne_none {tail : Bytes} {n : Nat} (htail : IntTail tail n) (rest : Bytes)
    (value shift used : Nat) : intLoop (tail ++ rest) value shift used ≠ .ok none := by
  induction htail generalizing value shift used with
  | last hb =>
      rw [List.singleton_append, intLoop]
      simp only [(H2.and_0x80_eq_zero _).mpr hb, if_true]
      split <;> exact fun h => by cases h
  | more hb _ ih =>
      rw [List.cons_append, intLoop]
      split
      · exact fun h => by cases h
      split
      · exact fun h => by cases h
      split
      · exact fun h => by cases h
      · exact ih _ _ _

theorem decodeIntPartial_ne_none {first : UInt8} {k v : Nat} {rest octets more : Bytes}
    (hint : IsInt k octets v) (heq : first :: rest = octets ++ more) :
    decodeIntPartial first k rest ≠ .ok none := by
  rw [decodeIntPartial]
  split
  · exact fun h => by cases h
  next hfull =>
  cases hint with
  | small hsmall =>
      obtain ⟨rfl, -⟩ := List.cons_eq_cons.mp heq
      exact absurd hsmall hfull
  | full _ htail =>
      obtain ⟨rfl, rfl⟩ := List.cons_eq_cons.mp heq
      exact intLoop_ne_none htail more _ _ _

/-! ## Exactness -/

/-- A value read with so many octets is the integer in them, and an integer that does not fit
into 64 bits is an error. -/
structure ExactOrFails (k : Nat) (octets : Bytes) (outcome : Result (Option (Nat × Nat))) :
    Prop where
  exact : ∀ v n, outcome = .ok (some (v, n)) → n ≤ octets.length ∧ IsInt k (octets.take n) v
  unfit : ∀ front rest v, octets = front ++ rest → IsInt k front v → 2 ^ 64 ≤ v →
    ∃ e, outcome = .error e

/-- What a copy has to share with `decode_int` of HPACK. -/
theorem exactOrFails_iff {k : Nat} {octets : Bytes} {outcome : Result (Option (Nat × Nat))}
    (hsame : ∀ v n, outcome = .ok (some (v, n)) ↔ H2.decodeInt octets k = .ok (v, n))
    (hnone : ∀ front rest v, octets = front ++ rest → IsInt k front v → outcome ≠ .ok none) :
    ExactOrFails k octets outcome ↔ ¬ Truncates k octets := by
  constructor
  · intro hexact htrunc
    obtain ⟨v, hread, hbad⟩ := H2.decodeInt_of_truncates htrunc
    exact hbad (hexact.exact v 11 ((hsame v 11).mpr hread)).2
  · intro htrunc
    refine ⟨fun v n hread => ?_, fun front rest v heq hint hbig => ?_⟩
    · obtain ⟨hle, hint, -⟩ := H2.reads_of_decodeInt ((hsame v n).mp hread) htrunc
      exact ⟨hle, hint⟩
    · cases hout : outcome with
      | error e => exact ⟨e, rfl⟩
      | ok read =>
          cases read with
          | none => exact absurd hout (hnone front rest v heq hint)
          | some x =>
              obtain ⟨-, hint', hfits⟩ := H2.reads_of_decodeInt ((hsame x.1 x.2).mp hout) htrunc
              have hcut : front ++ rest = octets.take x.2 ++ octets.drop x.2 := by
                rw [List.take_append_drop, heq]
              obtain ⟨-, rfl⟩ := hint.unique hint' hcut
              omega

/-- All three decoders are exact but for the octets whose number they truncate. -/
theorem decodeInt_exact_iff (k : Nat) :
    (∀ octets, ExactOrFails k octets ((H2.decodeInt octets k).map some) ↔
      ¬ Truncates k octets) ∧
    (∀ first rest, ExactOrFails k (first :: rest)
        ((decodeInt first k rest).map fun (v, n) => some (v, n + 1)) ↔
      ¬ Truncates k (first :: rest)) ∧
    ∀ first rest, ExactOrFails k (first :: rest)
        ((decodeIntPartial first k rest).map (Option.map fun (v, n) => (v, n + 1))) ↔
      ¬ Truncates k (first :: rest) := by
  refine ⟨fun octets => ?_, fun first rest => ?_, fun first rest => ?_⟩
  · refine exactOrFails_iff (fun v n => ?_) fun front rest v heq hint => ?_
    · cases H2.decodeInt octets k <;> simp [Except.map]
    · cases H2.decodeInt octets k <;> simp [Except.map]
  · refine exactOrFails_iff (fun v n => decodeInt_total) fun front more v heq hint => ?_
    cases decodeInt first k rest <;> simp [Except.map]
  · refine exactOrFails_iff (fun v n => decodeIntPartial_total) fun front more v heq hint hout => ?_
    have hwhole := decodeIntPartial_ne_none hint heq
    cases hread : decodeIntPartial first k rest with
    | error e =>
        rw [hread] at hout
        cases hout
    | ok read =>
        cases read with
        | none => exact hwhole hread
        | some x =>
            rw [hread] at hout
            cases hout

/-- `2 ^ 64 + 255` with a prefix of eight bits. -/
def oneTooMany : Bytes := [0xff] ++ List.replicate 9 0x80 ++ [0x02]

/-- Each copy reads 255 from it. -/
theorem decodeInt_truncates :
    IsInt 8 oneTooMany (2 ^ 64 + 255) ∧ H2.decodeInt oneTooMany 8 = .ok (255, 11) ∧
      decodeInt 0xff 8 oneTooMany.tail = .ok (255, 10) ∧
      decodeIntPartial 0xff 8 oneTooMany.tail = .ok (some (255, 10)) ∧
      ¬ ExactOrFails 8 oneTooMany ((H2.decodeInt oneTooMany 8).map some) := by
  have hint : IsInt 8 oneTooMany (2 ^ 64 + 255) :=
    .full (by decide) (.more (by decide) (.more (by decide) (.more (by decide) (.more (by decide)
      (.more (by decide) (.more (by decide) (.more (by decide) (.more (by decide)
        (.more (by decide) (.last (by decide)))))))))))
  have hread : H2.decodeInt oneTooMany 8 = .ok (255, 11) := by decide
  refine ⟨hint, hread, by decide, by decide, fun hexact => ?_⟩
  obtain ⟨e, herror⟩ := hexact.unfit oneTooMany [] _ (List.append_nil _).symm hint (by decide)
  rw [hread] at herror
  cases herror

/-! ## Round trips -/

/-- Every number of 64 bits comes back from behind any flag bits and before any octets, with the
count of what was written: in HPACK, where the caller sets the flags, and in QPACK. -/
theorem decodeInt_of_encodeInt {v k : Nat} {flags : UInt8} (hv : v < 2 ^ 64) (hk : k ≤ 8)
    (hflags : flags.toNat % 2 ^ k = 0) (trailing : Bytes) :
    H2.decodeInt ((H2.encodeInt v k).modifyHead (· ||| flags) ++ trailing) k =
      .ok (v, ((H2.encodeInt v k).modifyHead (· ||| flags)).length) ∧
    ∃ first lead, encodeInt v k flags = first :: lead ∧
      decodeInt first k (lead ++ trailing) = .ok (v, lead.length) ∧
      decodeIntPartial first k (lead ++ trailing) = .ok (some (v, lead.length)) := by
  constructor
  · refine H2.decodeInt_encodeInt trailing hk hv fun b => ?_
    rw [UInt8.toNat_or, Nat.or_mod_two_pow, hflags, Nat.or_zero]
  · obtain ⟨n, lead, -, henc⟩ := encodeInt_eq_cons v k flags
    have hreads := reads_encodeInt hk hflags hv
    rw [henc] at hreads
    have hread := decodeInt_of_reads hreads trailing
    exact ⟨_, lead, henc, hread, decodeInt_eq_ok.mp hread⟩

/-- The largest number, in the flags of a literal with a name of the static table. -/
theorem decodeInt_of_encodeInt_max :
    ∃ first lead, encodeInt (2 ^ 64 - 1) 4 0x50 = first :: lead ∧
      decodeInt first 4 (lead ++ [0x00]) = .ok (2 ^ 64 - 1, lead.length) :=
  have ⟨first, lead, henc, hread, _⟩ :=
    (decodeInt_of_encodeInt (by decide) (by decide) (by decide) [0x00]).2
  ⟨first, lead, henc, hread⟩

end Rsurl.H3
