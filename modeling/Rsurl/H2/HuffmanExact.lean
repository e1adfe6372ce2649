/-
# `Rsurl.H2.HuffmanExact` — what `huffman_decode` accepts

Exactly the coded strings with at most seven one bits behind them.  The code is
complete: every thirty bits start with a word of it, so the accumulator never
holds more than 37 bits and nothing is shifted out of it.
-/
import Rsurl.H2.Huffman

namespace Rsurl.H2

open Base (bitsOfNat natOfBits bitsOf length_bitsOfNat natOfBits_bitsOfNat take_bitsOfNat
  drop_bitsOfNat bitsOf_nil bitsOf_cons bitsOfNat_natOfBits)

/-! ## The code is complete -/

/-- Walk from `x` over intervals that start where the last one ended. -/
def coveredTo (spans : List (Nat × Nat)) : Nat → Nat → Nat
  | 0, x => x
  | fuel + 1, x =>
      match spans.find? fun p => p.1 == x with
      | some p => coveredTo spans fuel p.2
      | none => x

/-- Every number passed on the way is in an interval. -/
theorem exists_span_of_coveredTo {spans : List (Nat × Nat)} {fuel x v : Nat} (hx : x ≤ v)
    (hv : v < coveredTo spans fuel x) : ∃ p ∈ spans, p.1 ≤ v ∧ v < p.2 := by
  induction fuel generalizing x with
  | zero => exact absurd hx (Nat.not_le_of_lt hv)
  | succ fuel ih =>
      rw [coveredTo] at hv
      split at hv
      · next p hfind =>
          have hstart : p.1 = x := by simpa using List.find?_some hfind
          by_cases hp : v < p.2
          · exact ⟨p, List.mem_of_find?_eq_some hfind, hstart ▸ hx, hp⟩
          · exact ih (Nat.le_of_not_lt hp) hv
      · exact absurd hx (Nat.not_le_of_lt hv)

theorem coveredTo_huffman : coveredTo (huffman.map codeSpan) 257 0 = 2 ^ 30 := by decide +kernel

/-- Thirty bits start with a code. -/
theorem exists_codeBits_prefix {l : List Bool} (h : 30 ≤ l.length) :
    ∃ s : Fin 257, codeBits s <+: l := by
  obtain ⟨w, hw⟩ : ∃ w, l.take 30 = w := ⟨_, rfl⟩
  have hlen : w.length = 30 := by rw [← hw, List.length_take, Nat.min_eq_left h]
  have hv : natOfBits w < 2 ^ 30 := by
    rw [← hlen]
    exact Base.natOfBits_lt w
  obtain ⟨p, hp, hlow, hhigh⟩ :=
    exists_span_of_coveredTo (Nat.zero_le _) (coveredTo_huffman.symm ▸ hv)
  obtain ⟨entry, hentry, rfl⟩ := List.mem_map.mp hp
  obtain ⟨i, hi⟩ := List.mem_iff_getElem?.mp hentry
  have hi257 : i < 257 := length_huffman ▸ (List.getElem?_eq_some_iff.mp hi).1
  have heq : huffmanEntry i = entry := Option.some.inj ((getElem?_huffman hi257).symm.trans hi)
  obtain ⟨-, hle, hcode⟩ := huffmanEntry_bounds hi257
  obtain ⟨k, hk⟩ := Nat.exists_eq_add_of_le hle
  rw [← heq] at hlow hhigh
  have hk' : 30 - (huffmanEntry i).2 = k := by omega
  simp only [codeSpan, hk', Nat.shiftLeft_eq] at hlow hhigh
  have hquot : natOfBits w >>> k = (huffmanEntry i).1 := by
    rw [Nat.shiftRight_eq_div_pow]
    exact Nat.div_eq_of_lt_le hlow hhigh
  refine ⟨⟨i, hi257⟩, ?_⟩
  have htake : codeBits i = w.take (huffmanEntry i).2 := by
    rw [← bitsOfNat_natOfBits w, hlen, take_bitsOfNat _ hle, hk', hquot]
    rfl
  show codeBits i <+: l
  rw [htake, ← hw, List.take_take]
  exact List.take_prefix _ _

theorem accLen_lt_thirty {acc accLen : Nat} (h : Exhausted acc accLen) : accLen < 30 := by
  by_contra hlong
  obtain ⟨s, hs⟩ := exists_codeBits_prefix (l := bitsOfNat accLen acc)
    (by rw [length_bitsOfNat]; omega)
  exact h s hs

/-! ## What was read -/

/-- The symbols that were pulled are the bits that are gone. -/
theorem pullSymbols_eq_ok {fuel acc accLen accLen' : Nat} {out out' : Bytes}
    (hfuel : accLen ≤ fuel) (h : pullSymbols fuel out acc accLen = .ok (out', accLen')) :
    ∃ ys, out' = out ++ ys ∧ bitsOfNat accLen acc = codedBits ys ++ bitsOfNat accLen' acc ∧
      Exhausted acc accLen' := by
  have hshort : ∀ {n : Nat}, n < 5 → Exhausted acc n := by
    intro n hn s hs
    have hlow := (length_codeBits_bounds s).1.trans hs.length_le
    rw [length_bitsOfNat] at hlow
    omega
  induction fuel generalizing accLen out with
  | zero =>
      obtain ⟨rfl, rfl⟩ := Prod.mk.inj (Except.ok.inj h)
      exact ⟨[], by rw [List.append_nil], rfl, hshort (by omega)⟩
  | succ fuel ih =>
      rw [pullSymbols] at h
      split at h
      · next hlt =>
          obtain ⟨rfl, rfl⟩ := Prod.mk.inj (Except.ok.inj h)
          exact ⟨[], by rw [List.append_nil], rfl, hshort hlt⟩
      cases hmatch : matchSymbol acc accLen with
      | none =>
          rw [hmatch] at h
          obtain ⟨rfl, rfl⟩ := Prod.mk.inj (Except.ok.inj h)
          refine ⟨[], by rw [List.append_nil], rfl, fun s hs => ?_⟩
          rw [matchSymbol_of_head hs] at hmatch
          cases hmatch
      | some m =>
          obtain ⟨s, k⟩ := m
          rw [hmatch] at h
          simp only at h
          split at h
          · cases h
          next heos =>
          obtain ⟨hs, hk, hk5, hbits⟩ := matchSymbol_eq_some hmatch
          obtain ⟨ys, hout, hrest, hex⟩ := ih (by omega) h
          have hsym : (UInt8.ofNat s).toNat = s := by
            rw [UInt8.toNat_ofNat', Nat.mod_eq_of_lt (by omega)]
          refine ⟨UInt8.ofNat s :: ys, ?_, ?_, hex⟩
          · rw [hout, List.append_assoc, List.singleton_append]
          · rw [codedBits_cons, hsym, List.append_assoc, ← hrest, hbits,
              ← drop_bitsOfNat acc hk, List.take_append_drop]

theorem feedBytes_eq_ok {input out out' : Bytes} {acc accLen acc' accLen' : Nat}
    (hex : Exhausted acc accLen)
    (h : feedBytes input out acc accLen = .ok (out', acc', accLen')) :
    ∃ ys, out' = out ++ ys ∧
      bitsOfNat accLen acc ++ bitsOf input = codedBits ys ++ bitsOfNat accLen' acc' := by
  induction input generalizing out acc accLen with
  | nil =>
      obtain ⟨rfl, hacc⟩ := Prod.mk.inj (Except.ok.inj h)
      obtain ⟨rfl, rfl⟩ := Prod.mk.inj hacc
      exact ⟨[], by rw [List.append_nil], by rw [bitsOf_nil, List.append_nil]; rfl⟩
  | cons b input ih =>
      rw [feedBytes] at h
      have hlen := accLen_lt_thirty hex
      cases hpull : pullSymbols (accLen + 8) out ((acc <<< 8 ||| b.toNat) % 2 ^ 64)
        (accLen + 8) with
      | error e =>
          rw [hpull] at h
          cases h
      | ok pulled =>
          obtain ⟨out₁, accLen₁⟩ := pulled
          rw [hpull] at h
          obtain ⟨ys, rfl, hbits, hex₁⟩ := pullSymbols_eq_ok (Nat.le_refl _) hpull
          obtain ⟨ys', rfl, hrest⟩ := ih hex₁ h
          refine ⟨ys ++ ys', by rw [List.append_assoc], ?_⟩
          have hcoded : codedBits (ys ++ ys') = codedBits ys ++ codedBits ys' := by
            rw [codedBits, List.map_append]
            exact List.flatMap_append
          rw [bitsOf_cons, ← List.append_assoc, ← bitsOfNat_shift_in b (by omega), hbits,
            List.append_assoc, hrest, hcoded, List.append_assoc]

/-- `huffman_decode` accepts the coded strings and nothing else: padding that is not a cut of
EOS, more than seven bits of it, and EOS itself are errors. -/
theorem huffmanDecode_eq_ok_iff {input ys : Bytes} :
    huffmanDecode input = .ok ys ↔ ∃ n < 8, bitsOf input = codedBits ys ++ padding n := by
  constructor
  · intro h
    rw [huffmanDecode] at h
    cases hfeed : feedBytes input [] 0 0 with
    | error e =>
        rw [hfeed] at h
        cases h
    | ok fed =>
        obtain ⟨out, acc, accLen⟩ := fed
        rw [hfeed] at h
        change (if 8 ≤ accLen then _ else if 0 < accLen ∧ acc % 2 ^ accLen ≠ _ then _ else _) = _
          at h
        split at h
        · cases h
        next hlt =>
        split at h
        · cases h
        next hones =>
        obtain rfl := Except.ok.inj h
        have hex : Exhausted 0 0 := by
          intro s hs
          have hlow := (length_codeBits_bounds s).1.trans hs.length_le
          rw [length_bitsOfNat] at hlow
          omega
        obtain ⟨ys, rfl, hbits⟩ := feedBytes_eq_ok hex hfeed
        refine ⟨accLen, Nat.lt_of_not_le hlt, ?_⟩
        have hmask : acc % 2 ^ accLen = 2 ^ accLen - 1 := by
          by_cases hpos : 0 < accLen
          · by_contra hne
            exact hones ⟨hpos, hne⟩
          · obtain rfl : accLen = 0 := by omega
            exact Nat.mod_one acc
        have hpad : bitsOfNat accLen acc = padding accLen := by
          rw [← Base.bitsOfNat_mod (Nat.le_refl accLen), hmask, Base.bitsOfNat_mask]
          rfl
        rw [← hpad]
        exact hbits
  · rintro ⟨n, hn, hbits⟩
    exact huffmanDecode_of_bits hn hbits

end Rsurl.H2
