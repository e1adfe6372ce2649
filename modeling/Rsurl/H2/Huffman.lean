/-
# `Rsurl.H2.Huffman` — HPACK's Huffman code

The table of RFC 7541 Appendix B with the encoder and decoder of
`src/http2.rs`.  The encoder writes codes through a bit cursor into a zeroed
buffer, the decoder shifts bytes into an accumulator and tries code lengths
upwards; both are read here as functions on bit strings (`bitsOf`), on which
the code is a prefix code and decoding undoes encoding.
-/
import Mathlib.Data.List.Pairwise
import Rsurl.Base.Bits
import Rsurl.Base.PrefixCode
import Rsurl.Error

namespace Rsurl.H2

open Base (bitsOfNat natOfBits length_bitsOfNat natOfBits_bitsOfNat take_bitsOfNat
  drop_bitsOfNat bitsOfNat_add bitsOf bitsOf_nil bitsOf_cons)

/-! ## The table -/

/-- `HUFFMAN`: code and bit length of each symbol, EOS last. -/
def huffman : List (Nat × Nat) :=
  [(0x1ff8, 13), (0x7fffd8, 23), (0xfffffe2, 28), (0xfffffe3, 28), (0xfffffe4, 28),
   (0xfffffe5, 28), (0xfffffe6, 28), (0xfffffe7, 28), (0xfffffe8, 28), (0xffffea, 24),
   (0x3ffffffc, 30), (0xfffffe9, 28), (0xfffffea, 28), (0x3ffffffd, 30), (0xfffffeb, 28),
   (0xfffffec, 28), (0xfffffed, 28), (0xfffffee, 28), (0xfffffef, 28), (0xffffff0, 28),
   (0xffffff1, 28), (0xffffff2, 28), (0x3ffffffe, 30), (0xffffff3, 28), (0xffffff4, 28),
   (0xffffff5, 28), (0xffffff6, 28), (0xffffff7, 28), (0xffffff8, 28), (0xffffff9, 28),
   (0xffffffa, 28), (0xffffffb, 28), (0x14, 6), (0x3f8, 10), (0x3f9, 10), (0xffa, 12),
   (0x1ff9, 13), (0x15, 6), (0xf8, 8), (0x7fa, 11), (0x3fa, 10), (0x3fb, 10), (0xf9, 8),
   (0x7fb, 11), (0xfa, 8), (0x16, 6), (0x17, 6), (0x18, 6), (0x0, 5), (0x1, 5), (0x2, 5),
   (0x19, 6), (0x1a, 6), (0x1b, 6), (0x1c, 6), (0x1d, 6), (0x1e, 6), (0x1f, 6), (0x5c, 7),
   (0xfb, 8), (0x7ffc, 15), (0x20, 6), (0xffb, 12), (0x3fc, 10), (0x1ffa, 13), (0x21, 6),
   (0x5d, 7), (0x5e, 7), (0x5f, 7), (0x60, 7), (0x61, 7), (0x62, 7), (0x63, 7), (0x64, 7),
   (0x65, 7), (0x66, 7), (0x67, 7), (0x68, 7), (0x69, 7), (0x6a, 7), (0x6b, 7), (0x6c, 7),
   (0x6d, 7), (0x6e, 7), (0x6f, 7), (0x70, 7), (0x71, 7), (0x72, 7), (0xfc, 8), (0x73, 7),
   (0xfd, 8), (0x1ffb, 13), (0x7fff0, 19), (0x1ffc, 13), (0x3ffc, 14), (0x22, 6), (0x7ffd, 15),
   (0x3, 5), (0x23, 6), (0x4, 5), (0x24, 6), (0x5, 5), (0x25, 6), (0x26, 6), (0x27, 6),
   (0x6, 5), (0x74, 7), (0x75, 7), (0x28, 6), (0x29, 6), (0x2a, 6), (0x7, 5), (0x2b, 6),
   (0x76, 7), (0x2c, 6), (0x8, 5), (0x9, 5), (0x2d, 6), (0x77, 7), (0x78, 7), (0x79, 7),
   (0x7a, 7), (0x7b, 7), (0x7ffe, 15), (0x7fc, 11), (0x3ffd, 14), (0x1ffd, 13), (0xffffffc, 28),
   (0xfffe6, 20), (0x3fffd2, 22), (0xfffe7, 20), (0xfffe8, 20), (0x3fffd3, 22), (0x3fffd4, 22),
   (0x3fffd5, 22), (0x7fffd9, 23), (0x3fffd6, 22), (0x7fffda, 23), (0x7fffdb, 23),
   (0x7fffdc, 23), (0x7fffdd, 23), (0x7fffde, 23), (0xffffeb, 24), (0x7fffdf, 23),
   (0xffffec, 24), (0xffffed, 24), (0x3fffd7, 22), (0x7fffe0, 23), (0xffffee, 24),
   (0x7fffe1, 23), (0x7fffe2, 23), (0x7fffe3, 23), (0x7fffe4, 23), (0x1fffdc, 21),
   (0x3fffd8, 22), (0x7fffe5, 23), (0x3fffd9, 22), (0x7fffe6, 23), (0x7fffe7, 23),
   (0xffffef, 24), (0x3fffda, 22), (0x1fffdd, 21), (0xfffe9, 20), (0x3fffdb, 22),
   (0x3fffdc, 22), (0x7fffe8, 23), (0x7fffe9, 23), (0x1fffde, 21), (0x7fffea, 23),
   (0x3fffdd, 22), (0x3fffde, 22), (0xfffff0, 24), (0x1fffdf, 21), (0x3fffdf, 22),
   (0x7fffeb, 23), (0x7fffec, 23), (0x1fffe0, 21), (0x1fffe1, 21), (0x3fffe0, 22),
   (0x1fffe2, 21), (0x7fffed, 23), (0x3fffe1, 22), (0x7fffee, 23), (0x7fffef, 23),
   (0xfffea, 20), (0x3fffe2, 22), (0x3fffe3, 22), (0x3fffe4, 22), (0x7ffff0, 23),
   (0x3fffe5, 22), (0x3fffe6, 22), (0x7ffff1, 23), (0x3ffffe0, 26), (0x3ffffe1, 26),
   (0xfffeb, 20), (0x7fff1, 19), (0x3fffe7, 22), (0x7ffff2, 23), (0x3fffe8, 22),
   (0x1ffffec, 25), (0x3ffffe2, 26), (0x3ffffe3, 26), (0x3ffffe4, 26), (0x7ffffde, 27),
   (0x7ffffdf, 27), (0x3ffffe5, 26), (0xfffff1, 24), (0x1ffffed, 25), (0x7fff2, 19),
   (0x1fffe3, 21), (0x3ffffe6, 26), (0x7ffffe0, 27), (0x7ffffe1, 27), (0x3ffffe7, 26),
   (0x7ffffe2, 27), (0xfffff2, 24), (0x1fffe4, 21), (0x1fffe5, 21), (0x3ffffe8, 26),
   (0x3ffffe9, 26), (0xffffffd, 28), (0x7ffffe3, 27), (0x7ffffe4, 27), (0x7ffffe5, 27),
   (0xfffec, 20), (0xfffff3, 24), (0xfffed, 20), (0x1fffe6, 21), (0x3fffe9, 22), (0x1fffe7, 21),
   (0x1fffe8, 21), (0x7ffff3, 23), (0x3fffea, 22), (0x3fffeb, 22), (0x1ffffee, 25),
   (0x1ffffef, 25), (0xfffff4, 24), (0xfffff5, 24), (0x3ffffea, 26), (0x7ffff4, 23),
   (0x3ffffeb, 26), (0x7ffffe6, 27), (0x3ffffec, 26), (0x3ffffed, 26), (0x7ffffe7, 27),
   (0x7ffffe8, 27), (0x7ffffe9, 27), (0x7ffffea, 27), (0x7ffffeb, 27), (0xffffffe, 28),
   (0x7ffffec, 27), (0x7ffffed, 27), (0x7ffffee, 27), (0x7ffffef, 27), (0x7fffff0, 27),
   (0x3ffffee, 26), (0x3fffffff, 30)]

/-- `HUFFMAN[sym]`. -/
def huffmanEntry (sym : Nat) : Nat × Nat := huffman.getD sym (0, 0)

/-- `lookup_huffman`: the first symbol with this code and length. -/
def lookupHuffman (code len : Nat) : Option Nat :=
  huffman.findIdx? fun (c, l) => l == len && c == code

/-! ## Encoding -/

/-- The inner loop of `huffman_encode`: write the `remaining` low bits of `codeLeft` at
the cursor, as many as fit into the current byte at a time. -/
def placeCode : Nat → Nat → Nat → Nat → Bytes → Bytes × Nat
  | 0, _, _, bitPos, out => (out, bitPos)
  | fuel + 1, remaining, codeLeft, bitPos, out =>
      if remaining = 0 then (out, bitPos)
      else
        let space := 8 - bitPos % 8
        let take := min remaining space
        let shift := remaining - take
        let chunk := (codeLeft >>> shift) % 2 ^ take
        let out := out.modify (bitPos / 8) (· ||| UInt8.ofNat (chunk <<< (space - take)))
        placeCode fuel (remaining - take) (codeLeft % 2 ^ shift) (bitPos + take) out

/-- The outer loop of `huffman_encode`. -/
def placeCodes : Bytes → Nat → Bytes → Bytes × Nat
  | [], bitPos, out => (out, bitPos)
  | b :: input, bitPos, out =>
      let (code, len) := huffmanEntry b.toNat
      let (out, bitPos) := placeCode len len code bitPos out
      placeCodes input bitPos out

/-- The number of bits the codes of `input` take. -/
def totalBits (input : Bytes) : Nat := (input.map fun b => (huffmanEntry b.toNat).2).sum

/-- `huffman_encode`. -/
def huffmanEncode (input : Bytes) : Bytes :=
  let total := totalBits input
  let out := List.replicate ((total + 7) / 8) 0
  let (out, _) := placeCodes input 0 out
  let trailing := (8 - total % 8) % 8
  if 0 < trailing then out.modify (out.length - 1) (· ||| UInt8.ofNat (2 ^ trailing - 1))
  else out

/-! ## Decoding -/

/-- The inner loop of `huffman_decode`: the first length at which the head of the
accumulator is a code. -/
def matchSymbol (acc accLen : Nat) : Option (Nat × Nat) :=
  (List.range' 5 (min accLen 30 - 4)).findSome? fun tryLen =>
    (lookupHuffman ((acc >>> (accLen - tryLen)) % 2 ^ tryLen) tryLen).map fun sym =>
      (sym, tryLen)

/-- Pull symbols from the accumulator while there are some. -/
def pullSymbols : Nat → Bytes → Nat → Nat → Result (Bytes × Nat)
  | 0, out, _, accLen => .ok (out, accLen)
  | fuel + 1, out, acc, accLen =>
      if accLen < 5 then .ok (out, accLen)
      else
        match matchSymbol acc accLen with
        | none => .ok (out, accLen)
        | some (sym, tryLen) =>
            if sym = 256 then
              .error (.badResponse [.str "hpack: EOS symbol in Huffman literal"])
            else pullSymbols fuel (out ++ [UInt8.ofNat sym]) acc (accLen - tryLen)

/-- The byte loop of `huffman_decode`; the accumulator is a `u64`. -/
def feedBytes : Bytes → Bytes → Nat → Nat → Result (Bytes × Nat × Nat)
  | [], out, acc, accLen => .ok (out, acc, accLen)
  | byte :: input, out, acc, accLen => do
      let acc := (acc <<< 8 ||| byte.toNat) % 2 ^ 64
      let (out, accLen) ← pullSymbols (accLen + 8) out acc (accLen + 8)
      feedBytes input out acc accLen

/-- `huffman_decode`. -/
def huffmanDecode (input : Bytes) : Result Bytes := do
  let (out, acc, accLen) ← feedBytes input [] 0 0
  if 8 ≤ accLen then .error (.badResponse [.str "hpack: trailing Huffman bits >= 8"])
  else if 0 < accLen ∧ acc % 2 ^ accLen ≠ 2 ^ accLen - 1 then
    .error (.badResponse [.str "hpack: bad Huffman padding"])
  else .ok out

/-! ## The code is a prefix code -/

/-- The thirty-bit strings that start with a code, as an interval of numbers. -/
def codeSpan (p : Nat × Nat) : Nat × Nat := (p.1 <<< (30 - p.2), (p.1 + 1) <<< (30 - p.2))

/-- No two intervals of the list meet. -/
def spansDisjoint : List (Nat × Nat) → Bool
  | [] => true
  | p :: l => l.all (fun q => Nat.ble p.2 q.1 || Nat.ble q.2 p.1) && spansDisjoint l

theorem length_huffman : huffman.length = 257 := by decide +kernel

theorem huffman_bounds : ∀ p ∈ huffman, 5 ≤ p.2 ∧ p.2 ≤ 30 ∧ p.1 < 2 ^ p.2 := by
  decide +kernel

theorem spansDisjoint_huffman : spansDisjoint (huffman.map codeSpan) = true := by
  decide +kernel

theorem pairwise_of_spansDisjoint {l : List (Nat × Nat)} (h : spansDisjoint l = true) :
    l.Pairwise fun p q => p.2 ≤ q.1 ∨ q.2 ≤ p.1 := by
  induction l with
  | nil => exact .nil
  | cons p l ih =>
      simp only [spansDisjoint, Bool.and_eq_true, List.all_eq_true, Bool.or_eq_true,
        Nat.ble_eq] at h
      exact .cons h.1 (ih h.2)

theorem getElem?_huffman {s : Nat} (h : s < 257) : huffman[s]? = some (huffmanEntry s) := by
  have hlen : s < huffman.length := length_huffman ▸ h
  rw [huffmanEntry, List.getD_eq_getElem?_getD, List.getElem?_eq_getElem hlen]
  rfl

theorem huffmanEntry_bounds {s : Nat} (h : s < 257) :
    5 ≤ (huffmanEntry s).2 ∧ (huffmanEntry s).2 ≤ 30 ∧
      (huffmanEntry s).1 < 2 ^ (huffmanEntry s).2 :=
  huffman_bounds _ (List.mem_of_getElem? (getElem?_huffman h))

/-- The intervals of two different symbols do not meet. -/
theorem codeSpan_disjoint {s t : Nat} (hs : s < 257) (ht : t < 257) (hne : s ≠ t) :
    (codeSpan (huffmanEntry s)).2 ≤ (codeSpan (huffmanEntry t)).1 ∨
      (codeSpan (huffmanEntry t)).2 ≤ (codeSpan (huffmanEntry s)).1 := by
  have hpair := pairwise_of_spansDisjoint spansDisjoint_huffman
  have hlt : ∀ {s t : Nat}, s < t → t < 257 →
      (codeSpan (huffmanEntry s)).2 ≤ (codeSpan (huffmanEntry t)).1 ∨
        (codeSpan (huffmanEntry t)).2 ≤ (codeSpan (huffmanEntry s)).1 := by
    intro s t hst ht
    have hlen : (huffman.map codeSpan).length = 257 := by rw [List.length_map, length_huffman]
    have hget : ∀ {i : Nat} (_ : i < 257) (_ : i < (huffman.map codeSpan).length),
        (huffman.map codeSpan)[i] = codeSpan (huffmanEntry i) := by
      intro i hi _
      obtain ⟨_, heq⟩ := List.getElem?_eq_some_iff.mp (getElem?_huffman hi)
      rw [List.getElem_map, heq]
    have hs' : s < (huffman.map codeSpan).length := hlen ▸ hst.trans ht
    have ht' : t < (huffman.map codeSpan).length := hlen ▸ ht
    have h := List.pairwise_iff_getElem.mp hpair s t hs' ht' hst
    rwa [hget (hst.trans ht) hs', hget ht ht'] at h
  rcases Nat.lt_or_gt_of_ne hne with h | h
  · exact hlt h ht
  · exact (hlt h hs).symm

/-- The bits of a symbol's code. -/
def codeBits (s : Nat) : List Bool := bitsOfNat (huffmanEntry s).2 (huffmanEntry s).1

/-- A code that starts another one is its quotient by a power of two. -/
theorem codeBits_prefixFree {s t : Nat} (hs : s < 257) (ht : t < 257)
    (h : codeBits s <+: codeBits t) : s = t := by
  by_contra hne
  obtain ⟨-, -, hcs⟩ := huffmanEntry_bounds hs
  obtain ⟨-, hlt, hct⟩ := huffmanEntry_bounds ht
  have hspan := codeSpan_disjoint hs ht hne
  have hlen : (huffmanEntry s).2 ≤ (huffmanEntry t).2 := by
    simpa [codeBits] using h.length_le
  obtain ⟨d, hd⟩ := Nat.exists_eq_add_of_le hlen
  obtain ⟨e, he⟩ := Nat.exists_eq_add_of_le hlt
  have hquot : (huffmanEntry s).1 = (huffmanEntry t).1 / 2 ^ d := by
    have htake := List.prefix_iff_eq_take.mp h
    rw [codeBits, codeBits, length_bitsOfNat, take_bitsOfNat _ hlen] at htake
    have hnat := congrArg natOfBits htake
    rw [natOfBits_bitsOfNat, natOfBits_bitsOfNat, Nat.mod_eq_of_lt hcs, hd,
      Nat.add_sub_cancel_left, Nat.shiftRight_eq_div_pow] at hnat
    rw [hnat]
    refine Nat.mod_eq_of_lt (Nat.div_lt_of_lt_mul ?_)
    rw [← Nat.pow_add, Nat.add_comm d, ← hd]
    exact hct
  simp only [codeSpan, Nat.shiftLeft_eq] at hspan
  have hs30 : 30 - (huffmanEntry s).2 = d + e := by omega
  have ht30 : 30 - (huffmanEntry t).2 = e := by omega
  rw [hs30, ht30, Nat.pow_add, ← Nat.mul_assoc, ← Nat.mul_assoc] at hspan
  have hpos : 0 < 2 ^ e := Nat.two_pow_pos e
  have hlow : (huffmanEntry s).1 * 2 ^ d ≤ (huffmanEntry t).1 := by
    rw [hquot]
    exact Nat.div_mul_le_self _ _
  have hhigh : (huffmanEntry t).1 < ((huffmanEntry s).1 + 1) * 2 ^ d := by
    rw [hquot, Nat.mul_comm]
    exact Nat.lt_mul_div_succ _ (Nat.two_pow_pos d)
  rcases hspan with hspan | hspan
  · exact absurd (Nat.le_of_mul_le_mul_right hspan hpos) (Nat.not_le_of_lt hhigh)
  · have hle := Nat.le_of_mul_le_mul_right hspan hpos
    omega

/-- HPACK's code as a prefix code over the 257 symbols. -/
def huffmanCode : Base.PrefixCode (Fin 257) Bool where
  word s := codeBits s
  prefix_free s t h := Fin.ext (codeBits_prefixFree s.isLt t.isLt h)

/-! ## Decoding undoes the code -/

theorem lookupHuffman_eq_some {code len s : Nat} (h : lookupHuffman code len = some s) :
    s < 257 ∧ huffmanEntry s = (code, len) := by
  obtain ⟨hlen, hp, -⟩ := List.findIdx?_eq_some_iff_getElem.mp h
  have hs : s < 257 := length_huffman ▸ hlen
  obtain ⟨_, hentry⟩ := List.getElem?_eq_some_iff.mp (getElem?_huffman hs)
  rw [hentry, Bool.and_eq_true, beq_iff_eq, beq_iff_eq] at hp
  exact ⟨hs, Prod.ext hp.2 hp.1⟩

theorem lookupHuffman_huffmanEntry {s : Nat} (h : s < 257) :
    ∃ s', lookupHuffman (huffmanEntry s).1 (huffmanEntry s).2 = some s' := by
  cases hfind : lookupHuffman (huffmanEntry s).1 (huffmanEntry s).2 with
  | some s' => exact ⟨s', rfl⟩
  | none =>
      have hno := List.findIdx?_eq_none_iff.mp hfind _ (List.mem_of_getElem? (getElem?_huffman h))
      simp at hno

/-- What a match of length `n` at the head of the accumulator means. -/
theorem lookup_head {acc accLen n s : Nat} (hn : n ≤ accLen)
    (h : lookupHuffman ((acc >>> (accLen - n)) % 2 ^ n) n = some s) :
    s < 257 ∧ codeBits s = (bitsOfNat accLen acc).take n := by
  obtain ⟨hs, hentry⟩ := lookupHuffman_eq_some h
  refine ⟨hs, ?_⟩
  rw [codeBits, hentry, take_bitsOfNat _ hn]
  exact Base.bitsOfNat_mod (Nat.le_refl n)

/-- A match is a code the accumulator starts with. -/
theorem matchSymbol_eq_some {acc accLen s n : Nat} (h : matchSymbol acc accLen = some (s, n)) :
    s < 257 ∧ n ≤ accLen ∧ 5 ≤ n ∧ codeBits s = (bitsOfNat accLen acc).take n := by
  obtain ⟨n', hmem, hmap⟩ := List.exists_of_findSome?_eq_some h
  obtain ⟨s', hlook, heq⟩ := Option.map_eq_some_iff.mp hmap
  obtain ⟨rfl, rfl⟩ := Prod.mk.inj heq
  obtain ⟨hlow, hhigh⟩ := List.mem_range'_1.mp hmem
  have hn : n' ≤ accLen := by omega
  obtain ⟨hs, hbits⟩ := lookup_head hn hlook
  exact ⟨hs, hn, hlow, hbits⟩

/-- A code the accumulator starts with is matched. -/
theorem matchSymbol_of_head {acc accLen : Nat} {s : Fin 257}
    (h : codeBits s <+: bitsOfNat accLen acc) :
    matchSymbol acc accLen = some (s.val, (codeBits s).length) := by
  obtain ⟨hlow, hhigh, hcode⟩ := huffmanEntry_bounds s.isLt
  have hlen : (codeBits s).length = (huffmanEntry s).2 := length_bitsOfNat _ _
  have hle : (huffmanEntry s).2 ≤ accLen := by
    simpa [hlen] using h.length_le
  cases hmatch : matchSymbol acc accLen with
  | none =>
      have hmem : (huffmanEntry s).2 ∈ List.range' 5 (min accLen 30 - 4) := by
        rw [List.mem_range'_1]
        omega
      have hnone := List.findSome?_eq_none_iff.mp hmatch _ hmem
      have hhead : (acc >>> (accLen - (huffmanEntry s).2)) % 2 ^ (huffmanEntry s).2
          = (huffmanEntry s).1 := by
        have htake := List.prefix_iff_eq_take.mp h
        rw [hlen, take_bitsOfNat _ hle] at htake
        have hnat := congrArg natOfBits htake
        rw [codeBits, natOfBits_bitsOfNat, natOfBits_bitsOfNat, Nat.mod_eq_of_lt hcode] at hnat
        exact hnat.symm
      obtain ⟨s', hs'⟩ := lookupHuffman_huffmanEntry s.isLt
      simp [hhead, hs'] at hnone
  | some m =>
      obtain ⟨s', n⟩ := m
      obtain ⟨hs', hn, -, hbits⟩ := matchSymbol_eq_some hmatch
      have hpre : huffmanCode.word ⟨s', hs'⟩ <+: bitsOfNat accLen acc := by
        change codeBits s' <+: _
        rw [hbits]
        exact List.take_prefix n _
      obtain rfl : (⟨s', hs'⟩ : Fin 257) = s := huffmanCode.unique hpre h
      have hlen' := congrArg List.length hbits
      simp only [List.length_take, length_bitsOfNat, Nat.min_eq_left hn] at hlen'
      rw [hlen']

theorem length_codeBits_bounds (s : Fin 257) :
    5 ≤ (codeBits s).length ∧ (codeBits s).length ≤ 30 := by
  obtain ⟨hlow, hhigh, -⟩ := huffmanEntry_bounds s.isLt
  rw [codeBits, length_bitsOfNat]
  exact ⟨hlow, hhigh⟩

/-- The symbol of a byte. -/
def byteSymbol (b : UInt8) : Fin 257 := ⟨b.toNat, Nat.lt_succ_of_lt b.toNat_lt⟩

/-- The bits of a coded byte string, before padding. -/
def codedBits (input : Bytes) : List Bool := huffmanCode.encode (input.map byteSymbol)

@[simp] theorem codedBits_nil : codedBits [] = [] := rfl

@[simp] theorem codedBits_cons (b : UInt8) (input : Bytes) :
    codedBits (b :: input) = codeBits b.toNat ++ codedBits input := rfl

/-- The padding of a coded string: at most seven one bits, a cut of the EOS code. -/
def padding (n : Nat) : List Bool := List.replicate n true

theorem codeBits_eos : codeBits 256 = List.replicate 30 true := Base.bitsOfNat_mask 30

theorem padding_prefix_eos {n : Nat} (h : n < 8) : padding n <+: codeBits 256 := by
  rw [codeBits_eos]
  exact ⟨List.replicate (30 - n) true, by
    rw [padding, List.replicate_append_replicate, Nat.add_sub_cancel' (by omega)]⟩

/-- A coded string that starts with a symbol's code starts with that byte. -/
theorem head_of_codedBits {s : Fin 257} {rest : List Bool} {ys : Bytes} {n : Nat} (hn : n < 8)
    (h : codeBits s ++ rest = codedBits ys ++ padding n) :
    ∃ y ys', ys = y :: ys' ∧ s = byteSymbol y ∧ rest = codedBits ys' ++ padding n := by
  have hlen : (padding n).length < (huffmanCode.word (256 : Fin 257)).length := by
    change (padding n).length < (codeBits 256).length
    rw [codeBits_eos, padding, List.length_replicate, List.length_replicate]
    omega
  have hpad : padding n <+: huffmanCode.word (256 : Fin 257) := padding_prefix_eos hn
  obtain ⟨msg, hmsg, hrest⟩ := huffmanCode.head_of_encode hpad hlen h
  cases ys with
  | nil => cases hmsg
  | cons y ys' =>
      obtain ⟨rfl, rfl⟩ := List.cons.inj hmsg
      exact ⟨y, ys', rfl, rfl, hrest⟩

/-- No code starts the bits left in the accumulator. -/
def Exhausted (acc accLen : Nat) : Prop := ∀ s : Fin 257, ¬ codeBits s <+: bitsOfNat accLen acc

/-- An accumulator that starts with no code holds less than a code. -/
theorem accLen_lt_of_exhausted {acc accLen : Nat} {future : List Bool} {ys : Bytes} {n : Nat}
    (hn : n < 8) (hex : Exhausted acc accLen)
    (h : bitsOfNat accLen acc ++ future = codedBits ys ++ padding n) : accLen < 30 := by
  by_contra hlen
  have hlong : 30 ≤ (bitsOfNat accLen acc).length := by
    rw [length_bitsOfNat]
    omega
  cases ys with
  | nil =>
      have htotal := congrArg List.length h
      simp only [List.length_append, codedBits_nil, List.length_nil, padding,
        List.length_replicate] at htotal
      omega
  | cons y ys =>
      rw [codedBits_cons, List.append_assoc] at h
      refine hex (byteSymbol y) (List.prefix_of_prefix_length_le
        ⟨codedBits ys ++ padding n, h.symm⟩ (List.prefix_append _ future) ?_)
      exact (length_codeBits_bounds (byteSymbol y)).2.trans hlong

/-- Pulling symbols moves coded bytes from the accumulator to the output, until the
accumulator is exhausted. -/
theorem pullSymbols_spec (out : Bytes) {fuel acc accLen : Nat} {ys : Bytes} {future : List Bool}
    {n : Nat} (hn : n < 8) (hfuel : accLen ≤ fuel)
    (h : bitsOfNat accLen acc ++ future = codedBits ys ++ padding n) :
    ∃ taken ys' accLen', ys = taken ++ ys' ∧
      pullSymbols fuel out acc accLen = .ok (out ++ taken, accLen') ∧
      bitsOfNat accLen' acc ++ future = codedBits ys' ++ padding n ∧
      Exhausted acc accLen' := by
  induction fuel generalizing accLen out ys with
  | zero =>
      refine ⟨[], ys, accLen, rfl, by rw [pullSymbols, List.append_nil], h, ?_⟩
      intro s hs
      have hlow := (length_codeBits_bounds s).1.trans hs.length_le
      rw [length_bitsOfNat] at hlow
      omega
  | succ fuel ih =>
      rw [pullSymbols]
      split
      · next hshort =>
          refine ⟨[], ys, accLen, rfl, by rw [List.append_nil], h, ?_⟩
          intro s hs
          have hlow := (length_codeBits_bounds s).1.trans hs.length_le
          rw [length_bitsOfNat] at hlow
          omega
      · cases hmatch : matchSymbol acc accLen with
        | none =>
            refine ⟨[], ys, accLen, rfl, by rw [List.append_nil], h, ?_⟩
            intro s hs
            rw [matchSymbol_of_head hs] at hmatch
            cases hmatch
        | some m =>
            obtain ⟨s, k⟩ := m
            obtain ⟨hs, hk, hk5, hbits⟩ := matchSymbol_eq_some hmatch
            have hsplit : bitsOfNat accLen acc = codeBits s ++ bitsOfNat (accLen - k) acc := by
              rw [hbits, ← drop_bitsOfNat acc hk, List.take_append_drop]
            rw [hsplit, List.append_assoc] at h
            obtain ⟨y, ys', rfl, hsym, hrest⟩ := head_of_codedBits (s := ⟨s, hs⟩) hn h
            obtain rfl : s = y.toNat := congrArg Fin.val hsym
            have hbyte : y.toNat ≠ 256 := Nat.ne_of_lt y.toNat_lt
            obtain ⟨taken, ys'', accLen', rfl, hpull, hafter, hex⟩ :=
              ih (out ++ [y]) (by omega) hrest
            refine ⟨y :: taken, ys'', accLen', rfl, ?_, hafter, hex⟩
            simp only [if_neg hbyte, UInt8.ofNat_toNat]
            rw [hpull, List.append_assoc, List.singleton_append]

/-- The bits of the accumulator after a byte is shifted in. -/
theorem bitsOfNat_shift_in {acc accLen : Nat} (b : UInt8) (h : accLen + 8 ≤ 64) :
    bitsOfNat (accLen + 8) ((acc <<< 8 ||| b.toNat) % 2 ^ 64) =
      bitsOfNat accLen acc ++ bitsOfNat 8 b.toNat := by
  have hb : b.toNat < 2 ^ 8 := b.toNat_lt
  rw [Base.bitsOfNat_mod h, bitsOfNat_add]
  congr 1
  · apply Base.bitsOfNat_congr
    intro i _
    have hout : b.toNat.testBit (8 + i) = false :=
      Nat.testBit_lt_two_pow (Nat.lt_of_lt_of_le hb (Nat.pow_le_pow_right (Nat.le_succ 1) (by omega)))
    simp [hout]
  · apply Base.bitsOfNat_congr
    intro i hi
    simp [Nat.not_le_of_lt hi]

/-- Feeding the bytes of a coded string outputs what is coded, and leaves the padding. -/
theorem feedBytes_spec (out : Bytes) {input ys : Bytes} {acc accLen n : Nat} (hn : n < 8)
    (hex : Exhausted acc accLen)
    (h : bitsOfNat accLen acc ++ bitsOf input = codedBits ys ++ padding n) :
    ∃ acc' accLen', feedBytes input out acc accLen = .ok (out ++ ys, acc', accLen') ∧
      bitsOfNat accLen' acc' = padding n := by
  induction input generalizing out ys acc accLen with
  | nil =>
      rw [bitsOf_nil, List.append_nil] at h
      cases ys with
      | nil => exact ⟨acc, accLen, by rw [feedBytes, List.append_nil], h⟩
      | cons y ys =>
          rw [codedBits_cons, List.append_assoc] at h
          exact absurd ⟨_, h.symm⟩ (hex (byteSymbol y))
  | cons b input ih =>
      have hlen : accLen < 30 := accLen_lt_of_exhausted hn hex h
      rw [bitsOf_cons, ← List.append_assoc, ← bitsOfNat_shift_in b (by omega)] at h
      obtain ⟨taken, ys', accLen', rfl, hpull, hrest, hex'⟩ :=
        pullSymbols_spec out hn (Nat.le_refl (accLen + 8)) h
      obtain ⟨acc'', accLen'', hfeed, hpad⟩ := ih (out ++ taken) hex' hrest
      refine ⟨acc'', accLen'', ?_, hpad⟩
      rw [feedBytes, hpull]
      rw [← List.append_assoc, ← hfeed]
      rfl

/-- Decoding a byte string whose bits are a coded string and its padding. -/
theorem huffmanDecode_of_bits {input ys : Bytes} {n : Nat} (hn : n < 8)
    (h : bitsOf input = codedBits ys ++ padding n) : huffmanDecode input = .ok ys := by
  have hex : Exhausted 0 0 := by
    intro s hs
    have hlow := (length_codeBits_bounds s).1.trans hs.length_le
    rw [length_bitsOfNat] at hlow
    omega
  obtain ⟨acc, accLen, hfeed, hpad⟩ := feedBytes_spec [] hn hex h
  have hlen := congrArg List.length hpad
  rw [length_bitsOfNat, padding, List.length_replicate] at hlen
  subst hlen
  have hones := congrArg natOfBits hpad
  rw [natOfBits_bitsOfNat, padding, ← Base.bitsOfNat_mask, natOfBits_bitsOfNat,
    Nat.mod_eq_of_lt (Nat.sub_lt (Nat.two_pow_pos accLen) Nat.one_pos)] at hones
  rw [huffmanDecode, hfeed]
  change (if 8 ≤ accLen then _ else if 0 < accLen ∧ acc % 2 ^ accLen ≠ _ then _ else _) = _
  rw [if_neg (Nat.not_le_of_lt hn), if_neg fun hbad => hbad.2 hones, List.nil_append]

/-- The bit cursor writes a code behind the bits written so far. -/
theorem placeCode_spec (codeLeft : Nat) {fuel remaining k : Nat} {out : Bytes} {w : List Bool}
    (hfuel : remaining ≤ fuel) (hk : remaining ≤ k)
    (h : bitsOf out = w ++ List.replicate k false) :
    ∃ out', placeCode fuel remaining codeLeft w.length out = (out', w.length + remaining) ∧
      bitsOf out' = w ++ (bitsOfNat remaining codeLeft ++
        List.replicate (k - remaining) false) := by
  induction fuel generalizing remaining codeLeft k out w with
  | zero =>
      obtain rfl : remaining = 0 := Nat.le_zero.mp hfuel
      exact ⟨out, rfl, h⟩
  | succ fuel ih =>
      rw [placeCode]
      split
      · next hdone =>
          subst hdone
          exact ⟨out, rfl, h⟩
      · next hmore =>
          generalize hspace : 8 - w.length % 8 = space
          generalize htake : min remaining space = take
          have hmod := congrArg (· % 8) (congrArg List.length h)
          simp only [Base.length_bitsOf, List.length_append, List.length_replicate] at hmod
          have hpos : 0 < take := by omega
          have hle : take ≤ remaining := by omega
          have hbits := Base.bitsOf_modify_or (a := take) (c := space - take)
            (v := codeLeft >>> (remaining - take) % 2 ^ take) h (by omega) (by omega)
            (Nat.mod_lt _ (Nat.two_pow_pos take))
          rw [Base.bitsOfNat_mod (Nat.le_refl take), ← List.append_assoc] at hbits
          have hlen : (w ++ bitsOfNat take (codeLeft >>> (remaining - take))).length =
              w.length + take := by
            rw [List.length_append, length_bitsOfNat]
          obtain ⟨out', hplace, hout⟩ :=
            ih (codeLeft % 2 ^ (remaining - take)) (show remaining - take ≤ fuel by omega)
              (Nat.sub_le_sub_right hk take) hbits
          rw [hlen] at hplace
          refine ⟨out', ?_, ?_⟩
          · have hsum : w.length + remaining = w.length + take + (remaining - take) := by omega
            simp only [htake, hsum, ← hplace]
          · have hcode : bitsOfNat remaining codeLeft =
                bitsOfNat take (codeLeft >>> (remaining - take)) ++
                  bitsOfNat (remaining - take) codeLeft := by
              rw [← bitsOfNat_add, Nat.add_sub_cancel' hle]
            rw [hout, hcode, Base.bitsOfNat_mod (Nat.le_refl _), Nat.sub_sub_sub_cancel_right hle]
            simp only [List.append_assoc]

theorem totalBits_cons (b : UInt8) (input : Bytes) :
    totalBits (b :: input) = (huffmanEntry b.toNat).2 + totalBits input := by
  rw [totalBits, List.map_cons, List.sum_cons, totalBits]

theorem length_codedBits (input : Bytes) : (codedBits input).length = totalBits input := by
  induction input with
  | nil => rfl
  | cons b input ih =>
      rw [codedBits_cons, List.length_append, ih, codeBits, length_bitsOfNat, totalBits_cons]

theorem placeCodes_spec {input out : Bytes} {w : List Bool} {k : Nat}
    (hk : totalBits input ≤ k) (h : bitsOf out = w ++ List.replicate k false) :
    ∃ out', placeCodes input w.length out = (out', w.length + totalBits input) ∧
      bitsOf out' = w ++ (codedBits input ++ List.replicate (k - totalBits input) false) := by
  induction input generalizing out w k with
  | nil => exact ⟨out, rfl, h⟩
  | cons b input ih =>
      rw [totalBits_cons] at hk ⊢
      generalize hentry : huffmanEntry b.toNat = entry at hk
      obtain ⟨code, len⟩ := entry
      obtain ⟨mid, hplace, hmid⟩ :=
        placeCode_spec code (Nat.le_refl len) (by omega : len ≤ k) h
      have hlen : (w ++ bitsOfNat len code).length = w.length + len := by
        rw [List.length_append, length_bitsOfNat]
      rw [← List.append_assoc] at hmid
      obtain ⟨out', hplaces, hout⟩ := ih (by omega : totalBits input ≤ k - len) hmid
      rw [hlen] at hplaces
      have hcode : codeBits b.toNat = bitsOfNat len code := by rw [codeBits, hentry]
      refine ⟨out', ?_, ?_⟩
      · simp only [placeCodes, hentry, hplace]
        rw [hplaces, Nat.add_assoc]
      · rw [hout, codedBits_cons, hcode, Nat.sub_sub]
        simp only [List.append_assoc]

/-- The encoder writes the codes and pads the last byte with ones. -/
theorem bitsOf_huffmanEncode (input : Bytes) :
    ∃ n < 8, bitsOf (huffmanEncode input) = codedBits input ++ padding n := by
  generalize htotal : totalBits input = total
  generalize hlen : (total + 7) / 8 = len
  have hstart : bitsOf (List.replicate len 0) = [] ++ List.replicate (8 * len) false :=
    Base.bitsOf_replicate_zero len
  obtain ⟨out, hplace, hout⟩ := placeCodes_spec (by omega : totalBits input ≤ 8 * len) hstart
  rw [List.nil_append, htotal] at hout
  have hcoded : (codedBits input).length = total := (length_codedBits input).trans htotal
  have houtlen := congrArg List.length hout
  simp only [Base.length_bitsOf, List.length_append, hcoded, List.length_replicate] at houtlen
  refine ⟨(8 - total % 8) % 8, Nat.mod_lt _ (by decide), ?_⟩
  simp only [huffmanEncode, htotal, hlen]
  rw [show placeCodes input 0 (List.replicate len 0) = _ from hplace]
  split
  · next hpad =>
      have hmask : 2 ^ ((8 - total % 8) % 8) - 1 < 2 ^ ((8 - total % 8) % 8) :=
        Nat.sub_lt (Nat.two_pow_pos _) Nat.one_pos
      have hbits := Base.bitsOf_modify_or (c := 0) hout (by omega)
        (by rw [hcoded]; omega) hmask
      have hindex : (codedBits input).length / 8 = out.length - 1 := by
        rw [hcoded]
        omega
      rw [hindex, Nat.shiftLeft_zero, Base.bitsOfNat_mask] at hbits
      simp only [hbits, padding]
      rw [show 8 * len - total - (8 - total % 8) % 8 = 0 by omega, List.replicate_zero,
        List.append_nil]
  · next hnone =>
      have hexact : 8 * len - total = 0 := by omega
      have hzero : (8 - total % 8) % 8 = 0 := by omega
      simp only [hout, hexact, hzero, padding, List.replicate_zero]

/-- Decoding undoes encoding, for any bytes. -/
theorem huffmanDecode_huffmanEncode (input : Bytes) :
    huffmanDecode (huffmanEncode input) = .ok input := by
  obtain ⟨n, hn, hbits⟩ := bitsOf_huffmanEncode input
  exact huffmanDecode_of_bits hn hbits

example : huffmanEncode (Text.utf8 "no-cache".toList) = [0xa8, 0xeb, 0x10, 0x64, 0x9c, 0xbf] := by
  decide +kernel

end Rsurl.H2
