/-
# `Rsurl.H3.Huffman` — the second copy of the Huffman decoder

`mod qpack` has a table and a decoder of its own, with its own messages.  They
are written out here as they stand there, and compared with those of HPACK
entry by entry; what is known about one decoder then holds of the other.  The
decoder is exact: it accepts what the encoder writes, and nothing else.
-/
import Rsurl.H2.HuffmanExact
import Rsurl.H3.Qpack

namespace Rsurl.H3.Qpack

open Base (bitsOf)
open H2 (codedBits codeBits padding byteSymbol)

namespace Own

/-! ## The copy -/

/-- `HUFFMAN` of `mod qpack`. -/
def huffman : List (Nat × Nat) :=
  [(0x1ff8, 13), (0x7fffd8, 23), (0xfffffe2, 28), (0xfffffe3, 28), (0xfffffe4, 28),
   (0xfffffe5, 28), (0xfffffe6, 28), (0xfffffe7, 28), (0xfffffe8, 28), (0xffffea, 24),
   (0x3ffffffc, 30), (0xfffffe9, 28), (0xfffffea, 28), (0x3ffffffd, 30), (0xfffffeb, 28),
   (0xfffffec, 28), (0xfffffed, 28), (0xfffffee, 28), (0xfffffef, 28), (0xffffff0, 28),
   (0xffffff1, 28), (0xffffff2, 28), (0x3ffffffe, 30), (0xffffff3, 28), (0xffffff4, 28),
   (0xffffff5, 28), (0xffffff6, 28), (0xffffff7, 28), (0xffffff8, 28), (0xffffff9, 28),
   (0xffffffa, 28), (0xffffffb, 28), (0x14, 6), (0x3f8, 10), (0x3f9, 10), (0xffa, 12),
   (0x1ff9, 13), (0x15, 6), (0xf8, 8), (0x7fa, 11), (0x3fa, 10), (0x3fb, 10), (0xf9, 8),
   (0x7fb, 11), (0xfa, 8), (0x16, 6), (0x17, 6), (0x18, 6), (0x0, 5), (0x1, 5), (0x2, 5),
   (0x19, 6), (0x1a, 6), (0x1b, 6), (0x1c, 6), (0x1d, 6), (0x1e, 6), (0x1f, 6), (0x5c, 7),
   (0xfb, 8), (0x7ffc, 15), (0x20, 6), (0xffb, 12), (0x3fc, 10), (0x1ffa, 13), (0x21, 6),
   (0x5d, 7), (0x5e, 7), (0x5f, 7), (0x60, 7), (0x61, 7), (0x62, 7), (0x63, 7), (0x64, 7),
   (0x65, 7), (0x66, 7), (0x67, 7), (0x68, 7), (0x69, 7), (0x6a, 7), (0x6b, 7), (0x6c, 7),
   (0x6d, 7), (0x6e, 7), (0x6f, 7), (0x70, 7), (0x71, 7), (0x72, 7), (0xfc, 8), (0x73, 7),
   (0xfd, 8), (0x1ffb, 13), (0x7fff0, 19), (0x1ffc, 13), (0x3ffc, 14), (0x22, 6), (0x7ffd, 15),
   (0x3, 5), (0x23, 6), (0x4, 5), (0x24, 6), (0x5, 5), (0x25, 6), (0x26, 6), (0x27, 6), (0x6, 5),
   (0x74, 7), (0x75, 7), (0x28, 6), (0x29, 6), (0x2a, 6), (0x7, 5), (0x2b, 6), (0x76, 7),
   (0x2c, 6), (0x8, 5), (0x9, 5), (0x2d, 6), (0x77, 7), (0x78, 7), (0x79, 7), (0x7a, 7),
   (0x7b, 7), (0x7ffe, 15), (0x7fc, 11), (0x3ffd, 14), (0x1ffd, 13), (0xffffffc, 28),
   (0xfffe6, 20), (0x3fffd2, 22), (0xfffe7, 20), (0xfffe8, 20), (0x3fffd3, 22), (0x3fffd4, 22),
   (0x3fffd5, 22), (0x7fffd9, 23), (0x3fffd6, 22), (0x7fffda, 23), (0x7fffdb, 23),
   (0x7fffdc, 23), (0x7fffdd, 23), (0x7fffde, 23), (0xffffeb, 24), (0x7fffdf, 23),
   (0xffffec, 24), (0xffffed, 24), (0x3fffd7, 22), (0x7fffe0, 23), (0xffffee, 24),
   (0x7fffe1, 23), (0x7fffe2, 23), (0x7fffe3, 23), (0x7fffe4, 23), (0x1fffdc, 21),
   (0x3fffd8, 22), (0x7fffe5, 23), (0x3fffd9, 22), (0x7fffe6, 23), (0x7fffe7, 23),
   (0xffffef, 24), (0x3fffda, 22), (0x1fffdd, 21), (0xfffe9, 20), (0x3fffdb, 22), (0x3fffdc, 22),
   (0x7fffe8, 23), (0x7fffe9, 23), (0x1fffde, 21), (0x7fffea, 23), (0x3fffdd, 22),
   (0x3fffde, 22), (0xfffff0, 24), (0x1fffdf, 21), (0x3fffdf, 22), (0x7fffeb, 23),
   (0x7fffec, 23), (0x1fffe0, 21), (0x1fffe1, 21), (0x3fffe0, 22), (0x1fffe2, 21),
   (0x7fffed, 23), (0x3fffe1, 22), (0x7fffee, 23), (0x7fffef, 23), (0xfffea, 20), (0x3fffe2, 22),
   (0x3fffe3, 22), (0x3fffe4, 22), (0x7ffff0, 23), (0x3fffe5, 22), (0x3fffe6, 22),
   (0x7ffff1, 23), (0x3ffffe0, 26), (0x3ffffe1, 26), (0xfffeb, 20), (0x7fff1, 19),
   (0x3fffe7, 22), (0x7ffff2, 23), (0x3fffe8, 22), (0x1ffffec, 25), (0x3ffffe2, 26),
   (0x3ffffe3, 26), (0x3ffffe4, 26), (0x7ffffde, 27), (0x7ffffdf, 27), (0x3ffffe5, 26),
   (0xfffff1, 24), (0x1ffffed, 25), (0x7fff2, 19), (0x1fffe3, 21), (0x3ffffe6, 26),
   (0x7ffffe0, 27), (0x7ffffe1, 27), (0x3ffffe7, 26), (0x7ffffe2, 27), (0xfffff2, 24),
   (0x1fffe4, 21), (0x1fffe5, 21), (0x3ffffe8, 26), (0x3ffffe9, 26), (0xffffffd, 28),
   (0x7ffffe3, 27), (0x7ffffe4, 27), (0x7ffffe5, 27), (0xfffec, 20), (0xfffff3, 24),
   (0xfffed, 20), (0x1fffe6, 21), (0x3fffe9, 22), (0x1fffe7, 21), (0x1fffe8, 21), (0x7ffff3, 23),
   (0x3fffea, 22), (0x3fffeb, 22), (0x1ffffee, 25), (0x1ffffef, 25), (0xfffff4, 24),
   (0xfffff5, 24), (0x3ffffea, 26), (0x7ffff4, 23), (0x3ffffeb, 26), (0x7ffffe6, 27),
   (0x3ffffec, 26), (0x3ffffed, 26), (0x7ffffe7, 27), (0x7ffffe8, 27), (0x7ffffe9, 27),
   (0x7ffffea, 27), (0x7ffffeb, 27), (0xffffffe, 28), (0x7ffffec, 27), (0x7ffffed, 27),
   (0x7ffffee, 27), (0x7ffffef, 27), (0x7fffff0, 27), (0x3ffffee, 26), (0x3fffffff, 30)]

/-- `lookup_huffman`. -/
def lookupHuffman (code len : Nat) : Option Nat :=
  huffman.findIdx? fun (c, l) => l == len && c == code

/-- The inner loop of `huffman_decode`. -/
def matchSymbol (acc accLen : Nat) : Option (Nat × Nat) :=
  (List.range' 5 (min accLen 30 - 4)).findSome? fun tryLen =>
    (lookupHuffman ((acc >>> (accLen - tryLen)) % 2 ^ tryLen) tryLen).map fun sym =>
      (sym, tryLen)

/-- Pull symbols from the accumulator while there are some. -/
def pullSymbols : Nat → Bytes → Nat → Nat → Result (Bytes × Nat)
  | 0, out, _, accLen => .ok (out, accLen)
  | fuel + 1, out, acc, accLen =>
      if accLen < 5 then .ok (out, accLen)
      else
        match matchSymbol acc accLen with
        | none => .ok (out, accLen)
        | some (sym, tryLen) =>
            if sym = 256 then .error (bad [.str "qpack: EOS symbol in Huffman literal"])
            else pullSymbols fuel (out ++ [UInt8.ofNat sym]) acc (accLen - tryLen)

/-- The byte loop of `huffman_decode`. -/
def feedBytes : Bytes → Bytes → Nat → Nat → Result (Bytes × Nat × Nat)
  | [], out, acc, accLen => .ok (out, acc, accLen)
  | byte :: input, out, acc, accLen => do
      let acc := (acc <<< 8 ||| byte.toNat) % 2 ^ 64
      let (out, accLen) ← pullSymbols (accLen + 8) out acc (accLen + 8)
      feedBytes input out acc accLen

/-- `huffman_decode` of `mod qpack`. -/
def huffmanDecode (input : Bytes) : Result Bytes := do
  let (out, acc, accLen) ← feedBytes input [] 0 0
  if 8 ≤ accLen then .error (bad [.str "qpack: trailing Huffman bits >= 8"])
  else if 0 < accLen ∧ acc % 2 ^ accLen ≠ 2 ^ accLen - 1 then
    .error (bad [.str "qpack: bad Huffman padding"])
  else .ok out

/-! ## It is the same -/

theorem huffman_eq : huffman = H2.huffman := by decide +kernel

theorem matchSymbol_eq (acc accLen : Nat) :
    matchSymbol acc accLen = H2.matchSymbol acc accLen := by
  have hlookup : ∀ code len, lookupHuffman code len = H2.lookupHuffman code len := by
    intro code len
    rw [lookupHuffman, huffman_eq]
    rfl
  simp only [matchSymbol, H2.matchSymbol, hlookup]

theorem pullSymbols_eq (fuel : Nat) (out : Bytes) (acc accLen : Nat) :
    pullSymbols fuel out acc accLen =
      (H2.pullSymbols fuel out acc accLen).mapError ownMessage := by
  induction fuel generalizing out accLen with
  | zero => rfl
  | succ fuel ih =>
      rw [pullSymbols, H2.pullSymbols, matchSymbol_eq]
      split
      · rfl
      cases H2.matchSymbol acc accLen with
      | none => rfl
      | some found =>
          obtain ⟨sym, tryLen⟩ := found
          simp only
          split
          · rfl
          · exact ih _ _

theorem feedBytes_eq (input out : Bytes) (acc accLen : Nat) :
    feedBytes input out acc accLen =
      (H2.feedBytes input out acc accLen).mapError ownMessage := by
  induction input generalizing out acc accLen with
  | nil => rfl
  | cons b input ih =>
      rw [feedBytes, H2.feedBytes, pullSymbols_eq]
      cases H2.pullSymbols (accLen + 8) out ((acc <<< 8 ||| b.toNat) % 2 ^ 64) (accLen + 8) with
      | error e => rfl
      | ok pulled => exact ih _ _ _

/-- The copy is the decoder of HPACK but for the messages. -/
theorem huffmanDecode_eq (input : Bytes) :
    huffmanDecode input = Qpack.huffmanDecode input := by
  rw [huffmanDecode, Qpack.huffmanDecode, H2.huffmanDecode, feedBytes_eq]
  cases H2.feedBytes input [] 0 0 with
  | error e => rfl
  | ok fed =>
      obtain ⟨out, acc, accLen⟩ := fed
      show (if 8 ≤ accLen then _ else if 0 < accLen ∧ acc % 2 ^ accLen ≠ _ then _ else _) =
        Except.mapError ownMessage (if 8 ≤ accLen then _ else
          if 0 < accLen ∧ acc % 2 ^ accLen ≠ _ then _ else _)
      split
      · rfl
      split
      · rfl
      · rfl

theorem huffmanDecode_eq_ok_iff {x y : Bytes} :
    huffmanDecode x = .ok y ↔ H2.huffmanDecode x = .ok y := by
  rw [huffmanDecode_eq, Qpack.huffmanDecode]
  cases H2.huffmanDecode x with
  | error e => exact ⟨nofun, nofun⟩
  | ok z => exact Iff.rfl

end Own

/-! ## What is accepted -/

/-- The padding is determined by the length. -/
theorem huffmanDecode_eq_ok_iff_encode {x y : Bytes} :
    H2.huffmanDecode x = .ok y ↔ H2.huffmanEncode y = x := by
  constructor
  · intro h
    obtain ⟨n, hn, hbits⟩ := H2.huffmanDecode_eq_ok_iff.mp h
    obtain ⟨m, hm, hencoded⟩ := H2.bitsOf_huffmanEncode y
    have hlen := congrArg List.length hbits
    have hlen' := congrArg List.length hencoded
    rw [Base.length_bitsOf, List.length_append, padding, List.length_replicate] at hlen hlen'
    obtain rfl : m = n := by omega
    exact Base.bitsOf_injective (hencoded.trans hbits.symm)
  · rintro rfl
    exact H2.huffmanDecode_huffmanEncode y

/-- Symbols in front are the front of what is decoded. -/
theorem front_of_codedBits {n : Nat} (hn : n < 8) {ys zs : Bytes} {rest : List Bool}
    (h : codedBits ys ++ rest = codedBits zs ++ padding n) :
    ∃ zs', zs = ys ++ zs' ∧ rest = codedBits zs' ++ padding n := by
  induction ys generalizing zs with
  | nil => exact ⟨zs, rfl, h⟩
  | cons y ys ih =>
      rw [H2.codedBits_cons, List.append_assoc] at h
      obtain ⟨z, zs, rfl, hsym, hrest⟩ := @H2.head_of_codedBits (byteSymbol y) _ _ _ hn h
      have hval : y.toNat = z.toNat := congrArg (fun s : Fin 257 => s.val) hsym
      obtain rfl : y = z := UInt8.toNat_inj.mp hval
      obtain ⟨zs', rfl, hrest'⟩ := ih hrest
      exact ⟨zs', rfl, hrest'⟩

/-- What makes coded octets wrong: behind symbols there are bits that no code begins, too many
or not all ones, or there is the code of EOS. -/
inductive Malformed (x : Bytes) : Prop
  | padded {ys : Bytes} {pad : List Bool} (hbits : bitsOf x = codedBits ys ++ pad)
      (hrest : ∀ s : Fin 257, ¬ codeBits s <+: pad) (hpad : 8 ≤ pad.length ∨ false ∈ pad)
  | eos {ys : Bytes} {rest : List Bool} (hbits : bitsOf x = codedBits ys ++ (codeBits 256 ++ rest))

theorem huffmanDecode_of_malformed {x : Bytes} (h : Malformed x) :
    ∃ e, H2.huffmanDecode x = .error e := by
  cases hdecode : H2.huffmanDecode x with
  | error e => exact ⟨e, rfl⟩
  | ok zs =>
      obtain ⟨n, hn, hencoded⟩ := H2.huffmanDecode_eq_ok_iff.mp hdecode
      exfalso
      cases h with
      | padded hbits hrest hpad =>
          obtain ⟨zs', -, htail⟩ := front_of_codedBits hn (hbits.symm.trans hencoded)
          cases zs' with
          | nil =>
              obtain rfl : _ = padding n := htail
              rcases hpad with hlong | hzero
              · rw [padding, List.length_replicate] at hlong
                omega
              · cases List.eq_of_mem_replicate hzero
          | cons z zs' =>
              rw [H2.codedBits_cons, List.append_assoc] at htail
              exact hrest (byteSymbol z) ⟨_, htail.symm⟩
      | eos hbits =>
          obtain ⟨zs', -, htail⟩ := front_of_codedBits hn (hbits.symm.trans hencoded)
          obtain ⟨z, -, -, hsym, -⟩ := @H2.head_of_codedBits (256 : Fin 257) _ _ _ hn htail
          have hlt := z.toNat_lt
          have hval := congrArg Fin.val hsym
          simp only [byteSymbol] at hval
          omega

/-- Both decoders accept what the encoder writes and nothing else. -/
theorem huffmanDecode_exact (x y : Bytes) :
    (H2.huffmanDecode x = .ok y ↔ H2.huffmanEncode y = x) ∧
    (Own.huffmanDecode x = .ok y ↔ H2.huffmanDecode x = .ok y) ∧
    H2.huffmanDecode (H2.huffmanEncode y) = .ok y ∧
    (Malformed x →
      (∃ e, H2.huffmanDecode x = .error e) ∧ ∃ e, Own.huffmanDecode x = .error e) := by
  refine ⟨huffmanDecode_eq_ok_iff_encode, Own.huffmanDecode_eq_ok_iff,
    H2.huffmanDecode_huffmanEncode y, fun hbad => ?_⟩
  obtain ⟨e, he⟩ := huffmanDecode_of_malformed hbad
  refine ⟨⟨e, he⟩, ownMessage e, ?_⟩
  rw [Own.huffmanDecode_eq, huffmanDecode, he]
  rfl

/-- A digit with zeros behind it. -/
theorem huffmanDecode_exact_zeros : ∃ e, Own.huffmanDecode [0x00] = .error e := by
  have hshort : ∀ s : Fin 257, ¬ codeBits s <+: [false, false, false] := by
    intro s hs
    exact absurd ((H2.length_codeBits_bounds s).1.trans hs.length_le) (by decide)
  have hbad : Malformed [0x00] :=
    @Malformed.padded _ [0x30] _ (by decide +kernel) hshort (.inr (by decide))
  exact ((huffmanDecode_exact [0x00] []).2.2.2 hbad).2

end Rsurl.H3.Qpack
