/-
# `Rsurl.H2.Literal` — HPACK integers and strings read back

What `encode_int` and `encode_literal_string` write, `decode_int` and
`read_string` read: the same number, the same text, and the position behind
it.  The caller's flag bits share the first byte with the integer, so both
lemmas are stated for a first byte that agrees only in its low bits.
-/
import Rsurl.H2.Hpack

namespace Rsurl.H2

/-! ## Integers -/

theorem toNat_bit {k : Nat} (hk : k < 8) : (UInt8.ofNat (2 ^ k)).toNat = 2 ^ k := by
  rw [UInt8.toNat_ofNat', Nat.mod_eq_of_lt (Nat.pow_lt_pow_right (Nat.le_refl 2) hk)]

/-- Testing a flag bit. -/
theorem and_bit_eq_zero {k : Nat} (b : UInt8) (hk : k < 8) :
    b &&& UInt8.ofNat (2 ^ k) = 0 ↔ b.toNat.testBit k = false := by
  rw [← UInt8.toNat_inj, UInt8.toNat_and, toNat_bit hk, Nat.and_two_pow]
  cases b.toNat.testBit k with
  | false => simp
  | true => simp

/-- Setting a flag bit sets no other. -/
theorem testBit_or_bit {k : Nat} (b : UInt8) (hk : k < 8) (i : Nat) :
    (b ||| UInt8.ofNat (2 ^ k)).toNat.testBit i = (b.toNat.testBit i || decide (k = i)) := by
  rw [UInt8.toNat_or, toNat_bit hk, Nat.testBit_or, Nat.testBit_two_pow]

theorem toNat_or_bit {n k : Nat} (b : UInt8) (hn : n ≤ k) (hk : k < 8) :
    (b ||| UInt8.ofNat (2 ^ k)).toNat % 2 ^ n = b.toNat % 2 ^ n := by
  rw [UInt8.toNat_or, toNat_bit hk, Nat.or_mod_two_pow,
    Nat.mod_eq_zero_of_dvd (Nat.pow_dvd_pow 2 hn), Nat.or_zero]

theorem toNat_ofNat_of_lt {n : Nat} (h : n < 256) : (UInt8.ofNat n).toNat = n := by
  rw [UInt8.toNat_ofNat', Nat.mod_eq_of_lt h]

theorem encodeIntRest_of_lt {rem : Nat} (h : rem < 128) :
    encodeIntRest rem = [UInt8.ofNat rem] := by
  rw [encodeIntRest, if_neg (Nat.not_le_of_lt h)]

theorem encodeIntRest_of_le {rem : Nat} (h : 128 ≤ rem) :
    encodeIntRest rem = (UInt8.ofNat (rem % 128) ||| 0x80) :: encodeIntRest (rem / 128) := by
  rw [encodeIntRest, if_pos h, Nat.shiftRight_eq_div_pow]

theorem length_encodeIntRest {k rem : Nat} (h : rem < 2 ^ (7 * (k + 1))) :
    (encodeIntRest rem).length ≤ k + 1 := by
  induction k generalizing rem with
  | zero =>
      have hlt : rem < 128 := by simpa using h
      rw [encodeIntRest_of_lt hlt, List.length_singleton]
  | succ k ih =>
      by_cases hrem : 128 ≤ rem
      · have hdiv : rem / 128 < 2 ^ (7 * (k + 1)) := by
          rw [Nat.mul_succ, Nat.pow_add] at h
          exact Nat.div_lt_of_lt_mul (Nat.mul_comm _ _ ▸ h)
        rw [encodeIntRest_of_le hrem, List.length_cons]
        exact Nat.succ_le_succ (ih hdiv)
      · rw [encodeIntRest_of_lt (Nat.lt_of_not_le hrem), List.length_singleton]
        omega

theorem length_encodeInt {value : Nat} (prefixBits : Nat) (h : value < 2 ^ 64) :
    (encodeInt value prefixBits).length ≤ 11 := by
  simp only [encodeInt]
  split
  · simp
  · have hrem : value - (2 ^ prefixBits - 1) < 2 ^ (7 * (9 + 1)) :=
      Nat.lt_of_le_of_lt (Nat.sub_le _ _)
        (Nat.lt_trans h (Nat.pow_lt_pow_right (Nat.le_refl 2) (by omega)))
    rw [List.length_cons]
    exact Nat.succ_le_succ (length_encodeIntRest hrem)

theorem encodeInt_ne_nil (value prefixBits : Nat) : encodeInt value prefixBits ≠ [] := by
  simp only [encodeInt]
  split
  · exact List.cons_ne_nil _ _
  · exact List.cons_ne_nil _ _

/-- The digits of a number below `2 ^ 64` are read back; the sum so far and the digits still
to come make up that number. -/
theorem decodeIntRest_encodeIntRest {rem value shift j i : Nat} (rest : Bytes)
    (hshift : shift = 7 * j) (h64 : shift ≤ 63) (hv : value + rem * 2 ^ shift < 2 ^ 64) :
    decodeIntRest (encodeIntRest rem ++ rest) i value shift =
      .ok (value + rem * 2 ^ shift, i + (encodeIntRest rem).length) := by
  induction rem using Nat.strongRecOn generalizing value shift j i with
  | _ rem ih =>
      have hpos : 0 < 2 ^ shift := Nat.two_pow_pos shift
      have hdigit : ∀ {d : Nat}, d ≤ rem → d <<< shift % 2 ^ 64 = d * 2 ^ shift := by
        intro d hd
        have hle : d * 2 ^ shift ≤ rem * 2 ^ shift := Nat.mul_le_mul_right _ hd
        rw [Nat.shiftLeft_eq, Nat.mod_eq_of_lt (by omega)]
      by_cases hrem : 128 ≤ rem
      · rw [encodeIntRest_of_le hrem, List.cons_append, List.length_cons]
        have hdig : rem % 128 < 128 := Nat.mod_lt _ (Nat.succ_pos 127)
        have hlow : (UInt8.ofNat (rem % 128) ||| 0x80).toNat % 128 = rem % 128 := by
          have h := toNat_or_bit (k := 7) (UInt8.ofNat (rem % 128)) (Nat.le_refl 7) (by omega)
          rw [toNat_ofNat_of_lt (by omega)] at h
          exact h.trans (Nat.mod_eq_of_lt hdig)
        have hcont : ¬ (UInt8.ofNat (rem % 128) ||| 0x80) &&& 0x80 = 0 := by
          intro hzero
          have h := (and_bit_eq_zero (k := 7) _ (by omega)).mp hzero
          rw [show (0x80 : UInt8) = UInt8.ofNat (2 ^ 7) from rfl,
            testBit_or_bit _ (by omega)] at h
          simp at h
        have hsplit : rem % 128 * 2 ^ shift + rem / 128 * 2 ^ (shift + 7) = rem * 2 ^ shift := by
          rw [Nat.pow_add, ← Nat.mul_assoc, Nat.mul_right_comm, ← Nat.add_mul]
          congr 1
          omega
        have hroom : shift + 7 ≤ 63 := by
          by_contra hbig
          have hge : 2 ^ 64 ≤ 128 * 2 ^ shift := by
            rw [show (128 : Nat) = 2 ^ 7 from rfl, ← Nat.pow_add]
            exact Nat.pow_le_pow_right (by decide) (by omega)
          have hle : 128 * 2 ^ shift ≤ rem * 2 ^ shift := Nat.mul_le_mul_right _ hrem
          omega
        rw [decodeIntRest, hlow, hdigit (Nat.mod_le _ _), if_neg (by omega), if_neg hcont,
          if_neg (Nat.not_lt_of_le hroom),
          ih (rem / 128) (by omega) (by omega : shift + 7 = 7 * (j + 1)) hroom (by omega)]
        rw [Nat.add_assoc, hsplit, Nat.add_assoc, Nat.add_comm 1]
      · have hlt : rem < 128 := Nat.lt_of_not_le hrem
        have hbyte : (UInt8.ofNat rem).toNat = rem := toNat_ofNat_of_lt (by omega)
        have hlast : UInt8.ofNat rem &&& 0x80 = 0 := by
          refine (and_bit_eq_zero (k := 7) _ (by omega)).mpr ?_
          rw [hbyte]
          exact Nat.testBit_lt_two_pow hlt
        rw [encodeIntRest_of_lt hlt, List.singleton_append, decodeIntRest, hbyte,
          Nat.mod_eq_of_lt hlt, hdigit (Nat.le_refl rem), if_neg (by omega), if_pos hlast]
        rfl

/-- The first byte of an integer fits its prefix. -/
theorem head_encodeInt (value : Nat) {prefixBits : Nat} (h : prefixBits ≤ 8) :
    ∃ b tail, encodeInt value prefixBits = b :: tail ∧ b.toNat < 2 ^ prefixBits := by
  have hle : 2 ^ prefixBits ≤ 2 ^ 8 := Nat.pow_le_pow_right (Nat.succ_pos 1) h
  have hpos : 0 < 2 ^ prefixBits := Nat.two_pow_pos prefixBits
  simp only [encodeInt]
  split
  · next hlt =>
      refine ⟨UInt8.ofNat value, [], rfl, ?_⟩
      rw [toNat_ofNat_of_lt (by omega)]
      omega
  · refine ⟨UInt8.ofNat (2 ^ prefixBits - 1), _, rfl, ?_⟩
    rw [toNat_ofNat_of_lt (by omega)]
    omega

/-- An integer is read back from behind any flag bits `mark` puts into its first byte. -/
theorem decodeInt_encodeInt {value prefixBits : Nat} {mark : UInt8 → UInt8} (rest : Bytes)
    (hbits : prefixBits ≤ 8) (hv : value < 2 ^ 64)
    (hmark : ∀ b, (mark b).toNat % 2 ^ prefixBits = b.toNat % 2 ^ prefixBits) :
    decodeInt ((encodeInt value prefixBits).modifyHead mark ++ rest) prefixBits =
      .ok (value, ((encodeInt value prefixBits).modifyHead mark).length) := by
  have hle : 2 ^ prefixBits ≤ 2 ^ 8 := Nat.pow_le_pow_right (Nat.succ_pos 1) hbits
  have hpos : 0 < 2 ^ prefixBits := Nat.two_pow_pos prefixBits
  have hlow : ∀ n < 2 ^ prefixBits, (mark (UInt8.ofNat n)).toNat % 2 ^ prefixBits = n := by
    intro n hn
    rw [hmark, toNat_ofNat_of_lt (by omega), Nat.mod_eq_of_lt hn]
  by_cases hlt : value < 2 ^ prefixBits - 1
  · have henc : encodeInt value prefixBits = [UInt8.ofNat value] := if_pos hlt
    rw [henc, List.modifyHead_cons, List.cons_append, decodeInt, hlow value (by omega)]
    exact if_pos hlt
  · have henc : encodeInt value prefixBits = UInt8.ofNat (2 ^ prefixBits - 1) ::
        encodeIntRest (value - (2 ^ prefixBits - 1)) := if_neg hlt
    have hsum : 2 ^ prefixBits - 1 + (value - (2 ^ prefixBits - 1)) * 2 ^ 0 = value := by omega
    have hrest := decodeIntRest_encodeIntRest (i := 1) (j := 0) rest rfl (Nat.zero_le 63)
      (by rw [hsum]; exact hv)
    rw [hsum] at hrest
    rw [henc, List.modifyHead_cons, List.cons_append, decodeInt,
      hlow (2 ^ prefixBits - 1) (by omega), List.length_cons, Nat.add_comm _ 1, ← hrest]
    exact if_neg (Nat.lt_irrefl _)

/-! ## Positions -/

theorem drop_past {buf a rest : Bytes} {pos : Nat} (h : buf.drop pos = a ++ rest) :
    buf.drop (pos + a.length) = rest := by
  rw [← List.drop_drop, h, List.drop_left]

theorem getElem?_of_drop {buf rest : Bytes} {pos : Nat} {b : UInt8}
    (h : buf.drop pos = b :: rest) : buf[pos]? = some b := by
  have hget := congrArg (·[0]?) h
  simpa using hget

theorem past_le {buf a : Bytes} (rest : Bytes) {pos : Nat} (hne : a ≠ [])
    (h : buf.drop pos = a ++ rest) : pos + a.length ≤ buf.length := by
  have hlen := congrArg List.length h
  have hpos := List.length_pos_of_ne_nil hne
  rw [List.length_drop, List.length_append] at hlen
  omega

/-! ## Strings -/

theorem encodeLiteralString_append (out : Bytes) (s : Text) :
    encodeLiteralString out s = out ++ encodeLiteralString [] s := by
  simp only [encodeLiteralString]
  split
  · rw [List.nil_append]
  · rw [List.nil_append]

/-- A length and as many bytes, read under the Huffman flag `mark` leaves. -/
theorem readString_eq_ok {buf raw rest : Bytes} {pos : Nat} {s : Text} {mark : UInt8 → UInt8}
    (h : buf.drop pos = (encodeInt raw.length 7).modifyHead mark ++ (raw ++ rest))
    (hraw : raw.length < 2 ^ 64) (hbuf : buf.length < 2 ^ 64)
    (hmark : ∀ b, (mark b).toNat % 2 ^ 7 = b.toNat % 2 ^ 7)
    (hs : ((∀ b, (mark b).toNat.testBit 7 = true) ∧ huffmanDecode raw = .ok s.utf8) ∨
      ((∀ b, (mark b).toNat.testBit 7 = false) ∧ raw = s.utf8)) :
    Decoder.readString buf pos =
      .ok (s, pos + ((encodeInt raw.length 7).modifyHead mark ++ raw).length) := by
  obtain ⟨b, tail, hhead, -⟩ := head_encodeInt raw.length (by omega : 7 ≤ 8)
  have hb : buf[pos]? = some (mark b) := by
    rw [hhead, List.modifyHead_cons, List.cons_append] at h
    exact getElem?_of_drop h
  have hint := decodeInt_encodeInt (raw ++ rest) (by omega) hraw hmark
  have hpast := drop_past h
  have hne : (encodeInt raw.length 7).modifyHead mark ++ raw ≠ [] := by
    rw [hhead, List.modifyHead_cons]
    exact List.cons_ne_nil _ _
  have hend := past_le rest hne (by rw [List.append_assoc, ← h])
  rw [List.length_append, ← Nat.add_assoc] at hend ⊢
  have htake : (buf.drop (pos + ((encodeInt raw.length 7).modifyHead mark).length)).take
      raw.length = raw := by
    rw [hpast, List.take_left]
  simp only [Decoder.readString, hb]
  rw [h, hint]
  change (if 2 ^ 64 ≤ _ then _ else if buf.length < _ then _ else _) = _
  rw [if_neg (by omega), if_neg (Nat.not_lt_of_le hend), htake]
  have hflag := and_bit_eq_zero (k := 7) (mark b) (by omega)
  rcases hs with ⟨hset, hdec⟩ | ⟨hclear, rfl⟩
  · have hone : mark b &&& 0x80 ≠ 0 := by
      intro hzero
      rw [hset b] at hflag
      exact Bool.noConfusion (hflag.mp hzero)
    rw [if_pos hone, hdec, Result.ok_bind]
    simp only [fromUtf8_utf8]
  · have hzero : ¬ mark b &&& 0x80 ≠ 0 := fun hne => hne (hflag.mpr (hclear b))
    rw [if_neg hzero, fromUtf8_utf8]

/-- A string literal is read back. -/
theorem readString_encodeLiteralString {buf rest : Bytes} {pos : Nat} {s : Text}
    (h : buf.drop pos = encodeLiteralString [] s ++ rest) (hs : s.utf8.length < 2 ^ 64)
    (hbuf : buf.length < 2 ^ 64) :
    Decoder.readString buf pos = .ok (s, pos + (encodeLiteralString [] s).length) := by
  by_cases hshort : (huffmanEncode s.utf8).length < s.utf8.length
  · have hlit : encodeLiteralString [] s =
        (encodeInt (huffmanEncode s.utf8).length 7).modifyHead (· ||| 0x80) ++
          huffmanEncode s.utf8 := if_pos hshort
    rw [hlit] at h ⊢
    rw [List.append_assoc] at h
    refine readString_eq_ok h (hshort.trans hs) hbuf
      (fun b => toNat_or_bit (k := 7) b (Nat.le_refl 7) (by omega))
      (.inl ⟨?_, huffmanDecode_huffmanEncode s.utf8⟩)
    intro b
    have hbit := testBit_or_bit (k := 7) b (by omega) 7
    simpa using hbit
  · have hlit : encodeLiteralString [] s =
        (encodeInt s.utf8.length 7).modifyHead (· &&& 0x7f) ++ s.utf8 := if_neg hshort
    have hmask : ∀ b : UInt8, (b &&& 0x7f).toNat = b.toNat % 2 ^ 7 := by
      intro b
      rw [UInt8.toNat_and, show (0x7f : UInt8).toNat = 2 ^ 7 - 1 from rfl,
        Nat.and_two_pow_sub_one_eq_mod]
    rw [hlit] at h ⊢
    rw [List.append_assoc] at h
    refine readString_eq_ok h hs hbuf ?_ (.inr ⟨?_, rfl⟩)
    · intro b
      rw [hmask, Nat.mod_mod]
    · intro b
      rw [hmask]
      exact Nat.testBit_lt_two_pow (Nat.mod_lt _ (Nat.two_pow_pos 7))

theorem length_encodeLiteralString {s : Text} (hs : s.utf8.length < 2 ^ 64) :
    (encodeLiteralString [] s).length ≤ 11 + s.utf8.length := by
  simp only [encodeLiteralString]
  split
  · next hshort =>
      have hint := length_encodeInt 7 (hshort.trans hs)
      simp only [List.nil_append, List.length_append, List.length_modifyHead]
      omega
  · have hint := length_encodeInt 7 hs
    simp only [List.nil_append, List.length_append, List.length_modifyHead]
    omega

end Rsurl.H2
