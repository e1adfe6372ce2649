/-
# `Rsurl.H2.Conformance` — the decoder against RFC 7541

`decode_block` reads what the RFC reads, with two choices of its own: an
integer has at most ten octets behind its prefix, and a table size update
beyond 4096 sets 4096.  One kind of integer is left out, the one whose tenth
octet does not fit into 64 bits any more: its high bits are shifted out before
the sum is checked.
-/
import Rsurl.H2.HpackSpec
import Rsurl.H2.HuffmanExact
import Rsurl.H2.HpackSync

namespace Rsurl.H2

open Rfc (IsInt IsString IsName Field Fields IntTail Profile)

/-! ## Integers -/

theorem and_0x80_eq_zero (b : UInt8) : b &&& 0x80 = 0 ↔ b.toNat < 128 := by
  have h := and_bit_eq_zero (k := 7) b (by decide)
  have hb := b.toNat_lt
  rw [show UInt8.ofNat (2 ^ 7) = 0x80 from rfl] at h
  rw [h, Nat.testBit_eq_decide_div_mod_eq, decide_eq_false_iff_not]
  omega

/-- The last octet an integer of full length may have is 0 or 1. -/
def FitsLast (room : Nat) (tail : Bytes) : Prop :=
  tail.length = room → ∀ b ∈ tail.getLast?, b.toNat ≤ 1

theorem fitsLast_cons {room : Nat} {b : UInt8} {tail : Bytes} (hne : tail ≠ [])
    (h : FitsLast (room + 1) (b :: tail)) : FitsLast room tail := by
  intro hlen c hc
  have hlast : (b :: tail).getLast? = tail.getLast? := by
    obtain ⟨x, tail', rfl⟩ := List.exists_cons_of_ne_nil hne
    rfl
  exact h (congrArg Nat.succ hlen) c (hlast.symm ▸ hc)

theorem Rfc.IntTail.ne_nil {tail : Bytes} {n : Nat} (h : IntTail tail n) : tail ≠ [] := by
  cases h <;> exact List.cons_ne_nil _ _

/-- The digit that the loop adds, before the last one. -/
theorem digit_of_lt {b : UInt8} {j : Nat} (hj : j < 9) :
    (b.toNat % 128) <<< (7 * j) % 2 ^ 64 = b.toNat % 128 * 2 ^ (7 * j) := by
  have hpow : 2 ^ (7 * j) ≤ 2 ^ 56 := Nat.pow_le_pow_right (by decide) (by omega)
  have hmul : b.toNat % 128 * 2 ^ (7 * j) ≤ 127 * 2 ^ 56 :=
    Nat.mul_le_mul (by omega) hpow
  rw [Nat.shiftLeft_eq, Nat.mod_eq_of_lt (by omega)]

theorem digit_of_le_one {b : UInt8} (h : b.toNat ≤ 1) :
    (b.toNat % 128) <<< 63 % 2 ^ 64 = b.toNat * 2 ^ 63 := by
  rw [Nat.shiftLeft_eq, Nat.mod_eq_of_lt (show b.toNat < 128 by omega), Nat.mod_eq_of_lt (by omega)]

/-- The digits the loop reads are those of a number, unless the last one overflows. -/
theorem decodeIntRest_eq_ok {buf : Bytes} {i value j v m : Nat} (hj : j ≤ 9)
    (h : decodeIntRest buf i value (7 * j) = .ok (v, m)) :
    ∃ tail rest n, buf = tail ++ rest ∧ IntTail tail n ∧ m = i + tail.length ∧
      tail.length ≤ 10 - j ∧
      (FitsLast (10 - j) tail → v = value + n * 2 ^ (7 * j) ∧ v < 2 ^ 64) := by
  induction buf generalizing i value j with
  | nil => cases h
  | cons b buf ih =>
      rw [decodeIntRest] at h
      split at h
      · cases h
      next hsum =>
      split at h
      · next hlast =>
          have hb := (and_0x80_eq_zero b).mp hlast
          obtain ⟨rfl, rfl⟩ := Prod.mk.inj (Except.ok.inj h)
          refine ⟨[b], buf, b.toNat, rfl, .last hb, rfl, by simp; omega, fun hfits => ?_⟩
          have hdigit : (b.toNat % 128) <<< (7 * j) % 2 ^ 64 = b.toNat * 2 ^ (7 * j) := by
            by_cases hj9 : j < 9
            · rw [digit_of_lt hj9, Nat.mod_eq_of_lt hb]
            · obtain rfl : j = 9 := by omega
              exact digit_of_le_one (hfits rfl b rfl)
          rw [hdigit] at hsum ⊢
          exact ⟨rfl, Nat.lt_of_not_le hsum⟩
      next hmore =>
      split at h
      · cases h
      next hroom =>
      have hj9 : j < 9 := by omega
      have hb : 128 ≤ b.toNat := Nat.le_of_not_lt fun hlt => hmore ((and_0x80_eq_zero b).mpr hlt)
      rw [← Nat.mul_succ] at h
      obtain ⟨tail, rest, n, rfl, htail, rfl, hlen, hvalue⟩ := ih hj9 h
      have hmod : b.toNat % 128 = b.toNat - 128 := by
        have := b.toNat_lt
        omega
      refine ⟨b :: tail, rest, b.toNat - 128 + 128 * n, rfl, .more hb htail, ?_, ?_, fun hfits => ?_⟩
      · rw [List.length_cons]
        omega
      · rw [List.length_cons]
        omega
      · have hroom' : 10 - j = 10 - (j + 1) + 1 := by omega
        obtain ⟨hv, hlt⟩ := hvalue (fitsLast_cons htail.ne_nil (hroom' ▸ hfits))
        refine ⟨?_, hlt⟩
        rw [hv, digit_of_lt hj9, hmod, Nat.mul_succ, Nat.pow_add]
        ring

/-- A number that fits into 64 bits and ten octets is read. -/
theorem decodeIntRest_of_tail {tail : Bytes} {n i value j : Nat} (htail : IntTail tail n)
    (rest : Bytes) (hlen : tail.length ≤ 10 - j) (hfit : value + n * 2 ^ (7 * j) < 2 ^ 64) :
    decodeIntRest (tail ++ rest) i value (7 * j) =
      .ok (value + n * 2 ^ (7 * j), i + tail.length) := by
  induction htail generalizing i value j with
  | @last b hb =>
      have hdigit : (b.toNat % 128) <<< (7 * j) % 2 ^ 64 = b.toNat * 2 ^ (7 * j) := by
        rw [Nat.shiftLeft_eq, Nat.mod_eq_of_lt hb, Nat.mod_eq_of_lt (by omega)]
      rw [List.singleton_append, decodeIntRest]
      simp only [hdigit, if_neg (Nat.not_le_of_lt hfit), if_pos ((and_0x80_eq_zero b).mpr hb)]
      rfl
  | @more b tail n hb htail ih =>
      have hpos := List.length_pos_of_ne_nil htail.ne_nil
      rw [List.length_cons] at hlen
      have hj9 : j < 9 := by omega
      have hmod : b.toNat % 128 = b.toNat - 128 := by
        have := b.toNat_lt
        omega
      have hsplit : value + (b.toNat - 128 + 128 * n) * 2 ^ (7 * j) =
          value + (b.toNat - 128) * 2 ^ (7 * j) + n * 2 ^ (7 * (j + 1)) := by
        rw [Nat.mul_succ, Nat.pow_add]
        ring
      have hmore : ¬ b &&& 0x80 = 0 := fun h0 => absurd ((and_0x80_eq_zero b).mp h0) (by omega)
      rw [hsplit] at hfit ⊢
      have hdigit : (b.toNat - 128) <<< (7 * j) % 2 ^ 64 = (b.toNat - 128) * 2 ^ (7 * j) := by
        rw [← hmod, digit_of_lt hj9]
      have hrest := @ih (i + 1) (value + (b.toNat - 128) * 2 ^ (7 * j)) (j + 1) (by omega) hfit
      rw [List.cons_append, decodeIntRest]
      simp only [hmod, hdigit, if_neg hmore]
      rw [if_neg (by omega), if_neg (by omega), ← Nat.mul_succ, hrest, List.length_cons]
      congr 2
      omega

/-- The receiver's choices as `decode_int` and `decode_block` make them. -/
def ownProfile : Profile where
  accepts octets n := octets ≤ 11 ∧ n < 2 ^ 64
  sizeSet n := some (min n dynTableCap)

/-- The octets start with an integer of full length whose last octet does not fit: only the
lowest bit of a tenth octet is below `2 ^ 64`. -/
def Spills (k : Nat) (octets : Bytes) : Prop :=
  ∃ lead b rest n, octets = lead ++ b :: rest ∧ IsInt k (lead ++ [b]) n ∧ lead.length = 10 ∧
    1 < b.toNat

/-- `decode_int` reads an integer of the RFC, and the right one unless it spills. -/
theorem decodeInt_eq_ok {buf : Bytes} {k v m : Nat} (h : decodeInt buf k = .ok (v, m))
    (hspill : ¬ Spills k buf) :
    ∃ b lead rest, buf = b :: lead ++ rest ∧ m = (b :: lead).length ∧
      ownProfile.Reads k (b :: lead) v := by
  cases buf with
  | nil => cases h
  | cons b buf =>
      have hb := b.toNat_lt
      rw [decodeInt] at h
      split at h
      · next hsmall =>
          obtain ⟨rfl, rfl⟩ := Prod.mk.inj (Except.ok.inj h)
          refine ⟨b, [], buf, rfl, rfl, .small hsmall, by simp, ?_⟩
          exact Nat.lt_of_le_of_lt (Nat.mod_le _ _) (by omega)
      next hfull =>
      obtain ⟨tail, rest, n, rfl, htail, rfl, hlen, hvalue⟩ :=
        decodeIntRest_eq_ok (j := 0) (Nat.zero_le 9) h
      have hpow := Nat.two_pow_pos k
      have hmasked : b.toNat % 2 ^ k = 2 ^ k - 1 := by
        have := Nat.mod_lt b.toNat hpow
        omega
      have hfits : FitsLast (10 - 0) tail := by
        intro hten c hc
        by_contra hbig
        obtain ⟨init, rfl⟩ := List.getLast?_eq_some_iff.mp (Option.mem_def.mp hc)
        refine hspill ⟨b :: init, c, rest, 2 ^ k - 1 + n, ?_, .full hmasked htail, ?_,
          Nat.lt_of_not_le hbig⟩
        · rw [List.append_assoc, List.cons_append]
          rfl
        · rw [List.length_append, List.length_singleton] at hten
          rw [List.length_cons]
          omega
      obtain ⟨rfl, hlt⟩ := hvalue hfits
      have hv : b.toNat % 2 ^ k + n * 2 ^ (7 * 0) = 2 ^ k - 1 + n := by
        rw [hmasked, Nat.mul_zero, Nat.pow_zero, Nat.mul_one]
      rw [hv] at hlt ⊢
      refine ⟨b, tail, rest, rfl, ?_, .full hmasked htail, ?_, hlt⟩
      · rw [List.length_cons, Nat.add_comm]
      · rw [List.length_cons]
        omega

/-- An integer that is accepted is read. -/
theorem decodeInt_of_reads {bytes rest : Bytes} {k n : Nat} (h : ownProfile.Reads k bytes n) :
    decodeInt (bytes ++ rest) k = .ok (n, bytes.length) := by
  obtain ⟨hint, hlen, hfit⟩ := h
  cases hint with
  | @small b hsmall =>
      rw [List.singleton_append, decodeInt]
      simp only [if_pos hsmall]
      rfl
  | @full b tail n hfull htail =>
      rw [List.length_cons] at hlen
      rw [List.cons_append, decodeInt]
      simp only [hfull, if_neg (Nat.lt_irrefl _)]
      have hrest := @decodeIntRest_of_tail tail n 1 (2 ^ k - 1) 0 htail rest (by omega)
        (by simpa using hfit)
      rw [Nat.mul_zero, Nat.pow_zero, Nat.mul_one] at hrest
      rw [hrest, List.length_cons, Nat.add_comm 1]

/-! ## Strings -/

theorem and_0x40_eq_zero {b : UInt8} (h : b.toNat < 128) : b &&& 0x40 = 0 ↔ b.toNat < 64 := by
  have hbit := and_bit_eq_zero (k := 6) b (by decide)
  rw [show UInt8.ofNat (2 ^ 6) = 0x40 from rfl] at hbit
  rw [hbit, Nat.testBit_eq_decide_div_mod_eq, decide_eq_false_iff_not]
  omega

theorem and_0x20_eq_zero {b : UInt8} (h : b.toNat < 64) : b &&& 0x20 = 0 ↔ b.toNat < 32 := by
  have hbit := and_bit_eq_zero (k := 5) b (by decide)
  rw [show UInt8.ofNat (2 ^ 5) = 0x20 from rfl] at hbit
  rw [hbit, Nat.testBit_eq_decide_div_mod_eq, decide_eq_false_iff_not]
  omega

theorem drop_of_getElem? {buf : Bytes} {pos : Nat} {b : UInt8} (h : buf[pos]? = some b) :
    buf.drop pos = b :: buf.drop (pos + 1) := by
  obtain ⟨hlt, rfl⟩ := List.getElem?_eq_some_iff.mp h
  exact List.drop_eq_getElem_cons hlt

/-- What `read_string` reads is a string literal. -/
theorem isString_of_readString {buf : Bytes} {pos pos' : Nat} {t : Text}
    (h : Decoder.readString buf pos = .ok (t, pos')) (hspill : ¬ Spills 7 (buf.drop pos)) :
    ∃ bytes, buf.drop pos = bytes ++ buf.drop pos' ∧ pos' = pos + bytes.length ∧
      IsString ownProfile bytes t := by
  unfold Decoder.readString at h
  split at h
  · cases h
  next b hget =>
  obtain ⟨⟨len, consumed⟩, hint, h⟩ := Result.bind_eq_ok.mp h
  obtain ⟨b', lead, rest, hdrop, rfl, hreads⟩ := decodeInt_eq_ok hint hspill
  obtain rfl : b' = b := by
    have hhead := drop_of_getElem? hget
    rw [hdrop] at hhead
    exact (List.cons.inj hhead).1
  have hrest : buf.drop (pos + (b' :: lead).length) = rest := drop_past hdrop
  change (if 2 ^ 64 ≤ pos + (b' :: lead).length + len then _
    else if buf.length < pos + (b' :: lead).length + len then _ else _) = _ at h
  split at h
  · cases h
  split at h
  · cases h
  next hfit =>
  rw [hrest] at h
  have hlen : (rest.take len).length = len := by
    have htotal := congrArg List.length hdrop
    rw [List.length_drop, List.length_append] at htotal
    rw [List.length_take]
    omega
  have hraw : buf.drop pos = (b' :: lead ++ rest.take len) ++
      buf.drop (pos + (b' :: lead).length + len) := by
    rw [hdrop, ← List.drop_drop, hrest, List.append_assoc, List.take_append_drop]
  have hend : pos + (b' :: lead).length + len = pos + (b' :: lead ++ rest.take len).length := by
    rw [List.length_append, hlen, Nat.add_assoc]
  rw [← hlen] at hreads
  split at h
  · next hflag =>
      obtain ⟨octets, hdecode, h⟩ := Result.bind_eq_ok.mp h
      obtain ⟨n, hn, hbits⟩ := huffmanDecode_eq_ok_iff.mp hdecode
      rw [← Rfc.codedBits_eq] at hbits
      split at h
      · next t' ht =>
          obtain ⟨rfl, rfl⟩ := Prod.mk.inj (Except.ok.inj h)
          refine ⟨_, hraw, hend, .coded ?_ hreads hn hbits ht⟩
          exact Nat.le_of_not_lt fun hlt => hflag ((and_0x80_eq_zero b').mpr hlt)
      · cases h
  · next hflag =>
      simp only at h
      split at h
      · next t' ht =>
          obtain ⟨rfl, rfl⟩ := Prod.mk.inj (Except.ok.inj h)
          exact ⟨_, hraw, hend, .raw ((and_0x80_eq_zero b').mp (not_not.mp hflag)) hreads ht⟩
      · cases h

/-- Behind a length that is read, what is made of as many bytes. -/
theorem readString_of_reads {buf lead raw rest : Bytes} {b : UInt8} {pos : Nat}
    (hreads : ownProfile.Reads 7 (b :: lead) raw.length)
    (hdrop : buf.drop pos = (b :: lead ++ raw) ++ rest) (hbuf : buf.length < 2 ^ 64) :
    Decoder.readString buf pos =
      if b &&& 0x80 ≠ 0 then
        huffmanDecode raw >>= fun octets =>
          match fromUtf8 octets with
          | some t => .ok (t, pos + (b :: lead ++ raw).length)
          | none => .error (.badResponse [.str "hpack: non-utf8 Huffman literal"])
      else
        match fromUtf8 raw with
        | some t => .ok (t, pos + (b :: lead ++ raw).length)
        | none => .error (.badResponse [.str "hpack: non-utf8 literal"]) := by
  have hend := past_le rest (List.cons_ne_nil b (lead ++ raw)) hdrop
  rw [List.append_assoc] at hdrop
  have hget : buf[pos]? = some b := getElem?_of_drop hdrop
  have hlength : pos + (b :: lead ++ raw).length = pos + (b :: lead).length + raw.length := by
    rw [List.length_append, Nat.add_assoc]
  have htake : (buf.drop (pos + (b :: lead).length)).take raw.length = raw := by
    rw [drop_past hdrop, List.take_left]
  rw [← List.cons_append, hlength] at hend
  rw [hlength]
  simp only [Decoder.readString, hget]
  rw [hdrop, decodeInt_of_reads hreads]
  change (if 2 ^ 64 ≤ _ then _ else if buf.length < _ then _ else _) = _
  rw [if_neg (by omega), if_neg (Nat.not_lt_of_le hend)]
  generalize (buf.drop (pos + (b :: lead).length)).take raw.length = taken at htake ⊢
  subst htake
  rfl

/-- A string literal is read. -/
theorem readString_of_isString {buf bytes rest : Bytes} {pos : Nat} {t : Text}
    (h : IsString ownProfile bytes t) (hdrop : buf.drop pos = bytes ++ rest)
    (hbuf : buf.length < 2 ^ 64) :
    Decoder.readString buf pos = .ok (t, pos + bytes.length) := by
  cases h with
  | @raw b lead raw t hflag hreads ht =>
      rw [readString_of_reads hreads hdrop hbuf,
        if_neg (not_not.mpr ((and_0x80_eq_zero b).mpr hflag)), ht]
  | @coded b lead raw octets n t hflag hreads hn hbits ht =>
      have hset : b &&& 0x80 ≠ 0 := fun hzero => by
        have := (and_0x80_eq_zero b).mp hzero
        omega
      rw [Rfc.codedBits_eq] at hbits
      rw [readString_of_reads hreads hdrop hbuf, if_pos hset,
        huffmanDecode_eq_ok_iff.mpr ⟨n, hn, hbits⟩, Result.ok_bind]
      simp only [ht]

/-! ## The table -/

/-- The decoder's table as the RFC sees it. -/
def Decoder.table (d : Decoder) : Rfc.Table :=
  { entries := d.dynTable.entries, max := d.dynTableCap }

theorem table_injective {d d' : Decoder} (h : d.table = d'.table) : d = d' := by
  obtain ⟨table, cap⟩ := d
  obtain ⟨table', cap'⟩ := d'
  obtain ⟨hentries, rfl⟩ := Rfc.Table.mk.inj h
  congr 1
  refine Base.Fifo.ext hentries ?_
  rw [table.size_eq, table'.size_eq]
  exact congrArg (fun l => (l.map entrySize).sum) hentries

theorem keep_initial (room : Nat) (entries : List (Text × Text)) :
    Rfc.keep room entries <+: entries := by
  fun_induction Rfc.keep room entries with
  | case1 => exact List.prefix_refl _
  | case2 room e entries hfit ih => exact List.cons_prefix_cons.mpr ⟨rfl, ih⟩
  | case3 => exact List.nil_prefix

theorem keep_fits (room : Nat) (entries : List (Text × Text)) :
    ((Rfc.keep room entries).map entrySize).sum ≤ room := by
  fun_induction Rfc.keep room entries with
  | case1 => exact Nat.zero_le _
  | case2 room e entries hfit ih =>
      rw [List.map_cons, List.sum_cons]
      omega
  | case3 => exact Nat.zero_le _

/-- No longer prefix fits. -/
theorem prefix_keep {room : Nat} {entries kept : List (Text × Text)} (h : kept <+: entries)
    (hfit : (kept.map entrySize).sum ≤ room) : kept <+: Rfc.keep room entries := by
  induction entries generalizing room kept with
  | nil => exact h
  | cons e entries ih =>
      cases kept with
      | nil => exact List.nil_prefix
      | cons x kept =>
          obtain ⟨rfl, hrest⟩ := List.cons_prefix_cons.mp h
          rw [List.map_cons, List.sum_cons] at hfit
          rw [Rfc.keep, if_pos (by omega)]
          exact List.cons_prefix_cons.mpr ⟨rfl, ih hrest (by omega)⟩

/-- Dropping the oldest entries one by one leaves the newest that fit. -/
theorem entries_evict (f : DynTable) {cap incoming : Nat} (h : incoming ≤ cap) :
    (f.evict cap incoming).entries = Rfc.keep (cap - incoming) f.entries := by
  have hto : (f.evict cap incoming).entries <+: Rfc.keep (cap - incoming) f.entries := by
    refine prefix_keep (f.evict_prefix_self cap incoming) ?_
    rw [← (f.evict cap incoming).size_eq]
    have := f.evict_size_le h
    omega
  have hfrom : Rfc.keep (cap - incoming) f.entries <+: (f.evict cap incoming).entries := by
    refine Base.Fifo.prefix_evict (keep_initial _ _) ?_
    have := keep_fits (cap - incoming) f.entries
    omega
  exact hto.eq_of_length (Nat.le_antisymm hto.length_le hfrom.length_le)

theorem table_insert (d : Decoder) (name value : Text) :
    (d.insert name value).table = d.table.add (name, value) := by
  refine Rfc.Table.ext ?_ rfl
  show (d.dynTable.insert d.dynTableCap (name, value)).entries = if _ then _ else _
  unfold Base.Fifo.insert
  split
  · next hover =>
      rw [if_neg (show ¬ entrySize (name, value) ≤ d.table.max from Nat.not_le_of_lt hover)]
      rfl
  · next hfit =>
      have hle := Nat.le_of_not_lt hfit
      rw [if_pos (show entrySize (name, value) ≤ d.table.max from hle)]
      exact congrArg (List.cons _) (entries_evict d.dynTable hle)

theorem table_resize (d : Decoder) (n : Nat) :
    (d.resize n).table = d.table.resize (min n dynTableCap) :=
  Rfc.Table.ext (entries_evict d.dynTable (Nat.zero_le _)) rfl

theorem entry_of_ne_zero (d : Decoder) {i : Nat} (h0 : i ≠ 0) :
    (if i ≤ staticTable.length then staticTable[i - 1]?.map fun (n, v) => (n.toList, v.toList)
      else d.dynTable.entries[i - staticTable.length - 1]?) = d.table.entry i := by
  have hidx : i - staticTable.length - 1 = i - 62 := Nat.sub_sub i 61 1
  rw [hidx, Rfc.Table.entry, if_neg h0, Rfc.staticEntries_eq]
  rfl

theorem lookup_eq_ok_iff {d : Decoder} {i : Nat} {e : Text × Text} :
    d.lookup i = .ok e ↔ d.table.entry i = some e := by
  by_cases h0 : i = 0
  · rw [Decoder.lookup, if_pos h0, Rfc.Table.entry, if_pos h0]
    simp only [reduceCtorEq]
  · rw [Decoder.lookup, if_neg h0]
    simp only [entry_of_ne_zero d h0]
    cases d.table.entry i with
    | none => simp only [reduceCtorEq]
    | some e' => simp only [Except.ok.injEq, Option.some.injEq]

/-! ## Representations -/

/-- No integer that reading the block comes upon spills. -/
def Unspilled (t : Rfc.Table) (block : Bytes) : Prop :=
  ∀ k octets, Rfc.Meets ownProfile t block k octets → ¬ Spills k octets

theorem isName_of_readName {d : Decoder} {buf : Bytes} {i pos pos' : Nat} {name : Text}
    (h : d.readName buf i pos = .ok (name, pos'))
    (hspill : i = 0 → ¬ Spills 7 (buf.drop pos)) :
    ∃ named, buf.drop pos = named ++ buf.drop pos' ∧ pos' = pos + named.length ∧
      IsName ownProfile d.table i named name := by
  unfold Decoder.readName at h
  split at h
  · next h0 =>
      subst h0
      obtain ⟨named, hdrop, hend, hstring⟩ := isString_of_readString h (hspill rfl)
      exact ⟨named, hdrop, hend, .new hstring⟩
  · obtain ⟨name', hname, h⟩ := Result.bind_eq_ok.mp h
    obtain ⟨rfl, rfl⟩ := Prod.mk.inj (Except.ok.inj h)
    obtain ⟨⟨n, v⟩, hlook, hfst⟩ := Result.bind_eq_ok.mp hname
    obtain rfl : n = name' := Except.ok.inj hfst
    exact ⟨[], rfl, rfl, .indexed (lookup_eq_ok_iff.mp hlook)⟩

theorem readName_of_isName {d : Decoder} {buf named rest : Bytes} {i pos : Nat} {name : Text}
    (h : IsName ownProfile d.table i named name) (hdrop : buf.drop pos = named ++ rest)
    (hbuf : buf.length < 2 ^ 64) :
    d.readName buf i pos = .ok (name, pos + named.length) := by
  cases h with
  | new hstring =>
      rw [Decoder.readName, if_pos rfl]
      exact readString_of_isString hstring hdrop hbuf
  | @indexed _ _ value hentry =>
      have hne : i ≠ 0 := by
        rintro rfl
        cases hentry
      rw [Decoder.readName, if_neg hne, Decoder.lookupName, lookup_eq_ok_iff.mpr hentry]
      rfl

/-- A literal that was read, behind its first octet `b`. -/
theorem literal_of_reads {d : Decoder} {buf : Bytes} {b : UInt8} {k i n pos pos₁ pos₂ : Nat}
    {name value : Text} (hget : buf[pos]? = some b) (hlit : Rfc.IsLiteral b)
    (hk : Rfc.prefixBits b = k) (hidx : decodeInt (buf.drop pos) k = .ok (i, n))
    (hname : d.readName buf i (pos + n) = .ok (name, pos₁))
    (hvalue : Decoder.readString buf pos₁ = .ok (value, pos₂))
    (hun : Unspilled d.table (buf.drop pos)) :
    ∃ lead named valued, buf.drop pos = b :: lead ++ (named ++ valued) ++ buf.drop pos₂ ∧
      pos₂ = pos + (b :: lead ++ (named ++ valued)).length ∧
      ownProfile.Reads k (b :: lead) i ∧ IsName ownProfile d.table i named name ∧
      IsString ownProfile valued value := by
  have hfirst : ¬ Spills k (buf.drop pos) := by
    refine hun k _ ?_
    rw [drop_of_getElem? hget, ← hk]
    exact .first b _
  obtain ⟨b', lead, rest, hdrop, rfl, hreads⟩ := decodeInt_eq_ok hidx hfirst
  obtain rfl : b' = b := by
    have hhead := drop_of_getElem? hget
    rw [hdrop] at hhead
    exact (List.cons.inj hhead).1
  have hrest := drop_past hdrop
  obtain ⟨named, hnamed, rfl, hisName⟩ := isName_of_readName hname (by
    rintro rfl
    rw [hrest]
    refine hun 7 rest ?_
    rw [hdrop]
    exact .name hlit (hk ▸ hreads))
  obtain ⟨valued, hvalued, rfl, hisString⟩ := isString_of_readString hvalue (by
    refine hun 7 _ ?_
    rw [hdrop, ← hrest, hnamed]
    exact .value hlit (hk ▸ hreads) hisName)
  refine ⟨lead, named, valued, ?_, ?_, hreads, hisName, hisString⟩
  · rw [hdrop, ← hrest, hnamed, hvalued]
    simp only [List.append_assoc]
  · simp only [List.length_append, Nat.add_assoc]

/-- One turn of the loop of `decode_block` reads one representation. -/
theorem field_of_decodeField {d d' : Decoder} {buf : Bytes} {b : UInt8} {pos pos' : Nat}
    {out : Option (Text × Text)} (hget : buf[pos]? = some b)
    (h : d.decodeField buf pos b = .ok (out, pos', d'))
    (hun : Unspilled d.table (buf.drop pos)) :
    ∃ bytes, bytes ≠ [] ∧ buf.drop pos = bytes ++ buf.drop pos' ∧
      pos' = pos + bytes.length ∧ Field ownProfile d.table bytes out d'.table := by
  have hfirst : ∀ {k}, Rfc.prefixBits b = k → ¬ Spills k (buf.drop pos) := by
    intro k hk
    refine hun k _ ?_
    rw [drop_of_getElem? hget, ← hk]
    exact .first b _
  have hhead : ∀ {b' : UInt8} {lead rest : Bytes}, buf.drop pos = b' :: lead ++ rest → b' = b := by
    intro b' lead rest hdrop
    have hhead := drop_of_getElem? hget
    rw [hdrop] at hhead
    exact (List.cons.inj hhead).1
  unfold Decoder.decodeField at h
  split at h
  · next hflag =>
      have hb : 128 ≤ b.toNat := Nat.le_of_not_lt fun hlt => hflag ((and_0x80_eq_zero b).mpr hlt)
      obtain ⟨⟨i, n⟩, hidx, h⟩ := Result.bind_eq_ok.mp h
      obtain ⟨entry, hentry, h⟩ := Result.bind_eq_ok.mp h
      simp only [Except.ok.injEq, Prod.mk.injEq] at h
      obtain ⟨rfl, rfl, rfl⟩ := h
      obtain ⟨b', lead, rest, hdrop, rfl, hreads⟩ :=
        decodeInt_eq_ok hidx (hfirst (if_pos hb))
      obtain rfl := hhead hdrop
      refine ⟨b' :: lead, List.cons_ne_nil _ _, ?_, rfl, ?_⟩
      · rw [drop_past hdrop, hdrop]
      · exact .indexed hb hreads (lookup_eq_ok_iff.mp hentry)
  next hflag7 =>
  have h7 := (and_0x80_eq_zero b).mp (not_not.mp hflag7)
  split at h
  · next hflag =>
      have hb : 64 ≤ b.toNat := Nat.le_of_not_lt fun hlt => hflag ((and_0x40_eq_zero h7).mpr hlt)
      have hk : Rfc.prefixBits b = 6 := by
        rw [Rfc.prefixBits, if_neg (Nat.not_le_of_lt h7), if_pos hb]
      obtain ⟨⟨i, n⟩, hidx, h⟩ := Result.bind_eq_ok.mp h
      obtain ⟨⟨name, pos₁⟩, hname, h⟩ := Result.bind_eq_ok.mp h
      obtain ⟨⟨value, pos₂⟩, hvalue, h⟩ := Result.bind_eq_ok.mp h
      simp only [Except.ok.injEq, Prod.mk.injEq] at h
      obtain ⟨rfl, rfl, rfl⟩ := h
      obtain ⟨lead, named, valued, hdrop, hend, hreads, hisName, hisString⟩ :=
        literal_of_reads hget (.inr ⟨hb, h7⟩) hk hidx hname hvalue hun
      refine ⟨_, List.cons_ne_nil _ _, hdrop, hend, ?_⟩
      rw [table_insert]
      exact .incremental ⟨hb, h7⟩ hreads hisName hisString
  next hflag6 =>
  have h6 := (and_0x40_eq_zero h7).mp (not_not.mp hflag6)
  split at h
  · next hflag =>
      have hb : 32 ≤ b.toNat := Nat.le_of_not_lt fun hlt => hflag ((and_0x20_eq_zero h6).mpr hlt)
      have hk : Rfc.prefixBits b = 5 := by
        rw [Rfc.prefixBits, if_neg (Nat.not_le_of_lt h7), if_neg (Nat.not_le_of_lt h6), if_pos hb]
      obtain ⟨⟨size, n⟩, hint, h⟩ := Result.bind_eq_ok.mp h
      simp only [Except.ok.injEq, Prod.mk.injEq] at h
      obtain ⟨rfl, rfl, rfl⟩ := h
      obtain ⟨b', lead, rest, hdrop, rfl, hreads⟩ := decodeInt_eq_ok hint (hfirst hk)
      obtain rfl := hhead hdrop
      refine ⟨b' :: lead, List.cons_ne_nil _ _, ?_, rfl, ?_⟩
      · rw [drop_past hdrop, hdrop]
      · show Field ownProfile d.table (b' :: lead) none (d.resize size).table
        rw [table_resize]
        exact .resize ⟨hb, h6⟩ hreads rfl
  next hflag5 =>
  have h5 := (and_0x20_eq_zero h6).mp (not_not.mp hflag5)
  have hk : Rfc.prefixBits b = 4 := by
    rw [Rfc.prefixBits, if_neg (Nat.not_le_of_lt h7), if_neg (Nat.not_le_of_lt h6),
      if_neg (Nat.not_le_of_lt h5)]
  obtain ⟨⟨i, n⟩, hidx, h⟩ := Result.bind_eq_ok.mp h
  obtain ⟨⟨name, pos₁⟩, hname, h⟩ := Result.bind_eq_ok.mp h
  obtain ⟨⟨value, pos₂⟩, hvalue, h⟩ := Result.bind_eq_ok.mp h
  simp only [Except.ok.injEq, Prod.mk.injEq] at h
  obtain ⟨rfl, rfl, rfl⟩ := h
  obtain ⟨lead, named, valued, hdrop, hend, hreads, hisName, hisString⟩ :=
    literal_of_reads hget (.inl h5) hk hidx hname hvalue hun
  exact ⟨_, List.cons_ne_nil _ _, hdrop, hend, .plain h5 hreads hisName hisString⟩

/-- A literal is read: the index, the name and the value, each where the last one ended. -/
theorem reads_of_literal {d : Decoder} {buf lead named valued rest : Bytes} {b : UInt8}
    {k i pos : Nat} {name value : Text} (hbuf : buf.length < 2 ^ 64)
    (hdrop : buf.drop pos = b :: lead ++ (named ++ valued) ++ rest)
    (hidx : ownProfile.Reads k (b :: lead) i) (hname : IsName ownProfile d.table i named name)
    (hvalue : IsString ownProfile valued value) :
    buf[pos]? = some b ∧ decodeInt (buf.drop pos) k = .ok (i, (b :: lead).length) ∧
      d.readName buf i (pos + (b :: lead).length) =
        .ok (name, pos + (b :: lead).length + named.length) ∧
      Decoder.readString buf (pos + (b :: lead).length + named.length) =
        .ok (value, pos + (b :: lead ++ (named ++ valued)).length) := by
  rw [List.append_assoc, List.append_assoc] at hdrop
  have hnamed := drop_past hdrop
  have hvalued := drop_past hnamed
  have hend : pos + (b :: lead).length + named.length + valued.length =
      pos + (b :: lead ++ (named ++ valued)).length := by
    simp only [List.length_append, Nat.add_assoc]
  refine ⟨getElem?_of_drop hdrop, ?_, readName_of_isName hname hnamed hbuf, ?_⟩
  · rw [hdrop]
    exact decodeInt_of_reads hidx
  · rw [← hend]
    exact readString_of_isString hvalue hvalued hbuf

/-- Where a representation stands, the loop of `decode_block` reads it. -/
theorem decodesTo_of_field {d : Decoder} {bytes : Bytes} {out : Option (Text × Text)}
    {t' : Rfc.Table} (h : Field ownProfile d.table bytes out t') :
    ∃ d', d'.table = t' ∧ DecodesTo d d' bytes out.toList := by
  cases h with
  | @indexed b lead i e hflag hidx hentry =>
      have h7 : b &&& 0x80 ≠ 0 := fun hzero =>
        absurd ((and_0x80_eq_zero b).mp hzero) (Nat.not_lt_of_le hflag)
      refine ⟨d, rfl, DecodesTo.field (List.cons_ne_nil _ _) ?_⟩
      intro buf rest pos hbuf hdrop
      refine ⟨b, getElem?_of_drop hdrop, ?_⟩
      rw [Decoder.decodeField, if_pos h7, hdrop, decodeInt_of_reads hidx]
      show (d.lookup i >>= _) = _
      rw [lookup_eq_ok_iff.mpr hentry]
      rfl
  | @incremental b lead named valued i name value hflag hidx hname hvalue =>
      have h7 := (and_0x80_eq_zero b).mpr hflag.2
      have h6 : b &&& 0x40 ≠ 0 := fun hzero =>
        absurd ((and_0x40_eq_zero hflag.2).mp hzero) (Nat.not_lt_of_le hflag.1)
      refine ⟨d.insert name value, table_insert d name value,
        DecodesTo.field (List.cons_ne_nil _ _) ?_⟩
      intro buf rest pos hbuf hdrop
      obtain ⟨hget, hint, hreadName, hreadValue⟩ :=
        reads_of_literal hbuf hdrop hidx hname hvalue
      refine ⟨b, hget, ?_⟩
      rw [Decoder.decodeField, if_neg (not_not.mpr h7), if_pos h6, hint]
      show (d.readName buf i (pos + (b :: lead).length) >>= _) = _
      rw [hreadName]
      show (Decoder.readString buf (pos + (b :: lead).length + named.length) >>= _) = _
      rw [hreadValue]
      rfl
  | @resize b lead n size hflag hint hsize =>
      have hlt : b.toNat < 128 := by omega
      have h7 := (and_0x80_eq_zero b).mpr hlt
      have h6 := (and_0x40_eq_zero hlt).mpr hflag.2
      have h5 : b &&& 0x20 ≠ 0 := fun hzero =>
        absurd ((and_0x20_eq_zero hflag.2).mp hzero) (Nat.not_lt_of_le hflag.1)
      obtain rfl : min n dynTableCap = size := Option.some.inj hsize
      refine ⟨d.resize n, table_resize d n, DecodesTo.update (List.cons_ne_nil _ _) ?_⟩
      intro buf rest pos _ hdrop
      refine ⟨b, getElem?_of_drop hdrop, ?_⟩
      rw [Decoder.decodeField, if_neg (not_not.mpr h7), if_neg (not_not.mpr h6), if_pos h5, hdrop,
        decodeInt_of_reads hint]
      rfl
  | @plain b lead named valued i name value hflag hidx hname hvalue =>
      have hlt : b.toNat < 128 := by omega
      have h7 := (and_0x80_eq_zero b).mpr hlt
      have h6 := (and_0x40_eq_zero hlt).mpr (by omega)
      have h5 := (and_0x20_eq_zero (b := b) (by omega)).mpr hflag
      refine ⟨d, rfl, DecodesTo.field (List.cons_ne_nil _ _) ?_⟩
      intro buf rest pos hbuf hdrop
      obtain ⟨hget, hint, hreadName, hreadValue⟩ :=
        reads_of_literal hbuf hdrop hidx hname hvalue
      refine ⟨b, hget, ?_⟩
      rw [Decoder.decodeField, if_neg (not_not.mpr h7), if_neg (not_not.mpr h6),
        if_neg (not_not.mpr h5), hint]
      show (d.readName buf i (pos + (b :: lead).length) >>= _) = _
      rw [hreadName]
      show (Decoder.readString buf (pos + (b :: lead).length + named.length) >>= _) = _
      rw [hreadValue]
      rfl

/-! ## Blocks -/

theorem decodesTo_of_fields {t t' : Rfc.Table} {block : Bytes} {headers : List (Text × Text)}
    (h : Fields ownProfile t block headers t') {d : Decoder} (hd : d.table = t) :
    ∃ d', d'.table = t' ∧ DecodesTo d d' block headers := by
  induction h generalizing d with
  | nil t => exact ⟨d, hd, DecodesTo.nil d⟩
  | cons hfield _ ih =>
      subst hd
      obtain ⟨d₁, rfl, hfirst⟩ := decodesTo_of_field hfield
      obtain ⟨d', hd', hrest⟩ := ih rfl
      exact ⟨d', hd', hfirst.append hrest⟩

theorem fields_of_end {d d' : Decoder} {buf : Bytes} {pos size : Nat}
    {out l : List (Text × Text)} (hend : buf.length ≤ pos) (hsize : size ≤ maxDecodedHeaderList)
    (h : ((.ok out : Result (List (Text × Text))), d) = (.ok l, d')) :
    ∃ headers, l = out ++ headers ∧ Fields ownProfile d.table (buf.drop pos) headers d'.table ∧
      size + listSize headers ≤ maxDecodedHeaderList := by
  obtain ⟨hl, rfl⟩ := Prod.mk.inj h
  obtain rfl := Except.ok.inj hl
  rw [List.drop_of_length_le hend]
  exact ⟨[], (List.append_nil _).symm, .nil _, hsize⟩

/-- The loop of `decode_block` reads a block of the RFC, up to the end of the buffer. -/
theorem fields_of_decodeLoop {fuel : Nat} {d d' : Decoder} {buf : Bytes} {pos size : Nat}
    {out l : List (Text × Text)} (hfuel : buf.length ≤ pos + fuel)
    (hsize : size ≤ maxDecodedHeaderList) (hun : Unspilled d.table (buf.drop pos))
    (h : Decoder.decodeLoop fuel d buf pos size out = (.ok l, d')) :
    ∃ headers, l = out ++ headers ∧ Fields ownProfile d.table (buf.drop pos) headers d'.table ∧
      size + listSize headers ≤ maxDecodedHeaderList := by
  induction fuel generalizing d pos size out with
  | zero => exact fields_of_end (by omega) hsize h
  | succ fuel ih =>
      rw [Decoder.decodeLoop] at h
      split at h
      · next hnone => exact fields_of_end (List.getElem?_eq_none_iff.mp hnone) hsize h
      next b hget =>
      split at h
      · cases h
      · next pos₁ d₁ hfield =>
          obtain ⟨bytes, hne, hdrop, rfl, hisField⟩ := field_of_decodeField hget hfield hun
          have hpos := List.length_pos_of_ne_nil hne
          obtain ⟨headers, hl, hrest, hwithin⟩ := ih (by omega) hsize
            (fun k octets hmeets => hun k octets (hdrop ▸ .next hisField hmeets)) h
          exact ⟨headers, hl, hdrop ▸ .cons hisField hrest, hwithin⟩
      · next entry pos₁ d₁ hfield =>
          obtain ⟨bytes, hne, hdrop, rfl, hisField⟩ := field_of_decodeField hget hfield hun
          have hpos := List.length_pos_of_ne_nil hne
          simp only at h
          split at h
          · cases h
          next hfits =>
          obtain ⟨headers, hl, hrest, hwithin⟩ := ih (by omega) (Nat.le_of_not_lt hfits)
            (fun k octets hmeets => hun k octets (hdrop ▸ .next hisField hmeets)) h
          refine ⟨entry :: headers, ?_, hdrop ▸ .cons hisField hrest, ?_⟩
          · rw [hl, List.append_assoc, List.singleton_append]
          · rw [listSize_cons]
            omega

/-- A block without an integer that spills is decoded as the RFC has it, with the receiver's
own choices. -/
theorem decodeBlock_eq_ok_iff {d d' : Decoder} {block : Bytes} {headers : List (Text × Text)}
    (hlen : block.length < 2 ^ 64) (hun : Unspilled d.table block) :
    d.decodeBlock block = (.ok headers, d') ↔
      Rfc.Decodes ownProfile d.table block headers d'.table := by
  constructor
  · intro h
    obtain ⟨l, hl, hfields, hwithin⟩ :=
      fields_of_decodeLoop (by omega) (Nat.zero_le _) hun h
    rw [List.nil_append] at hl
    subst hl
    rw [Nat.zero_add] at hwithin
    exact ⟨hfields, hwithin⟩
  · rintro ⟨hfields, hwithin⟩
    obtain ⟨d₁, htable, hto⟩ := decodesTo_of_fields hfields rfl
    obtain rfl := table_injective htable
    exact hto.decodeBlock hlen hwithin

/-! ## Sequences of blocks -/

/-- A decoder after blocks it has decoded, in none of which an integer spilled. -/
inductive Decoded : List Bytes → Decoder → Prop
  | nil : Decoded [] .new
  | snoc {blocks : List Bytes} {block : Bytes} {d d' : Decoder} {headers : List (Text × Text)}
      (h : Decoded blocks d) (hlen : block.length < 2 ^ 64) (hun : Unspilled d.table block)
      (hok : d.decodeBlock block = (.ok headers, d')) : Decoded (blocks ++ [block]) d'

/-- The table of the RFC after blocks that decode. -/
inductive Rfc.After (p : Profile) : List Bytes → Rfc.Table → Prop
  | nil : After p [] .new
  | snoc {blocks : List Bytes} {block : Bytes} {t t' : Rfc.Table}
      {headers : List (Text × Text)} (h : After p blocks t)
      (hok : Rfc.Decodes p t block headers t') : After p (blocks ++ [block]) t'

theorem Decoded.after {blocks : List Bytes} {d : Decoder} (h : Decoded blocks d) :
    Rfc.After ownProfile blocks d.table := by
  induction h with
  | nil => exact .nil
  | snoc _ hlen hun hok ih => exact .snoc ih ((decodeBlock_eq_ok_iff hlen hun).mp hok)

/-- After any blocks that decoded the table is the RFC's, and the next block decodes to a list
and leaves a table if and only if the RFC says so. -/
theorem decoder_conforms {blocks : List Bytes} {d : Decoder} {block : Bytes}
    (h : Decoded blocks d) (hlen : block.length < 2 ^ 64) (hun : Unspilled d.table block) :
    Rfc.After ownProfile blocks d.table ∧
      ∀ headers t', (∃ d', d.decodeBlock block = (.ok headers, d') ∧ d'.table = t') ↔
        Rfc.Decodes ownProfile d.table block headers t' := by
  refine ⟨h.after, fun headers t' => ⟨?_, fun hdecodes => ?_⟩⟩
  · rintro ⟨d', hok, rfl⟩
    exact (decodeBlock_eq_ok_iff hlen hun).mp hok
  · obtain ⟨d', htable, -⟩ := decodesTo_of_fields hdecodes.fields rfl
    refine ⟨d', (decodeBlock_eq_ok_iff hlen hun).mpr ?_, htable⟩
    rw [htable]
    exact hdecodes

theorem length_of_meets {p : Profile} {t : Rfc.Table} {block octets : Bytes} {k : Nat}
    (h : Rfc.Meets p t block k octets) : octets.length ≤ block.length := by
  induction h with
  | first => exact Nat.le_refl _
  | name =>
      rw [List.length_append]
      exact Nat.le_add_left _ _
  | value =>
      simp only [List.length_append]
      omega
  | next _ _ ih =>
      rw [List.length_append]
      exact ih.trans (Nat.le_add_left _ _)

/-- Ten octets are too few for an integer that spills. -/
theorem unspilled_of_length {t : Rfc.Table} {block : Bytes} (h : block.length ≤ 10) :
    Unspilled t block := by
  rintro k octets hmeets ⟨lead, b, rest, n, rfl, -, hlead, -⟩
  have hlen := length_of_meets hmeets
  rw [List.length_append, List.length_cons] at hlen
  omega

/-- `:method: GET` is decoded on a connection that has carried a table size update. -/
theorem decoder_conforms_after_update :
    Rfc.After ownProfile [[0x3f, 0xe1, 0x3f]] (Decoder.resize .new 8192).table ∧
      ∀ headers t', (∃ d', (Decoder.resize .new 8192).decodeBlock [0x82] = (.ok headers, d') ∧
        d'.table = t') ↔
          Rfc.Decodes ownProfile (Decoder.resize .new 8192).table [0x82] headers t' :=
  decoder_conforms
    (.snoc .nil (by decide) (unspilled_of_length (by decide))
      (show Decoder.new.decodeBlock [0x3f, 0xe1, 0x3f] = (.ok [], _) from rfl))
    (by decide) (unspilled_of_length (by decide))

/-! ## A table size update beyond the limit -/

/-- The choices of a receiver that takes every number of 64 bits, however it is written, and
for which an update beyond the limit is an error. -/
def strictProfile : Profile where
  accepts _ n := n < 2 ^ 64
  sizeSet n := if n ≤ dynTableCap then some n else none

/-- An update to 8192. -/
def updateBeyond : Bytes := [0x3f, 0xe1, 0x3f]

/-- An update to 31 that is written with eleven octets behind its prefix. -/
def updateLong : Bytes :=
  [0x3f, 0x80, 0x80, 0x80, 0x80, 0x80, 0x80, 0x80, 0x80, 0x80, 0x80, 0x00]

theorem not_decodes_updateBeyond (headers : List (Text × Text)) (t' : Rfc.Table) :
    ¬ Rfc.Decodes strictProfile .new updateBeyond headers t' := by
  rintro ⟨hfields, -⟩
  generalize hblock : updateBeyond = block at hfields
  cases hfields with
  | nil => cases hblock
  | @cons _ _ _ bytes rest out headers hfield hrest =>
      cases hfield with
      | @indexed b lead _ _ hflag =>
          obtain rfl : 0x3f = b := (List.cons.inj hblock).1
          exact absurd hflag (by decide)
      | @incremental b lead _ _ _ _ _ hflag =>
          obtain rfl : 0x3f = b := (List.cons.inj hblock).1
          exact absurd hflag.1 (by decide)
      | @plain b lead _ _ _ _ _ hflag =>
          obtain rfl : 0x3f = b := (List.cons.inj hblock).1
          exact absurd hflag (by decide)
      | @resize b lead n size hflag hint hsize =>
          have hlen : 3 = (b :: lead ++ _).length := congrArg List.length hblock
          simp only [List.length_append, List.length_cons] at hlen
          have hreads : ownProfile.Reads 5 (b :: lead) n :=
            ⟨hint.isInt, by rw [List.length_cons]; omega, hint.accepted⟩
          have hread := @decodeInt_of_reads _ rest _ _ hreads
          rw [← hblock] at hread
          have hn : decodeInt updateBeyond 5 = .ok (8192, 3) := by decide
          rw [hn] at hread
          obtain ⟨rfl, -⟩ := Prod.mk.inj (Except.ok.inj hread)
          cases hsize

theorem decodes_updateLong :
    Rfc.Decodes strictProfile .new updateLong [] (Rfc.Table.resize .new 31) := by
  have hpad : ∀ {tail : Bytes}, IntTail tail 0 → IntTail (0x80 :: tail) 0 := by
    intro tail htail
    exact .more (by decide) htail
  have htail : IntTail updateLong.tail 0 :=
    hpad (hpad (hpad (hpad (hpad (hpad (hpad (hpad (hpad (hpad (.last (by decide)))))))))))
  have hreads : strictProfile.Reads 5 updateLong 31 := ⟨.full rfl htail, show 31 < 2 ^ 64 by decide⟩
  exact ⟨.cons (.resize (by decide) hreads rfl) (.nil _), Nat.zero_le _⟩

/-- The decoder takes an update to 8192, which is an error of the RFC, for one to 4096, and
refuses an update that is within the limit but longer than its integers may be. -/
theorem updates_differ :
    ((Decoder.new.decodeBlock updateBeyond).1 = .ok [] ∧
      ¬ ∃ headers t', Rfc.Decodes strictProfile .new updateBeyond headers t') ∧
    (Decoder.new.decodeBlock updateLong).1 ≠ .ok [] ∧
      Rfc.Decodes strictProfile .new updateLong [] (Rfc.Table.resize .new 31) :=
  ⟨⟨rfl, fun ⟨headers, t', hdecodes⟩ => not_decodes_updateBeyond headers t' hdecodes⟩,
    by decide, decodes_updateLong⟩

end Rsurl.H2
