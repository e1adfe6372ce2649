/-
# `Rsurl.H2.Resize` — the dynamic tables under changes of their size

Between two blocks the encoder's table is cut to one size after another, the
decoder's to the last of them only, which is all that is signalled.  The two
stay equal, and every size that took an entry is signalled, if and only if
these sizes are all the last one (`tables_same`).
-/
import Rsurl.H2.HpackSync

namespace Rsurl.H2

/-! ## The two ends -/

/-- The sizes that the table-size updates at the head of a block announce. -/
def updatesOf : Nat → Bytes → List Nat
  | 0, _ => []
  | fuel + 1, block =>
      match block.head? with
      | none => []
      | some b =>
          if b &&& 0x80 = 0 ∧ b &&& 0x40 = 0 ∧ b &&& 0x20 ≠ 0 then
            match decodeInt block 5 with
            | .ok (size, len) => size :: updatesOf fuel (block.drop len)
            | .error _ => []
          else []

/-- The sizes that a block announces. -/
def announced (block : Bytes) : List Nat := updatesOf block.length block

/-- An encoder, the decoder its blocks go to, the sizes set since the last block, and those of
them that took entries out of the encoder's table. -/
structure Ends where
  encoder : Encoder
  decoder : Decoder
  sizes : List Nat
  shrinks : List Nat

namespace Ends

def new : Ends := { encoder := .new, decoder := .new, sizes := [], shrinks := [] }

/-- A call of `set_peer_max_table_size`. -/
def setPeerMaxTableSize (s : Ends) (n : Nat) : Ends :=
  let encoder := s.encoder.setPeerMaxTableSize n
  { s with
    encoder
    sizes := s.sizes ++ [n]
    shrinks :=
      if encoder.dynTable.entries = s.encoder.dynTable.entries then s.shrinks
      else s.shrinks ++ [n] }

/-- `encode_header` for each header of a list. -/
def encodeHeaders (e : Encoder) (headers : List (Text × Text)) : Bytes × Encoder :=
  headers.foldl (fun s h => s.2.encodeHeader s.1 h.1 h.2) ([], e)

/-- A header list is encoded and its block decoded. -/
def sendBlock (s : Ends) (headers : List (Text × Text)) : Ends where
  encoder := (encodeHeaders s.encoder headers).2
  decoder := (s.decoder.decodeBlock (encodeHeaders s.encoder headers).1).2
  sizes := if headers.isEmpty then s.sizes else []
  shrinks := if headers.isEmpty then s.shrinks else []

/-- The same entries in the same order under the same maximum size. -/
structure SameTables (s : Ends) : Prop where
  entries : s.encoder.dynTable.entries = s.decoder.dynTable.entries
  max : s.encoder.maxDynTableSize = s.decoder.dynTableCap

/-- The block of `headers` announces every size that took an entry since the last block. -/
def Announces (s : Ends) (headers : List (Text × Text)) : Prop :=
  ∀ n ∈ s.shrinks, n ∈ announced (encodeHeaders s.encoder headers).1

/-- Whatever took an entry since the last block was the size that was set last. -/
def Gentle (s : Ends) : Prop := ∀ n ∈ s.shrinks, s.sizes.getLast? = some n

/-- A connection whose blocks, each within what the decoder takes, were all sent after gentle
changes of size. -/
inductive Gently : Ends → Prop
  | new : Gently .new
  | setPeerMaxTableSize {s : Ends} {n : Nat} (h : Gently s) (hn : n ≤ dynTableCap) :
      Gently (s.setPeerMaxTableSize n)
  | sendBlock {s : Ends} {headers : List (Text × Text)} (h : Gently s)
      (hsize : listSize headers ≤ maxDecodedHeaderList) (hgentle : headers ≠ [] → s.Gentle) :
      Gently (s.sendBlock headers)

/-! ## What every step keeps -/

/-- The encoder's table is the decoder's, cut to the sizes that took entries, and fits under every
size set since; the last of them is still to be signalled. -/
structure Tracks (s : Ends) : Prop where
  inSync : InSync s.encoder s.decoder
  table : s.encoder.dynTable = s.decoder.dynTable.evictAll s.shrinks
  fits : ∀ n ∈ s.sizes, s.encoder.dynTable.size ≤ n
  pending : s.encoder.pendingMaxTableSizeSignal = s.sizes.getLast?
  sizes_le : ∀ n ∈ s.sizes, n ≤ dynTableCap

theorem tracks_new : Tracks .new where
  inSync := inSync_new
  table := rfl
  fits := List.forall_mem_nil _
  pending := rfl
  sizes_le := List.forall_mem_nil _

theorem Tracks.setPeerMaxTableSize {s : Ends} {n : Nat} (h : Tracks s) (hn : n ≤ dynTableCap) :
    Tracks (s.setPeerMaxTableSize n) where
  inSync := h.inSync.setPeerMaxTableSize hn
  table := by
    show s.encoder.dynTable.evict n 0 = s.decoder.dynTable.evictAll
      (if (s.encoder.dynTable.evict n 0).entries = s.encoder.dynTable.entries then s.shrinks
        else s.shrinks ++ [n])
    split
    · next hsame =>
        rw [← h.table]
        exact Base.Fifo.ext_entries hsame
    · rw [Base.Fifo.evictAll_append, ← h.table]
      rfl
  fits := by
    show ∀ m ∈ s.sizes ++ [n], (s.encoder.dynTable.evict n 0).size ≤ m
    intro m hm
    rcases List.mem_append.mp hm with hm | hm
    · exact (Base.Fifo.size_le_of_initial (s.encoder.dynTable.evict_prefix_self n 0)).trans
        (h.fits m hm)
    · rw [List.mem_singleton.mp hm]
      exact s.encoder.dynTable.evict_size_le (Nat.zero_le n)
  pending := (List.getLast?_concat ..).symm
  sizes_le := by
    intro m hm
    rcases List.mem_append.mp hm with hm | hm
    · exact h.sizes_le m hm
    · exact List.mem_singleton.mp hm ▸ hn

/-- Where the signal is read, the tables are the same after gentle changes. -/
theorem Tracks.heard {s : Ends} (h : Tracks s) (hgentle : s.Gentle) :
    s.encoder.dynTable = (s.decoder.hear s.encoder.pendingMaxTableSizeSignal).dynTable := by
  rw [h.pending]
  cases hlast : s.sizes.getLast? with
  | none =>
      have hnone : s.shrinks = [] := by
        refine List.eq_nil_iff_forall_not_mem.mpr fun n hn => ?_
        cases hlast.symm.trans (hgentle n hn)
      rw [h.table, hnone]
      rfl
  | some last =>
      have hmem : last ∈ s.sizes := List.mem_of_getLast? hlast
      have hcap : (s.decoder.hear (some last)).dynTable = s.decoder.dynTable.evict last 0 := by
        show s.decoder.dynTable.evict (min last dynTableCap) 0 = _
        rw [Nat.min_eq_left (h.sizes_le last hmem)]
      have hall : ∀ n ∈ s.shrinks, n = last := fun n hn =>
        Option.some.inj ((hgentle n hn).symm.trans hlast)
      rw [hcap]
      by_cases hnone : s.shrinks = []
      · -- nothing was taken, so what was there fits under the last size as well
        have hsame : s.encoder.dynTable = s.decoder.dynTable := by rw [h.table, hnone]; rfl
        rw [← hsame]
        exact (Base.Fifo.evict_of_fits (h.fits last hmem)).symm
      · obtain ⟨n, hn⟩ := List.exists_mem_of_ne_nil _ hnone
        rw [h.table, (Base.Fifo.evictAll_eq_iff (hall n hn ▸ hn)).mpr]
        intro m hm
        rw [hall m hm]
        exact s.decoder.dynTable.evict_size_le (Nat.zero_le last)

/-! ## What a block announces -/

/-- An update at the head is announced. -/
theorem updatesOf_signal {n : Nat} (hn : n < 2 ^ 64) (fuel : Nat) (rest : Bytes) :
    updatesOf (fuel + 1) (marked 5 n ++ rest) = n :: updatesOf fuel rest := by
  have hzero : (marked 5 n ++ rest).drop 0 = marked 5 n ++ rest := List.drop_zero
  obtain ⟨b, hget, hflag, hint⟩ := marked_read (by omega) hn hzero
  rw [List.drop_zero] at hint
  rw [updatesOf, List.head?_eq_getElem?, hget]
  have h7 : b &&& 0x80 = 0 := (hflag 7 (by omega) (by omega)).mpr (by omega)
  have h6 : b &&& 0x40 = 0 := (hflag 6 (by omega) (by omega)).mpr (by omega)
  have h5 : b &&& 0x20 ≠ 0 := fun hzero => (hflag 5 (by omega) (by omega)).mp hzero rfl
  simp only [h7, h6, h5, ne_eq, not_false_eq_true, and_self, if_true, hint, List.drop_left]

/-- A field at the head announces nothing. -/
theorem updatesOf_field {k v : Nat} (hk : k = 6 ∨ k = 7) (hv : v < 2 ^ 64) (fuel : Nat)
    (rest : Bytes) : updatesOf fuel (marked k v ++ rest) = [] := by
  cases fuel with
  | zero => rfl
  | succ fuel =>
      have hzero : (marked k v ++ rest).drop 0 = marked k v ++ rest := List.drop_zero
      obtain ⟨b, hget, hflag, -⟩ := marked_read (by omega) hv hzero
      rw [updatesOf, List.head?_eq_getElem?, hget]
      refine if_neg fun hupdate => ?_
      rcases hk with rfl | rfl
      · exact (hflag 6 (by omega) (by omega)).mp hupdate.2.1 rfl
      · exact (hflag 7 (by omega) (by omega)).mp hupdate.1 rfl

/-- What `encode_header` writes without a pending signal begins with a field. -/
theorem encodeHeader_field {e : Encoder} {d : Decoder} (h : InSync e d)
    (hnone : e.pendingMaxTableSizeSignal = none) (out : Bytes) (name value : Text) :
    ∃ k v rest, (k = 6 ∨ k = 7) ∧ v < 2 ^ 64 ∧
      (e.encodeHeader out name value).1 = out ++ (marked k v ++ rest) := by
  have htake : e.takeSignal out = (out, e) := by simp only [Encoder.takeSignal, hnone]
  cases hfull : e.combinedFullIndex name value with
  | some idx =>
      refine ⟨7, idx, [], .inr rfl, (h.lookup hfull).2, ?_⟩
      simp only [Encoder.encodeHeader, htake, hfull, List.append_nil]
      rfl
  | none =>
      cases hindex : e.combinedNameIndex name with
      | some idx =>
          refine ⟨6, idx, encodeLiteralString [] value, .inl rfl, (h.lookupName hindex).2.2, ?_⟩
          simp only [Encoder.encodeHeader, htake, hfull, hindex]
          rw [encodeLiteralString_append, List.append_assoc]
          rfl
      | none =>
          have hlit : ([0x40] : Bytes) = marked 6 0 := by decide
          refine ⟨6, 0, encodeLiteralString [] name ++ encodeLiteralString [] value, .inl rfl,
            by omega, ?_⟩
          simp only [Encoder.encodeHeader, htake, hfull, hindex]
          rw [encodeLiteralString_append, encodeLiteralString_append (out ++ _), hlit,
            List.append_assoc, List.append_assoc]

theorem encodeHeader_appends (e : Encoder) (out : Bytes) (name value : Text) :
    out <+: (e.encodeHeader out name value).1 := by
  have htake : out <+: (e.takeSignal out).1 := by
    unfold Encoder.takeSignal
    split
    · exact List.prefix_append _ _
    · exact List.prefix_rfl
  refine htake.trans ?_
  unfold Encoder.encodeHeader
  simp only
  split
  · exact List.prefix_append _ _
  · split
    · rw [encodeLiteralString_append, List.append_assoc]
      exact List.prefix_append _ _
    · rw [encodeLiteralString_append, encodeLiteralString_append (_ ++ _), List.append_assoc,
        List.append_assoc]
      exact List.prefix_append _ _

theorem encodeHeaders_appends (headers : List (Text × Text)) (s : Bytes × Encoder) :
    s.1 <+: (headers.foldl (fun s h => s.2.encodeHeader s.1 h.1 h.2) s).1 := by
  induction headers generalizing s with
  | nil => exact List.prefix_rfl
  | cons header headers ih =>
      exact (encodeHeader_appends s.2 s.1 header.1 header.2).trans (ih _)

/-- A block announces the signal that was pending, and nothing else. -/
theorem announced_encodeHeaders {e : Encoder} {d : Decoder} (h : InSync e d)
    {headers : List (Text × Text)} (hne : headers ≠ []) :
    announced (encodeHeaders e headers).1 = e.pendingMaxTableSizeSignal.toList := by
  obtain ⟨header, headers, rfl⟩ := List.exists_cons_of_ne_nil hne
  obtain ⟨rest, hrest⟩ := encodeHeaders_appends headers
    (e.encodeHeader [] header.1 header.2)
  have hblock : (encodeHeaders e (header :: headers)).1 =
      (e.encodeHeader [] header.1 header.2).1 ++ rest := hrest.symm
  cases hpend : e.pendingMaxTableSizeSignal with
  | none =>
      obtain ⟨k, v, tail, hk, hv, hfield⟩ := encodeHeader_field h hpend [] header.1 header.2
      rw [List.nil_append] at hfield
      rw [announced, hblock, hfield, List.append_assoc]
      exact updatesOf_field hk hv _ _
  | some n =>
      have hn : n < 2 ^ 64 := by
        have hmax := h.signal n hpend ▸ h.max_le
        exact Nat.lt_of_le_of_lt hmax (by decide)
      obtain ⟨k, v, tail, hk, hv, hfield⟩ :=
        encodeHeader_field (h.signal_taken hpend) rfl (marked 5 n) header.1 header.2
      have hfirst : (e.encodeHeader [] header.1 header.2).1 =
          marked 5 n ++ (marked k v ++ tail) := by
        rw [← hfield]
        simp only [Encoder.encodeHeader, Encoder.takeSignal, hpend]
        rfl
      have hlen : 0 < (marked 5 n ++ ((marked k v ++ tail) ++ rest)).length := by
        rw [List.length_append]
        exact Nat.add_pos_left (List.length_pos_of_ne_nil (marked_ne_nil 5 n)) _
      obtain ⟨fuel, hfuel⟩ := Nat.exists_eq_succ_of_ne_zero (Nat.pos_iff_ne_zero.mp hlen)
      rw [announced, hblock, hfirst, List.append_assoc, hfuel, updatesOf_signal hn,
        List.append_assoc, updatesOf_field hk hv]
      rfl

/-- Past the signal, both ends take the same step on equal tables. -/
theorem table_of_stepsAlike {e e' : Encoder} {d d' : Decoder} {header : Text × Text}
    (halike : StepsAlike { e with pendingMaxTableSizeSignal := none } d header e' d')
    (htable : e.dynTable = d.dynTable) (hmax : d.dynTableCap = e.maxDynTableSize) :
    e'.dynTable = d'.dynTable ∧ e'.pendingMaxTableSizeSignal = none := by
  rcases halike with ⟨rfl, rfl⟩ | ⟨rfl, rfl⟩
  · exact ⟨htable, rfl⟩
  · refine ⟨?_, rfl⟩
    show e.dynTable.insert e.maxDynTableSize header = d.dynTable.insert d.dynTableCap header
    rw [htable, hmax]

/-- The maximum sizes once the signal is read. -/
theorem cap_hear {e : Encoder} {d : Decoder} (h : InSync e d) :
    (d.hear e.pendingMaxTableSizeSignal).dynTableCap = e.maxDynTableSize := by
  cases hpend : e.pendingMaxTableSizeSignal with
  | none => exact h.cap hpend
  | some n =>
      obtain rfl := h.signal n hpend
      exact Nat.min_eq_left h.max_le

/-- The block of a header list, from tables that are the same once the signal is read. -/
theorem encodeHeaders_spec {headers : List (Text × Text)} {e : Encoder} {d : Decoder}
    (h : InSync e d) (hsize : listSize headers < 2 ^ 63)
    (htable : e.dynTable = (d.hear e.pendingMaxTableSizeSignal).dynTable) :
    ∃ bytes e' d',
      (∀ out, headers.foldl (fun s h => s.2.encodeHeader s.1 h.1 h.2) (out, e) =
        (out ++ bytes, e')) ∧
      InSync e' d' ∧ DecodesTo d d' bytes headers ∧ bytes.length ≤ 2 * listSize headers ∧
      e'.dynTable = (d'.hear e'.pendingMaxTableSizeSignal).dynTable ∧
      (headers ≠ [] → e'.pendingMaxTableSizeSignal = none) := by
  induction headers generalizing e d with
  | nil => exact ⟨[], e, d, by simp, h, DecodesTo.nil d, Nat.zero_le _, htable, fun hne => absurd rfl hne⟩
  | cons header headers ih =>
      rw [listSize_cons] at hsize ⊢
      obtain ⟨first, e₁, d₁, henc, hsync₁, hdec₁, halike, hlen₁⟩ :=
        encodeHeader_spec h header.1 header.2 (by show entrySize header < 2 ^ 64; omega)
      obtain ⟨htable₁, hnone₁⟩ := table_of_stepsAlike halike htable (cap_hear h)
      have hhear₁ : d₁.hear e₁.pendingMaxTableSizeSignal = d₁ := by rw [hnone₁, Decoder.hear]
      obtain ⟨bytes, e', d', hrun, hsync, hdec, hlen, htable', hnone⟩ :=
        ih hsync₁ (by omega) (by rw [hhear₁, htable₁])
      refine ⟨first ++ bytes, e', d', ?_, hsync, hdec₁.append hdec, ?_, htable', fun _ => ?_⟩
      · intro out
        rw [List.foldl_cons, henc, hrun, List.append_assoc]
      · rw [List.length_append]
        have hfirst : entrySize (header.1, header.2) = entrySize header := rfl
        omega
      · by_cases hrest : headers = []
        · subst hrest
          obtain rfl : e' = e₁ := (Prod.mk.inj (hrun [])).2.symm
          exact hnone₁
        · exact hnone hrest

/-- A block sent after gentle changes is decoded, and what was open is settled. -/
theorem Tracks.sendBlock {s : Ends} {headers : List (Text × Text)} (h : Tracks s)
    (hsize : listSize headers ≤ maxDecodedHeaderList) (hne : headers ≠ []) (hgentle : s.Gentle) :
    (s.decoder.decodeBlock (encodeHeaders s.encoder headers).1).1 = .ok headers ∧
      Tracks (s.sendBlock headers) := by
  have hmax : maxDecodedHeaderList = 262144 := rfl
  have hsmall : listSize headers < 2 ^ 63 := by omega
  obtain ⟨bytes, e', d', hrun, hsync, hdec, hlen, htable, hnone⟩ :=
    encodeHeaders_spec h.inSync hsmall (h.heard hgentle)
  have henc : encodeHeaders s.encoder headers = (bytes, e') := hrun []
  have hblock := hdec.decodeBlock (by omega) hsize
  have hempty : headers.isEmpty = false := List.isEmpty_eq_false_iff.mpr hne
  have hsent : s.sendBlock headers =
      { encoder := e', decoder := d', sizes := [], shrinks := [] } := by
    simp only [Ends.sendBlock, henc, hblock, hempty, Bool.false_eq_true, if_false]
  rw [henc, hblock, hsent]
  refine ⟨rfl, hsync, ?_, List.forall_mem_nil _, hnone hne, List.forall_mem_nil _⟩
  rw [hnone hne] at htable
  exact htable

theorem sendBlock_nil (s : Ends) : s.sendBlock [] = s := rfl

theorem Gently.tracks {s : Ends} (h : Gently s) : Tracks s := by
  induction h with
  | new => exact tracks_new
  | setPeerMaxTableSize _ hn ih => exact ih.setPeerMaxTableSize hn
  | @sendBlock s headers _ hsize hgentle ih =>
      by_cases hne : headers = []
      · rw [hne, sendBlock_nil]
        exact ih
      · exact (ih.sendBlock hsize hne (hgentle hne)).2

/-- Over any connection whose earlier blocks were sent after gentle changes of size, a nonempty
block is decoded, leaves the two tables the same and announces every size that took an entry, if
and only if the changes before it were gentle, too. -/
theorem tables_same {s : Ends} {headers : List (Text × Text)} (h : Gently s)
    (hsize : listSize headers ≤ maxDecodedHeaderList) (hne : headers ≠ []) :
    ((s.decoder.decodeBlock (encodeHeaders s.encoder headers).1).1 = .ok headers ∧
      SameTables (s.sendBlock headers) ∧ s.Announces headers) ↔ s.Gentle := by
  have htracks := h.tracks
  have hannounced : announced (encodeHeaders s.encoder headers).1 = s.sizes.getLast?.toList := by
    rw [announced_encodeHeaders htracks.inSync hne, htracks.pending]
  have hannounces : s.Announces headers ↔ s.Gentle := by
    rw [Announces, hannounced, Gentle]
    exact forall₂_congr fun n _ => Option.mem_toList
  refine ⟨fun hall => hannounces.mp hall.2.2, fun hgentle => ?_⟩
  obtain ⟨hok, hsent⟩ := htracks.sendBlock hsize hne hgentle
  have hsizes : (s.sendBlock headers).sizes = [] ∧ (s.sendBlock headers).shrinks = [] := by
    simp only [sendBlock, List.isEmpty_eq_false_iff.mpr hne, Bool.false_eq_true, if_false,
      and_self]
  have hpending := hsent.pending
  have htable := hsent.table
  rw [hsizes.1] at hpending
  rw [hsizes.2] at htable
  exact ⟨hok, ⟨congrArg Base.Fifo.entries htable, (hsent.inSync.cap hpending).symm⟩,
    hannounces.mpr hgentle⟩

/-! ## A size lowered and raised again -/

/-- A block, the table emptied and reopened, and another block. -/
def reopened : Ends :=
  (((new.sendBlock [("x-a".toList, "1".toList)]).setPeerMaxTableSize 0).setPeerMaxTableSize
    4096).sendBlock [("x-b".toList, "2".toList)]

/-- The decoder keeps what the encoder has dropped: only the last size was signalled. -/
theorem reopened_differs :
    reopened.encoder.dynTable.entries = [("x-b".toList, "2".toList)] ∧
      reopened.decoder.dynTable.entries =
        [("x-b".toList, "2".toList), ("x-a".toList, "1".toList)] ∧
      ¬ reopened.SameTables := by
  have hencoder : reopened.encoder.dynTable.entries = [("x-b".toList, "2".toList)] := by
    decide +kernel
  have hdecoder : reopened.decoder.dynTable.entries =
      [("x-b".toList, "2".toList), ("x-a".toList, "1".toList)] := by decide +kernel
  refine ⟨hencoder, hdecoder, fun hsame => ?_⟩
  have hentries := hsame.entries
  rw [hencoder, hdecoder] at hentries
  cases hentries

/-- Two entries, of which the last of two sizes takes the older. -/
def lowered : Ends :=
  ((new.sendBlock [("x-a".toList, "1".toList), ("x-b".toList, "2".toList)]).setPeerMaxTableSize
    4096).setPeerMaxTableSize 40

theorem tables_same_of_lowered :
    lowered.shrinks = [40] ∧
    (lowered.decoder.decodeBlock
      (encodeHeaders lowered.encoder [("x-c".toList, "3".toList)]).1).1 =
        .ok [("x-c".toList, "3".toList)] ∧
      SameTables (lowered.sendBlock [("x-c".toList, "3".toList)]) ∧
      lowered.Announces [("x-c".toList, "3".toList)] := by
  have hshrinks : lowered.shrinks = [40] := by decide +kernel
  have hgently : Gently lowered :=
    .setPeerMaxTableSize (.setPeerMaxTableSize
      (.sendBlock .new (by decide +kernel) fun _ => List.forall_mem_nil _) (Nat.le_refl _))
      (by decide)
  refine ⟨hshrinks, (tables_same hgently (by decide +kernel) (List.cons_ne_nil _ _)).mpr ?_⟩
  intro n hn
  rw [hshrinks, List.mem_singleton] at hn
  rw [hn]
  rfl

end Ends
end Rsurl.H2
