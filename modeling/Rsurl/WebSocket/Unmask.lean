/-
# `Rsurl.WebSocket.Unmask` — a client's frame, read back

A frame of the client with the mask taken off is a frame a server may write, so
the client's own reader takes it: with the same flag, opcode and payload, and
without touching what follows.  Its length is in the shortest form there is.
-/
import Rsurl.WebSocket.Wire

namespace Rsurl.WebSocket

open Base (Program)

/-! ## The forms of a length -/

/-- The three forms of RFC 6455; a number may be in a longer one than it needs. -/
inductive LengthForm : Nat → Bytes → Prop
  | seven {n : Nat} (h : n ≤ 125) : LengthForm n [UInt8.ofNat n]
  | sixteen {n : Nat} (h : n < 2 ^ 16) : LengthForm n (126 :: Base.beBytes 2 n)
  | sixtyFour {n : Nat} (h : n < 2 ^ 63) : LengthForm n (127 :: Base.beBytes 8 n)

/-- A form, and none that is shorter. -/
structure Shortest (n : Nat) (form : Bytes) : Prop where
  is_form : LengthForm n form
  le : ∀ form', LengthForm n form' → form.length ≤ form'.length

theorem shortest_lengthBytes {n : Nat} (hn : n < 2 ^ 63) : Shortest n (lengthBytes n) := by
  unfold lengthBytes
  split
  · next hshort =>
      refine ⟨.seven (Nat.le_of_lt_succ hshort), fun form' h => ?_⟩
      cases h <;> simp
  · next hlong =>
      split
      · next hmid =>
          refine ⟨.sixteen hmid, fun form' h => ?_⟩
          cases h with
          | seven h => exact absurd (Nat.lt_succ_of_le h) hlong
          | sixteen _ => exact Nat.le_refl _
          | sixtyFour _ => simp
      · next hbig =>
          refine ⟨.sixtyFour hn, fun form' h => ?_⟩
          cases h with
          | seven h => exact absurd (Nat.lt_succ_of_le h) hlong
          | sixteen h => exact absurd h hbig
          | sixtyFour _ => exact Nat.le_refl _

/-! ## The mask taken off -/

/-- How many bytes the seven bits announce. -/
def extended (len7 : UInt8) : Nat := if len7 = 126 then 2 else if len7 = 127 then 8 else 0

/-- A masked frame without its mask: the bit cleared, the key left out, the payload restored. -/
def unmask : Bytes → Bytes
  | first :: second :: rest =>
      let len7 := second &&& 0x7F
      let more := rest.take (extended len7)
      let masked := rest.drop (extended len7)
      first :: len7 :: (more ++ maskBytes (masked.take 4) (masked.drop 4))
  | wire => wire

/-- The bits of a length's first byte, behind the mask bit. -/
theorem masked_len7 : ∀ n : Fin 128,
    ((0x80 : UInt8) ||| UInt8.ofNat n.val) &&& 0x7F = UInt8.ofNat n.val := by
  decide +kernel

theorem lengthBytes_head (n : Nat) : ∃ len7 more, lengthBytes n = len7 :: more ∧
    (0x80 ||| len7) &&& 0x7F = len7 ∧ more.length = extended len7 := by
  have hshort : ∀ n : Fin 126, UInt8.ofNat n.val ≠ 126 ∧ UInt8.ofNat n.val ≠ 127 := by
    decide +kernel
  unfold lengthBytes
  split
  · next h =>
      obtain ⟨h126, h127⟩ := hshort ⟨n, h⟩
      refine ⟨UInt8.ofNat n, [], rfl, masked_len7 ⟨n, by omega⟩, ?_⟩
      rw [extended, if_neg h126, if_neg h127]
      rfl
  · split
    · exact ⟨126, Base.beBytes 2 n, rfl, by decide, Base.length_beBytes 2 n⟩
    · exact ⟨127, Base.beBytes 8 n, rfl, by decide, Base.length_beBytes 8 n⟩

/-- Unmasked, it is its first byte, the length and the payload. -/
theorem unmask_masked {mask : Bytes} (hmask : mask.length = 4) (first : UInt8) (payload : Bytes) :
    unmask (first :: (maskedLength payload.length ++ mask ++ maskBytes mask payload)) =
      first :: (lengthBytes payload.length ++ payload) := by
  obtain ⟨len7, more, hbytes, hbits, hmore⟩ := lengthBytes_head payload.length
  rw [maskedLength_eq, hbytes]
  show unmask (first :: (0x80 ||| len7) :: (more ++ mask ++ maskBytes mask payload)) = _
  simp only [unmask]
  rw [hbits, ← hmore, List.append_assoc, List.take_left, List.drop_left, ← hmask, List.take_left,
    List.drop_left, maskBytes_maskBytes]
  rfl

/-! ## Both ways -/

/-- The frame that an unmasked one is. -/
def sentFrame (opcode : UInt8) (payload : Bytes) (rsv1 : Bool)
    (hlength : payload.length ≤ maxPayloadBytes) : ServerFrame where
  fin := true
  rsv1 := rsv1
  rsv2 := false
  rsv3 := false
  opcode := opcode &&& 0x0F
  payload := payload
  opcode_lt := by
    have hand : (opcode &&& 0x0F).toNat ≤ 0x0F := by
      rw [UInt8.toNat_and]
      exact Nat.and_le_right
    exact UInt8.lt_iff_toNat_lt.mpr (Nat.lt_succ_of_le hand)
  payload_lt := Nat.lt_of_le_of_lt hlength (by decide)

theorem sentFrame_firstByte (opcode : UInt8) (payload : Bytes) (rsv1 : Bool)
    (hlength : payload.length ≤ maxPayloadBytes) :
    (sentFrame opcode payload rsv1 hlength).firstByte =
      0x80 ||| (if rsv1 then 0x40 else 0x00) ||| (opcode &&& 0x0F) := by
  cases rsv1 <;> simp [ServerFrame.firstByte, sentFrame, flagBit]

/-- Whatever the key, a frame of the client is read for what it was built from once the mask is
off, and the bytes behind it stay; its length has the shortest form.  Of an opcode the four bits
that a frame has room for are sent. -/
theorem client_frame_read_back {entropy : Nat → Option {r : Bytes // r.length = 16}} {s : Stream}
    {r : {r : Bytes // r.length = 16}} (hr : entropy s.drawn = some r) {payload : Bytes}
    (hlength : payload.length ≤ maxPayloadBytes) (opcode : UInt8) (rsv1 : Bool) :
    ∃ wire, (buildClientFrameInner entropy opcode payload rsv1).exec s =
        (.ok wire, { s with drawn := s.drawn + 1 }) ∧
      (∃ first form masked, Shortest payload.length form ∧
        wire = first :: (form.modifyHead (0x80 ||| ·) ++ r.val.take 4 ++ masked)) ∧
      (∀ rest tail sink drawn, readFrame.exec ⟨⟨unmask wire ++ rest, tail⟩, sink, drawn⟩ =
        (.ok ⟨true, rsv1, opcode &&& 0x0F, payload⟩, ⟨⟨rest, tail⟩, sink, drawn⟩)) ∧
      (opcode < 16 → opcode &&& 0x0F = opcode) := by
  have hdraw : (random16 entropy).exec s = (.ok r.val, { s with drawn := s.drawn + 1 }) := by
    show random16 entropy s = _
    rw [random16, hr]
  have hmask : (r.val.take 4).length = 4 := by
    rw [List.length_take, r.property]
    rfl
  have hfirst := sentFrame_firstByte opcode payload rsv1 hlength
  have hfits : payload.length < 2 ^ 63 := (sentFrame opcode payload rsv1 hlength).payload_lt
  refine ⟨(sentFrame opcode payload rsv1 hlength).firstByte ::
      (maskedLength payload.length ++ r.val.take 4 ++ maskBytes (r.val.take 4) payload),
    ?_, ⟨(sentFrame opcode payload rsv1 hlength).firstByte, lengthBytes payload.length,
      maskBytes (r.val.take 4) payload, shortest_lengthBytes hfits, ?_⟩, fun rest tail sink drawn => ?_, fun hop => ?_⟩
  · rw [buildClientFrameInner, Program.exec_bind_ok hdraw, Program.exec_pure, hfirst]
  · rw [maskedLength_eq]
  · have hencode : unmask ((sentFrame opcode payload rsv1 hlength).firstByte ::
        (maskedLength payload.length ++ r.val.take 4 ++ maskBytes (r.val.take 4) payload)) =
        (sentFrame opcode payload rsv1 hlength).encode := unmask_masked hmask _ payload
    have hplain : ¬((sentFrame opcode payload rsv1 hlength).rsv2 ∨
        (sentFrame opcode payload rsv1 hlength).rsv3) := by simp [sentFrame]
    rw [hencode, readFrame_encode, if_neg hplain]
    exact if_neg (Nat.not_lt_of_le hlength)
  · have hall : ∀ n : Fin 16, UInt8.ofNat n.val &&& 0x0F = UInt8.ofNat n.val := by decide +kernel
    have hn := hall ⟨opcode.toNat, UInt8.lt_iff_toNat_lt.mp hop⟩
    rwa [UInt8.ofNat_toNat] at hn

/-- A compressed text frame with three bytes, and one byte behind it. -/
theorem client_frame_read_back_text :
    let entropy : Nat → Option {r : Bytes // r.length = 16} :=
      fun _ => some ⟨[1, 2, 3, 4, 0, 0, 0, 0, 0, 0, 0, 0, 0, 0, 0, 0], rfl⟩
    ∃ wire, (buildClientFrameInner entropy opcodeText [9, 8, 7] true).exec
          ⟨⟨[], none⟩, ⟨[], none, none⟩, 0⟩ = (.ok wire, ⟨⟨[], none⟩, ⟨[], none, none⟩, 1⟩) ∧
      readFrame.exec ⟨⟨unmask wire ++ [5], none⟩, ⟨[], none, none⟩, 0⟩ =
        (.ok ⟨true, true, 1, [9, 8, 7]⟩, ⟨⟨[5], none⟩, ⟨[], none, none⟩, 0⟩) := by
  intro entropy
  have hr : entropy (⟨⟨[], none⟩, ⟨[], none, none⟩, 0⟩ : Stream).drawn =
      some ⟨[1, 2, 3, 4, 0, 0, 0, 0, 0, 0, 0, 0, 0, 0, 0, 0], rfl⟩ := rfl
  obtain ⟨wire, hbuild, -, hread, -⟩ :=
    @client_frame_read_back entropy _ _ hr [9, 8, 7] (by decide) opcodeText true
  exact ⟨wire, hbuild, hread [5] none ⟨[], none, none⟩ 0⟩

end Rsurl.WebSocket
