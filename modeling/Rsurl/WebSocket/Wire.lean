/-
# `Rsurl.WebSocket.Wire` — frames on the wire, both ways

A server's frame as it is written down, with its length in the shortest of
the three forms, and a client's, which is masked.  A frame is read for what it
was written from, and nothing behind it is touched.
-/
import Rsurl.WebSocket

namespace Rsurl.WebSocket

open Base (Program)

/-! ## The frames of the server -/

/-- A frame as a server may write it: any flags, any opcode, any payload a length can be given
for. -/
structure ServerFrame where
  fin : Bool
  rsv1 : Bool
  rsv2 : Bool
  rsv3 : Bool
  opcode : UInt8
  payload : Bytes
  opcode_lt : opcode < 16
  payload_lt : payload.length < 2 ^ 63
deriving DecidableEq

def flagBit (on : Bool) (bit : UInt8) : UInt8 := if on then bit else 0

/-- The shortest of the three forms of a length. -/
def lengthBytes (n : Nat) : Bytes :=
  if n < 126 then [UInt8.ofNat n]
  else if n < 2 ^ 16 then 126 :: Base.beBytes 2 n
  else 127 :: Base.beBytes 8 n

namespace ServerFrame

def firstByte (f : ServerFrame) : UInt8 :=
  flagBit f.fin 0x80 ||| flagBit f.rsv1 0x40 ||| flagBit f.rsv2 0x20 ||| flagBit f.rsv3 0x10 |||
    f.opcode

def encode (f : ServerFrame) : Bytes := f.firstByte :: (lengthBytes f.payload.length ++ f.payload)

/-- What is kept of it once it has been read. -/
def frame (f : ServerFrame) : Frame := ⟨f.fin, f.rsv1, f.opcode, f.payload⟩

/-- No reserved bit is set. -/
def Plain (f : ServerFrame) : Prop := f.rsv1 = false ∧ f.rsv2 = false ∧ f.rsv3 = false

/-- The bits of the first byte, for every one there can be. -/
theorem firstByte_bits : ∀ (fin rsv1 rsv2 rsv3 : Bool) (opcode : Fin 16),
    let b := flagBit fin 0x80 ||| flagBit rsv1 0x40 ||| flagBit rsv2 0x20 ||| flagBit rsv3 0x10 |||
      UInt8.ofNat opcode.val
    (b &&& 0x80 != 0) = fin ∧ (b &&& 0x40 != 0) = rsv1 ∧ (b &&& 0x30 ≠ 0 ↔ rsv2 ∨ rsv3) ∧
      b &&& 0x0F = UInt8.ofNat opcode.val := by
  decide +kernel

theorem firstByte_spec (f : ServerFrame) :
    (f.firstByte &&& 0x80 != 0) = f.fin ∧ (f.firstByte &&& 0x40 != 0) = f.rsv1 ∧
      (f.firstByte &&& 0x30 ≠ 0 ↔ f.rsv2 ∨ f.rsv3) ∧ f.firstByte &&& 0x0F = f.opcode := by
  have hbits := firstByte_bits f.fin f.rsv1 f.rsv2 f.rsv3 ⟨f.opcode.toNat, f.opcode_lt⟩
  rwa [UInt8.ofNat_toNat] at hbits

theorem two_le_length_encode (f : ServerFrame) : 2 ≤ f.encode.length := by
  unfold encode lengthBytes
  split
  · simp
  · split <;> simp

end ServerFrame

/-! ## Reading them -/

theorem readExact_append {a : Bytes} {n : Nat} (h : a.length = n) (b : Bytes)
    (tail : Option IoKind) (sink : Sink) (drawn : Nat) :
    (readExact n).exec ⟨⟨a ++ b, tail⟩, sink, drawn⟩ = (.ok a, ⟨⟨b, tail⟩, sink, drawn⟩) := by
  subst h
  show readExact a.length ⟨⟨a ++ b, tail⟩, sink, drawn⟩ = _
  rw [readExact, Source.readExact_append]

theorem exec_readExact_nil (tail : Option IoKind) (sink : Sink) (drawn : Nat) :
    (readExact 2).exec ⟨⟨[], tail⟩, sink, drawn⟩ =
      (.error (endError tail), ⟨⟨[], tail⟩, sink, drawn⟩) := rfl

/-- The seven bits of a short length are not those that announce a longer one. -/
theorem len7_bits : ∀ n : Fin 126,
    UInt8.ofNat n.val &&& 0x80 = 0 ∧ UInt8.ofNat n.val &&& 0x7F = UInt8.ofNat n.val ∧
      UInt8.ofNat n.val ≤ 125 ∧ (UInt8.ofNat n.val).toNat = n.val := by
  decide +kernel

/-- A number is read from its bytes. -/
theorem readBeBytes {width n : Nat} (hn : n < 256 ^ width) (rest : Bytes) (tail : Option IoKind)
    (sink : Sink) (drawn : Nat) :
    (readExact width >>= fun bytes => pure (Base.beValue bytes)).exec
        ⟨⟨Base.beBytes width n ++ rest, tail⟩, sink, drawn⟩ =
      (.ok n, ⟨⟨rest, tail⟩, sink, drawn⟩) := by
  rw [Program.exec_bind_ok (readExact_append (Base.length_beBytes width n) rest tail sink drawn),
    Program.exec_pure, Base.beValue_beBytes, Nat.mod_eq_of_lt hn]

/-- A length is its first byte, which has no mask bit, and what that byte announces. -/
theorem readLength_lengthBytes {n : Nat} (hn : n < 2 ^ 64) :
    ∃ len7 more, lengthBytes n = len7 :: more ∧ len7 &&& 0x80 = 0 ∧
      ∀ rest tail sink drawn, (readLength (len7 &&& 0x7F)).exec ⟨⟨more ++ rest, tail⟩, sink, drawn⟩ =
        (.ok n, ⟨⟨rest, tail⟩, sink, drawn⟩) := by
  unfold lengthBytes
  split
  · next hshort =>
      obtain ⟨hmask, hlow, hle, hval⟩ := len7_bits ⟨n, hshort⟩
      refine ⟨UInt8.ofNat n, [], rfl, hmask, ?_⟩
      intro rest tail sink drawn
      rw [hlow, readLength, if_pos hle, hval]
      rfl
  · split
    · next hmid => exact ⟨126, Base.beBytes 2 n, rfl, by decide, readBeBytes hmid⟩
    · exact ⟨127, Base.beBytes 8 n, rfl, by decide, readBeBytes hn⟩

theorem readPayload_append (payload rest : Bytes) (tail : Option IoKind) (sink : Sink)
    (drawn : Nat) :
    (readPayload payload.length).exec ⟨⟨payload ++ rest, tail⟩, sink, drawn⟩ =
      (.ok payload, ⟨⟨rest, tail⟩, sink, drawn⟩) := by
  unfold readPayload
  split
  · exact readExact_append rfl rest tail sink drawn
  · next hnone =>
      obtain rfl : payload = [] := List.eq_nil_of_length_eq_zero (Nat.eq_zero_of_not_pos hnone)
      rfl

/-- The reserved bits that no extension uses are looked at first, then the length; a frame in
order is read for what it is, and the bytes behind it stay. -/
theorem readFrame_encode (f : ServerFrame) (rest : Bytes) (tail : Option IoKind) (sink : Sink)
    (drawn : Nat) :
    readFrame.exec ⟨⟨f.encode ++ rest, tail⟩, sink, drawn⟩ =
      if f.rsv2 ∨ f.rsv3 then
        (.error (.badResponse [.str "non-zero RSV2/RSV3 bits on incoming WS frame"]),
          ⟨⟨(f.encode ++ rest).drop 2, tail⟩, sink, drawn⟩)
      else if maxPayloadBytes < f.payload.length then
        (.error (.badResponse [.str "WS payload too large: ", .num f.payload.length,
          .str " bytes"]), ⟨⟨f.payload ++ rest, tail⟩, sink, drawn⟩)
      else (.ok f.frame, ⟨⟨rest, tail⟩, sink, drawn⟩) := by
  obtain ⟨hfin, hrsv1, hreserved, hopcode⟩ := f.firstByte_spec
  obtain ⟨len7, more, hbytes, hmask, hread⟩ :=
    readLength_lengthBytes (n := f.payload.length) (f.payload_lt.trans (by decide))
  have hencode : f.encode ++ rest = [f.firstByte, len7] ++ (more ++ (f.payload ++ rest)) := by
    simp [ServerFrame.encode, hbytes]
  have hheader : [f.firstByte, len7].length = 2 := rfl
  rw [hencode, readFrame, Program.exec_bind_ok (readExact_append hheader ..)]
  show (readFrameAfter f.firstByte len7).exec _ = _
  unfold readFrameAfter
  by_cases hrsv : f.rsv2 ∨ f.rsv3
  · rw [if_pos (hreserved.mpr hrsv), if_pos hrsv]
    rfl
  rw [if_neg fun h => hrsv (hreserved.mp h), if_neg fun h => h hmask, if_neg hrsv,
    Program.exec_bind_ok (hread ..)]
  by_cases hlen : maxPayloadBytes < f.payload.length
  · rw [if_pos hlen, if_pos hlen]
    rfl
  rw [if_neg hlen, if_neg hlen, Program.exec_bind_ok (readPayload_append ..), Program.exec_pure,
    hfin, hrsv1, hopcode]
  rfl

/-! ## The frames of the client -/

/-- A client's frame: not fragmented, its length in the shortest form with the mask bit in front,
and a payload that the mask takes back. -/
def IsClientFrame (opcode : UInt8) (payload wire : Bytes) : Prop :=
  ∃ mask masked : Bytes, mask.length = 4 ∧ maskBytes mask masked = payload ∧
    wire = (0x80 ||| opcode) ::
      ((lengthBytes payload.length).modifyHead (0x80 ||| ·) ++ mask ++ masked)

theorem maskBytes_maskBytes (mask payload : Bytes) :
    maskBytes mask (maskBytes mask payload) = payload := by
  refine List.ext_getElem (by simp [maskBytes]) ?_
  intro i _ _
  simp only [maskBytes, List.getElem_mapIdx]
  rw [UInt8.xor_assoc, UInt8.xor_self, UInt8.xor_zero]

theorem maskedLength_eq (n : Nat) :
    maskedLength n = (lengthBytes n).modifyHead (0x80 ||| ·) := by
  unfold maskedLength lengthBytes
  by_cases hshort : n < 126
  · rw [if_pos hshort, if_pos hshort]
    rfl
  rw [if_neg hshort, if_neg hshort]
  by_cases hmid : n < 2 ^ 16
  · rw [if_pos hmid, if_pos (Nat.le_of_lt_succ hmid)]
    rfl
  · rw [if_neg hmid, if_neg fun hle => hmid (Nat.lt_succ_of_le hle)]
    rfl

/-- With entropy there is a frame. -/
theorem exec_buildClientFrame {entropy : Nat → Option {r : Bytes // r.length = 16}}
    (hentropy : ∀ n, (entropy n).isSome) {opcode : UInt8} (hopcode : opcode &&& 0x0F = opcode)
    (payload : Bytes) (s : Stream) :
    ∃ wire, IsClientFrame opcode payload wire ∧
      (buildClientFrame entropy opcode payload).exec s =
        (.ok wire, { s with drawn := s.drawn + 1 }) := by
  obtain ⟨r, hr⟩ := Option.isSome_iff_exists.mp (hentropy s.drawn)
  have hdraw : (random16 entropy).exec s = (.ok r.val, { s with drawn := s.drawn + 1 }) := by
    show random16 entropy s = _
    rw [random16, hr]
  have hmask : (r.val.take 4).length = 4 := by
    rw [List.length_take, r.property]
    rfl
  refine ⟨_, ⟨r.val.take 4, maskBytes (r.val.take 4) payload, hmask,
    maskBytes_maskBytes _ payload, rfl⟩, ?_⟩
  rw [buildClientFrame, buildClientFrameInner, Program.exec_bind_ok hdraw, Program.exec_pure,
    hopcode, maskedLength_eq]
  simp

theorem exec_writeAll (bytes written : Bytes) (source : Source) (drawn : Nat) :
    (writeAll bytes).exec ⟨source, ⟨written, none, none⟩, drawn⟩ =
      (.ok (), ⟨source, ⟨written ++ bytes, none, none⟩, drawn⟩) := rfl

theorem exec_flush (written : Bytes) (source : Source) (drawn : Nat) :
    flush.exec ⟨source, ⟨written, none, none⟩, drawn⟩ =
      (.ok (), ⟨source, ⟨written, none, none⟩, drawn⟩) := rfl

end Rsurl.WebSocket
