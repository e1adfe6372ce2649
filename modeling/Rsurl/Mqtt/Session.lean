/-
# `Rsurl.Mqtt.Session` — which broker orders a session accepts

After its CONNACK a broker owes one SUBACK and sends messages; the standard
lets it start with the messages.  The packets as the standard has them on the
wire, and the session run on any order of them: it takes the SUBACK for granted
as the next packet, and only behind it does it skip a PINGRESP.
-/
import Mathlib.Data.List.Basic
import Mathlib.Tactic.Ring
import Rsurl.Mqtt

namespace Rsurl.Mqtt

open Base (Program)

/-! ## Packets on the wire -/

/-- A remaining length in at most so many bytes: seven bits in each, the low ones first. -/
inductive IsVarint : Nat → Bytes → Nat → Prop
  | last {k n : Nat} (h : n < 128) : IsVarint (k + 1) [UInt8.ofNat n] n
  | more {k n m : Nat} {bytes : Bytes} (h : n < 128) (hrest : IsVarint k bytes m) :
      IsVarint (k + 1) (UInt8.ofNat (128 + n) :: bytes) (n + 128 * m)

/-- A type and flags, the remaining length, the body. -/
def IsPacket (first : UInt8) (body wire : Bytes) : Prop :=
  ∃ length, IsVarint 4 length body.length ∧ wire = first :: (length ++ body)

/-- What a broker may send after CONNACK for one QoS 0 subscription with packet id 1. -/
inductive BrokerPacket where
  | suback (code : UInt8)
  | publish (retain : Bool) (topic payload : Bytes)
  | pingresp
deriving DecidableEq, Repr

namespace BrokerPacket

/-- The packet in bytes: a SUBACK grants, a PUBLISH has QoS 0. -/
def Wire : BrokerPacket → Bytes → Prop
  | suback code, wire => code ≤ 2 ∧ IsPacket 0x90 [0x00, 0x01, code] wire
  | publish retain topic payload, wire => topic.length < 65536 ∧
      IsPacket (if retain then 0x31 else 0x30)
        (toBeBytes (UInt16.ofNat topic.length) ++ topic ++ payload) wire
  | pingresp, wire => IsPacket 0xD0 [] wire

def isSuback : BrokerPacket → Bool
  | suback _ => true
  | _ => false

/-- The message, when the packet is one. -/
def message : BrokerPacket → Option (Bytes × Bytes)
  | publish _ topic payload => some (topic, payload)
  | _ => none

end BrokerPacket

/-- The first message of a sequence. -/
def firstMessage (ps : List BrokerPacket) : Option (Bytes × Bytes) := ps.findSome? BrokerPacket.message

/-- A broker's whole answer to the subscription: one SUBACK, and a message at least. -/
structure Answers (ps : List BrokerPacket) : Prop where
  one_suback : ps.countP BrokerPacket.isSuback = 1
  some_message : firstMessage ps ≠ none

/-- The packets in bytes, one after the other. -/
def Wires (ps : List BrokerPacket) (wire : Bytes) : Prop :=
  ∃ wires, List.Forall₂ BrokerPacket.Wire ps wires ∧ wire = wires.flatten

/-! ## Reading a packet -/

theorem readExact_append (a b : Bytes) (tail : Option IoKind) (w : Sink) :
    (readExact a.length).exec ⟨⟨a ++ b, tail⟩, w⟩ = (.ok (.ok a), ⟨⟨b, tail⟩, w⟩) := by
  show (Except.ok ((Source.mk (a ++ b) tail).readExact a.length).1, _) = _
  rw [Source.readExact_append]

theorem readExactOrEof_append (a b : Bytes) (tail : Option IoKind) (w : Sink) :
    (readExactOrEof a.length).exec ⟨⟨a ++ b, tail⟩, w⟩ = (.ok a, ⟨⟨b, tail⟩, w⟩) := by
  rw [readExactOrEof, Program.exec_bind_ok (readExact_append a b tail w)]
  rfl

theorem readExact_cons (b : UInt8) (rest : Bytes) (tail : Option IoKind) (w : Sink) :
    (readExact 1).exec ⟨⟨b :: rest, tail⟩, w⟩ = (.ok (.ok [b]), ⟨⟨rest, tail⟩, w⟩) :=
  readExact_append [b] rest tail w

theorem readExactOrEof_cons (b : UInt8) (rest : Bytes) (tail : Option IoKind) (w : Sink) :
    (readExactOrEof 1).exec ⟨⟨b :: rest, tail⟩, w⟩ = (.ok [b], ⟨⟨rest, tail⟩, w⟩) :=
  readExactOrEof_append [b] rest tail w

theorem toNat_low {n : Nat} (h : n < 256) : (UInt8.ofNat n &&& 0x7F).toNat = n % 128 := by
  rw [UInt8.toNat_and, UInt8.toNat_ofNat', Nat.mod_eq_of_lt h]
  exact Nat.and_two_pow_sub_one_eq_mod n 7

theorem continues_iff {n : Nat} (h : n < 256) : UInt8.ofNat n &&& 0x80 = 0 ↔ n < 128 := by
  have hall : ∀ n : Fin 256, UInt8.ofNat n.val &&& 0x80 = 0 ↔ n.val < 128 := by decide +kernel
  exact hall ⟨n, h⟩

/-- One turn of the loop. -/
theorem readLengthLoop_cons (k value multiplier : Nat) (b : UInt8) (rest : Bytes)
    (tail : Option IoKind) (w : Sink) :
    (readLengthLoop (k + 1) value multiplier).exec ⟨⟨b :: rest, tail⟩, w⟩ =
      (if b &&& 0x80 = 0 then pure (value + (b &&& 0x7F).toNat * multiplier)
        else readLengthLoop k (value + (b &&& 0x7F).toNat * multiplier) (multiplier * 128) :
          Session Nat).exec ⟨⟨rest, tail⟩, w⟩ := by
  rw [readLengthLoop, Program.exec_bind_ok (readExact_cons b rest tail w)]
  rfl

/-- The length is read as it is written, in as many bytes as it has. -/
theorem readLengthLoop_varint {k n : Nat} {bytes : Bytes} (h : IsVarint k bytes n)
    (value multiplier : Nat) (rest : Bytes) (tail : Option IoKind) (w : Sink) :
    (readLengthLoop k value multiplier).exec ⟨⟨bytes ++ rest, tail⟩, w⟩ =
      (.ok (value + n * multiplier), ⟨⟨rest, tail⟩, w⟩) := by
  induction h generalizing value multiplier with
  | @last k n hn =>
      rw [List.singleton_append, readLengthLoop_cons, if_pos ((continues_iff (by omega)).mpr hn),
        toNat_low (by omega), Nat.mod_eq_of_lt hn]
      rfl
  | @more k n m bytes hn hrest ih =>
      have hbyte : UInt8.ofNat (128 + n) &&& 0x80 ≠ 0 := by
        rw [Ne, continues_iff (by omega)]
        omega
      have hmod : (128 + n) % 128 = n := by omega
      have hvalue : value + n * multiplier + m * (multiplier * 128) =
          value + (n + 128 * m) * multiplier := by ring
      rw [List.cons_append, readLengthLoop_cons, if_neg hbyte, toNat_low (by omega), ih, hmod, hvalue]

/-- A packet within the cap is read as it is. -/
theorem readPacket_wire {first : UInt8} {body wire : Bytes} (h : IsPacket first body wire)
    (hcap : body.length ≤ maxPacketBytes) (rest : Bytes) (tail : Option IoKind) (w : Sink) :
    readPacket.exec ⟨⟨wire ++ rest, tail⟩, w⟩ = (.ok (first >>> 4, body), ⟨⟨rest, tail⟩, w⟩) := by
  obtain ⟨length, hlength, rfl⟩ := h
  have hlen : readRemainingLength.exec ⟨⟨length ++ (body ++ rest), tail⟩, w⟩ =
      (.ok body.length, ⟨⟨body ++ rest, tail⟩, w⟩) := by
    have hloop := readLengthLoop_varint hlength 0 1 (body ++ rest) tail w
    rwa [Nat.zero_add, Nat.mul_one] at hloop
  rw [readPacket, List.cons_append, List.append_assoc,
    Program.exec_bind_ok (readExactOrEof_cons first _ tail w)]
  dsimp only
  rw [Program.exec_bind_ok hlen, if_neg (Nat.not_lt.mpr hcap)]
  by_cases hpos : body.length > 0
  · rw [if_pos hpos, Program.exec_bind_ok (readExactOrEof_append body rest tail w)]
    rfl
  · rw [if_neg hpos]
    obtain rfl : body = [] := List.eq_nil_of_length_eq_zero (by omega)
    rfl

/-- A packet above the cap is refused before its body is read. -/
theorem readPacket_large {first : UInt8} {body wire : Bytes} (h : IsPacket first body wire)
    (hcap : maxPacketBytes < body.length) (rest : Bytes) (tail : Option IoKind) (w : Sink) :
    ∃ s, readPacket.exec ⟨⟨wire ++ rest, tail⟩, w⟩ =
      (.error (.badResponse [.str "mqtt: packet too large"]), s) := by
  obtain ⟨length, hlength, rfl⟩ := h
  have hlen : readRemainingLength.exec ⟨⟨length ++ (body ++ rest), tail⟩, w⟩ =
      (.ok body.length, ⟨⟨body ++ rest, tail⟩, w⟩) := by
    have hloop := readLengthLoop_varint hlength 0 1 (body ++ rest) tail w
    rwa [Nat.zero_add, Nat.mul_one] at hloop
  rw [readPacket, List.cons_append, List.append_assoc,
    Program.exec_bind_ok (readExactOrEof_cons first _ tail w)]
  dsimp only
  rw [Program.exec_bind_ok hlen, if_pos hcap]
  exact ⟨_, rfl⟩

/-! ## Up to the SUBACK -/

/-- A write half that takes everything. -/
def Steady (w : Sink) : Prop := w.fault = none ∧ w.flushFault = none

theorem writeAll_steady {w : Sink} (hw : Steady w) (bytes : Bytes) (source : Source) :
    ∃ w', Steady w' ∧ (writeAll bytes).exec ⟨source, w⟩ = (.ok (), ⟨source, w'⟩) := by
  obtain ⟨written, fault, flushFault⟩ := w
  obtain ⟨rfl, rfl⟩ : fault = none ∧ flushFault = none := hw
  exact ⟨⟨written ++ bytes, none, none⟩, ⟨rfl, rfl⟩, rfl⟩

theorem flush_steady {w : Sink} (hw : Steady w) (source : Source) :
    flush.exec ⟨source, w⟩ = (.ok (), ⟨source, w⟩) := by
  show (w.flush.1, _) = _
  rw [Sink.flush, hw.2]

/-- Once the broker has accepted the connection, the session waits for the SUBACK. -/
theorem runSession_connected {w : Sink} (hw : Steady w) {flags : UInt8} {connack : Bytes}
    (hconnack : IsPacket 0x20 [flags, 0x00] connack) (random : Bytes) (topic : Text)
    (user pass : Option Text) (rest : Bytes) (tail : Option IoKind) :
    ∃ w', Steady w' ∧ (runSession random topic user pass).exec ⟨⟨connack ++ rest, tail⟩, w⟩ =
      awaitSuback.exec ⟨⟨rest, tail⟩, w'⟩ := by
  obtain ⟨w₁, hw₁, hconnect⟩ := writeAll_steady hw
    (buildConnect (randomClientId random) user pass 60) ⟨connack ++ rest, tail⟩
  obtain ⟨w₂, hw₂, hsubscribe⟩ := writeAll_steady hw₁ (buildSubscribe 1 topic) ⟨rest, tail⟩
  have hpacket := readPacket_wire hconnack (show 2 ≤ maxPacketBytes by decide) rest tail w₁
  have hshake : (connectHandshake random user pass).exec ⟨⟨connack ++ rest, tail⟩, w⟩ =
      (.ok (), ⟨⟨rest, tail⟩, w₁⟩) := by
    rw [connectHandshake, Program.exec_bind_ok hconnect,
      Program.exec_bind_ok (flush_steady hw₁ _), Program.exec_bind_ok hpacket]
    rfl
  refine ⟨w₂, hw₂, ?_⟩
  rw [runSession, Program.exec_bind_ok hshake, Program.exec_bind_ok hsubscribe,
    Program.exec_bind_ok (flush_steady hw₂ _)]

/-! ## From the SUBACK to the first message -/

theorem extractPublishPayload_eq {topic : Bytes} (h : topic.length < 65536) (payload : Bytes) :
    extractPublishPayload (toBeBytes (UInt16.ofNat topic.length) ++ topic ++ payload) =
      .ok payload := by
  have hval : (UInt16.ofNat topic.length).toNat = topic.length := by
    rw [UInt16.toNat_ofNat']
    exact Nat.mod_eq_of_lt h
  have hlen : (UInt8.ofNat (topic.length / 256)).toNat * 256 + (UInt8.ofNat topic.length).toNat =
      topic.length := by
    simp only [UInt8.toNat_ofNat']
    omega
  rw [toBeBytes, hval]
  show (if (topic ++ payload).length <
    (UInt8.ofNat (topic.length / 256)).toNat * 256 + (UInt8.ofNat topic.length).toNat then _
      else _) = _
  rw [hlen, if_neg (by rw [List.length_append]; omega)]
  exact congrArg Except.ok List.drop_left

/-- The remaining length of a message. -/
def messageLength (m : Bytes × Bytes) : Nat := 2 + m.1.length + m.2.length

theorem length_publish (topic payload : Bytes) :
    (toBeBytes (UInt16.ofNat topic.length) ++ topic ++ payload).length =
      messageLength (topic, payload) := by
  simp only [toBeBytes, List.length_append, List.length_cons, List.length_nil, messageLength]

theorem retain_type (retain : Bool) : (if retain then 0x31 else 0x30 : UInt8) >>> 4 = pktPublish := by
  cases retain <;> rfl

theorem wires_cons {p : BrokerPacket} {ps : List BrokerPacket} {wire : Bytes} (h : Wires (p :: ps) wire) :
    ∃ first others, p.Wire first ∧ Wires ps others ∧ wire = first ++ others := by
  obtain ⟨wires, hwires, rfl⟩ := h
  cases hwires with
  | @cons _ first _ others hfirst hrest =>
      exact ⟨first, others.flatten, hfirst, ⟨others, hrest, rfl⟩, List.flatten_cons⟩

/-- A message within the cap is returned, and one above it is refused, behind any number of
PINGRESPs. -/
theorem awaitPublish_wires {ps : List BrokerPacket} {wire : Bytes} {m : Bytes × Bytes} {turns : Nat}
    (hps : Wires ps wire) (hno : ∀ p ∈ ps, p.isSuback = false) (hfirst : firstMessage ps = some m)
    (hturns : ps.length ≤ turns) (rest : Bytes) (tail : Option IoKind) (w : Sink) :
    ((awaitPublish turns).exec ⟨⟨wire ++ rest, tail⟩, w⟩).1 =
      if messageLength m ≤ maxPacketBytes then .ok m.2
      else .error (.badResponse [.str "mqtt: packet too large"]) := by
  induction ps generalizing wire turns with
  | nil => cases hfirst
  | cons p ps ih =>
      obtain ⟨first, others, hwire, hrest, rfl⟩ := wires_cons hps
      cases turns with
      | zero => exact absurd hturns (Nat.not_succ_le_zero _)
      | succ turns =>
          rw [awaitPublish, List.append_assoc]
          cases p with
          | suback code => cases hno _ List.mem_cons_self
          | pingresp =>
              have hpacket := readPacket_wire hwire (Nat.zero_le _) (others ++ rest) tail w
              rw [Program.exec_bind_ok hpacket]
              exact ih hrest (fun q hq => hno q (List.mem_cons_of_mem _ hq)) hfirst
                (Nat.le_of_succ_le_succ hturns)
          | publish retain topic payload =>
              obtain ⟨htopic, hpublish⟩ := hwire
              obtain rfl : (topic, payload) = m := Option.some.inj hfirst
              by_cases hcap : messageLength (topic, payload) ≤ maxPacketBytes
              · have hpacket := readPacket_wire hpublish (by rwa [length_publish]) (others ++ rest) tail w
                rw [retain_type] at hpacket
                rw [if_pos hcap, Program.exec_bind_ok hpacket]
                dsimp only
                rw [if_pos rfl, extractPublishPayload_eq htopic]
                rfl
              · obtain ⟨s, hlarge⟩ := readPacket_large hpublish
                  (by rw [length_publish]; exact Nat.lt_of_not_le hcap) (others ++ rest) tail w
                rw [if_neg hcap, Program.exec_bind, hlarge]

/-! ## The orders a session accepts -/

/-- The SUBACK comes before everything else. -/
def SubackFirst (ps : List BrokerPacket) : Prop := (ps.head?.map BrokerPacket.isSuback) = some true

instance (ps : List BrokerPacket) : Decidable (SubackFirst ps) := inferInstanceAs (Decidable (_ = _))

/-- Any other packet in the place of the SUBACK ends the session. -/
theorem awaitSuback_error {first : UInt8} {body wire : Bytes} (h : IsPacket first body wire)
    (htype : first >>> 4 ≠ pktSuback) (rest : Bytes) (tail : Option IoKind) (w : Sink)
    (payload : Bytes) : (awaitSuback.exec ⟨⟨wire ++ rest, tail⟩, w⟩).1 ≠ .ok payload := by
  rw [awaitSuback]
  by_cases hcap : body.length ≤ maxPacketBytes
  · rw [Program.exec_bind_ok (readPacket_wire h hcap rest tail w)]
    dsimp only
    rw [if_pos htype]
    exact nofun
  · obtain ⟨s, hlarge⟩ := readPacket_large h (Nat.lt_of_not_le hcap) rest tail w
    rw [Program.exec_bind, hlarge]
    exact nofun

theorem length_le_wires {ps : List BrokerPacket} {wire : Bytes} (h : Wires ps wire) :
    ps.length ≤ wire.length := by
  induction ps generalizing wire with
  | nil => exact Nat.zero_le _
  | cons p ps ih =>
      obtain ⟨first, others, hwire, hrest, rfl⟩ := wires_cons h
      have hpos : 0 < first.length := by
        cases p with
        | suback code =>
            obtain ⟨-, length, -, rfl⟩ := hwire
            exact Nat.succ_pos _
        | publish retain topic payload =>
            obtain ⟨-, length, -, rfl⟩ := hwire
            exact Nat.succ_pos _
        | pingresp =>
            obtain ⟨length, -, rfl⟩ := hwire
            exact Nat.succ_pos _
      have hothers := ih hrest
      rw [List.length_append, List.length_cons]
      omega

/-- Behind a SUBACK, the outcome is that of the first message. -/
theorem awaitSuback_granted {code : UInt8} {ps : List BrokerPacket} {wire : Bytes}
    {m : Bytes × Bytes} (hps : Wires (.suback code :: ps) wire)
    (hno : ∀ p ∈ ps, p.isSuback = false) (hfirst : firstMessage ps = some m) (rest : Bytes)
    (tail : Option IoKind) {w : Sink} :
    (awaitSuback.exec ⟨⟨wire ++ rest, tail⟩, w⟩).1 = .ok m.2 ↔ messageLength m ≤ maxPacketBytes := by
  obtain ⟨first, others, ⟨hcode, hsuback⟩, hrest, rfl⟩ := wires_cons hps
  have hpacket := readPacket_wire hsuback (show 3 ≤ maxPacketBytes by decide) (others ++ rest) tail w
  have hgranted : code ≠ 0x80 := by
    rintro rfl
    exact absurd hcode (by decide)
  have hturns : ps.length ≤ (others ++ rest).length + 1 := by
    have hle := length_le_wires hrest
    rw [List.length_append]
    omega
  have hmessage := awaitPublish_wires hrest hno hfirst hturns rest tail w
  rw [awaitSuback, List.append_assoc, Program.exec_bind_ok hpacket]
  dsimp only
  rw [if_neg (by decide), if_neg hgranted, Program.exec_bind_ok (Program.exec_get _)]
  by_cases hcap : messageLength m ≤ maxPacketBytes
  · rw [if_pos hcap] at hmessage
    obtain ⟨s, hs⟩ : ∃ s, (awaitPublish ((others ++ rest).length + 1)).exec
        ⟨⟨others ++ rest, tail⟩, w⟩ = (.ok m.2, s) := ⟨_, Prod.ext hmessage rfl⟩
    rw [Program.exec_bind_ok hs]
    exact ⟨fun _ => hcap, fun _ => rfl⟩
  · rw [if_neg hcap] at hmessage
    obtain ⟨s, hs⟩ : ∃ s, (awaitPublish ((others ++ rest).length + 1)).exec
        ⟨⟨others ++ rest, tail⟩, w⟩ = (.error _, s) := ⟨_, Prod.ext hmessage rfl⟩
    rw [Program.exec_bind, hs]
    exact ⟨nofun, fun h => absurd h hcap⟩

/-- A session returns the first message of the broker's answer exactly when the SUBACK comes
first and the message is within the cap on packets. -/
theorem session_returns_iff {ps : List BrokerPacket} {wire connack : Bytes} {m : Bytes × Bytes}
    {flags : UInt8} {w : Sink} (hps : Answers ps) (hwire : Wires ps wire)
    (hm : firstMessage ps = some m) (hconnack : IsPacket 0x20 [flags, 0x00] connack)
    (hw : Steady w) (random : Bytes) (topic : Text) (user pass : Option Text) (rest : Bytes)
    (tail : Option IoKind) :
    ((runSession random topic user pass).exec ⟨⟨connack ++ (wire ++ rest), tail⟩, w⟩).1 = .ok m.2 ↔
      SubackFirst ps ∧ messageLength m ≤ maxPacketBytes := by
  obtain ⟨w', hw', hrun⟩ := runSession_connected hw hconnack random topic user pass (wire ++ rest) tail
  rw [hrun]
  cases ps with
  | nil => cases hm
  | cons p ps =>
      obtain ⟨first, others, hfirst, -, rfl⟩ := wires_cons hwire
      cases p with
      | suback code =>
          have hno : ∀ q ∈ ps, q.isSuback = false := by
            have hcount := hps.one_suback
            rw [List.countP_cons_of_pos rfl, Nat.add_eq_right, List.countP_eq_zero] at hcount
            exact fun q hq => Bool.eq_false_iff.mpr (hcount q hq)
          rw [awaitSuback_granted hwire hno hm rest tail]
          exact ⟨fun hcap => ⟨rfl, hcap⟩, fun h => h.2⟩
      | publish retain name payload =>
          have herror := awaitSuback_error hfirst.2 (by rw [retain_type]; decide) (others ++ rest) tail
            w' m.2
          rw [List.append_assoc]
          exact ⟨fun h => absurd h herror, fun h => by cases h.1⟩
      | pingresp =>
          have herror := awaitSuback_error hfirst (by decide) (others ++ rest) tail w' m.2
          rw [List.append_assoc]
          exact ⟨fun h => absurd h herror, fun h => by cases h.1⟩

/-- A write half that takes everything and has taken nothing yet. -/
def sampleSink : Sink := ⟨[], none, none⟩

def sampleConnack : Bytes := [0x20, 0x02, 0x00, 0x00]

/-- The grant in front of the message. -/
def samplePackets : List BrokerPacket := [.suback 0, .pingresp, .publish false [0x74] [0x68, 0x69]]

def sampleWire : Bytes :=
  [0x90, 0x03, 0x00, 0x01, 0x00, 0xD0, 0x00, 0x30, 0x05, 0x00, 0x01, 0x74, 0x68, 0x69]

theorem isVarint_small {n : Nat} (h : n < 128) : IsVarint 4 [UInt8.ofNat n] n := .last h

theorem sampleWire_wires : Wires samplePackets sampleWire := by
  refine ⟨[[0x90, 0x03, 0x00, 0x01, 0x00], [0xD0, 0x00],
    [0x30, 0x05, 0x00, 0x01, 0x74, 0x68, 0x69]], ?_, rfl⟩
  refine .cons ⟨by decide, [3], isVarint_small (by decide), rfl⟩
    (.cons ⟨[0], isVarint_small (by decide), rfl⟩ (.cons ⟨by decide, [5], ?_, rfl⟩ .nil))
  exact isVarint_small (show 5 < 128 by decide)

theorem session_returns_iff_sample :
    ((runSession [1, 2, 3, 4, 5, 6] "t".toList none none).exec
      ⟨⟨sampleConnack ++ (sampleWire ++ []), none⟩, sampleSink⟩).1 = .ok [0x68, 0x69] ↔
      SubackFirst samplePackets ∧ messageLength ([0x74], [0x68, 0x69]) ≤ maxPacketBytes :=
  session_returns_iff (m := ([0x74], [0x68, 0x69])) ⟨rfl, by decide⟩ sampleWire_wires rfl
    ⟨[2], isVarint_small (by decide), rfl⟩ ⟨rfl, rfl⟩ _ _ none none [] none

/-- The message in front of the grant, as the standard allows. -/
def earlyPackets : List BrokerPacket := [.publish false [0x74] [0x68, 0x69], .suback 0]

def earlyWire : Bytes := [0x30, 0x05, 0x00, 0x01, 0x74, 0x68, 0x69, 0x90, 0x03, 0x00, 0x01, 0x00]

theorem early_message_refused : Answers earlyPackets ∧ Wires earlyPackets earlyWire ∧
    firstMessage earlyPackets = some ([0x74], [0x68, 0x69]) ∧
    ((runSession [1, 2, 3, 4, 5, 6] "t".toList none none).exec
      ⟨⟨sampleConnack ++ earlyWire, none⟩, sampleSink⟩).1 =
        .error (.badResponse [.str "mqtt: expected SUBACK, got packet type ", .num 3]) := by
  refine ⟨⟨rfl, by decide⟩, ⟨[[0x30, 0x05, 0x00, 0x01, 0x74, 0x68, 0x69],
    [0x90, 0x03, 0x00, 0x01, 0x00]], ?_, rfl⟩, rfl, by decide +kernel⟩
  exact .cons ⟨by decide, [5], isVarint_small (show 5 < 128 by decide), rfl⟩
    (.cons ⟨by decide, [3], isVarint_small (by decide), rfl⟩ .nil)

end Rsurl.Mqtt
