/-
# `Rsurl.Mqtt.Packet` — the packets that are written

The control packets of MQTT 3.1.1 a client begins with, as the standard lays
them out, and a decoder of them.  What a run of `fetch` or `publish` writes is a
CONNECT, a SUBSCRIBE or PUBLISH and a DISCONNECT; each decodes to the fields it
was made of, with a string of more than 65535 bytes cut there, and leaves what
is behind it.
-/
import Rsurl.Mqtt.Session

namespace Rsurl.Mqtt

open Base (Program)

/-! ## The standard's packets -/

/-- A message the broker is to publish when the connection is lost. -/
structure Will where
  topic : Bytes
  message : Bytes
  qos : UInt8
  retain : Bool
deriving DecidableEq, Repr

structure ConnectPacket where
  cleanSession : Bool
  keepAlive : Nat
  clientId : Bytes
  will : Option Will
  user : Option Bytes
  password : Option Bytes
deriving DecidableEq, Repr

structure PublishPacket where
  dup : Bool
  qos : UInt8
  retain : Bool
  topic : Bytes
  packetId : Option Nat
  payload : Bytes
deriving DecidableEq, Repr

/-- Strings are kept as their bytes. -/
inductive ControlPacket where
  | connect (p : ConnectPacket)
  | publish (p : PublishPacket)
  | subscribe (packetId : Nat) (filters : List (Bytes × UInt8))
  | disconnect
deriving DecidableEq, Repr

/-! ## The decoder -/

/-- A remaining length: seven bits in each byte, the low ones first. -/
def decodeLength : Nat → Bytes → Option (Nat × Bytes)
  | 0, _ => none
  | _, [] => none
  | k + 1, b :: r =>
      if b.toNat < 128 then some (b.toNat, r)
      else do
        let (n, r) ← decodeLength k r
        some (b.toNat - 128 + 128 * n, r)

def decodeU16 : Bytes → Option (Nat × Bytes)
  | hi :: lo :: r => some (hi.toNat * 256 + lo.toNat, r)
  | _ => none

/-- A length in two bytes, and as many bytes. -/
def decodeString (r : Bytes) : Option (Bytes × Bytes) := do
  let (n, r) ← decodeU16 r
  if n ≤ r.length then some (r.take n, r.drop n) else none

/-- A field that is there when its flag is set. -/
def decodeField (flag : Bool) (r : Bytes) : Option (Option Bytes × Bytes) :=
  if flag then do
    let (s, r) ← decodeString r
    some (some s, r)
  else some (none, r)

/-- The will; without it, its other flags are zero. -/
def decodeWill (flags : UInt8) (r : Bytes) : Option (Option Will × Bytes) :=
  if flags &&& 0x04 = 0 then if flags &&& 0x38 = 0 then some (none, r) else none
  else if flags &&& 0x18 = 0x18 then none
  else do
    let (topic, r) ← decodeString r
    let (message, r) ← decodeString r
    some (some ⟨topic, message, flags >>> 3 &&& 3, flags &&& 0x20 ≠ 0⟩, r)

/-- The body of a CONNECT: no password without a user, nothing behind the last field. -/
def decodeConnect (r : Bytes) : Option ConnectPacket := do
  let (name, r) ← decodeString r
  match r with
  | level :: flags :: r =>
      if name ≠ [0x4D, 0x51, 0x54, 0x54] ∨ level ≠ 4 ∨ flags &&& 0x01 ≠ 0 ∨
          (flags &&& 0x40 ≠ 0 ∧ flags &&& 0x80 = 0) then none
      else do
        let (keepAlive, r) ← decodeU16 r
        let (clientId, r) ← decodeString r
        let (will, r) ← decodeWill flags r
        let (user, r) ← decodeField (flags &&& 0x80 ≠ 0) r
        let (password, r) ← decodeField (flags &&& 0x40 ≠ 0) r
        if r = [] then some ⟨flags &&& 0x02 ≠ 0, keepAlive, clientId, will, user, password⟩ else none
  | _ => none

/-- The identifier of a packet: not zero. -/
def decodePacketId (r : Bytes) : Option (Nat × Bytes) := do
  let (n, r) ← decodeU16 r
  if n = 0 then none else some (n, r)

/-- The body of a PUBLISH: a topic has no wildcard, and an identifier goes with the higher
qualities of service. -/
def decodePublish (first : UInt8) (r : Bytes) : Option PublishPacket := do
  let qos := first >>> 1 &&& 3
  let dup : Bool := first &&& 0x08 ≠ 0
  let (topic, r) ← decodeString r
  if qos = 3 ∨ (dup ∧ qos = 0) ∨ topic = [] ∨ 0x2B ∈ topic ∨ 0x23 ∈ topic then none
  else if qos = 0 then some ⟨dup, qos, first &&& 0x01 ≠ 0, topic, none, r⟩
  else do
    let (packetId, r) ← decodePacketId r
    some ⟨dup, qos, first &&& 0x01 ≠ 0, topic, some packetId, r⟩

/-- The filters of a SUBSCRIBE, up to the end of the body. -/
def decodeFilters : Nat → Bytes → Option (List (Bytes × UInt8))
  | _, [] => some []
  | 0, _ => none
  | turns + 1, r => do
      let (filter, r) ← decodeString r
      match r with
      | qos :: r =>
          if filter = [] ∨ 2 < qos then none
          else do
            let filters ← decodeFilters turns r
            some ((filter, qos) :: filters)
      | [] => none

def decodeSubscribe (r : Bytes) : Option ControlPacket := do
  let (packetId, r) ← decodePacketId r
  let filters ← decodeFilters r.length r
  if filters = [] then none else some (.subscribe packetId filters)

/-- The body of a packet, by the type and the flags in front. -/
def decodeBody (first : UInt8) (r : Bytes) : Option ControlPacket :=
  if first = 0x10 then (decodeConnect r).map .connect
  else if first >>> 4 = 3 then (decodePublish first r).map .publish
  else if first = 0x82 then decodeSubscribe r
  else if first = 0xE0 ∧ r = [] then some .disconnect
  else none

/-- One packet, and what is behind it. -/
def decodePacket : Bytes → Option (ControlPacket × Bytes)
  | first :: r => do
      let (n, r) ← decodeLength 4 r
      if n ≤ r.length then do
        let p ← decodeBody first (r.take n)
        some (p, r.drop n)
      else none
  | [] => none

/-! ## Decoding what is built -/

/-- A string as it is written: what is over 65535 bytes is cut. -/
def cut (t : Text) : Bytes := t.utf8.take 65535

def stringBytes (bytes : Bytes) : Bytes := toBeBytes (UInt16.ofNat bytes.length) ++ bytes

theorem length_cut (t : Text) : (cut t).length ≤ 65535 := by
  rw [cut, List.length_take]
  exact Nat.min_le_left _ _

theorem cut_ne_nil {t : Text} (h : t ≠ []) : cut t ≠ [] := by
  rw [cut, Ne, List.take_eq_nil_iff]
  exact fun he => he.elim (by decide) (mt Text.utf8_eq_nil.mp h)

theorem pushStr_eq (out : Bytes) (t : Text) : pushStr out t = out ++ stringBytes (cut t) := by
  rw [pushStr, stringBytes, cut, List.length_take, Nat.min_comm 65535, List.append_assoc]
  congr 2
  rcases Nat.le_total t.utf8.length 65535 with h | h
  · rw [Nat.min_eq_left h, List.take_length, List.take_of_length_le h]
  · rw [Nat.min_eq_right h]

theorem length_stringBytes (bytes : Bytes) : (stringBytes bytes).length = 2 + bytes.length := by
  rw [stringBytes, List.length_append]
  rfl

theorem decodeU16_toBeBytes (n : UInt16) (rest : Bytes) :
    decodeU16 (toBeBytes n ++ rest) = some (n.toNat, rest) := by
  have hlt := n.toNat_lt
  have hhigh : (UInt8.ofNat (n.toNat / 256)).toNat = n.toNat / 256 := by
    rw [UInt8.toNat_ofNat']
    exact Nat.mod_eq_of_lt (by omega)
  have hlow : (UInt8.ofNat n.toNat).toNat = n.toNat % 256 := UInt8.toNat_ofNat'
  show some ((UInt8.ofNat (n.toNat / 256)).toNat * 256 + (UInt8.ofNat n.toNat).toNat, rest) = _
  rw [hhigh, hlow, Nat.div_add_mod']

theorem decodeString_stringBytes {bytes : Bytes} (h : bytes.length ≤ 65535) (rest : Bytes) :
    decodeString (stringBytes bytes ++ rest) = some (bytes, rest) := by
  have hlen : (UInt16.ofNat bytes.length).toNat = bytes.length := by
    rw [UInt16.toNat_ofNat']
    exact Nat.mod_eq_of_lt (by omega)
  rw [decodeString, stringBytes, List.append_assoc, decodeU16_toBeBytes, hlen]
  show (if _ then _ else _) = _
  rw [if_pos (by rw [List.length_append]; omega), List.take_left, List.drop_left]

theorem decodeField_cut (t : Text) (rest : Bytes) :
    decodeField true (stringBytes (cut t) ++ rest) = some (some (cut t), rest) := by
  rw [decodeField, if_pos rfl, decodeString_stringBytes (length_cut t)]
  rfl

theorem toNat_digit (n : Nat) : (UInt8.ofNat (n % 128)).toNat = n % 128 ∧
    (UInt8.ofNat (n % 128) ||| 0x80).toNat = 128 + n % 128 := by
  have hall : ∀ m : Fin 128, (UInt8.ofNat m.val).toNat = m.val ∧
      (UInt8.ofNat m.val ||| 0x80).toNat = 128 + m.val := by decide
  exact hall ⟨n % 128, Nat.mod_lt _ (by decide)⟩

theorem decodeLength_last (k : Nat) {n : Nat} (h : n < 128) (rest : Bytes) :
    decodeLength (k + 1) (lengthBytes (k + 1) n ++ rest) = some (n, rest) := by
  have hdigit := (toNat_digit n).1
  rw [Nat.mod_eq_of_lt h] at hdigit
  rw [lengthBytes, if_neg (by omega), Nat.mod_eq_of_lt h, List.singleton_append, decodeLength, hdigit, if_pos h]

/-- The length is read back from as many bytes as there were turns to write it. -/
theorem decodeLength_lengthBytes {k n : Nat} (h : n < 128 ^ (k + 1)) (rest : Bytes) :
    decodeLength (k + 1) (lengthBytes (k + 1) n ++ rest) = some (n, rest) := by
  induction k generalizing n with
  | zero => exact decodeLength_last 0 h rest
  | succ k ih =>
      by_cases hlast : n < 128
      · exact decodeLength_last _ hlast rest
      have hdigit := (toNat_digit n).2
      have hmore : n / 128 < 128 ^ (k + 1) := by
        rw [pow_succ] at h
        exact Nat.div_lt_of_lt_mul (by rwa [Nat.mul_comm])
      rw [lengthBytes, if_pos (by omega), List.cons_append, decodeLength, hdigit, if_neg (by omega), ih hmore]
      show some (128 + n % 128 - 128 + 128 * (n / 128), rest) = _
      rw [Nat.add_sub_cancel_left, Nat.mod_add_div]

/-- The longest remaining length that can be written. -/
def maxRemaining : Nat := 268435455

/-- A decoder takes as much of the body as the length field says, and leaves the rest. -/
theorem decodePacket_written (first : UInt8) (body rest : Bytes) :
    decodePacket (writeRemainingLength [first] body.length ++ body ++ rest) =
      (decodeBody first (body.take maxRemaining)).map fun p => (p, body.drop maxRemaining ++ rest) := by
  have hlt : min body.length maxRemaining < 128 ^ 4 :=
    Nat.lt_of_le_of_lt (Nat.min_le_right _ _) (by decide)
  have hlen : min body.length maxRemaining ≤ (body ++ rest).length := by
    rw [List.length_append]
    omega
  rw [writeRemainingLength, List.append_assoc, List.append_assoc, List.singleton_append, decodePacket]
  change (decodeLength 4 (lengthBytes 4 (min body.length maxRemaining) ++ (body ++ rest)) >>= _) = _
  rw [decodeLength_lengthBytes hlt]
  show (if _ then _ else _) = _
  rw [if_pos hlen]
  have htake : (body ++ rest).take (min body.length maxRemaining) = body.take maxRemaining := by
    rw [List.take_append_of_le_length (Nat.min_le_left _ _)]
    rcases Nat.le_total body.length maxRemaining with h | h
    · rw [Nat.min_eq_left h, List.take_length, List.take_of_length_le h]
    · rw [Nat.min_eq_right h]
  have hdrop : (body ++ rest).drop (min body.length maxRemaining) =
      body.drop maxRemaining ++ rest := by
    rw [List.drop_append_of_le_length (Nat.min_le_left _ _)]
    congr 1
    rcases Nat.le_total body.length maxRemaining with h | h
    · rw [Nat.min_eq_left h, List.drop_length, List.drop_of_length_le h]
    · rw [Nat.min_eq_right h]
  rw [htake, hdrop]
  cases decodeBody first (body.take maxRemaining) <;> rfl

/-- A packet that fits is decoded from its body. -/
theorem decodePacket_fits {first : UInt8} {body : Bytes} {p : ControlPacket}
    (hlen : body.length ≤ maxRemaining) (h : decodeBody first body = some p) (rest : Bytes) :
    decodePacket (writeRemainingLength [first] body.length ++ body ++ rest) = some (p, rest) := by
  rw [decodePacket_written, List.take_of_length_le hlen, List.drop_of_length_le hlen, h]
  rfl

/-! ## The three packets -/

/-- What a CONNECT says. -/
def connectPacket (clientId : Text) (user pass : Option Text) (keepAliveSecs : UInt16) : ConnectPacket :=
  ⟨true, keepAliveSecs.toNat, cut clientId, none, user.map cut, pass.map cut⟩

/-- There is no password without a user. -/
theorem splitUserinfo_user {ui : Option Text} (h : (splitUserinfo ui).2 ≠ none) :
    (splitUserinfo ui).1 ≠ none := by
  cases ui with
  | none => exact absurd rfl h
  | some s =>
      rw [splitUserinfo] at h ⊢
      cases hsplit : Text.splitOnce ':' s with
      | none => simp
      | some parts => simp

/-- A field that may be absent. -/
def fieldBytes (t : Option Text) : Bytes :=
  match t with
  | some t => stringBytes (cut t)
  | none => []

theorem decodeField_fieldBytes (t : Option Text) (rest : Bytes) :
    decodeField t.isSome (fieldBytes t ++ rest) = some (t.map cut, rest) := by
  cases t with
  | none => rfl
  | some t => exact decodeField_cut t rest

theorem length_fieldBytes (t : Option Text) : (fieldBytes t).length ≤ 65537 := by
  cases t with
  | none => exact Nat.zero_le _
  | some t =>
      have hcut := length_cut t
      show (stringBytes (cut t)).length ≤ _
      rw [length_stringBytes]
      omega

def connectFlags (user pass : Option Text) : UInt8 :=
  0x02 ||| (if user.isSome then 0x80 else 0) ||| (if pass.isSome then 0x40 else 0)

def connectBody (clientId : Text) (user pass : Option Text) (keepAliveSecs : UInt16) : Bytes :=
  stringBytes [0x4D, 0x51, 0x54, 0x54] ++ 4 :: connectFlags user pass :: (toBeBytes keepAliveSecs ++
    (stringBytes (cut clientId) ++ (fieldBytes user ++ fieldBytes pass)))

theorem buildConnect_eq (clientId : Text) (user pass : Option Text) (keepAliveSecs : UInt16) :
    buildConnect clientId user pass keepAliveSecs =
      writeRemainingLength [0x10] (connectBody clientId user pass keepAliveSecs).length ++
        connectBody clientId user pass keepAliveSecs := by
  have hname : cut "MQTT".toList = [0x4D, 0x51, 0x54, 0x54] := rfl
  have htype : pktConnect <<< 4 = 0x10 := rfl
  have hlen (a b : Bytes) : a.length + b.length = (a ++ b).length := List.length_append.symm
  cases user <;> cases pass <;> unfold buildConnect <;> dsimp only <;>
    rw [htype, hlen, List.append_assoc] <;>
    simp only [pushStr_eq, connectBody, connectFlags, fieldBytes, hname, List.append_assoc,
      List.nil_append, List.append_nil, List.cons_append]

/-- The flags name the fields that are there, and no will. -/
theorem connectFlags_spec {user pass : Option Text} (hpass : pass ≠ none → user ≠ none) :
    connectFlags user pass &&& 0x01 = 0 ∧
    ¬(connectFlags user pass &&& 0x40 ≠ 0 ∧ connectFlags user pass &&& 0x80 = 0) ∧
    (connectFlags user pass &&& 0x04 = 0 ∧ connectFlags user pass &&& 0x38 = 0) ∧
    decide (connectFlags user pass &&& 0x80 ≠ 0) = user.isSome ∧
    decide (connectFlags user pass &&& 0x40 ≠ 0) = pass.isSome ∧
    decide (connectFlags user pass &&& 0x02 ≠ 0) = true := by
  have hfields : pass.isSome = true → user.isSome = true := by
    simpa [Option.isSome_iff_ne_none] using hpass
  unfold connectFlags
  generalize user.isSome = u at hfields ⊢
  generalize pass.isSome = p at hfields ⊢
  revert u p
  decide

theorem decodePacket_buildConnect (clientId : Text) {user pass : Option Text}
    (hpass : pass ≠ none → user ≠ none) (keepAliveSecs : UInt16) (rest : Bytes) :
    decodePacket (buildConnect clientId user pass keepAliveSecs ++ rest) =
      some (.connect (connectPacket clientId user pass keepAliveSecs), rest) := by
  have hlen : (connectBody clientId user pass keepAliveSecs).length ≤ maxRemaining := by
    have hid := length_cut clientId
    have huser := length_fieldBytes user
    have hpass := length_fieldBytes pass
    have hkeep : (toBeBytes keepAliveSecs).length = 2 := rfl
    simp only [connectBody, List.length_append, List.length_cons, length_stringBytes,
      List.length_nil, maxRemaining, hkeep]
    omega
  rw [buildConnect_eq]
  refine decodePacket_fits hlen ?_ rest
  obtain ⟨hreserved, hpassword, ⟨hwill, hwillBits⟩, huserFlag, hpassFlag, hclean⟩ :=
    connectFlags_spec hpass
  have hname : ¬(([0x4D, 0x51, 0x54, 0x54] : Bytes) ≠ [0x4D, 0x51, 0x54, 0x54] ∨ (4 : UInt8) ≠ 4 ∨
      connectFlags user pass &&& 0x01 ≠ 0 ∨
      (connectFlags user pass &&& 0x40 ≠ 0 ∧ connectFlags user pass &&& 0x80 = 0)) := by
    rw [hreserved]
    simpa using hpassword
  have hpass' : decodeField pass.isSome (fieldBytes pass) = some (pass.map cut, []) := by
    have hread := decodeField_fieldBytes pass []
    rwa [List.append_nil] at hread
  rw [decodeBody, if_pos rfl, connectBody, decodeConnect,
    decodeString_stringBytes (by decide : [0x4D, 0x51, 0x54, 0x54].length ≤ 65535)]
  show Option.map _ (if _ then _ else _) = _
  rw [if_neg hname, decodeU16_toBeBytes]
  change Option.map _ (decodeString _ >>= _) = _
  rw [decodeString_stringBytes (length_cut clientId)]
  change Option.map _ (decodeWill _ _ >>= _) = _
  rw [decodeWill, if_pos hwill, if_pos hwillBits]
  change Option.map _ (decodeField _ _ >>= _) = _
  rw [huserFlag, decodeField_fieldBytes]
  change Option.map _ (decodeField _ _ >>= _) = _
  rw [hpassFlag, hpass', hclean]
  rfl

theorem decodePacket_buildSubscribe {packetId : UInt16} (hid : packetId ≠ 0) {topic : Text}
    (htopic : topic ≠ []) (rest : Bytes) :
    decodePacket (buildSubscribe packetId topic ++ rest) =
      some (.subscribe packetId.toNat [(cut topic, 0)], rest) := by
  have hbody : pushStr (toBeBytes packetId) topic ++ [0x00] =
      toBeBytes packetId ++ (stringBytes (cut topic) ++ [0x00]) := by
    rw [pushStr_eq, List.append_assoc]
  have hlen : (toBeBytes packetId ++ (stringBytes (cut topic) ++ [0x00])).length ≤ maxRemaining := by
    have hcut := length_cut topic
    rw [List.length_append, List.length_append, length_stringBytes]
    show 2 + (2 + (cut topic).length + 1) ≤ 268435455
    omega
  rw [buildSubscribe, hbody]
  refine decodePacket_fits hlen ?_ rest
  show decodeSubscribe _ = _
  have hne : packetId.toNat ≠ 0 := fun he => hid (UInt16.toNat_inj.mp he)
  have hfilters : decodeFilters (stringBytes (cut topic) ++ [0x00]).length
      (stringBytes (cut topic) ++ [0x00]) = some [(cut topic, 0)] := by
    obtain ⟨b, r, hcons⟩ : ∃ b r, stringBytes (cut topic) ++ [0x00] = b :: r := ⟨_, _, rfl⟩
    rw [hcons, List.length_cons, decodeFilters, ← hcons, decodeString_stringBytes (length_cut topic)]
    · show (if _ then _ else _) = _
      rw [if_neg (not_or.mpr ⟨cut_ne_nil htopic, by decide⟩)]
      cases r.length <;> rfl
    · exact List.cons_ne_nil _ _
  rw [decodeSubscribe, decodePacketId, decodeU16_toBeBytes]
  show (if packetId.toNat = 0 then none else some (packetId.toNat, _)) >>= _ = _
  rw [if_neg hne]
  show decodeFilters _ _ >>= _ = _
  rw [hfilters]
  rfl

/-- What stands in front of the payload. -/
def publishHead (topic : Text) (qos : UInt8) (packetId : UInt16) : Bytes :=
  stringBytes (cut topic) ++ if qos > 0 then toBeBytes packetId else []

/-- How much of a payload the longest remaining length leaves room for. -/
def payloadRoom (topic : Text) (qos : UInt8) : Nat :=
  maxRemaining - (2 + (cut topic).length + if qos > 0 then 2 else 0)

/-- What a PUBLISH says, with as much of the payload as there is room for. -/
def publishPacket (topic : Text) (payload : Bytes) (qos : UInt8) (packetId : UInt16) : PublishPacket :=
  ⟨false, qos, false, cut topic, if qos > 0 then some packetId.toNat else none,
    payload.take (payloadRoom topic qos)⟩

theorem length_publishHead (topic : Text) (qos : UInt8) (packetId : UInt16) :
    (publishHead topic qos packetId).length = 2 + (cut topic).length + if qos > 0 then 2 else 0 := by
  rw [publishHead, List.length_append, length_stringBytes]
  split <;> rfl

theorem buildPublish_eq (topic : Text) (payload : Bytes) (qos : UInt8) (packetId : UInt16) :
    buildPublish topic payload qos packetId =
      writeRemainingLength [(pktPublish <<< 4) ||| ((qos &&& 0x03) <<< 1)]
        (publishHead topic qos packetId ++ payload).length ++
          (publishHead topic qos packetId ++ payload) := by
  have hbody : (if qos > 0 then pushStr [] topic ++ toBeBytes packetId else pushStr [] topic) =
      publishHead topic qos packetId := by
    rw [publishHead, pushStr_eq, List.nil_append]
    split
    · rfl
    · rw [List.append_nil]
  unfold buildPublish
  dsimp only
  rw [hbody]

theorem le_one_cases {qos : UInt8} (h : qos ≤ 1) : qos = 0 ∨ qos = 1 := by
  have hle : qos.toNat ≤ 1 := UInt8.le_iff_toNat_le.mp h
  rcases Nat.le_one_iff_eq_zero_or_eq_one.mp hle with h | h
  · exact .inl (UInt8.toNat_inj.mp h)
  · exact .inr (UInt8.toNat_inj.mp h)

/-- The first byte has the quality of service, and no other flag. -/
theorem publishFirst_spec {qos : UInt8} (h : qos ≤ 1) :
    (pktPublish <<< 4) ||| ((qos &&& 0x03) <<< 1) ≠ 0x10 ∧
    ((pktPublish <<< 4) ||| ((qos &&& 0x03) <<< 1)) >>> 4 = 3 ∧
    ((pktPublish <<< 4) ||| ((qos &&& 0x03) <<< 1)) >>> 1 &&& 3 = qos ∧
    ((pktPublish <<< 4) ||| ((qos &&& 0x03) <<< 1)) &&& 0x08 = 0 ∧
    ((pktPublish <<< 4) ||| ((qos &&& 0x03) <<< 1)) &&& 0x01 = 0 := by
  rcases le_one_cases h with rfl | rfl <;> decide

theorem decodePublish_head {topic : Text} (hne : topic ≠ []) (hplus : '+' ∉ topic)
    (hhash : '#' ∉ topic) {qos : UInt8} (hqos : qos ≤ 1) {packetId : UInt16} (hid : packetId ≠ 0)
    (payload : Bytes) :
    decodePublish ((pktPublish <<< 4) ||| ((qos &&& 0x03) <<< 1))
        (publishHead topic qos packetId ++ payload) =
      some ⟨false, qos, false, cut topic, if qos > 0 then some packetId.toNat else none, payload⟩ := by
  have hplus' : 0x2B ∉ cut topic := fun h =>
    Text.not_mem_utf8 (c := '+') (by decide) hplus (List.mem_of_mem_take h)
  have hhash' : 0x23 ∉ cut topic := fun h =>
    Text.not_mem_utf8 (c := '#') (by decide) hhash (List.mem_of_mem_take h)
  have hne' := cut_ne_nil hne
  have hid' : packetId.toNat ≠ 0 := fun he => hid (UInt16.toNat_inj.mp he)
  obtain ⟨-, -, hbits, hdup, hretain⟩ := publishFirst_spec hqos
  have hlegal : ¬(qos = 3 ∨ ((decide ((0 : UInt8) ≠ 0)) = true ∧ qos = 0) ∨ cut topic = [] ∨
      0x2B ∈ cut topic ∨ 0x23 ∈ cut topic) := by
    rintro (rfl | h | h | h | h)
    · exact absurd hqos (by decide)
    · exact absurd h.1 (by decide)
    · exact hne' h
    · exact hplus' h
    · exact hhash' h
  rw [decodePublish, publishHead, List.append_assoc, decodeString_stringBytes (length_cut topic),
    hbits, hdup, hretain]
  show (if _ then _ else _) = _
  rw [if_neg hlegal]
  rcases le_one_cases hqos with rfl | rfl
  · rfl
  · rw [if_neg (by decide), if_pos (by decide), if_pos (by decide)]
    change (decodeU16 (toBeBytes packetId ++ payload) >>= _) >>= _ = _
    rw [decodeU16_toBeBytes]
    show (if packetId.toNat = 0 then none else some (packetId.toNat, payload)) >>= _ = _
    rw [if_neg hid']
    rfl

theorem decodePacket_buildPublish {topic : Text} (hne : topic ≠ []) (hplus : '+' ∉ topic)
    (hhash : '#' ∉ topic) {qos : UInt8} (hqos : qos ≤ 1) {packetId : UInt16} (hid : packetId ≠ 0)
    (payload rest : Bytes) :
    decodePacket (buildPublish topic payload qos packetId ++ rest) =
      some (.publish (publishPacket topic payload qos packetId),
        payload.drop (payloadRoom topic qos) ++ rest) := by
  have hhead : (publishHead topic qos packetId).length ≤ maxRemaining := by
    have hcut := length_cut topic
    rw [length_publishHead, maxRemaining]
    split <;> omega
  obtain ⟨hconnect, htype, -⟩ := publishFirst_spec hqos
  rw [buildPublish_eq, decodePacket_written, List.take_append, List.drop_append,
    List.take_of_length_le hhead, List.drop_of_length_le hhead, List.nil_append, length_publishHead,
    ← payloadRoom, decodeBody, if_neg hconnect, if_pos htype,
    decodePublish_head hne hplus hhash hqos hid]
  rfl

theorem validatePublishTopic_ok {topic : Text} (h : validatePublishTopic topic = .ok ()) :
    '+' ∉ topic ∧ '#' ∉ topic := by
  induction topic with
  | nil => exact ⟨List.not_mem_nil, List.not_mem_nil⟩
  | cons c topic ih =>
      rw [validatePublishTopic] at h
      by_cases hwild : c = '+' ∨ c = '#'
      · rw [if_pos hwild] at h
        cases h
      rw [if_neg hwild] at h
      by_cases hnul : c.toNat = 0
      · rw [if_pos hnul] at h
        cases h
      rw [if_neg hnul] at h
      by_cases hcontrol : isControl c
      · rw [if_pos hcontrol] at h
        cases h
      rw [if_neg hcontrol] at h
      obtain ⟨hplus, hhash⟩ := ih h
      refine ⟨fun hmem => ?_, fun hmem => ?_⟩
      · exact (List.mem_cons.mp hmem).elim (fun he => hwild (.inl he.symm)) hplus
      · exact (List.mem_cons.mp hmem).elim (fun he => hwild (.inr he.symm)) hhash

theorem topicOf_ok {url : Url} {topic : Text} (h : topicOf url = .ok topic) : topic ≠ [] := by
  rw [topicOf] at h
  split at h
  · cases h
  · next hne =>
      cases h
      exact hne

theorem publishTopic_ok {url : Url} {qos : UInt8} {topic : Text}
    (h : publishTopic url qos = .ok topic) :
    topic ≠ [] ∧ '+' ∉ topic ∧ '#' ∉ topic ∧ qos ≤ 1 := by
  rw [publishTopic, Result.bind_eq_ok] at h
  obtain ⟨t, htopic, h⟩ := h
  rw [Result.guard_eq_ok] at h
  obtain ⟨hvalid, h⟩ := h
  by_cases hqos : qos > 1
  · rw [if_pos hqos] at h
    cases h
  rw [if_neg hqos] at h
  cases h
  obtain ⟨hplus, hhash⟩ := validatePublishTopic_ok hvalid
  exact ⟨topicOf_ok htopic, hplus, hhash, UInt8.not_lt.mp hqos⟩

/-! ## What a run writes -/

section Writing

variable {α β : Type} {m : Session α} {f : α → Session β} {a b more : Bytes}

/-- A run that goes well writes `sure`, and no run writes more than `sure` and `more`. -/
def Writes (m : Session α) (sure more : Bytes) : Prop :=
  ∀ s, ∃ sent, (m.exec s).2.sink.written = s.sink.written ++ sent ∧ sent <+: sure ++ more ∧
    ∀ a, (m.exec s).1 = .ok a → sure <+: sent

/-- Nothing is written. -/
def Silent (m : Session α) : Prop := ∀ s, (m.exec s).2.sink = s.sink

theorem Silent.writes (h : Silent m) : Writes m [] more := by
  intro s
  exact ⟨[], by rw [h s, List.append_nil], List.nil_prefix, fun _ _ => List.nil_prefix⟩

theorem Silent.pure (a : α) : Silent (pure a : Session α) := fun _ => rfl

theorem Silent.throw (e : Error) : Silent (throw e : Session α) := fun _ => rfl

theorem Silent.ofExcept (x : Except Error α) : Silent (Program.ofExcept x : Session α) := by
  cases x with
  | error e => exact Silent.throw e
  | ok a => exact Silent.pure a

theorem Silent.bind (hm : Silent m) (hf : ∀ a, Silent (f a)) : Silent (m >>= f) := by
  intro s
  have hsink := hm s
  rw [Program.exec_bind]
  revert hsink
  rcases m.exec s with ⟨res | a, s'⟩
  · exact id
  · exact fun hsink => (hf a s').trans hsink

theorem Silent.ite {c : Prop} [Decidable c] {m m' : Session α} (h : Silent m) (h' : Silent m') :
    Silent (if c then m else m') := by
  split
  · exact h
  · exact h'

/-- What is sure of the first is written before the second begins. -/
theorem Writes.bind (hm : Writes m a []) (hf : ∀ x, Writes (f x) b more) :
    Writes (m >>= f) (a ++ b) more := by
  intro s
  obtain ⟨sent, hwritten, hsent, hok⟩ := hm s
  rw [List.append_nil] at hsent
  rw [Program.exec_bind]
  revert hwritten hok
  rcases m.exec s with ⟨res | x, s'⟩
  · intro hwritten _
    refine ⟨sent, hwritten, ?_, nofun⟩
    rw [List.append_assoc]
    exact hsent.trans (List.prefix_append _ _)
  · intro hwritten hok
    obtain rfl := hsent.eq_of_length_le (hok x rfl).length_le
    obtain ⟨sent', hwritten', hsent', hok'⟩ := hf x s'
    refine ⟨sent ++ sent', ?_, ?_, fun y hy => ?_⟩
    · show ((f x).exec s').2.sink.written = _
      rw [hwritten', ← List.append_assoc]
      exact congrArg (· ++ sent') hwritten
    · rw [List.append_assoc]
      exact (List.prefix_append_right_inj _).mpr hsent'
    · exact (List.prefix_append_right_inj _).mpr (hok' y hy)

/-- Nothing is written behind what may be written. -/
theorem Writes.last (hm : Writes m [] more) (hf : ∀ x, Silent (f x)) : Writes (m >>= f) [] more := by
  intro s
  obtain ⟨sent, hwritten, hsent, -⟩ := hm s
  refine ⟨sent, ?_, hsent, fun _ _ => List.nil_prefix⟩
  rw [← hwritten, Program.exec_bind]
  rcases m.exec s with ⟨res | x, s'⟩
  · rfl
  · exact congrArg Sink.written (hf x s')

theorem Silent.then (hm : Silent m) (hf : ∀ x, Writes (f x) b more) : Writes (m >>= f) b more :=
  hm.writes.bind hf

theorem writes_writeAll (bytes : Bytes) : Writes (writeAll bytes) bytes [] := by
  intro s
  rcases takes_writeAll s.sink bytes with ⟨hok, hwritten⟩ | ⟨kind, sent, herror, hsent, hwritten⟩
  · exact ⟨bytes, hwritten, List.prefix_append bytes [], fun _ _ => List.prefix_rfl⟩
  · refine ⟨sent, hwritten, by rwa [List.append_nil], fun a ha => ?_⟩
    have hres : (s.sink.writeAll bytes).1 = .ok a := ha
    rw [herror] at hres
    cases hres

theorem writes_writeAll_then (bytes : Bytes) {f : Unit → Session β}
    (hf : ∀ x, Writes (f x) [] more) : Writes (writeAll bytes >>= f) bytes more := by
  have hall := (writes_writeAll bytes).bind hf
  rwa [List.append_nil] at hall

theorem silent_flush : Silent flush := by
  intro s
  show s.sink.flush.2 = s.sink
  rw [Sink.flush]
  split <;> rfl

theorem silent_readExact (n : Nat) : Silent (readExact n) := fun _ => rfl

theorem silent_readExactOrEof (n : Nat) : Silent (readExactOrEof n) := by
  refine (silent_readExact n).bind fun res => ?_
  split
  · exact Silent.pure _
  · exact Silent.throw _
  · exact Silent.throw _

theorem silent_readLengthLoop (turns value multiplier : Nat) :
    Silent (readLengthLoop turns value multiplier) := by
  induction turns generalizing value multiplier with
  | zero => exact Silent.throw _
  | succ turns ih =>
      rw [readLengthLoop]
      refine (silent_readExact 1).bind fun res => ?_
      split
      · exact Silent.throw _
      · exact .ite (Silent.pure _) (ih _ _)

theorem silent_readPacket : Silent readPacket := by
  refine (silent_readExactOrEof 1).bind fun hdr => ?_
  refine Silent.bind (silent_readLengthLoop 4 0 1) fun rem => ?_
  dsimp only
  split
  · exact Silent.throw _
  · exact .ite ((silent_readExactOrEof rem).bind fun _ => Silent.pure _)
      ((Silent.pure []).bind fun _ => Silent.pure _)

theorem writes_ignore {m : Session Unit} (h : Writes m a []) : Writes (ignore m) [] a := by
  intro s
  obtain ⟨sent, hwritten, hsent, -⟩ := h s
  rw [List.append_nil] at hsent
  exact ⟨sent, hwritten, hsent, fun _ _ => List.nil_prefix⟩

theorem silent_ignore {m : Session Unit} (h : Silent m) : Silent (ignore m) := fun s => h s

end Writing

theorem silent_awaitPublish (turns : Nat) : Silent (awaitPublish turns) := by
  induction turns with
  | zero => exact Silent.throw _
  | succ turns ih =>
      rw [awaitPublish]
      refine silent_readPacket.bind fun packet => ?_
      exact .ite (Silent.ofExcept _) (.ite ih (Silent.throw _))

theorem silent_awaitPuback (packetId : UInt16) (turns : Nat) : Silent (awaitPuback packetId turns) := by
  induction turns with
  | zero => exact Silent.throw _
  | succ turns ih =>
      rw [awaitPuback]
      refine silent_readPacket.bind fun packet => .ite ?_ (.ite ih (Silent.throw _))
      exact (Silent.ofExcept _).bind fun acked => .ite (Silent.throw _) (Silent.pure _)

/-- The two bytes of a DISCONNECT. -/
def disconnectBytes : Bytes := [pktDisconnect <<< 4, 0x00]

theorem writes_awaitSuback : Writes awaitSuback [] disconnectBytes := by
  refine silent_readPacket.then fun packet => ?_
  dsimp only
  split
  · exact (Silent.throw _).writes
  split
  · split
    · exact (Silent.throw _).writes
    · refine Silent.then (fun _ => rfl) fun s => (silent_awaitPublish _).then fun payload => ?_
      exact (writes_ignore (writes_writeAll _)).last fun _ =>
        (silent_ignore silent_flush).bind fun _ => Silent.pure _
  · exact (Silent.throw _).writes

theorem silent_awaitConnack :
    Silent (do
      flush
      let (ctype, body) ← readPacket
      if ctype ≠ pktConnack then
        throw (.badResponse [.str "mqtt: expected CONNACK, got packet type ", .num ctype.toNat])
      else match body with
        | _ :: rc :: _ =>
            if rc ≠ 0 then throw (.badResponse [.str "mqtt: connack ", .num rc.toNat]) else return ()
        | _ => throw (.badResponse [.str "mqtt: short CONNACK"]) : Session Unit) := by
  refine silent_flush.bind fun _ => silent_readPacket.bind fun packet => .ite (Silent.throw _) ?_
  split
  · exact .ite (Silent.throw _) (Silent.pure _)
  · exact Silent.throw _

/-- Nothing but the CONNECT is written up to the CONNACK. -/
theorem writes_connectHandshake (random : Bytes) (user pass : Option Text) :
    Writes (connectHandshake random user pass)
      (buildConnect (randomClientId random) user pass 60) [] :=
  writes_writeAll_then _ fun _ => silent_awaitConnack.writes

theorem writes_runSession (random : Bytes) (topic : Text) (user pass : Option Text) :
    Writes (runSession random topic user pass)
      (buildConnect (randomClientId random) user pass 60 ++ buildSubscribe 1 topic)
      disconnectBytes := by
  refine (writes_connectHandshake random user pass).bind fun _ => ?_
  exact writes_writeAll_then _ fun _ => silent_flush.then fun _ => writes_awaitSuback

theorem writes_runPublish (random : Bytes) (topic : Text) (payload : Bytes) (qos : UInt8)
    (user pass : Option Text) :
    Writes (runPublish random topic payload qos user pass)
      (buildConnect (randomClientId random) user pass 60 ++ buildPublish topic payload qos 1)
      disconnectBytes := by
  have hdisconnect : Writes (do
      ignore (writeAll [pktDisconnect <<< 4, 0x00])
      ignore flush : Session Unit) [] disconnectBytes :=
    (writes_ignore (writes_writeAll _)).last fun _ => silent_ignore silent_flush
  refine (writes_connectHandshake random user pass).bind fun _ => ?_
  refine writes_writeAll_then _ fun _ => silent_flush.then fun _ => ?_
  split
  · exact Silent.then (fun _ => rfl) fun s => (silent_awaitPuback _ _).then fun _ => hdisconnect
  · exact hdisconnect

theorem exec_ofExcept_bind {α β : Type} (a : α) (f : α → Session β) :
    (Program.ofExcept (.ok a) >>= f : Session β) = f a := rfl

/-- The CONNECT of a URL's credentials. -/
def urlConnect (random : Bytes) (url : Url) : Bytes :=
  buildConnect (randomClientId random) (splitUserinfo url.userinfo).1 (splitUserinfo url.userinfo).2 60

def urlConnectPacket (random : Bytes) (url : Url) : ConnectPacket :=
  connectPacket (randomClientId random) (splitUserinfo url.userinfo).1
    (splitUserinfo url.userinfo).2 60

/-- What `fetch` and `publish` write is packets of the fields they were given, up to a string's
65535 bytes and a packet's 268435455. -/
theorem written_decodes (random : Bytes) (url : Url) (rest : Bytes) :
    decodePacket (urlConnect random url ++ rest) =
      some (.connect (urlConnectPacket random url), rest) ∧
    (∀ topic, topicOf url = .ok topic →
      decodePacket (buildSubscribe 1 topic ++ rest) = some (.subscribe 1 [(cut topic, 0)], rest) ∧
      Writes (fetch random url) (urlConnect random url ++ buildSubscribe 1 topic) disconnectBytes) ∧
    ∀ payload qos topic, publishTopic url qos = .ok topic →
      decodePacket (buildPublish topic payload qos 1 ++ rest) =
        some (.publish (publishPacket topic payload qos 1),
          payload.drop (payloadRoom topic qos) ++ rest) ∧
      Writes (publish random url payload qos)
        (urlConnect random url ++ buildPublish topic payload qos 1) disconnectBytes := by
  refine ⟨?_, fun topic htopic => ⟨?_, ?_⟩, fun payload qos topic htopic => ⟨?_, ?_⟩⟩
  · exact decodePacket_buildConnect _ splitUserinfo_user 60 rest
  · exact decodePacket_buildSubscribe (by decide) (topicOf_ok htopic) rest
  · rw [fetch, htopic, exec_ofExcept_bind]
    exact writes_runSession random topic _ _
  · obtain ⟨hne, hplus, hhash, hqos⟩ := publishTopic_ok htopic
    exact decodePacket_buildPublish hne hplus hhash hqos (by decide) payload rest
  · rw [publish, htopic, exec_ofExcept_bind]
    exact writes_runPublish random topic payload qos _ _

/-! ## When nothing is cut -/

/-- The length field of a string can count it. -/
def Fits (t : Text) : Prop := t.utf8.length ≤ 65535

instance (t : Text) : Decidable (Fits t) := inferInstanceAs (Decidable (t.utf8.length ≤ 65535))

theorem cut_eq_iff {t : Text} : cut t = t.utf8 ↔ Fits t := by
  refine ⟨fun h => ?_, List.take_of_length_le⟩
  rw [Fits, ← h]
  exact length_cut t

/-- The length of a text is at most four bytes for each character. -/
theorem length_utf8_le (t : Text) : t.utf8.length ≤ 4 * t.length := by
  induction t with
  | nil => exact Nat.le_refl 0
  | cons c t ih =>
      have hchar : (String.utf8EncodeChar c).length ≤ 4 := by
        rw [String.length_utf8EncodeChar]
        exact c.utf8Size_le_four
      rw [Text.utf8_cons, List.length_append, List.length_cons]
      omega

theorem fits_randomClientId {random : Bytes} (h : random.length = 6) :
    Fits (randomClientId random) := by
  have hlen : (randomClientId random).length = 18 := by
    show ("rsurl-".toList ++ random.flatMap fun b : UInt8 => [_, _]).length = 18
    rw [List.length_append, List.length_flatMap]
    simp [h]
  have hbytes := length_utf8_le (randomClientId random)
  rw [hlen] at hbytes
  exact hbytes.trans (by decide)

/-- The user and the password of the URL, so far as there are any, fit. -/
def CredentialsFit (url : Url) : Prop :=
  (∀ user ∈ (splitUserinfo url.userinfo).1, Fits user) ∧
    ∀ pass ∈ (splitUserinfo url.userinfo).2, Fits pass

/-- A CONNECT with all of the client id, the user and the password. -/
def fullConnect (random : Bytes) (url : Url) : ConnectPacket :=
  ⟨true, 60, (randomClientId random).utf8, none, (splitUserinfo url.userinfo).1.map Text.utf8,
    (splitUserinfo url.userinfo).2.map Text.utf8⟩

/-- The CONNECT is one packet with all of its fields, and nothing is left over. -/
def EncodesConnect (random : Bytes) (url : Url) : Prop :=
  ∀ rest, decodePacket (urlConnect random url ++ rest) =
    some (.connect (fullConnect random url), rest)

/-- So is the SUBSCRIBE. -/
def EncodesSubscribe (topic : Text) : Prop :=
  ∀ rest, decodePacket (buildSubscribe 1 topic ++ rest) =
    some (.subscribe 1 [(topic.utf8, 0)], rest)

/-- So is the PUBLISH. -/
def EncodesPublish (topic : Text) (payload : Bytes) (qos : UInt8) : Prop :=
  ∀ rest, decodePacket (buildPublish topic payload qos 1 ++ rest) =
    some (.publish ⟨false, qos, false, topic.utf8, if qos > 0 then some 1 else none, payload⟩, rest)

/-- The remaining length of a PUBLISH. -/
def remainingOf (topic : Text) (payload : Bytes) (qos : UInt8) : Nat :=
  2 + topic.utf8.length + (if qos > 0 then 2 else 0) + payload.length

theorem map_cut_eq_iff {t : Option Text} : t.map cut = t.map Text.utf8 ↔ ∀ s ∈ t, Fits s := by
  cases t with
  | none => simp only [Option.map_none, Option.mem_def, reduceCtorEq, false_implies, implies_true]
  | some t =>
      simp only [Option.map_some, Option.some.injEq, Option.mem_def, forall_eq', cut_eq_iff]

theorem encodesConnect_iff {random : Bytes} (hrandom : random.length = 6) (url : Url) :
    EncodesConnect random url ↔ CredentialsFit url := by
  have hdecode := fun rest => (written_decodes random url rest).1
  have hid := cut_eq_iff.mpr (fits_randomClientId hrandom)
  rw [CredentialsFit, ← map_cut_eq_iff, ← map_cut_eq_iff]
  constructor
  · intro h
    have hsame := (hdecode []).symm.trans (h [])
    simp only [urlConnectPacket, connectPacket, fullConnect, Option.some.injEq, Prod.mk.injEq,
      ControlPacket.connect.injEq, ConnectPacket.mk.injEq] at hsame
    exact hsame.1.2.2.2.2
  · rintro ⟨huser, hpass⟩ rest
    rw [hdecode, urlConnectPacket, connectPacket, hid, huser, hpass]
    rfl

theorem encodesSubscribe_iff {topic : Text} (hne : topic ≠ []) :
    EncodesSubscribe topic ↔ Fits topic := by
  have hdecode := fun rest =>
    decodePacket_buildSubscribe (by decide : (1 : UInt16) ≠ 0) hne rest
  rw [← cut_eq_iff]
  constructor
  · intro h
    have hsame := (hdecode []).symm.trans (h [])
    simp only [Option.some.injEq, Prod.mk.injEq, ControlPacket.subscribe.injEq, List.cons.injEq,
      and_true] at hsame
    exact hsame.2
  · intro hfits rest
    rw [hdecode, hfits]
    rfl

theorem encodesPublish_iff {url : Url} {topic : Text} {payload : Bytes} {qos : UInt8}
    (htopic : publishTopic url qos = .ok topic) :
    EncodesPublish topic payload qos ↔ Fits topic ∧ remainingOf topic payload qos ≤ maxRemaining := by
  obtain ⟨hne, hplus, hhash, hqos⟩ := publishTopic_ok htopic
  have hdecode := fun rest => decodePacket_buildPublish hne hplus hhash hqos
    (by decide : (1 : UInt16) ≠ 0) payload rest
  have hroom : cut topic = topic.utf8 →
      (payload.length ≤ payloadRoom topic qos ↔ remainingOf topic payload qos ≤ maxRemaining) := by
    intro hcut
    have hlen : topic.utf8.length ≤ 65535 := cut_eq_iff.mp hcut
    rw [payloadRoom, remainingOf, hcut, maxRemaining]
    split <;> omega
  rw [← cut_eq_iff]
  constructor
  · intro h
    have hsame := (hdecode []).symm.trans (h [])
    simp only [publishPacket, Option.some.injEq, Prod.mk.injEq, ControlPacket.publish.injEq,
      PublishPacket.mk.injEq, List.append_nil, List.drop_eq_nil_iff] at hsame
    have hcut := hsame.1.2.2.2.1
    exact ⟨hcut, (hroom hcut).mp hsame.2⟩
  · rintro ⟨hcut, hfits⟩ rest
    have hlen := (hroom hcut).mpr hfits
    rw [hdecode, publishPacket, hcut, List.take_of_length_le hlen, List.drop_of_length_le hlen]
    rfl

/-- The packets that `fetch` and `publish` write say all they were given if and only if every
string has at most 65535 bytes and the PUBLISH is at most 268435455 bytes long; and these are what
a run writes, with at most a DISCONNECT behind them. -/
theorem encoding_iff {random : Bytes} (hrandom : random.length = 6) (url : Url) :
    (∀ topic, topicOf url = .ok topic →
      (EncodesConnect random url ∧ EncodesSubscribe topic ↔ CredentialsFit url ∧ Fits topic) ∧
      Writes (fetch random url) (urlConnect random url ++ buildSubscribe 1 topic) disconnectBytes) ∧
    ∀ payload qos topic, publishTopic url qos = .ok topic →
      (EncodesConnect random url ∧ EncodesPublish topic payload qos ↔
        CredentialsFit url ∧ Fits topic ∧ remainingOf topic payload qos ≤ maxRemaining) ∧
      Writes (publish random url payload qos)
        (urlConnect random url ++ buildPublish topic payload qos 1) disconnectBytes := by
  obtain ⟨-, hfetch, hpublish⟩ := written_decodes random url []
  have hconnect := encodesConnect_iff hrandom url
  refine ⟨fun topic htopic => ⟨?_, (hfetch topic htopic).2⟩,
    fun payload qos topic htopic => ⟨?_, (hpublish payload qos topic htopic).2⟩⟩
  · rw [hconnect, encodesSubscribe_iff (topicOf_ok htopic)]
  · rw [hconnect, encodesPublish_iff htopic]

/-- A message on the topic `a/b`, with a password. -/
theorem encoding_iff_sample :
    let url : Url := ⟨"mqtt".toList, some "u:p".toList, "h".toList, 1883, "/a/b".toList⟩
    (EncodesConnect [1, 2, 3, 4, 5, 6] url ∧ EncodesPublish "a/b".toList [0x68, 0x69] 1) ∧
    Writes (publish [1, 2, 3, 4, 5, 6] url [0x68, 0x69] 1)
      (urlConnect [1, 2, 3, 4, 5, 6] url ++ buildPublish "a/b".toList [0x68, 0x69] 1 1)
      disconnectBytes := by
  obtain ⟨hiff, hwrites⟩ := (@encoding_iff [1, 2, 3, 4, 5, 6] rfl
    ⟨"mqtt".toList, some "u:p".toList, "h".toList, 1883, "/a/b".toList⟩).2
      [0x68, 0x69] 1 "a/b".toList (by decide)
  refine ⟨hiff.mpr ⟨⟨?_, ?_⟩, by decide, by decide⟩, hwrites⟩
  · intro user huser
    obtain rfl : ['u'] = user := Option.some.inj huser
    decide
  · intro pass hpass
    obtain rfl : ['p'] = pass := Option.some.inj hpass
    decide

theorem validatePublishTopic_replicate (n : Nat) :
    validatePublishTopic (List.replicate n 'a') = .ok () := by
  induction n with
  | zero => rfl
  | succ n ih =>
      rw [List.replicate_succ, validatePublishTopic, if_neg (by decide), if_neg (by decide),
        if_neg (by decide), ih]

theorem publishTopic_replicate (n : Nat) :
    publishTopic ⟨"mqtt".toList, none, "h".toList, 1883, '/' :: List.replicate (n + 1) 'a'⟩ 0 =
      .ok (List.replicate (n + 1) 'a') := by
  have hstrip : Text.stripPrefix ['/'] ('/' :: List.replicate (n + 1) 'a') =
      some (List.replicate (n + 1) 'a') := Text.stripPrefix_eq_some.mpr rfl
  rw [publishTopic, topicOf, hstrip]
  simp only [Option.getD_some]
  rw [if_neg (by simp), Result.ok_bind, validatePublishTopic_replicate]
  rfl

theorem length_utf8_replicate (n : Nat) : (Text.utf8 (List.replicate n 'a')).length = n := by
  induction n with
  | zero => rfl
  | succ n ih =>
      rw [List.replicate_succ, Text.utf8_cons, List.length_append, ih]
      exact Nat.add_comm 1 n

/-- A payload of 268435456 bytes is taken, and what the PUBLISH does not count of it stands behind
the packet, to be read as the next one; a topic of 65536 bytes is taken, and one byte less is
published. -/
theorem long_payload_spills :
    (publishTopic ⟨"mqtt".toList, none, "h".toList, 1883, ['/', 'a']⟩ 0 = .ok ['a'] ∧
      ∃ p, decodePacket (buildPublish ['a'] (List.replicate 268435456 0xC0) 0 1) =
          some (.publish p, List.replicate 4 0xC0) ∧ p.payload.length = 268435452) ∧
    publishTopic ⟨"mqtt".toList, none, "h".toList, 1883, '/' :: List.replicate 65536 'a'⟩ 0 =
      .ok (List.replicate 65536 'a') ∧
    (Text.utf8 (List.replicate 65536 'a')).length = 65536 ∧
    ∃ p, decodePacket (buildPublish (List.replicate 65536 'a') [] 0 1) = some (.publish p, []) ∧
      p.topic.length = 65535 := by
  refine ⟨⟨publishTopic_replicate 0, ?_⟩, publishTopic_replicate 65535,
    length_utf8_replicate 65536, ?_⟩
  · obtain ⟨hne, hplus, hhash, hqos⟩ := publishTopic_ok (publishTopic_replicate 0)
    have hdecode := decodePacket_buildPublish hne hplus hhash hqos (by decide : (1 : UInt16) ≠ 0)
      (List.replicate 268435456 0xC0) []
    have hroom : payloadRoom ['a'] 0 = 268435452 := by decide
    rw [List.append_nil, List.append_nil] at hdecode
    have hrest : List.drop (payloadRoom ['a'] 0) (List.replicate 268435456 (0xC0 : UInt8)) =
        List.replicate 4 0xC0 := by rw [hroom, List.drop_replicate]
    change decodePacket (buildPublish ['a'] _ 0 1) =
      some (_, List.drop (payloadRoom ['a'] 0) _) at hdecode
    rw [hrest] at hdecode
    refine ⟨_, hdecode, ?_⟩
    · show (List.take (payloadRoom ['a'] 0) _).length = _
      rw [hroom, List.take_replicate, List.length_replicate]
      rfl
  obtain ⟨hne, hplus, hhash, hqos⟩ := publishTopic_ok (publishTopic_replicate 65535)
  have hdecode := decodePacket_buildPublish hne hplus hhash hqos (by decide : (1 : UInt16) ≠ 0) [] []
  rw [List.append_nil, List.drop_nil, List.append_nil] at hdecode
  refine ⟨_, hdecode, ?_⟩
  show (cut _).length = _
  rw [cut, List.length_take, length_utf8_replicate]
  rfl

end Rsurl.Mqtt
