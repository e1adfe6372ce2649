/-
# `Rsurl.Mqtt` — the MQTT client

From `src/mqtt.rs`: the packets of both sides, the reader of a packet, the
session that returns the first message and the one that publishes.  The two
halves of the stream are the state of a session, and stay as they are when it
fails.
-/
import Rsurl.Base.Program
import Rsurl.Net
import Rsurl.Text.Fields
import Rsurl.Url

namespace Rsurl.Mqtt

open Base (Program)

/-! ## Packet types -/

def pktConnect : UInt8 := 1

def pktConnack : UInt8 := 2

def pktPublish : UInt8 := 3

def pktPuback : UInt8 := 4

def pktSubscribe : UInt8 := 8

def pktSuback : UInt8 := 9

def pktPingresp : UInt8 := 13

def pktDisconnect : UInt8 := 14

def maxPacketBytes : Nat := 64 * 1024 * 1024

/-! ## Writing packets -/

/-- `u16::to_be_bytes`. -/
def toBeBytes (n : UInt16) : Bytes := [UInt8.ofNat (n.toNat / 256), UInt8.ofNat n.toNat]

/-- `push_str`: a string too long for its length field is cut. -/
def pushStr (out : Bytes) (s : Text) : Bytes :=
  let len := min s.utf8.length 65535
  out ++ toBeBytes (UInt16.ofNat len) ++ s.utf8.take len

/-- The loop of `write_remaining_length`; 28 bits make at most four turns. -/
def lengthBytes : Nat → Nat → Bytes
  | 0, _ => []
  | turns + 1, x =>
      let byte := UInt8.ofNat (x % 128)
      if x / 128 > 0 then (byte ||| 0x80) :: lengthBytes turns (x / 128) else [byte]

def writeRemainingLength (out : Bytes) (len : Nat) : Bytes :=
  out ++ lengthBytes 4 (min len 268435455)

def buildConnect (clientId : Text) (user pass : Option Text) (keepAliveSecs : UInt16) : Bytes :=
  let flags : UInt8 := 0x02 ||| (if user.isSome then 0x80 else 0) ||| (if pass.isSome then 0x40 else 0)
  let vh := pushStr [] "MQTT".toList ++ [4, flags] ++ toBeBytes keepAliveSecs
  let pl := pushStr [] clientId
  let pl := match user with
    | some u => pushStr pl u
    | none => pl
  let pl := match pass with
    | some p => pushStr pl p
    | none => pl
  writeRemainingLength [pktConnect <<< 4] (vh.length + pl.length) ++ vh ++ pl

def buildSubscribe (packetId : UInt16) (topic : Text) : Bytes :=
  let body := pushStr (toBeBytes packetId) topic ++ [0x00]
  writeRemainingLength [(pktSubscribe <<< 4) ||| 0x02] body.length ++ body

def hexNibble (n : UInt8) : Char :=
  if n ≤ 9 then Char.ofNat (48 + n.toNat) else Char.ofNat (97 + n.toNat - 10)

/-- `random_client_id`, of the bytes the generator gives. -/
def randomClientId (random : Bytes) : Text :=
  "rsurl-".toList ++ random.flatMap fun b : UInt8 => [hexNibble (b >>> 4), hexNibble (b &&& 0x0F)]

/-! ## The stream -/

/-- Both halves of the stream. -/
structure Stream where
  source : Source
  sink : Sink
deriving DecidableEq, Repr

abbrev Session (α : Type) := Program Stream Error α

/-- `read_exact`, with its error as it comes. -/
def readExact (n : Nat) : Session (Except IoKind Bytes) := fun s =>
  (.ok (s.source.readExact n).1, { s with source := (s.source.readExact n).2 })

def readExactOrEof (n : Nat) : Session Bytes := do
  match ← readExact n with
  | .ok bytes => return bytes
  | .error .unexpectedEof => throw .unexpectedEof
  | .error kind => throw (.io kind)

/-- The loop of `read_remaining_length`, by the turns that are left. -/
def readLengthLoop : Nat → Nat → Nat → Session Nat
  | 0, _, _ => throw (.io .invalidData)
  | turns + 1, value, multiplier => do
      match ← readExact 1 with
      | .error kind => throw (.io kind)
      | .ok bytes =>
          let byte := bytes.headD 0
          let value := value + (byte &&& 0x7F).toNat * multiplier
          if byte &&& 0x80 = 0 then return value
          else readLengthLoop turns value (multiplier * 128)

def readRemainingLength : Session Nat := readLengthLoop 4 0 1

/-- `read_packet`: the type and the body. -/
def readPacket : Session (UInt8 × Bytes) := do
  let hdr ← readExactOrEof 1
  let ctype := hdr.headD 0 >>> 4
  let rem ← readRemainingLength
  if rem > maxPacketBytes then throw (.badResponse [.str "mqtt: packet too large"])
  else
    let body ← if rem > 0 then readExactOrEof rem else pure []
    return (ctype, body)

/-- `stream.write_all(..)?`. -/
def writeAll (bytes : Bytes) : Session Unit := fun s =>
  ((s.sink.writeAll bytes).1, { s with sink := (s.sink.writeAll bytes).2 })

def flush : Session Unit := fun s => (s.sink.flush.1, { s with sink := s.sink.flush.2 })

/-! ## The session -/

def connectHandshake (random : Bytes) (user pass : Option Text) : Session Unit := do
  writeAll (buildConnect (randomClientId random) user pass 60)
  flush
  let (ctype, body) ← readPacket
  if ctype ≠ pktConnack then
    throw (.badResponse [.str "mqtt: expected CONNACK, got packet type ", .num ctype.toNat])
  else match body with
    | _ :: rc :: _ =>
        if rc ≠ 0 then throw (.badResponse [.str "mqtt: connack ", .num rc.toNat]) else return ()
    | _ => throw (.badResponse [.str "mqtt: short CONNACK"])

def extractPublishPayload (body : Bytes) : Result Bytes :=
  match body with
  | hi :: lo :: rest =>
      let topicLen := hi.toNat * 256 + lo.toNat
      if rest.length < topicLen then
        .error (.badResponse [.str "mqtt: PUBLISH topic length exceeds packet"])
      else .ok (rest.drop topicLen)
  | _ => .error (.badResponse [.str "mqtt: short PUBLISH"])

/-- The loop that waits for a PUBLISH; each turn takes bytes, so what is to come bounds them. -/
def awaitPublish : Nat → Session Bytes
  | 0 => throw .unexpectedEof
  | turns + 1 => do
      let (ctype, body) ← readPacket
      if ctype = pktPublish then Program.ofExcept (extractPublishPayload body)
      else if ctype = pktPingresp then awaitPublish turns
      else throw (.badResponse [.str "mqtt: unexpected packet type ", .num ctype.toNat,
        .str " before PUBLISH"])

/-- A write whose result is dropped. -/
def ignore (m : Session Unit) : Session Unit := do
  let _ ← m.attempt
  return ()

/-- `run_session` from where it waits for the SUBACK. -/
def awaitSuback : Session Bytes := do
  let (ctype, body) ← readPacket
  if ctype ≠ pktSuback then
    throw (.badResponse [.str "mqtt: expected SUBACK, got packet type ", .num ctype.toNat])
  else match body with
    | _ :: _ :: subRc :: _ =>
        if subRc = 0x80 then throw (.badResponse [.str "mqtt: suback failure (0x80)"])
        else
          let payload ← awaitPublish ((← get).source.bytes.length + 1)
          ignore (writeAll [pktDisconnect <<< 4, 0x00])
          ignore flush
          return payload
    | _ => throw (.badResponse [.str "mqtt: short SUBACK"])

/-- `run_session`. -/
def runSession (random : Bytes) (topic : Text) (user pass : Option Text) : Session Bytes := do
  connectHandshake random user pass
  writeAll (buildSubscribe 1 topic)
  flush
  awaitSuback

/-! ## Publishing -/

/-- `char::is_control`. -/
def isControl (c : Char) : Bool := c.toNat < 0x20 || (0x7F ≤ c.toNat && c.toNat ≤ 0x9F)

/-- `validate_publish_topic`. -/
def validatePublishTopic : Text → Result Unit
  | [] => .ok ()
  | c :: topic =>
      if c = '+' ∨ c = '#' then
        .error (.invalidUrl [.str "mqtt: publish topic must not contain wildcard ", .debug [c]])
      else if c.toNat = 0 then
        .error (.invalidUrl [.str "mqtt: publish topic must not contain NUL"])
      else if isControl c then
        .error (.invalidUrl [.str "mqtt: publish topic must not contain control char ", .debug [c]])
      else validatePublishTopic topic

def buildPublish (topic : Text) (payload : Bytes) (qos : UInt8) (packetId : UInt16) : Bytes :=
  let body := pushStr [] topic
  let body := if qos > 0 then body ++ toBeBytes packetId else body
  let body := body ++ payload
  writeRemainingLength [(pktPublish <<< 4) ||| ((qos &&& 0x03) <<< 1)] body.length ++ body

def parsePuback (body : Bytes) : Result UInt16 :=
  match body with
  | hi :: lo :: _ => .ok (UInt16.ofNat (hi.toNat * 256 + lo.toNat))
  | _ => .error (.badResponse [.str "mqtt: short PUBACK"])

/-- The loop that waits for the PUBACK. -/
def awaitPuback (packetId : UInt16) : Nat → Session Unit
  | 0 => throw .unexpectedEof
  | turns + 1 => do
      let (ctype, body) ← readPacket
      if ctype = pktPuback then
        let acked ← Program.ofExcept (parsePuback body)
        if acked ≠ packetId then
          throw (.badResponse [.str "mqtt: PUBACK packet id ", .num acked.toNat, .str " != sent ",
            .num packetId.toNat])
        else return ()
      else if ctype = pktPingresp then awaitPuback packetId turns
      else throw (.badResponse [.str "mqtt: unexpected packet type ", .num ctype.toNat,
        .str " while awaiting PUBACK"])

/-- `run_publish`. -/
def runPublish (random : Bytes) (topic : Text) (payload : Bytes) (qos : UInt8)
    (user pass : Option Text) : Session Unit := do
  connectHandshake random user pass
  writeAll (buildPublish topic payload qos 1)
  flush
  if qos = 1 then awaitPuback 1 ((← get).source.bytes.length + 1)
  ignore (writeAll [pktDisconnect <<< 4, 0x00])
  ignore flush

/-! ## From the URL -/

/-- The path without its slash; it must not be empty. -/
def topicOf (url : Url) : Result Text :=
  let topic := (Text.stripPrefix ['/'] url.path).getD url.path
  if topic = [] then
    .error (.invalidUrl [.str "mqtt: no topic in URL path (", .debug url.path, .str ")"])
  else .ok topic

/-- What `publish` looks at before it connects. -/
def publishTopic (url : Url) (qos : UInt8) : Result Text := do
  let topic ← topicOf url
  validatePublishTopic topic
  if qos > 1 then
    throw (.badResponse [.str "mqtt: unsupported publish QoS ", .num qos.toNat,
      .str " (only 0 and 1)"])
  else return topic

def splitUserinfo (ui : Option Text) : Option Text × Option Text :=
  match ui with
  | none => (none, none)
  | some s =>
      match Text.splitOnce ':' s with
      | some (u, p) => (some u, some p)
      | none => (some s, none)

/-- `fetch`, over the stream of the connection. -/
def fetch (random : Bytes) (url : Url) : Session Bytes := do
  let topic ← Program.ofExcept (topicOf url)
  let (user, pass) := splitUserinfo url.userinfo
  runSession random topic user pass

/-- `publish`, over the stream of the connection. -/
def publish (random : Bytes) (url : Url) (payload : Bytes) (qos : UInt8) : Session Unit := do
  let topic ← Program.ofExcept (publishTopic url qos)
  let (user, pass) := splitUserinfo url.userinfo
  runPublish random topic payload qos user pass

end Rsurl.Mqtt
