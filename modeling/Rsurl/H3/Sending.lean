/-
# `Rsurl.H3.Sending` — what an HTTP/3 client puts on its streams

The writing half of `src/http3.rs`: the integers and frame headers it encodes,
the control stream, the two QPACK streams, the request with its content, and
the Section Acknowledgements.  What QUIC answers to one call after another is
given from outside, how much of a write it takes included.  What it has taken
is read against the grammar of the RFC, and by the loop of `read_response`.
-/
import Mathlib.Data.Bool.AllAny
import Rsurl.Base.Ber
import Rsurl.Base.Dialogue
import Rsurl.H3.Assembly
import Rsurl.H3.Encoder
import Rsurl.H3.Request

namespace Rsurl.H3

open Base (Program beBytes beValue)
open Http (Request Response)
open Message (Event)
open Qpack (DynamicTable Fields bad)

/-! ## Variable-length integers -/

/-- The bits that say the length, in the first byte. -/
def mark (bits : UInt8) : Bytes → Bytes
  | [] => []
  | b :: bs => (b ||| bits) :: bs

/-- `varint::encode`. -/
def varintEncode (value : Nat) : Bytes :=
  if value < 2 ^ 6 then [UInt8.ofNat value]
  else if value < 2 ^ 14 then mark 0x40 (beBytes 2 value)
  else if value < 2 ^ 30 then mark 0x80 (beBytes 4 value)
  else mark 0xC0 (beBytes 8 value)

theorem foldl_be (bs : Bytes) (n : Nat) :
    bs.foldl (fun v b => v * 256 + b.toNat) n = n * 256 ^ bs.length + beValue bs := by
  induction bs generalizing n with
  | nil =>
      rw [List.foldl_nil, List.length_nil, pow_zero, Nat.mul_one]
      rfl
  | cons b bs ih =>
      rw [List.foldl_cons, ih, Base.beValue_cons, List.length_cons, Nat.add_mul, pow_succ',
        Nat.mul_assoc, Nat.add_assoc]

/-- Two bits over six. -/
theorem toNat_or_mark {tag x : Nat} (htag : tag < 4) (hx : x < 64) :
    (UInt8.ofNat x ||| UInt8.ofNat (64 * tag)).toNat = 64 * tag + x := by
  have hor := Nat.two_pow_add_eq_or_of_lt (i := 6) hx tag
  rw [UInt8.toNat_or, UInt8.toNat_ofNat', UInt8.toNat_ofNat', Nat.mod_eq_of_lt (by omega),
    Nat.mod_eq_of_lt (by omega), Nat.or_comm]
  exact hor.symm

/-- Every size but the smallest. -/
theorem isVarint_mark {tag width v : Nat} (htag : tag < 4) (hsize : width + 1 = 2 ^ tag)
    (hv : v < 64 * 256 ^ width) : IsVarint (mark (UInt8.ofNat (64 * tag)) (beBytes (width + 1) v)) v := by
  have hhigh : v / 256 ^ width < 64 := Nat.div_lt_of_lt_mul (by rwa [Nat.mul_comm])
  have hfirst := toNat_or_mark htag hhigh
  have htimes : (64 * tag + v / 256 ^ width) / 64 = tag := by
    rw [Nat.mul_add_div (by decide), Nat.div_eq_of_lt hhigh, Nat.add_zero]
  have hrest : (64 * tag + v / 256 ^ width) % 64 = v / 256 ^ width := by
    rw [Nat.mul_add_mod, Nat.mod_eq_of_lt hhigh]
  rw [beBytes, mark]
  have hvalue : (beBytes width v).foldl (fun v b => v * 256 + b.toNat)
      ((UInt8.ofNat (v / 256 ^ width) ||| UInt8.ofNat (64 * tag)).toNat % 64) = v := by
    rw [foldl_be, Base.beValue_beBytes, Base.length_beBytes, hfirst, hrest]
    exact Nat.div_add_mod' v _
  have hlen : ((UInt8.ofNat (v / 256 ^ width) ||| UInt8.ofNat (64 * tag)) :: beBytes width v).length
      = 2 ^ ((UInt8.ofNat (v / 256 ^ width) ||| UInt8.ofNat (64 * tag)).toNat / 64) := by
    rw [List.length_cons, Base.length_beBytes, hfirst, htimes, hsize]
  have his := IsVarint.intro hlen
  rwa [hvalue] at his

theorem isVarint_varintEncode {v : Nat} (h : v < 2 ^ 62) : IsVarint (varintEncode v) v := by
  rw [varintEncode]
  split
  · next hone =>
      have hbyte : (UInt8.ofNat v).toNat = v := by
        rw [UInt8.toNat_ofNat']
        exact Nat.mod_eq_of_lt (by omega)
      have his := isVarint_byte (b := UInt8.ofNat v) (by omega)
      rwa [hbyte] at his
  · split
    · next htwo => exact @isVarint_mark 1 1 v (by decide) (by decide) (by omega)
    · split
      · next hfour => exact @isVarint_mark 2 3 v (by decide) (by decide) (by omega)
      · exact @isVarint_mark 3 7 v (by decide) (by decide) (by omega)

/-- `Frame::encode_header`. -/
def Frame.encodeHeader (ty len : Nat) : Bytes := varintEncode ty ++ varintEncode len

theorem isFrame_encodeHeader {ty : Nat} {payload : Bytes} (hty : ty < 2 ^ 62)
    (hlen : payload.length < 2 ^ 62) :
    IsFrame ty payload (Frame.encodeHeader ty payload.length ++ payload) := by
  rw [Frame.encodeHeader, List.append_assoc]
  exact .intro (isVarint_varintEncode hty) (isVarint_varintEncode hlen)

/-! ## The connection -/

/-- `StreamId`, as its `value()`. -/
abbrev StreamId := UInt64

/-- What QUIC answers to one call after another: a stream id, how many bytes of a write it
takes, or an error. -/
structure Quic where
  openUni : Nat → Except Text StreamId
  openBidi : Nat → Except Text StreamId
  write : Nat → Except Text Nat
  finish : Nat → Except Text Unit

/-- What has happened on a stream. -/
inductive Sent where
  | opened (sid : StreamId)
  | byte (sid : StreamId) (b : UInt8)
  | fin (sid : StreamId)
deriving DecidableEq, Repr

/-- The calls made so far, and what has come of them. -/
structure Conn where
  calls : Nat
  sent : List Sent

namespace Conn

/-- Bytes of a stream. -/
def bytes (sid : StreamId) (bs : Bytes) : List Sent := bs.map (.byte sid)

/-- A call, and what comes of it. -/
def after (c : Conn) (more : List Sent) : Conn := ⟨c.calls + 1, c.sent ++ more⟩

@[simp] theorem sent_after (c : Conn) (more : List Sent) : (c.after more).sent = c.sent ++ more :=
  rfl

end Conn

/-- A function that uses the connection. -/
abbrev Client := Program Conn Error

/-- A call that does something to a stream or fails. -/
def call {α : Type} (ask : Nat → Except Text α) (what : String) (act : α → List Sent) : Client α :=
  fun c =>
    match ask c.calls with
    | .error e => (.error (bad [.str what, .display e]), c.after [])
    | .ok a => (.ok a, c.after (act a))

/-- `conn.open_uni()`. -/
def openUni (q : Quic) : Client StreamId := call q.openUni "http3: open_uni: " fun sid => [.opened sid]

/-- `conn.open_bidi()`. -/
def openBidi (q : Quic) : Client StreamId :=
  call q.openBidi "http3: open_bidi failed: " fun sid => [.opened sid]

/-- `conn.finish(..)`. -/
def finish (q : Quic) (sid : StreamId) : Client Unit :=
  call q.finish "http3: stream finish: " fun _ => [.fin sid]

/-- The loop of `write_all`.  Each turn takes a byte at least. -/
def writeLoop (q : Quic) (sid : StreamId) : Nat → Bytes → Conn → Result Unit × Conn
  | 0, _, c => (.ok (), c)
  | fuel + 1, data, c =>
      if data = [] then (.ok (), c)
      else
        match q.write c.calls with
        | .error e => (.error (bad [.str "http3: stream write: ", .display e]), c.after [])
        | .ok n =>
            if n = 0 then
              (.error (bad [.str "http3: stream write blocked (flow control)"]), c.after [])
            else writeLoop q sid fuel (data.drop n) (c.after (Conn.bytes sid (data.take n)))

/-- `write_all`. -/
def writeAll (q : Quic) (sid : StreamId) (data : Bytes) : Client Unit :=
  writeLoop q sid data.length data

/-! ## What goes out -/

/-- `frame_type::SETTINGS`. -/
def typeSettings : Nat := 0x04

/-- `uni_stream_type::CONTROL`. -/
def typeControl : Nat := 0x00

/-- `uni_stream_type::QPACK_DECODER`. -/
def typeQpackDecoder : Nat := 0x03

/-- The settings that are sent: `QPACK_MAX_TABLE_CAPACITY` and `QPACK_BLOCKED_STREAMS`. -/
def settings : List (Nat × Nat) := [(0x01, 4096), (0x07, 0)]

/-- The SETTINGS payload. -/
def settingsPayload : Bytes := settings.flatMap fun (id, v) => varintEncode id ++ varintEncode v

/-- `prefix` of `open_control_stream`. -/
def controlBytes : Bytes :=
  varintEncode typeControl ++
    (Frame.encodeHeader typeSettings settingsPayload.length ++ settingsPayload)

/-- `open_control_stream`. -/
def openControlStream (q : Quic) : Client Unit := do
  let sid ← openUni q
  writeAll q sid controlBytes

/-- The encoder stream of `open_qpack_streams`. -/
def openEncoderStream (q : Quic) : Client Unit := do
  let enc ← openUni q
  writeAll q enc (varintEncode typeQpackEncoder)

/-- The decoder stream of `open_qpack_streams`. -/
def openDecoderStream (q : Quic) : Client StreamId := do
  let dec ← openUni q
  writeAll q dec (varintEncode typeQpackDecoder)
  pure dec

/-- `open_qpack_streams`. -/
def openQpackStreams (q : Quic) : Client (Option StreamId) := do
  let _ ← (openEncoderStream q).attempt
  let dec ← (openDecoderStream q).attempt
  pure dec.toOption

/-- `out` of `write_request`. -/
def requestBytes (req : Request) : Bytes :=
  let payload := Qpack.encodeFieldSection (requestFields req)
  Frame.encodeHeader typeHeaders payload.length ++ payload ++
    if req.body = [] then [] else Frame.encodeHeader typeData req.body.length ++ req.body

/-- `write_request`. -/
def writeRequest (q : Quic) (sid : StreamId) (req : Request) : Client Unit := do
  writeAll q sid (requestBytes req)
  finish q sid

/-- `encode_section_ack`. -/
def encodeSectionAck (sid : Nat) : Bytes := Qpack.encodeInt sid 7 0x80

/-- `send_section_ack`; how it ends does not matter. -/
def sendSectionAck (q : Quic) (sid : StreamId) (dec : Option StreamId) : Client Unit :=
  match dec with
  | none => pure ()
  | some dec => do
      let _ ← (writeAll q dec (encodeSectionAck sid.toNat)).attempt

/-- The acknowledgements of `read_response`, which puts nothing else on a stream. -/
def sendSectionAcks (q : Quic) (sid : StreamId) (dec : Option StreamId) : Nat → Client Unit
  | 0 => pure ()
  | n + 1 => do
      sendSectionAck q sid dec
      sendSectionAcks q sid dec n

/-- The acknowledgements owed by now. -/
def Progress.acks : Progress → Nat
  | .waiting _ a => a.acks
  | .ended _ _ a => a.acks

/-- What `send` does behind the request: the first `pump`, and the turns of `read_response`. -/
def awaitResponse (q : Quic) (codec : Codec) (pumped : Result Unit) (turns : List Turn)
    (sid : StreamId) (dec : Option StreamId) : Client (Option (Result Response)) := do
  Program.ofExcept pumped
  let p := readLoop turns (.new (dec.map UInt64.toNat)) .init
  sendSectionAcks q sid dec p.acks
  pure (p.response codec)

/-- `send`, with how the handshake ends; `none` while the response is waited for. -/
def Quic.send (q : Quic) (codec : Codec) (connected pumped : Result Unit) (turns : List Turn)
    (req : Request) : Client (Option (Result Response)) := do
  if req.url.scheme ≠ "https".toList then
    throw (.unsupportedScheme [.str "http/3 requires https://, not ", .display req.url.scheme,
      .str "://"])
  else
    Program.ofExcept connected
    let _ ← (openControlStream q).attempt
    let dec ← openQpackStreams q
    let sid ← H3.openBidi q
    writeRequest q sid req
    awaitResponse q codec pumped turns sid dec

/-! ## What the connection takes -/

open Base.Program (Puts Silent)

/-- What such a call leaves. -/
def Done {α : Type} (act : α → List Sent) : Result α → List Sent → Prop
  | .error _, more => more = []
  | .ok a, more => more = act a

theorem puts_call {α : Type} (ask : Nat → Except Text α) (what : String) (act : α → List Sent) :
    Puts Conn.sent (call ask what act) (Done act) := by
  intro c
  show ∃ more, (call ask what act c).2.sent = c.sent ++ more ∧ Done act (call ask what act c).1 more
  unfold call
  cases ask c.calls with
  | error e => exact ⟨[], rfl, rfl⟩
  | ok a => exact ⟨act a, rfl, rfl⟩

/-- In pieces of any size, a front of the data; all of it if the loop ends well. -/
theorem sent_writeLoop (q : Quic) (sid : StreamId) {fuel : Nat} {data : Bytes} (h : data.length ≤ fuel)
    (c : Conn) :
    ∃ taken, (writeLoop q sid fuel data c).2.sent = c.sent ++ Conn.bytes sid taken ∧
      taken <+: data ∧ ((writeLoop q sid fuel data c).1 = .ok () → taken = data) := by
  induction fuel generalizing data c with
  | zero =>
      obtain rfl : data = [] := List.length_eq_zero_iff.mp (Nat.le_zero.mp h)
      exact ⟨[], (List.append_nil _).symm, List.prefix_rfl, fun _ => rfl⟩
  | succ fuel ih =>
      rw [writeLoop]
      split
      · next hnil => exact ⟨[], (List.append_nil _).symm, List.nil_prefix, fun _ => hnil.symm⟩
      · cases q.write c.calls with
        | error e =>
            refine ⟨[], rfl, List.nil_prefix, fun hok => ?_⟩
            cases hok
        | ok n =>
            dsimp only
            split
            · refine ⟨[], rfl, List.nil_prefix, fun hok => ?_⟩
              cases hok
            · next hn =>
                have hshort : (data.drop n).length ≤ fuel := by
                  rw [List.length_drop]
                  omega
                obtain ⟨taken, hsent, hfront, hall⟩ :=
                  ih hshort (c.after (Conn.bytes sid (data.take n)))
                have hcut := List.take_append_drop n data
                refine ⟨data.take n ++ taken, ?_, ?_, fun hok => ?_⟩
                · rw [hsent, Conn.sent_after, Conn.bytes, Conn.bytes, Conn.bytes, List.map_append,
                    List.append_assoc]
                · obtain ⟨rest, hrest⟩ := hfront
                  exact ⟨rest, by rw [List.append_assoc, hrest, hcut]⟩
                · rw [hall hok, hcut]

theorem puts_writeAll (q : Quic) (sid : StreamId) (data : Bytes) :
    Puts Conn.sent (writeAll q sid data) fun res more =>
      ∃ taken, more = Conn.bytes sid taken ∧ taken <+: data ∧ (res = .ok () → taken = data) := by
  intro c
  obtain ⟨taken, hsent, hfront, hall⟩ := sent_writeLoop q sid (Nat.le_refl data.length) c
  exact ⟨Conn.bytes sid taken, hsent, taken, rfl, hfront, hall⟩

/-- The request: cut short, or whole and then closed. -/
theorem puts_writeRequest (q : Quic) (sid : StreamId) (req : Request) :
    Puts Conn.sent (writeRequest q sid req) fun res more =>
      (∃ taken, taken <+: requestBytes req ∧ more = Conn.bytes sid taken ∧ ∃ e, res = .error e) ∨
        more = Conn.bytes sid (requestBytes req) ++ [.fin sid] ∧ res = .ok () := by
  refine (puts_writeAll q sid _).bind (fun _ => puts_call q.finish _ _) ?_ ?_
  · rintro e more ⟨taken, hmore, hfront, -⟩
    exact .inl ⟨taken, hfront, hmore, e, rfl⟩
  · rintro u more res more' ⟨taken, rfl, hfront, hall⟩ hdone
    obtain rfl := hall rfl
    cases res with
    | error e =>
        obtain rfl : more' = [] := hdone
        exact .inl ⟨_, hfront, List.append_nil _, e, rfl⟩
    | ok v =>
        obtain rfl : more' = [.fin sid] := hdone
        exact .inr ⟨rfl, rfl⟩

/-! ## The grammar of the streams -/

/-- Settings, one after another. -/
inductive IsSettings : Bytes → List (Nat × Nat) → Prop
  | nil : IsSettings [] []
  | cons {idBytes valueBytes rest : Bytes} {id value : Nat} {more : List (Nat × Nat)}
      (hid : IsVarint idBytes id) (hvalue : IsVarint valueBytes value)
      (hrest : IsSettings rest more) :
      IsSettings (idBytes ++ valueBytes ++ rest) ((id, value) :: more)

/-- A control stream up to its first frame, the settings. -/
inductive IsControl (settings : List (Nat × Nat)) : Bytes → Prop
  | intro {type payload frame : Bytes} (htype : IsVarint type typeControl)
      (hsettings : IsSettings payload settings) (hframe : IsFrame typeSettings payload frame) :
      IsControl settings (type ++ frame)

/-- A request on its stream: a section that needs no dynamic table, and the content, if there
is any, in one frame. -/
inductive IsRequest (fields : Fields) : Bytes → Bytes → Prop
  | bare {payload bytes : Bytes} (hsection : Rfc.FieldSection .new payload fields)
      (hframe : IsFrame typeHeaders payload bytes) : IsRequest fields [] bytes
  | content {payload head body data : Bytes} (hsection : Rfc.FieldSection .new payload fields)
      (hhead : IsFrame typeHeaders payload head) (hbody : body ≠ [])
      (hdata : IsFrame typeData body data) : IsRequest fields body (head ++ data)

/-- A Section Acknowledgement. -/
inductive IsSectionAck (sid : Nat) : Bytes → Prop
  | intro {b : UInt8} {lead : Bytes} (hkind : b &&& 0x80 ≠ 0) (hsid : Rfc.Reads 7 (b :: lead) sid) :
      IsSectionAck sid (b :: lead)

theorem isSettings_flatMap {settings : List (Nat × Nat)}
    (h : ∀ s ∈ settings, s.1 < 2 ^ 62 ∧ s.2 < 2 ^ 62) :
    IsSettings (settings.flatMap fun (id, v) => varintEncode id ++ varintEncode v) settings := by
  induction settings with
  | nil => exact .nil
  | cons s settings ih =>
      obtain ⟨hid, hvalue⟩ := h s List.mem_cons_self
      exact .cons (isVarint_varintEncode hid) (isVarint_varintEncode hvalue)
        (ih fun s hs => h s (List.mem_cons_of_mem _ hs))

theorem isControl_controlBytes : IsControl settings controlBytes :=
  .intro (isVarint_varintEncode (by decide))
    (isSettings_flatMap (List.all_iff_forall_prop.mp (by decide)))
    (isFrame_encodeHeader (by decide) (by decide))

/-- The section that the encoder writes is one of the RFC, against a table with nothing in it. -/
theorem fieldSection_encodeFieldSection {fields : Fields} (h : H2.listSize fields < 2 ^ 64) :
    Rfc.FieldSection .new (Qpack.encodeFieldSection fields) fields := by
  obtain ⟨lines, hlines, hfields, hcount⟩ := encodes_encodeFields h
  have hric : Rfc.Reads 8 [0] (Rfc.encodedInsertCount (Rfc.requiredInsertCount 0 lines)) := by
    rw [hcount]
    exact reads_small (by decide) (by decide)
  have hdelta : Rfc.Reads 7 [0] 0 := reads_small (by decide) (by decide)
  have hbase : if (0 : UInt8) &&& 0x80 ≠ 0 then Rfc.requiredInsertCount 0 lines = 0 + 0 + 1
      else 0 = Rfc.requiredInsertCount 0 lines + 0 := by
    rw [hcount]
    decide
  exact .intro hric hdelta (by decide) hbase hlines (hfields _ _)

/-- No line is longer than what its field counts for. -/
theorem length_encodeField_le {name value : Text} (hname : name.utf8.length < 2 ^ 64)
    (hvalue : value.utf8.length < 2 ^ 64) :
    (Qpack.encodeField name value).length ≤ H2.entrySize (name, value) := by
  have hint : ∀ (k n : Nat) (high : UInt8), k ≤ 8 → high.toNat % 2 ^ k = 0 → n < 2 ^ 64 →
      (Qpack.encodeInt n k high).length ≤ 11 := fun k n high hk hhigh hn =>
    (reads_encodeInt hk hhigh hn).short
  have hindex : ∀ idx e, Qpack.staticEntry idx = some e → idx < 2 ^ 64 := fun idx e he =>
    lt_of_staticEntry he
  have hstring : (Qpack.encodeString7bit value).length ≤ 11 + value.utf8.length := by
    rw [Qpack.encodeString7bit, List.length_append]
    exact Nat.add_le_add_right (hint 7 _ _ (by decide) (by decide) hvalue) _
  show _ ≤ name.utf8.length + value.utf8.length + 32
  rw [Qpack.encodeField]
  split
  · next idx hidx =>
      have hlen := hint 6 idx 0xc0 (by decide) (by decide)
        (hindex idx _ (staticEntry_of_findIndexed hidx))
      omega
  · split
    · next idx hidx =>
        obtain ⟨v, hentry⟩ := staticEntry_of_findName hidx
        have hlen := hint 4 idx 0x50 (by decide) (by decide) (hindex idx _ hentry)
        rw [List.length_append]
        omega
    · have hlen := hint 3 name.utf8.length 0x20 (by decide) (by decide) hname
      rw [List.length_append, Qpack.encodeName3bit, List.length_append]
      omega

/-- Nor is a section longer than its list, but for two octets in front. -/
theorem length_encodeFieldSection_le {fields : Fields} (h : H2.listSize fields < 2 ^ 64) :
    (Qpack.encodeFieldSection fields).length ≤ H2.listSize fields + 2 := by
  have hlines : (fields.flatMap fun e => Qpack.encodeField e.1 e.2).length ≤
      H2.listSize fields := by
    induction fields with
    | nil => exact Nat.le_refl 0
    | cons e fields ih =>
        have hsize := H2.listSize_cons e fields
        have hentry : H2.entrySize e = e.1.utf8.length + e.2.utf8.length + 32 := rfl
        have hfirst := @length_encodeField_le e.1 e.2 (by omega) (by omega)
        have hrest := ih (by omega)
        rw [List.flatMap_cons, List.length_append, hsize]
        exact Nat.add_le_add hfirst hrest
  rw [Qpack.encodeFieldSection, List.length_append, Nat.add_comm]
  exact Nat.add_le_add_right hlines 2

/-- What a request has to keep to, for a variable-length integer to say its lengths. -/
structure Sendable (req : Request) : Prop where
  fields : H2.listSize (requestFields req) + 2 < 2 ^ 62
  body : req.body.length < 2 ^ 62

theorem Sendable.isRequest {req : Request} (h : Sendable req) :
    IsRequest (requestFields req) req.body (requestBytes req) := by
  have hfields := h.fields
  have hsection := @fieldSection_encodeFieldSection (requestFields req) (by omega)
  have hpayload := @length_encodeFieldSection_le (requestFields req) (by omega)
  have hhead := @isFrame_encodeHeader typeHeaders _ (by decide)
    (Nat.lt_of_le_of_lt hpayload hfields)
  rw [requestBytes]
  split
  · next hnil =>
      rw [hnil, List.append_nil]
      exact .bare hsection hhead
  · next hbody =>
      exact .content hsection hhead hbody (isFrame_encodeHeader (by decide) h.body)

theorem isSectionAck_encodeSectionAck {sid : Nat} (h : sid < 2 ^ 64) :
    IsSectionAck sid (encodeSectionAck sid) := by
  have hread : Rfc.Reads 7 (encodeSectionAck sid) sid :=
    reads_encodeInt (k := 7) (by decide) (by decide) h
  obtain ⟨n, lead, hn, hcons⟩ := encodeInt_eq_cons sid 7 0x80
  have hbytes : encodeSectionAck sid = (0x80 ||| UInt8.ofNat n) :: lead := hcons
  rw [hbytes] at hread ⊢
  refine .intro ?_ hread
  rw [and_pattern 0x80 (by decide) hn (by decide)]
  decide

/-! ## A connection that goes on taking -/

/-- It takes something of every write, and every stream ends. -/
structure Quic.Willing (q : Quic) : Prop where
  write : ∀ i, ∃ n, q.write i = .ok n ∧ 0 < n
  finish : ∀ i, q.finish i = .ok ()

theorem Quic.Willing.writeLoop {q : Quic} (h : q.Willing) (sid : StreamId) (fuel : Nat)
    (data : Bytes) (c : Conn) : (writeLoop q sid fuel data c).1 = .ok () := by
  induction fuel generalizing data c with
  | zero => rfl
  | succ fuel ih =>
      obtain ⟨n, hn, hpos⟩ := h.write c.calls
      rw [H3.writeLoop, hn]
      split
      · rfl
      · dsimp only
        rw [if_neg (by omega)]
        exact ih _ _

theorem Quic.Willing.writeRequest {q : Quic} (h : q.Willing) (sid : StreamId) (req : Request)
    (c : Conn) : ∃ c', (writeRequest q sid req).exec c = (.ok (), c') := by
  have hwrite : ((writeAll q sid (requestBytes req)).exec c).1 = .ok () :=
    h.writeLoop sid _ _ c
  have hpair : (writeAll q sid (requestBytes req)).exec c =
      (.ok (), ((writeAll q sid (requestBytes req)).exec c).2) := Prod.ext hwrite rfl
  refine ⟨(((writeAll q sid (requestBytes req)).exec c).2).after [.fin sid], ?_⟩
  rw [H3.writeRequest, Program.exec_bind_ok hpair]
  show call q.finish _ _ _ = _
  rw [call, h.finish]

/-- It takes three bytes at a time. -/
def inThrees : Quic where
  openUni i := .ok (UInt64.ofNat (4 * i + 2))
  openBidi _ := .ok 0
  write _ := .ok 3
  finish _ := .ok ()

theorem willing_inThrees : inThrees.Willing := ⟨fun _ => ⟨3, rfl, by decide⟩, fun _ => rfl⟩

def samplePost : Request where
  method := "POST".toList
  url := ⟨"https".toList, none, "h".toList, 443, "/".toList⟩
  headers := [("X-A".toList, "b".toList)]
  body := [0x6f, 0x6b]
  connectTimeout := none
  readTimeout := none
  httpVersionPref := .http3Only
  followRedirects := false
  maxRedirs := 50
  basicAuth := none
  verifyTls := true
  caBundle := none
  maxTime := none
  proxy := none
  noProxy := []

/-! ## Read back -/

/-- What a peer with the same limits can take: the list of the fields, their section in a frame,
and the whole stream. -/
structure Readable (req : Request) : Prop where
  fields : H2.listSize (requestFields req) + 2 ≤ maxHeadersFrameLen
  bytes : H2.listSize (requestFields req) + 2 + req.body.length + 32 ≤ maxResponseBytes

theorem length_varintEncode_le (v : Nat) : (varintEncode v).length ≤ 8 := by
  rw [varintEncode]
  split
  · exact (by decide : 1 ≤ 8)
  · split
    · exact (by decide : 2 ≤ 8)
    · split
      · exact (by decide : 4 ≤ 8)
      · exact Nat.le_refl 8

theorem length_encodeHeader_le (ty len : Nat) : (Frame.encodeHeader ty len).length ≤ 16 := by
  have hty := length_varintEncode_le ty
  have hlen := length_varintEncode_le len
  rw [Frame.encodeHeader, List.length_append]
  omega

theorem Readable.length_payload {req : Request} (h : Readable req) :
    (Qpack.encodeFieldSection (requestFields req)).length ≤ H2.listSize (requestFields req) + 2 := by
  have hfields := h.fields
  have hlimit : maxHeadersFrameLen < 2 ^ 64 := by decide
  exact length_encodeFieldSection_le (by omega)

theorem Readable.length_requestBytes {req : Request} (h : Readable req) :
    (requestBytes req).length ≤ maxResponseBytes := by
  have hbytes := h.bytes
  have hpayload := h.length_payload
  have hhead := length_encodeHeader_le typeHeaders
    (Qpack.encodeFieldSection (requestFields req)).length
  have hdata := length_encodeHeader_le typeData req.body.length
  rw [requestBytes]
  split
  · simp only [List.length_append, List.length_nil]
    omega
  · simp only [List.length_append]
    omega

/-- The frame of the section, as a step of the reader; no acknowledgement is owed for it. -/
theorem step_section {payload bytes : Bytes} {fields : Fields} (hframe : IsFrame typeHeaders payload bytes)
    (hsize : payload.length ≤ maxHeadersFrameLen)
    (hdecode : Qpack.decodeFieldSectionWith payload .new = .ok fields)
    (hfree : Qpack.blockReferencesDynamicTable payload = false) :
    (frameReader .new).step (none, [], 0) bytes = .ok (some (bytes.length, some fields, [], 0)) := by
  have hcheck : checkLength ⟨typeHeaders, payload.length⟩ [] = .ok () := by
    rw [checkLength, if_neg (fun hover => Nat.not_lt.mpr hsize hover.2),
      if_neg (fun hdata => absurd hdata.1 (by decide : typeHeaders ≠ typeData))]
  show frameStep .new (none, [], 0) bytes = _
  rw [frameStep, tryConsumeFrame_of_isFrame hframe none .new hcheck, takeFrame, if_pos rfl, hdecode,
    hfree]
  rfl

/-- The frame of the content. -/
theorem step_content {body bytes : Bytes} {headers : Option Fields}
    (hframe : IsFrame typeData body bytes) (hsize : body.length ≤ maxResponseBytes) :
    (frameReader .new).step (headers, [], 0) bytes = .ok (some (bytes.length, headers, body, 0)) := by
  have hcheck : checkLength ⟨typeData, body.length⟩ [] = .ok () := by
    rw [checkLength, if_neg (fun hover => absurd hover.1 (by decide : typeData ≠ typeHeaders)),
      if_neg (fun hover => Nat.not_lt.mpr hsize hover.2)]
  show frameStep .new (headers, [], 0) bytes = _
  rw [frameStep, tryConsumeFrame_of_isFrame hframe headers .new hcheck, takeFrame,
    if_neg (by decide : typeData ≠ typeHeaders), if_pos rfl]
  rfl

theorem Readable.takes {req : Request} (h : Readable req) :
    (frameReader .new).Takes (none, [], 0) (requestBytes req)
      (some (requestFields req), req.body, 0) := by
  have hfields := h.fields
  have hbytes := h.bytes
  have hpayload := h.length_payload
  have hlimit : maxHeadersFrameLen = Qpack.maxDecodedHeaderList := rfl
  have hframe : maxHeadersFrameLen < 2 ^ 62 := by decide
  have hwhole : maxResponseBytes < 2 ^ 62 := by decide
  have hsection := @fieldSection_encodeFieldSection (requestFields req) (by omega)
  have hdecode := decodeFieldSectionWith_of_fieldSection tracks_new (by decide) hsection (by omega)
  have hhead := @isFrame_encodeHeader typeHeaders _ (by decide) (Nat.lt_of_le_of_lt hpayload (by omega))
  have hfirst := step_section hhead (Nat.le_trans hpayload hfields) hdecode rfl
  rw [requestBytes]
  split
  · next hnil =>
      rw [hnil]
      exact .cons hfirst (.nil _)
  · next hbody =>
      have hdata := @isFrame_encodeHeader typeData req.body (by decide) (by omega)
      have hsecond := @step_content req.body _ (some (requestFields req)) hdata (by omega)
      have hrest := Base.Reader.Takes.cons hsecond (.nil _)
      rw [List.append_nil] at hrest
      exact .cons hfirst hrest

/-- A request that went out whole, in whatever pieces QUIC took it, is read back from whatever
pieces it comes in: the loop of `read_response` has its fields and its content, and owes nothing. -/
theorem readLoop_writeRequest {q : Quic} {sid : StreamId} {req : Request} {c c' : Conn}
    (h : Readable req) (hok : (writeRequest q sid req).exec c = (.ok (), c')) :
    ∃ bytes, c'.sent = c.sent ++ (Conn.bytes sid bytes ++ [.fin sid]) ∧
      ∀ pieces last, pieces.flatten ++ last = bytes →
        (readLoop (quietTurns pieces last) (.new none) .init).outcome =
          some (.ok (), some (requestFields req), req.body, 0) := by
  obtain ⟨more, hsent, hends⟩ := puts_writeRequest q sid req c
  rw [hok] at hsent hends
  rcases hends with ⟨-, -, -, e, herr⟩ | ⟨rfl, -⟩
  · cases herr
  · refine ⟨requestBytes req, hsent, ?_⟩
    intro pieces last hpieces
    have hbytes := h.length_requestBytes
    rw [← hpieces] at hbytes
    have hrun := Base.Reader.run_of_takes h.takes []
    rw [List.append_nil] at hrun
    rw [readLoop_eq_run _ pieces last hbytes, hpieces]
    show some (verdict ((frameReader .new).run (none, [], 0) (requestBytes req))) = _
    rw [hrun]
    rfl

theorem readable_samplePost : Readable samplePost := ⟨by decide, by decide⟩

/-- Taken three bytes at a time, it comes one byte at a time. -/
theorem readLoop_samplePost :
    ∃ c' bytes, (writeRequest inThrees 0 samplePost).exec ⟨0, []⟩ = (.ok (), c') ∧
      c'.sent = Conn.bytes 0 bytes ++ [.fin 0] ∧
      (readLoop (quietTurns (bytes.map ([·])) []) (.new none) .init).outcome =
        some (.ok (), some (requestFields samplePost), [0x6f, 0x6b], 0) := by
  obtain ⟨c', hok⟩ := willing_inThrees.writeRequest 0 samplePost ⟨0, []⟩
  obtain ⟨bytes, hsent, hread⟩ := readLoop_writeRequest readable_samplePost hok
  refine ⟨c', bytes, hok, hsent, hread _ [] ?_⟩
  rw [List.append_nil]
  exact List.flatMap_singleton' bytes

end Rsurl.H3
