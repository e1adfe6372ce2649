/-
# `Rsurl.H3.Session` — the streams of an HTTP/3 session

What a call of `http3::send` can put on its streams, against any QUIC: the
control stream and the two of QPACK, then the request, then acknowledgements.
How each of the first three ends does not matter to what follows.
-/
import Rsurl.H3.Sending

namespace Rsurl.H3

open Base (Program)
open Base.Program (Puts)
open Http (Request Response)
open Qpack (Fields)

/-! ## A session -/

/-- A stream for bytes of some kind: never opened, or with as much of them as was taken. -/
inductive Begun (P : Bytes → Prop) : List Sent → Prop
  | unopened : Begun P []
  | opened {sid : StreamId} {bs taken : Bytes} (hbytes : P bs) (htaken : taken <+: bs) :
      Begun P (.opened sid :: Conn.bytes sid taken)

/-- Acknowledgements of the sections of a stream, each as far as it was taken. -/
inductive Acked (dec sid : StreamId) : List Sent → Prop
  | nil : Acked dec sid []
  | cons {bs taken : Bytes} {more : List Sent} (hack : IsSectionAck sid.toNat bs)
      (htaken : taken <+: bs) (hmore : Acked dec sid more) :
      Acked dec sid (Conn.bytes dec taken ++ more)

/-- What comes of the streams: the control stream and the two of QPACK first; then the request,
cut short or whole; behind a whole one its acknowledgements, if there is a decoder stream. -/
inductive Dispatched (fields : Fields) (body : Bytes) : Bool → List Sent → Prop
  | cut {control enc dec request : List Sent} (hcontrol : Begun (IsControl settings) control)
      (henc : Begun (IsVarint · typeQpackEncoder) enc)
      (hdec : Begun (IsVarint · typeQpackDecoder) dec)
      (hrequest : Begun (IsRequest fields body) request) :
      Dispatched fields body false (control ++ (enc ++ (dec ++ request)))
  | whole {control enc dec acks : List Sent} {bs : Bytes} {sid : StreamId}
      (hcontrol : Begun (IsControl settings) control)
      (henc : Begun (IsVarint · typeQpackEncoder) enc)
      (hdec : Begun (IsVarint · typeQpackDecoder) dec) (hrequest : IsRequest fields body bs)
      (hacks : acks = [] ∨ ∃ d type, IsVarint type typeQpackDecoder ∧
        dec = .opened d :: Conn.bytes d type ∧ Acked d sid acks) :
      Dispatched fields body true
        (control ++ (enc ++ (dec ++ (.opened sid :: (Conn.bytes sid bs ++ .fin sid :: acks)))))

theorem puts_begun (q : Quic) {P : Bytes → Prop} {bs : Bytes} (h : P bs) :
    Puts Conn.sent (do let sid ← openUni q; writeAll q sid bs) fun _ more => Begun P more := by
  refine (puts_call q.openUni _ _).bind (fun sid => puts_writeAll q sid bs) ?_ ?_
  · rintro e more rfl
    exact .unopened
  · rintro sid more res more' rfl ⟨taken, rfl, hfront, -⟩
    exact .opened h hfront

theorem puts_openDecoderStream (q : Quic) :
    Puts Conn.sent (openDecoderStream q) fun res more =>
      Begun (IsVarint · typeQpackDecoder) more ∧ ∀ d, res = .ok d →
        more = .opened d :: Conn.bytes d (varintEncode typeQpackDecoder) := by
  have his : IsVarint (varintEncode typeQpackDecoder) typeQpackDecoder :=
    isVarint_varintEncode (by decide)
  have hwrite : ∀ sid, Puts Conn.sent
      (do writeAll q sid (varintEncode typeQpackDecoder); pure sid : Client StreamId)
      fun res more => ∃ taken, more = Conn.bytes sid taken ∧ taken <+: varintEncode typeQpackDecoder ∧
        ∀ d, res = .ok d → d = sid ∧ taken = varintEncode typeQpackDecoder := by
    intro sid
    refine (puts_writeAll q sid _).bind (fun _ => Puts.pure sid) ?_ ?_
    · rintro e more ⟨taken, hmore, hfront, -⟩
      refine ⟨taken, hmore, hfront, fun d hd => ?_⟩
      cases hd
    · rintro u more res more' ⟨taken, hmore, hfront, hall⟩ ⟨rfl, rfl⟩
      refine ⟨taken, ?_, hfront, fun d hd => ⟨(Except.ok.inj hd).symm, hall rfl⟩⟩
      rw [List.append_nil, hmore]
  refine (puts_call q.openUni _ _).bind hwrite ?_ ?_
  · rintro e more rfl
    refine ⟨.unopened, fun d hd => ?_⟩
    cases hd
  · rintro sid more res more' rfl ⟨taken, rfl, hfront, hall⟩
    refine ⟨.opened his hfront, fun d hd => ?_⟩
    obtain ⟨rfl, rfl⟩ := hall d hd
    rfl

theorem puts_openQpackStreams (q : Quic) :
    Puts Conn.sent (openQpackStreams q) fun res more =>
      ∃ enc dec, more = enc ++ dec ∧ Begun (IsVarint · typeQpackEncoder) enc ∧
        Begun (IsVarint · typeQpackDecoder) dec ∧ ∃ sid, res = .ok sid ∧
          ∀ d ∈ sid, dec = .opened d :: Conn.bytes d (varintEncode typeQpackDecoder) := by
  have his : IsVarint (varintEncode typeQpackEncoder) typeQpackEncoder :=
    isVarint_varintEncode (by decide)
  have hdec : Puts Conn.sent
      (do let dec ← (openDecoderStream q).attempt; pure dec.toOption : Client (Option StreamId))
      fun res more => Begun (IsVarint · typeQpackDecoder) more ∧ ∃ sid, res = .ok sid ∧
        ∀ d ∈ sid, more = .opened d :: Conn.bytes d (varintEncode typeQpackDecoder) := by
    refine (puts_openDecoderStream q).attempt.bind (fun dec => Puts.pure dec.toOption) ?_ ?_
    · rintro e more ⟨inner, hres, -⟩
      cases hres
    · rintro dec more res more' ⟨inner, hres, hbegun, hwhole⟩ ⟨rfl, rfl⟩
      obtain rfl := Except.ok.inj hres
      rw [List.append_nil]
      refine ⟨hbegun, _, rfl, fun d hd => hwhole d ?_⟩
      cases dec with
      | error e => cases hd
      | ok sid => exact congrArg Except.ok (Option.some.inj hd)
  refine (@puts_begun q (IsVarint · typeQpackEncoder) _ his).attempt.bind (fun _ => hdec) ?_ ?_
  · rintro e more ⟨inner, hres, -⟩
    cases hres
  · rintro a more res more' ⟨inner, -, henc⟩ ⟨hbegun, sid, hres, hwhole⟩
    exact ⟨more, more', rfl, henc, hbegun, sid, hres, hwhole⟩

theorem puts_sendSectionAcks (q : Quic) (sid : StreamId) (dec : Option StreamId) (n : Nat) :
    Puts Conn.sent (sendSectionAcks q sid dec n) fun res more =>
      res = .ok () ∧ (more = [] ∨ ∃ d ∈ dec, Acked d sid more) := by
  have hack : IsSectionAck sid.toNat (encodeSectionAck sid.toNat) :=
    isSectionAck_encodeSectionAck sid.toNat_lt
  cases dec with
  | none =>
      induction n with
      | zero => exact (Puts.pure ()).weaken fun res more h => ⟨h.1, .inl h.2⟩
      | succ n ih =>
          refine (Puts.pure ()).bind (fun _ => ih) ?_ ?_
          · rintro e more ⟨hres, -⟩
            cases hres
          · rintro u more res more' ⟨-, rfl⟩ hrest
            exact hrest
  | some d =>
      have hone : Puts Conn.sent (sendSectionAck q sid (some d)) fun res more =>
          res = .ok () ∧ ∃ taken, taken <+: encodeSectionAck sid.toNat ∧
            more = Conn.bytes d taken := by
        refine (puts_writeAll q d _).attempt.bind (fun _ => Puts.pure ()) ?_ ?_
        · rintro e more ⟨inner, hres, -⟩
          cases hres
        · rintro a more res more' ⟨inner, -, taken, hmore, hfront, -⟩ ⟨rfl, rfl⟩
          exact ⟨rfl, taken, hfront, by rw [List.append_nil, hmore]⟩
      have hall : Puts Conn.sent (sendSectionAcks q sid (some d) n) fun res more =>
          res = .ok () ∧ Acked d sid more := by
        induction n with
        | zero =>
            refine (Puts.pure ()).weaken ?_
            rintro res more ⟨hres, rfl⟩
            exact ⟨hres, .nil⟩
        | succ n ih =>
            refine hone.bind (fun _ => ih) ?_ ?_
            · rintro e more ⟨hres, -⟩
              cases hres
            · rintro u more res more' ⟨-, taken, hfront, rfl⟩ ⟨hres, hmore⟩
              exact ⟨hres, .cons hack hfront hmore⟩
      exact hall.weaken fun res more h => ⟨h.1, .inr ⟨d, rfl, h.2⟩⟩

theorem puts_awaitResponse (q : Quic) (codec : Codec) (pumped : Result Unit) (turns : List Turn)
    (sid : StreamId) (dec : Option StreamId) :
    Puts Conn.sent (awaitResponse q codec pumped turns sid dec) fun _ more =>
      more = [] ∨ ∃ d ∈ dec, Acked d sid more := by
  have hacks : ∀ n (r : Option (Result Response)), Puts Conn.sent
      (do sendSectionAcks q sid dec n; pure r : Client (Option (Result Response)))
      fun _ more => more = [] ∨ ∃ d ∈ dec, Acked d sid more := by
    intro n r
    refine (puts_sendSectionAcks q sid dec n).bind (fun _ => Puts.pure r) ?_ ?_
    · rintro e more ⟨hres, -⟩
      cases hres
    · rintro u more res more' ⟨-, hmore⟩ ⟨-, rfl⟩
      rwa [List.append_nil]
  refine (Puts.ofExcept pumped).bind (fun _ => hacks _ _) ?_ ?_
  · rintro e more ⟨-, rfl⟩
    exact .inl rfl
  · rintro u more res more' ⟨-, rfl⟩ hmore
    exact hmore

/-- Behind the streams of the connection: the request's stream, if it was opened. -/
theorem puts_ask (q : Quic) (codec : Codec) (pumped : Result Unit) (turns : List Turn)
    {req : Request} (h : Sendable req) (dec : Option StreamId) :
    Puts Conn.sent (do
        let sid ← openBidi q
        writeRequest q sid req
        awaitResponse q codec pumped turns sid dec)
      fun res more =>
        Begun (IsRequest (requestFields req) req.body) more ∧ (∃ e, res = .error e) ∨
          ∃ sid acks, more = .opened sid :: (Conn.bytes sid (requestBytes req) ++ .fin sid :: acks) ∧
            (acks = [] ∨ ∃ d ∈ dec, Acked d sid acks) := by
  have hrest : ∀ sid, Puts Conn.sent
      (do writeRequest q sid req; awaitResponse q codec pumped turns sid dec)
      fun res more =>
        (∃ taken, taken <+: requestBytes req ∧ more = Conn.bytes sid taken ∧ ∃ e, res = .error e) ∨
          ∃ acks, more = Conn.bytes sid (requestBytes req) ++ .fin sid :: acks ∧
            (acks = [] ∨ ∃ d ∈ dec, Acked d sid acks) := by
    intro sid
    refine (puts_writeRequest q sid req).bind
      (fun _ => puts_awaitResponse q codec pumped turns sid dec) ?_ ?_
    · rintro e more (⟨taken, hfront, hmore, -⟩ | ⟨-, hres⟩)
      · exact .inl ⟨taken, hfront, hmore, e, rfl⟩
      · cases hres
    · rintro u more res more' (⟨taken, -, -, e, hres⟩ | ⟨rfl, -⟩) hacks
      · cases hres
      · exact .inr ⟨more', by rw [List.append_assoc, List.singleton_append], hacks⟩
  refine (puts_call q.openBidi _ _).bind hrest ?_ ?_
  · rintro e more rfl
    exact .inl ⟨.unopened, e, rfl⟩
  · rintro sid more res more' rfl (⟨taken, hfront, rfl, hres⟩ | ⟨acks, rfl, hacks⟩)
    · exact .inl ⟨.opened h.isRequest hfront, hres⟩
    · exact .inr ⟨sid, acks, rfl, hacks⟩

/-- Whatever QUIC answers and however much of a write it takes at a time: only what the session
has to put on a stream is put on it, each stream in its order, and the request's stream is closed
behind the whole of the request, if at all; a call that goes well has closed it. -/
theorem dispatched_send (q : Quic) (codec : Codec) (connected pumped : Result Unit)
    (turns : List Turn) {req : Request} (h : Sendable req) (c : Conn) :
    ∃ whole more, ((q.send codec connected pumped turns req).exec c).2.sent = c.sent ++ more ∧
      Dispatched (requestFields req) req.body whole more ∧
      ∀ r, ((q.send codec connected pumped turns req).exec c).1 = .ok r → whole = true := by
  -- the relation, with how the call ends
  let A : Result (Option (Result Response)) → List Sent → Prop := fun res more =>
    ∃ whole, Dispatched (requestFields req) req.body whole more ∧ ∀ r, res = .ok r → whole = true
  have hfail : ∀ e, A (.error e) [] := by
    intro e
    refine ⟨false, .cut .unopened .unopened .unopened .unopened, fun r hr => ?_⟩
    cases hr
  have hqpack : Puts Conn.sent (do
      let dec ← openQpackStreams q
      let sid ← openBidi q
      writeRequest q sid req
      awaitResponse q codec pumped turns sid dec)
      fun res more => ∀ control, Begun (IsControl settings) control → A res (control ++ more) := by
    refine (puts_openQpackStreams q).bind (fun dec => puts_ask q codec pumped turns h dec) ?_ ?_
    · rintro e more ⟨enc, dec, -, -, -, sid, hres, -⟩
      cases hres
    · rintro sid more res more' ⟨enc, dec, rfl, henc, hdec, sid', hsid, hwhole⟩ hask control hcontrol
      obtain rfl := Except.ok.inj hsid
      rw [List.append_assoc]
      rcases hask with ⟨hrequest, e, rfl⟩ | ⟨id, acks, rfl, hacks⟩
      · refine ⟨false, .cut hcontrol henc hdec hrequest, fun r hr => ?_⟩
        cases hr
      · refine ⟨true, .whole hcontrol henc hdec h.isRequest ?_, fun _ _ => rfl⟩
        rcases hacks with hnone | ⟨d, hd, hacked⟩
        · exact .inl hnone
        · exact .inr ⟨d, _, isVarint_varintEncode (by decide), hwhole d hd, hacked⟩
  have hsend : Puts Conn.sent (q.send codec connected pumped turns req) A := by
    unfold Quic.send
    split
    · refine (Puts.throw _).weaken ?_
      rintro res more ⟨rfl, rfl⟩
      exact hfail _
    · refine (Puts.ofExcept connected).bind (fun _ =>
        (puts_begun q isControl_controlBytes).attempt.bind (fun _ => hqpack)
          (C := A) ?_ ?_) ?_ ?_
      · rintro e more ⟨inner, hres, -⟩
        cases hres
      · rintro a more res more' ⟨inner, -, hcontrol⟩ hrest
        exact hrest more hcontrol
      · rintro e more ⟨-, rfl⟩
        exact hfail e
      · rintro u more res more' ⟨-, rfl⟩ hmore
        exact hmore
  obtain ⟨more, hsent, whole, hdispatched, hok⟩ := hsend c
  exact ⟨whole, more, hsent, hdispatched, hok⟩

theorem sendable_samplePost : Sendable samplePost := ⟨by decide, by decide⟩

theorem dispatched_samplePost :
    ∃ whole more, ((inThrees.send passCodec (.ok ()) (.ok ()) [] samplePost).exec ⟨0, []⟩).2.sent =
        [] ++ more ∧ Dispatched (requestFields samplePost) [0x6f, 0x6b] whole more ∧
      ∀ r, ((inThrees.send passCodec (.ok ()) (.ok ()) [] samplePost).exec ⟨0, []⟩).1 = .ok r →
        whole = true :=
  dispatched_send inThrees passCodec (.ok ()) (.ok ()) [] sendable_samplePost ⟨0, []⟩

end Rsurl.H3
