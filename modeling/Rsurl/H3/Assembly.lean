/-
# `Rsurl.H3.Assembly` — the response that a stream of frames makes

A well-formed response, written as frames in any form the wire allows and cut
into reads anywhere, is assembled from its first HEADERS frame and the payloads
of all its DATA frames; later HEADERS frames are read and dropped.  The first
one is the head of the response unless interim responses come before it.
-/
import Rsurl.Message
import Rsurl.H3.Reassembly

namespace Rsurl.H3

open Message (Event Head IsHead Legal)
open Http (Header Response)
open Qpack (DynamicTable Fields)

/-! ## Frames on the wire -/

/-- A variable-length integer: two bits for the length, the rest is the value. -/
inductive IsVarint : Bytes → Nat → Prop
  | intro {b : UInt8} {rest : Bytes} (hlen : (b :: rest).length = 2 ^ (b.toNat / 64)) :
      IsVarint (b :: rest) (rest.foldl (fun v b => v * 256 + b.toNat) (b.toNat % 64))

theorem IsVarint.decode {bytes : Bytes} {v : Nat} (h : IsVarint bytes v) :
    varintDecode bytes = .ok (v, bytes.length) := by
  cases h with
  | @intro b rest hlen =>
      have htake : rest.take (2 ^ (b.toNat / 64) - 1) = rest := by
        refine List.take_of_length_le ?_
        rw [← hlen, List.length_cons]
        exact Nat.le_refl _
      rw [varintDecode, if_neg (by omega), htake, hlen]

/-- The bytes are a frame with the type and the payload. -/
inductive IsFrame (ty : Nat) (payload : Bytes) : Bytes → Prop
  | intro {tyBytes lenBytes : Bytes} (hty : IsVarint tyBytes ty)
      (hlen : IsVarint lenBytes payload.length) :
      IsFrame ty payload (tyBytes ++ (lenBytes ++ payload))

theorem IsFrame.decodeHeader {ty : Nat} {payload bytes : Bytes} (h : IsFrame ty payload bytes) :
    ∃ hdrLen, Frame.decodeHeader bytes = .ok (⟨ty, payload.length⟩, hdrLen) ∧
      bytes.length = hdrLen + payload.length ∧ bytes.drop hdrLen = payload := by
  cases h with
  | @intro tyBytes lenBytes hty hlen =>
      refine ⟨tyBytes.length + lenBytes.length, ?_, ?_, ?_⟩
      · have hty' := varintDecode_append hty.decode (lenBytes ++ payload)
        have hlen' := varintDecode_append hlen.decode payload
        rw [Frame.decodeHeader, hty']
        simp only [bind, Except.bind, List.drop_left, hlen']
      · simp only [List.length_append, Nat.add_assoc]
      · rw [← List.append_assoc, ← List.length_append, List.drop_left]

/-- What a frame is to the response: a section that the table can decode, content, or nothing. -/
inductive Brings (table : DynamicTable) : Bytes → Event → Prop
  | headers {payload bytes : Bytes} {fields : Fields}
      (hframe : IsFrame typeHeaders payload bytes) (hsize : payload.length ≤ maxHeadersFrameLen)
      (hdecode : Qpack.decodeFieldSectionWith payload table = .ok fields) :
      Brings table bytes (.headers fields)
  | data {payload bytes : Bytes} (hframe : IsFrame typeData payload bytes) :
      Brings table bytes (.data payload)
  | other {ty : Nat} {payload bytes : Bytes} (hheaders : ty ≠ typeHeaders) (hdata : ty ≠ typeData)
      (hframe : IsFrame ty payload bytes) : Brings table bytes .other

/-- A stream of whole frames. -/
inductive Frames (table : DynamicTable) : Bytes → List Event → Prop
  | nil : Frames table [] []
  | cons {bytes rest : Bytes} {e : Event} {events : List Event} (hfirst : Brings table bytes e)
      (hrest : Frames table rest events) : Frames table (bytes ++ rest) (e :: events)

/-! ## Assembling them -/

theorem tryConsumeFrame_of_isFrame {ty : Nat} {payload bytes : Bytes}
    (h : IsFrame ty payload bytes) {body : Bytes} (headers : Option Fields) (table : DynamicTable)
    (hcheck : checkLength ⟨ty, payload.length⟩ body = .ok ()) :
    tryConsumeFrame bytes headers body table =
      takeFrame ty bytes.length payload headers body table := by
  obtain ⟨hdrLen, hhdr, hlen, hdrop⟩ := h.decodeHeader
  rw [tryConsumeFrame_of_header hhdr, hcheck]
  dsimp only
  rw [← hlen, if_neg (Nat.lt_irrefl _), List.take_length, hdrop]

/-- A frame is taken as what it brings. -/
theorem Brings.step {table : DynamicTable} {bytes : Bytes} {e : Event} (h : Brings table bytes e)
    (headers : Option Fields) (body : Bytes) (acks : Nat)
    (hfits : body.length + bytes.length ≤ maxResponseBytes) :
    ∃ acks', (frameReader table).step (headers, body, acks) bytes =
      .ok (some (bytes.length, headers.or e.section?, body ++ e.payload, acks')) := by
  have hstep : ∀ ack, tryConsumeFrame bytes headers body table =
      .consumed bytes.length ack (headers.or e.section?) (body ++ e.payload) →
      ∃ acks', (frameReader table).step (headers, body, acks) bytes =
        .ok (some (bytes.length, headers.or e.section?, body ++ e.payload, acks')) :=
    fun ack htry => ⟨acks + if ack then 1 else 0, by
      show frameStep table (headers, body, acks) bytes = _
      rw [frameStep, htry]⟩
  cases h with
  | @headers payload _ fields hframe hsize hdecode =>
      have hcheck : checkLength ⟨typeHeaders, payload.length⟩ body = .ok () := by
        rw [checkLength, if_neg (fun hover => Nat.not_lt.mpr hsize hover.2),
          if_neg (fun hdata => absurd hdata.1 (by decide : typeHeaders ≠ typeData))]
      refine hstep (Qpack.blockReferencesDynamicTable payload) ?_
      rw [tryConsumeFrame_of_isFrame hframe headers table hcheck, takeFrame, if_pos rfl, hdecode]
      exact congrArg (FrameOutcome.consumed _ _ _) (List.append_nil body).symm
  | @data payload _ hframe =>
      have hcheck : checkLength ⟨typeData, payload.length⟩ body = .ok () := by
        obtain ⟨hdrLen, -, hlen, -⟩ := hframe.decodeHeader
        have hroom : ¬maxResponseBytes - body.length < payload.length := by omega
        rw [checkLength, if_neg (fun hover => absurd hover.1 (by decide : typeData ≠ typeHeaders)),
          if_neg (fun hover => hroom hover.2)]
      refine hstep false ?_
      rw [tryConsumeFrame_of_isFrame hframe headers table hcheck, takeFrame,
        if_neg (by decide : typeData ≠ typeHeaders), if_pos rfl]
      exact congrArg (FrameOutcome.consumed _ _ · _) (Option.or_none).symm
  | @other ty payload _ hheaders hdata hframe =>
      have hcheck : checkLength ⟨ty, payload.length⟩ body = .ok () := by
        rw [checkLength, if_neg (fun hover => hheaders hover.1), if_neg (fun hover => hdata hover.1)]
      refine hstep false ?_
      rw [tryConsumeFrame_of_isFrame hframe headers table hcheck, takeFrame, if_neg hheaders,
        if_neg hdata]
      show FrameOutcome.consumed _ _ headers body =
        .consumed _ _ (headers.or none) (body ++ [])
      rw [Option.or_none, List.append_nil]

theorem Brings.payload_length {table : DynamicTable} {bytes : Bytes} {e : Event}
    (h : Brings table bytes e) : e.payload.length ≤ bytes.length := by
  cases h with
  | headers => exact Nat.zero_le _
  | data hframe =>
      obtain ⟨hdrLen, -, hlen, -⟩ := hframe.decodeHeader
      rw [hlen]
      exact Nat.le_add_left _ _
  | other => exact Nat.zero_le _

/-- A stream of whole frames is taken to its end: the first section, all content. -/
theorem Frames.takes {table : DynamicTable} {bytes : Bytes} {events : List Event}
    (h : Frames table bytes events) (headers : Option Fields) (body : Bytes) (acks : Nat)
    (hfits : body.length + bytes.length ≤ maxResponseBytes) :
    ∃ acks', (frameReader table).Takes (headers, body, acks) bytes
      (headers.or (Message.sections events).head?, body ++ Message.content events, acks') := by
  induction h generalizing headers body acks with
  | nil =>
      refine ⟨acks, ?_⟩
      show (frameReader table).Takes _ [] (headers.or none, body ++ [], acks)
      rw [Option.or_none, List.append_nil]
      exact .nil _
  | @cons bytes rest e events hfirst hrest ih =>
      rw [List.length_append] at hfits
      obtain ⟨acks₁, hstep⟩ := hfirst.step headers body acks (by omega)
      have hpayload := hfirst.payload_length
      obtain ⟨acks₂, htakes⟩ := ih (headers.or e.section?) (body ++ e.payload) acks₁ (by
          rw [List.length_append]
          omega)
      refine ⟨acks₂, ?_⟩
      have hheaders : (headers.or e.section?).or (Message.sections events).head? =
          headers.or (Message.sections (e :: events)).head? := by
        cases hsection : e.section? with
        | none =>
            rw [Option.or_none, Message.sections, Message.sections,
              List.filterMap_cons_none hsection]
        | some fields =>
            rw [Message.sections, Message.sections, List.filterMap_cons_some hsection,
              List.head?_cons, Option.or_assoc, Option.some_or]
      have hbody : body ++ e.payload ++ Message.content events =
          body ++ Message.content (e :: events) := by
        rw [List.append_assoc]
        rfl
      rw [hheaders, hbody] at htakes
      exact .cons hstep htakes

/-! ## The response -/

/-- The response that a head and its content make, the content coding undone. -/
def respond (codec : Codec) (head : Head) (body : Bytes) : Result Response := do
  let (hdrs, body) ← Compress.maybeDecodeBody codec head.headers body
  .ok { status := head.status, reason := [], version := "HTTP/3".toList, headers := hdrs, body }

theorem splitFields_regular {fields : Fields} (h : ∀ f ∈ fields, Message.Regular f)
    (status : Option UInt16) (hdrs : List Header) :
    splitFields fields status hdrs = .ok (status, hdrs ++ fields) := by
  induction fields generalizing hdrs with
  | nil => rw [splitFields, List.append_nil]
  | cons f fields ih =>
      have hf : f.1.head? ≠ some ':' := h f List.mem_cons_self
      have hname : f.1 ≠ ":status".toList := fun heq => hf (by rw [heq]; rfl)
      rw [splitFields, if_neg hname, if_neg hf, ih fun g hg => h g (List.mem_cons_of_mem _ hg),
        List.append_assoc]
      rfl

theorem finalizeResponse_of_isHead (codec : Codec) {fields : Fields} {head : Head}
    (h : IsHead fields head) (body : Bytes) :
    finalizeResponse codec fields body = respond codec head body := by
  cases h with
  | @intro v status hdrs hstatus hregular =>
      have hsplit : splitFields ((":status".toList, v) :: hdrs) none [] =
          .ok (some status, hdrs) := by
        rw [splitFields, if_pos rfl, hstatus]
        exact splitFields_regular hregular (some status) []
      rw [finalizeResponse, hsplit]
      rfl

/-- A well-formed response, cut into reads anywhere: its first head, which is the head of the
response when there is no interim one, and all its content. -/
theorem response_of_first (codec : Codec) (st : Http3State) (pieces : List Bytes) (last : Bytes)
    {events : List Event} {heads : List Head} {head : Head} {body : Bytes}
    (hlegal : Legal events heads head body)
    (hframes : Frames st.dynTable (pieces.flatten ++ last) events)
    (hsize : (pieces.flatten ++ last).length ≤ maxResponseBytes) :
    readResponse codec (quietTurns pieces last) st =
      some (respond codec (heads.head?.getD head) body) := by
  obtain ⟨fields, hfirst, hhead⟩ := hlegal.first
  obtain ⟨acks, htakes⟩ := hframes.takes none [] 0 (by
    rw [List.length_nil, Nat.zero_add]
    exact hsize)
  have hrun : (frameReader st.dynTable).run (none, [], 0) (pieces.flatten ++ last) =
      (.ok [], some fields, body, acks) := by
    have htaken := Base.Reader.run_of_takes htakes []
    rw [List.append_nil, hfirst, hlegal.content_eq] at htaken
    exact htaken
  rw [readResponse, response_eq, readLoop_eq_run st pieces last hsize, hrun]
  show some (finalizeResponse codec fields body) = _
  rw [finalizeResponse_of_isHead codec hhead body]

/-! ## A response with an interim one -/

/-- One byte is a value below 64. -/
theorem isVarint_byte {b : UInt8} (h : b.toNat < 64) : IsVarint [b] b.toNat := by
  have hzero : b.toNat / 64 = 0 := Nat.div_eq_of_lt h
  have hint : IsVarint [b] (b.toNat % 64) := .intro (by rw [hzero]; rfl)
  rwa [Nat.mod_eq_of_lt h] at hint

/-- A frame whose type and length take one byte each. -/
theorem isFrame_short {t l : UInt8} {payload : Bytes} (ht : t.toNat < 64)
    (hl : l.toNat = payload.length) (hshort : payload.length < 64) :
    IsFrame t.toNat payload (t :: l :: payload) :=
  .intro (isVarint_byte ht) (hl ▸ isVarint_byte (hl ▸ hshort))

/-- A HEADERS frame with one indexed field. -/
theorem brings_indexed {b : UInt8} {fields : Fields}
    (h : Qpack.decodeFieldSectionWith [0, 0, b] .new = .ok fields) :
    Brings .new [1, 3, 0, 0, b] (.headers fields) :=
  have hframe : IsFrame typeHeaders [0, 0, b] [1, 3, 0, 0, b] :=
    isFrame_short (by decide : (1 : UInt8).toNat < 64) rfl (by decide : 3 < 64)
  .headers hframe (by decide : 3 ≤ maxHeadersFrameLen) h

/-- `:status 200` and `ok`. -/
def okEvents : List Event :=
  [.headers [(":status".toList, "200".toList)], .data [0x6f, 0x6b]]

theorem legal_ok : Legal okEvents [] ⟨200, []⟩ [0x6f, 0x6b] :=
  .final (.intro (by decide) (fun _ h => nomatch h)) (by decide) (.data .nil)

theorem frames_ok : Frames .new [1, 3, 0, 0, 0xd9, 0, 2, 0x6f, 0x6b] okEvents :=
  have hdata : IsFrame typeData [0x6f, 0x6b] [0, 2, 0x6f, 0x6b] :=
    isFrame_short (by decide : (0 : UInt8).toNat < 64) rfl (by decide : 2 < 64)
  .cons (brings_indexed (by decide)) (.cons (.data hdata) .nil)

/-- The response of `okEvents`, cut inside the payload of its HEADERS frame. -/
theorem response_of_first_ok :
    readResponse (fun _ _ _ => .ok [])
        (quietTurns [[1, 3, 0]] [0, 0xd9, 0, 2, 0x6f, 0x6b]) (.new none) =
      some (.ok ⟨200, [], "HTTP/3".toList, [], [0x6f, 0x6b]⟩) :=
  response_of_first _ (.new none) [[1, 3, 0]] [0, 0xd9, 0, 2, 0x6f, 0x6b] legal_ok frames_ok
    (by decide)

/-- An interim `:status 103` before them: it is the one that is returned. -/
theorem interim_returned :
    ¬∀ (codec : Codec) (st : Http3State) (pieces : List Bytes) (last : Bytes)
      (events : List Event) (heads : List Head) (head : Head) (body : Bytes),
      Legal events heads head body → Frames st.dynTable (pieces.flatten ++ last) events →
      (pieces.flatten ++ last).length ≤ maxResponseBytes →
      readResponse codec (quietTurns pieces last) st = some (respond codec head body) := by
  intro h
  have hlegal : Legal (.headers [(":status".toList, "103".toList)] :: okEvents) [⟨103, []⟩]
      ⟨200, []⟩ [0x6f, 0x6b] :=
    .interim (.intro (by decide) (fun _ h => nomatch h)) (by decide) legal_ok
  have hframes : Frames .new [1, 3, 0, 0, 0xd8, 1, 3, 0, 0, 0xd9, 0, 2, 0x6f, 0x6b]
      (.headers [(":status".toList, "103".toList)] :: okEvents) :=
    .cons (brings_indexed (by decide)) frames_ok
  have hfinal := h (fun _ _ _ => .ok []) (.new none) []
    [1, 3, 0, 0, 0xd8, 1, 3, 0, 0, 0xd9, 0, 2, 0x6f, 0x6b] _ _ _ _ hlegal hframes (by decide)
  have hinterim : readResponse (fun _ _ _ => .ok [])
      (quietTurns [] [1, 3, 0, 0, 0xd8, 1, 3, 0, 0, 0xd9, 0, 2, 0x6f, 0x6b]) (.new none) =
      some (.ok ⟨103, [], "HTTP/3".toList, [], [0x6f, 0x6b]⟩) := by decide +kernel
  have hstatus := hinterim.symm.trans hfinal
  exact absurd hstatus (by decide)

end Rsurl.H3
