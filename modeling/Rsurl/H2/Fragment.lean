/-
# `Rsurl.H2.Fragment` — header blocks in pieces

A header block comes in one HEADERS frame or, cut anywhere, in a HEADERS frame
and CONTINUATIONs.  `fragmentation_iff` says when the cut makes no difference:
the HEADERS frame advances the stream before the block is there, so with
END_STREAM a cut block is lost or announced too early, except on an open stream
that has no response headers yet.
-/
import Rsurl.H2.Run

namespace Rsurl.H2

open Http (Header Request)

/-! ## Blocks and their frames -/

/-- The frames behind the first of a cut block, with the bytes they carry. -/
inductive IsRest (id : Nat) : Bytes → List Frame → Prop
  | last {f : Frame} (htyp : f.typ = fContinuation) (hid : f.streamId = id)
      (hlast : f.has flagEndHeaders = true) : IsRest id f.payload [f]
  | more {f : Frame} {rest : Bytes} {fs : List Frame} (htyp : f.typ = fContinuation)
      (hid : f.streamId = id) (hmore : f.has flagEndHeaders = false) (hrest : IsRest id rest fs) :
      IsRest id (f.payload ++ rest) (f :: fs)

/-- The frames carry `block` on the stream `id`, with or without END_STREAM. -/
inductive IsBlock (id : Nat) (endStream : Bool) : Bytes → List Frame → Prop
  | whole {f : Frame} {block : Bytes} (htyp : f.typ = fHeaders) (hid : f.streamId = id)
      (hend : f.has flagEndStream = endStream) (hlast : f.has flagEndHeaders = true)
      (hfrag : Connection.headersFragment f = .ok block) : IsBlock id endStream block [f]
  | cut {f : Frame} {frag rest : Bytes} {fs : List Frame} (htyp : f.typ = fHeaders)
      (hid : f.streamId = id) (hend : f.has flagEndStream = endStream)
      (hmore : f.has flagEndHeaders = false)
      (hfrag : Connection.headersFragment f = .ok frag) (hrest : IsRest id rest fs) :
      IsBlock id endStream (frag ++ rest) (f :: fs)

theorem IsRest.ne_nil {id : Nat} {rest : Bytes} {fs : List Frame} (h : IsRest id rest fs) :
    fs ≠ [] := by
  cases h <;> exact List.cons_ne_nil _ _

namespace Connection

/-- `process_frame` on frames one after another, up to the first error. -/
def processFrames (c : Connection) : List Frame → Result (List DispatchOutcome) × Connection
  | [] => (.ok [], c)
  | f :: fs =>
      andThen (c.processFrame f) fun o c =>
        andThen (c.processFrames fs) fun os c => (.ok (o :: os), c)

theorem setStream_setStream (c : Connection) (id : Nat) (s s' : Stream) :
    (c.setStream id s).setStream id s' = c.setStream id s' := by
  simp only [setStream, AList.insert_insert]

theorem processFrames_cons {c c₁ c₂ : Connection} {f : Frame} {fs : List Frame}
    {o : DispatchOutcome} {os : List DispatchOutcome} (h : c.processFrame f = (.ok o, c₁))
    (h' : c₁.processFrames fs = (.ok os, c₂)) :
    c.processFrames (f :: fs) = (.ok (o :: os), c₂) := by
  rw [processFrames, h, andThen, h', andThen]

/-- A connection in which a block on the stream `id` has just ended. -/
def blockEnd (c : Connection) (id : Nat) (s : Stream) (decoder : Decoder) : Connection :=
  { c.setStream id s with decoder, expectingContinuation := none }

theorem blockEnd_setStream (c : Connection) (id : Nat) (s s' : Stream) (decoder : Decoder) :
    (c.setStream id s).blockEnd id s' decoder = c.blockEnd id s' decoder := by
  rw [blockEnd, setStream_setStream]
  rfl

theorem lookup_setStream (c : Connection) (id : Nat) (s : Stream) :
    (c.setStream id s).streams.lookup id = some s := AList.lookup_insert _

end Connection

/-- What fragmentation is not to change: the stream, the decoder, what is expected next, and
the outcome, which is `Done` with END_STREAM only and never comes before the last frame. -/
structure SameEffect (c : Connection) (id : Nat) (endStream : Bool) (one : Frame)
    (frames : List Frame) : Prop where
  outcome : ∃ o os, (c.processFrame one).1 = .ok o ∧
    (c.processFrames frames).1 = .ok (os ++ [o]) ∧ (∀ i, .done i ∉ os) ∧
    (o = .done id ↔ endStream = true)
  stream : ∃ s s', (c.processFrame one).2.streams.lookup id = some s ∧
    (c.processFrames frames).2.streams.lookup id = some s' ∧ s'.state = s.state ∧
    s'.responseHeaders = s.responseHeaders ∧ s'.endStreamRecv = s.endStreamRecv
  decoder : (c.processFrames frames).2.decoder = (c.processFrame one).2.decoder
  expecting : (c.processFrames frames).2.expectingContinuation =
    (c.processFrame one).2.expectingContinuation

/-! ## Between header blocks -/

/-- Header bytes are buffered for the block in progress only. -/
structure Settled (c : Connection) : Prop where
  next : 0 < c.nextStreamId
  ids : ∀ {id s}, c.streams.lookup id = some s → id ≠ 0
  buffers : ∀ {id s}, c.streams.lookup id = some s → c.expectingContinuation ≠ some id →
    s.headersBuf = []

theorem settled_new {tls : Tls} {c : Connection} (h : Connection.new tls = .ok c) : Settled c := by
  unfold Connection.new at h
  split at h
  · cases h
  · obtain rfl := Except.ok.inj h
    exact ⟨Nat.one_pos, nofun, nofun⟩

theorem Settled.moves {c c' : Connection} (h : Settled c) (hmoves : Moves c c') : Settled c' where
  next := by
    rw [hmoves.next]
    exact h.next
  ids hs := by
    obtain ⟨t, ht, -⟩ := hmoves.came hs
    exact h.ids ht
  buffers hs hexp := by
    obtain ⟨t, ht, hsame⟩ := hmoves.came hs
    rw [hsame.headersBuf]
    exact h.buffers ht (hmoves.expecting ▸ hexp)

theorem Settled.removes {p : Stream → Prop} {c c' : Connection} (h : Settled c)
    (hremoves : Removes p c c') : Settled c' where
  next := by
    rw [hremoves.next]
    exact h.next
  ids hs := h.ids (hremoves.stays hs)
  buffers hs hexp := h.buffers (hremoves.stays hs) (hremoves.expecting ▸ hexp)

theorem Settled.opens {c c' : Connection} {id : Nat} (h : Settled c)
    (hopen : c.openStream = (.ok id, c')) : Settled c' := by
  rcases openStream_cases c with ⟨e, heq⟩ | heq
  · rw [heq] at hopen
    cases hopen
  rw [heq] at hopen
  obtain ⟨-, rfl⟩ := Prod.mk.inj hopen
  refine ⟨Nat.lt_of_lt_of_le h.next (Nat.le_add_right _ _), ?_, ?_⟩
  · intro j s hs
    by_cases hj : j = c.nextStreamId
    · rw [hj]
      exact Nat.ne_of_gt h.next
    · rw [AList.lookup_insert_ne hj] at hs
      exact h.ids hs
  · intro j s hs hexp
    by_cases hj : j = c.nextStreamId
    · subst hj
      rw [AList.lookup_insert] at hs
      obtain rfl := Option.some.inj hs
      rfl
    · rw [AList.lookup_insert_ne hj] at hs
      exact h.buffers hs hexp

/-- One stream's buffer changes; it is empty, or its block is in progress. -/
theorem Settled.onStream {c c' : Connection} {id : Nat} {s s' : Stream} (h : Settled c)
    (on : OnStream c c' id s s')
    (hothers : ∀ j, j ≠ id → c'.expectingContinuation ≠ some j → c.expectingContinuation ≠ some j)
    (hown : c'.expectingContinuation ≠ some id → s'.headersBuf = []) : Settled c' where
  next := by
    rw [on.next]
    exact h.next
  ids hs := by
    obtain ⟨t, ht⟩ := on.registered hs
    exact h.ids ht
  buffers {j t} ht hexp := by
    by_cases hj : j = id
    · subst hj
      obtain rfl := Option.some.inj (on.now.symm.trans ht)
      exact hown hexp
    · rw [on.others hj] at ht
      exact h.buffers ht (hothers j hj hexp)

/-- A frame that may come while no block is in progress, or that continues one. -/
theorem expecting_of_admits {c : Connection} {f : Frame} (h : c.admits f = true) :
    c.expectingContinuation = none ∨
      (f.typ = fContinuation ∧ c.expectingContinuation = some f.streamId) := by
  unfold Connection.admits at h
  split at h
  · next i hi =>
      simp only [Bool.and_eq_true, decide_eq_true_eq] at h
      exact .inr ⟨h.1, h.2 ▸ hi⟩
  · next hi => exact .inl hi

theorem expecting_eq_none {c : Connection} {f : Frame} (h : c.admits f = true)
    (htyp : f.typ = fHeaders) : c.expectingContinuation = none := by
  rcases expecting_of_admits h with h | ⟨h, -⟩
  · exact h
  · rw [htyp] at h
    exact absurd h (by decide)

theorem Settled.frame {c : Connection} (h : Settled c) (f : Frame) :
    Settled (c.processFrame f).2 := by
  have heff := processFrame_effect c f
  have hadmits := @admits_of_ok c (c.processFrame f).2 f
  generalize hout : c.processFrame f = out at *
  obtain ⟨res, c'⟩ := out
  simp only at heff hadmits ⊢
  cases heff with
  | quiet moves => exact h.moves moves
  | data _ on _ hexp hbuf =>
      refine h.onStream on (fun j _ => hexp ▸ id) fun hne => ?_
      rw [hbuf]
      exact h.buffers on.was (hexp ▸ hne)
  | opens htyp _ _ on _ hexp =>
      refine h.onStream on (fun j _ _ => ?_) fun hne => absurd hexp hne
      rw [expecting_eq_none (hadmits rfl) htyp]
      exact nofun
  | continues _ _ on hwas _ hexp =>
      refine h.onStream on (fun j hj _ heq => ?_) fun hne => absurd hexp hne
      exact hj (Option.some.inj (heq.symm.trans hwas))
  | closes hblock _ on _ _ hbuf =>
      refine h.onStream on (fun j hj _ heq => ?_) fun _ => hbuf
      rcases hblock with ⟨htyp, -⟩ | ⟨-, hwas, -⟩
      · rw [expecting_eq_none (hadmits rfl) htyp] at heq
        cases heq
      · exact hj (Option.some.inj (heq.symm.trans hwas))
  | garbled _ on hexp hbuf => exact h.onStream on (fun j _ => hexp ▸ id) fun _ => hbuf
  | drained => exact ⟨h.next, h.ids, h.buffers⟩

theorem Settled.step {c c' : Connection} (hstep : Step false c c') (h : Settled c) :
    Settled c' := by
  cases hstep with
  | opens hopen => exact h.opens hopen
  | turn hturn =>
      cases hturn with
      | moves hmoves => exact h.moves hmoves
      | reaps hremoves => exact h.removes hremoves
      | drops _ hremoves => exact h.removes hremoves
      | frame source f =>
          have hreceive : Settled (c.receive source f) := ⟨h.next, h.ids, h.buffers⟩
          exact hreceive.frame f

theorem Reachable.settled {c : Connection} (h : Reachable c) : Settled c :=
  h.induct settled_new Settled.step

/-! ## One block, frame by frame -/

/-- The state after HEADERS, where HEADERS may come. -/
def StreamState.afterHeaders (state : StreamState) (endStream : Bool) : StreamState :=
  match state, endStream with
  | .open, true => .halfClosedRemote
  | .halfClosedLocal, true => .closed
  | state, _ => state

theorem recvHeaders_eq {state : StreamState} (h : state = .open ∨ state = .halfClosedLocal)
    (endStream : Bool) : state.recvHeaders endStream = .ok (state.afterHeaders endStream) := by
  rcases h with rfl | rfl <;> cases endStream <;> rfl

theorem remoteDone_afterHeaders {state : StreamState}
    (h : state = .open ∨ state = .halfClosedLocal) (endStream : Bool) :
    (state.afterHeaders endStream).remoteDone = endStream := by
  rcases h with rfl | rfl <;> cases endStream <;> rfl

/-- The stream after a HEADERS frame, before anything is decoded. -/
def Stream.afterHeaders (s : Stream) (endStream : Bool) (frag : Bytes) : Stream :=
  { s with
    state := s.state.afterHeaders endStream
    endStreamRecv := s.endStreamRecv || endStream
    headersBuf := s.headersBuf ++ frag }

/-- The stream after the end of a block. -/
def Stream.decoded (s : Stream) (headers : List Header) : Stream :=
  { s with headersBuf := [], responseHeaders := some headers }

theorem pushHeaderFragment_of_le {s : Stream} {frag : Bytes}
    (h : s.headersBuf.length + frag.length ≤ maxHeadersBuf) :
    s.pushHeaderFragment frag = .ok { s with headersBuf := s.headersBuf ++ frag } :=
  if_neg (Nat.not_lt.mpr h)

section

variable {c : Connection} {f : Frame} {s : Stream} {endStream : Bool} {frag : Bytes}

/-- HEADERS on a stream that awaits them, up to the decoding of the block. -/
theorem processHeaders_eq (hexp : c.expectingContinuation = none) (htyp : f.typ = fHeaders)
    (hid : f.streamId ≠ 0) (hs : c.streams.lookup f.streamId = some s)
    (hstate : s.state = .open ∨ s.state = .halfClosedLocal)
    (hend : f.has flagEndStream = endStream) (hfrag : Connection.headersFragment f = .ok frag)
    (hlen : s.headersBuf.length + frag.length ≤ maxHeadersBuf) :
    (f.has flagEndHeaders = false →
      c.processFrame f = (.ok ((s.afterHeaders endStream frag).outcome f.streamId),
        { c.setStream f.streamId (s.afterHeaders endStream frag) with
          expectingContinuation := some f.streamId })) ∧
      ∀ {headers decoder}, f.has flagEndHeaders = true →
        c.decoder.decodeBlock (s.headersBuf ++ frag) = (.ok headers, decoder) →
        c.processFrame f =
          (.ok (((s.afterHeaders endStream frag).decoded headers).outcome f.streamId),
            c.blockEnd f.streamId ((s.afterHeaders endStream frag).decoded headers) decoder) := by
  have hadmits : c.admits f = true := by simp only [Connection.admits, hexp]
  have hopen : s.state ≠ .closed := by rcases hstate with h | h <;> rw [h] <;> nofun
  have hnoted : (if endStream = true then
      ({ s with headersBuf := s.headersBuf ++ frag, endStreamRecv := true } : Stream)
      else { s with headersBuf := s.headersBuf ++ frag }) =
        { s with
          headersBuf := s.headersBuf ++ frag
          endStreamRecv := s.endStreamRecv || endStream } := by
    cases endStream <;> simp
  simp only [Connection.processFrame, hadmits, if_true, if_neg hid, Connection.processStreamFrame,
    htyp, Connection.processHeaders, hfrag, hs, if_neg hopen, hend, recvHeaders_eq hstate,
    pushHeaderFragment_of_le hlen, hnoted]
  constructor
  · intro hmore
    simp only [hmore, Bool.false_eq_true, if_false]
    rfl
  · intro headers decoder hlast hdec
    simp only [hlast, if_true, hdec]
    rfl

/-- The stream after the last CONTINUATION; on a closed stream the headers are dropped. -/
def Stream.afterContinuation (s : Stream) (headers : List Header) : Stream :=
  if s.state = .closed then { s with headersBuf := [] } else s.decoded headers

/-- CONTINUATION for the block in progress, up to the decoding of the block. -/
theorem processContinuation_eq (hexp : c.expectingContinuation = some f.streamId)
    (htyp : f.typ = fContinuation) (hid : f.streamId ≠ 0)
    (hs : c.streams.lookup f.streamId = some s)
    (hlen : s.headersBuf.length + f.payload.length ≤ maxHeadersBuf) :
    (f.has flagEndHeaders = false →
      c.processFrame f = (.ok (s.outcome f.streamId),
        c.setStream f.streamId { s with headersBuf := s.headersBuf ++ f.payload })) ∧
      ∀ {headers decoder}, f.has flagEndHeaders = true →
        c.decoder.decodeBlock (s.headersBuf ++ f.payload) = (.ok headers, decoder) →
        c.processFrame f =
          (.ok ((s.afterContinuation headers).outcome f.streamId),
            c.blockEnd f.streamId (s.afterContinuation headers) decoder) := by
  have hadmits : c.admits f = true := by
    simp only [Connection.admits, hexp, htyp, decide_true, Bool.and_self]
  have hheaders : fContinuation ≠ fHeaders := by decide
  simp only [Connection.processFrame, hadmits, if_true, if_neg hid, Connection.processStreamFrame,
    htyp, if_neg hheaders, Connection.processContinuation, hexp, ne_eq, not_true_eq_false,
    if_false, hs, pushHeaderFragment_of_le hlen]
  constructor
  · intro hmore
    simp only [hmore, Bool.false_eq_true, if_false]
    rfl
  · intro headers decoder hlast hdec
    simp only [hlast, if_true, hdec]
    rfl

/-- The frames behind the first: every one of them but the last reports as the stream is. -/
theorem processFrames_rest {id : Nat} {rest : Bytes} {fs : List Frame} {headers : List Header}
    {decoder : Decoder} (hrest : IsRest id rest fs) (hid : id ≠ 0)
    (hexp : c.expectingContinuation = some id) (hs : c.streams.lookup id = some s)
    (hlen : s.headersBuf.length + rest.length ≤ maxHeadersBuf)
    (hdec : c.decoder.decodeBlock (s.headersBuf ++ rest) = (.ok headers, decoder)) :
    ∃ n, c.processFrames fs =
      (.ok (List.replicate n (s.outcome id) ++ [(s.afterContinuation headers).outcome id]),
        c.blockEnd id (s.afterContinuation headers) decoder) := by
  induction hrest generalizing c s with
  | last htyp hid' hlast =>
      subst hid'
      exact ⟨0, Connection.processFrames_cons
        ((processContinuation_eq hexp htyp hid hs hlen).2 hlast hdec) rfl⟩
  | @more f rest fs htyp hid' hmore _ ih =>
      subst hid'
      rw [List.length_append] at hlen
      have hfirst := (processContinuation_eq hexp htyp hid hs (by omega)).1 hmore
      -- the stream with this fragment, on which the other frames go on
      obtain ⟨n, hn⟩ := ih (c := c.setStream f.streamId
          { s with headersBuf := s.headersBuf ++ f.payload })
        (s := { s with headersBuf := s.headersBuf ++ f.payload }) hexp
        (Connection.lookup_setStream ..) (by rw [List.length_append]; omega)
        (by rw [List.append_assoc]; exact hdec)
      rw [Connection.blockEnd_setStream] at hn
      exact ⟨n + 1, Connection.processFrames_cons hfirst hn⟩

end

/-! ## Fragmentation -/

/-- What the claim is about: a block that decodes, on a stream that awaits HEADERS, in one frame
and cut. -/
structure Cutting (c : Connection) (id : Nat) (s : Stream) (endStream : Bool) (block : Bytes)
    (one : Frame) (frames : List Frame) : Prop where
  reachable : Reachable c
  idle : c.expectingContinuation = none
  registered : c.streams.lookup id = some s
  state : s.state = .open ∨ s.state = .halfClosedLocal
  decodes : ∃ headers, (c.decoder.decodeBlock block).1 = .ok headers
  size : block.length ≤ maxHeadersBuf
  one : IsBlock id endStream block [one]
  frames : IsBlock id endStream block frames

section

variable {c : Connection} {id : Nat} {s : Stream} {endStream : Bool} {block : Bytes} {one : Frame}
variable {frames : List Frame}

/-- Before the first frame: nothing is buffered, and the block decodes. -/
theorem Cutting.before (h : Cutting c id s endStream block one frames) :
    s.headersBuf = [] ∧ id ≠ 0 ∧
      ∃ headers decoder, c.decoder.decodeBlock block = (.ok headers, decoder) := by
  have hsettled := h.reachable.settled
  refine ⟨hsettled.buffers h.registered (by rw [h.idle]; nofun), hsettled.ids h.registered, ?_⟩
  obtain ⟨headers, hdec⟩ := h.decodes
  exact ⟨headers, _, Prod.ext hdec rfl⟩

/-- The block in one frame. -/
theorem Cutting.whole_eq (h : Cutting c id s endStream block one frames) {f : Frame}
    {headers : List Header} {decoder : Decoder}
    (hdec : c.decoder.decodeBlock block = (.ok headers, decoder))
    (hf : IsBlock id endStream block [f]) :
    c.processFrame f = (.ok (((s.afterHeaders endStream []).decoded headers).outcome id),
      c.blockEnd id ((s.afterHeaders endStream []).decoded headers) decoder) := by
  obtain ⟨hbuf, hid, -⟩ := h.before
  have hsize := h.size
  cases hf with
  | cut _ _ _ _ _ hrest => exact absurd rfl hrest.ne_nil
  | whole htyp hid' hend hlast hfrag =>
      subst hid'
      exact (processHeaders_eq h.idle htyp hid h.registered h.state hend hfrag
        (by rw [hbuf]; simpa using hsize)).2 hlast (by rw [hbuf]; exact hdec)

/-- The block in several frames. -/
theorem Cutting.cut_eq (h : Cutting c id s endStream block one frames) {headers : List Header}
    {decoder : Decoder} (hdec : c.decoder.decodeBlock block = (.ok headers, decoder))
    (hlen : frames.length ≠ 1) :
    ∃ n, c.processFrames frames =
      (.ok (List.replicate (n + 1) ((s.afterHeaders endStream []).outcome id) ++
          [((s.afterHeaders endStream []).afterContinuation headers).outcome id]),
        c.blockEnd id ((s.afterHeaders endStream []).afterContinuation headers) decoder) := by
  obtain ⟨hbuf, hid, -⟩ := h.before
  have hsize := h.size
  cases h.frames with
  | whole => exact absurd rfl hlen
  | @cut f frag rest fs htyp hid' hend hmore hfrag hrest =>
      subst hid'
      rw [List.length_append] at hsize
      have hfirst := (processHeaders_eq h.idle htyp hid h.registered h.state hend hfrag
        (by rw [hbuf, List.length_nil]; omega)).1 hmore
      have hfrag : (s.afterHeaders endStream frag).headersBuf = frag := by
        rw [Stream.afterHeaders, hbuf, List.nil_append]
      obtain ⟨n, hn⟩ := processFrames_rest hrest hid
        (c := { c.setStream f.streamId (s.afterHeaders endStream frag) with
          expectingContinuation := some f.streamId }) rfl (Connection.lookup_setStream ..)
        (by rw [hfrag]; exact hsize) (by rw [hfrag]; exact hdec)
      refine ⟨n, Connection.processFrames_cons hfirst (hn.trans (Prod.ext rfl ?_))⟩
      change Connection.blockEnd (c.setStream f.streamId _) _ _ _ = _
      rw [Connection.blockEnd_setStream]
      rfl

/-- Frames that report nothing before the last and leave the stream as one frame does. -/
theorem Cutting.sameEffect (h : Cutting c id s endStream block one frames)
    {headers : List Header} {decoder : Decoder} {n : Nat}
    (hdec : c.decoder.decodeBlock block = (.ok headers, decoder))
    (hcut : c.processFrames frames = (.ok (List.replicate n .cont ++
        [((s.afterHeaders endStream []).decoded headers).outcome id]),
      c.blockEnd id ((s.afterHeaders endStream []).decoded headers) decoder)) :
    SameEffect c id endStream one frames := by
  have hdone : ((s.afterHeaders endStream []).decoded headers).complete = endStream := by
    have hremote := remoteDone_afterHeaders h.state endStream
    simp only [Stream.complete, Stream.decoded, Stream.afterHeaders, hremote, Option.isSome_some]
    cases endStream <;> simp
  have hone := h.whole_eq hdec h.one
  refine ⟨⟨_, _, congrArg Prod.fst hone, congrArg Prod.fst hcut, ?_, ?_⟩, ?_, ?_, ?_⟩
  · intro i hi
    cases List.eq_of_mem_replicate hi
  · rw [Stream.outcome, hdone]
    cases endStream <;> simp
  · rw [hone, hcut]
    exact ⟨_, _, Connection.lookup_setStream .., Connection.lookup_setStream .., rfl, rfl, rfl⟩
  · rw [hone, hcut]
  · rw [hone, hcut]

theorem Cutting.sameEffect_of_one (h : Cutting c id s endStream block one frames)
    (hlen : frames.length = 1) : SameEffect c id endStream one frames := by
  obtain ⟨-, -, headers, decoder, hdec⟩ := h.before
  obtain ⟨f, rfl⟩ := List.length_eq_one_iff.mp hlen
  exact h.sameEffect (n := 0) hdec (Connection.processFrames_cons (h.whole_eq hdec h.frames) rfl)

/-- The HEADERS frame neither closes the stream nor completes it. -/
theorem Cutting.sameEffect_of_open (h : Cutting c id s endStream block one frames)
    (hopen : (s.afterHeaders endStream []).state ≠ .closed)
    (hquiet : (s.afterHeaders endStream []).complete = false) :
    SameEffect c id endStream one frames := by
  by_cases hlen : frames.length = 1
  · exact h.sameEffect_of_one hlen
  obtain ⟨-, -, headers, decoder, hdec⟩ := h.before
  obtain ⟨n, hcut⟩ := h.cut_eq hdec hlen
  have hcont : (s.afterHeaders endStream []).outcome id = .cont := by
    rw [Stream.outcome, hquiet]
    rfl
  rw [Stream.afterContinuation, if_neg hopen, hcont] at hcut
  exact h.sameEffect hdec hcut

/-- Cutting a header block makes no difference exactly in one frame, without END_STREAM, or on
an open stream that has no response headers yet. -/
theorem fragmentation_iff (h : Cutting c id s endStream block one frames) :
    SameEffect c id endStream one frames ↔
      frames.length = 1 ∨ endStream = false ∨ (s.state = .open ∧ s.responseHeaders = none) := by
  obtain ⟨-, -, headers, decoder, hdec⟩ := h.before
  constructor
  · intro hsame
    by_contra hnot
    simp only [not_or, Bool.not_eq_false] at hnot
    obtain ⟨hlen, rfl, hbad⟩ := hnot
    obtain ⟨n, hcut⟩ := h.cut_eq hdec hlen
    have hone := h.whole_eq hdec h.one
    cases hheads : s.responseHeaders with
    | some old =>
        -- the first fragment already reports `Done`
        obtain ⟨o, os, -, hos, hnone, -⟩ := hsame.outcome
        rw [hcut] at hos
        have hfirst : (s.afterHeaders true []).outcome id = .done id := by
          have hremote := remoteDone_afterHeaders h.state true
          simp only [Stream.outcome, Stream.complete, Stream.afterHeaders, hremote, hheads,
            Bool.or_true, Option.isSome_some, Bool.and_self, if_true]
        obtain ⟨rfl, -⟩ := List.append_inj' (Except.ok.inj hos) rfl
        refine hnone id ?_
        rw [hfirst]
        exact List.mem_replicate.mpr ⟨Nat.succ_ne_zero n, rfl⟩
    | none =>
        -- the stream is closed before the block is there, and its headers are lost
        have hstate : s.state = .halfClosedLocal := by
          rcases h.state with ho | hl
          · exact absurd ⟨ho, hheads⟩ hbad
          · exact hl
        obtain ⟨t, t', ht, ht', -, hresp, -⟩ := hsame.stream
        rw [hone] at ht
        rw [hcut] at ht'
        obtain rfl := Option.some.inj ((Connection.lookup_setStream ..).symm.trans ht)
        obtain rfl := Option.some.inj ((Connection.lookup_setStream ..).symm.trans ht')
        rw [Stream.afterContinuation, if_pos (by rw [Stream.afterHeaders, hstate]; rfl)] at hresp
        change s.responseHeaders = some headers at hresp
        rw [hheads] at hresp
        cases hresp
  · intro hcond
    rcases hcond with hlen | rfl | ⟨hstate, hheads⟩
    · exact h.sameEffect_of_one hlen
    · refine h.sameEffect_of_open ?_ ?_
      · rcases h.state with hs | hs <;> rw [Stream.afterHeaders, hs] <;> nofun
      · have hremote := remoteDone_afterHeaders h.state false
        simp only [Stream.complete, Stream.afterHeaders, hremote, Bool.false_and]
    · refine h.sameEffect_of_open ?_ ?_
      · rw [Stream.afterHeaders, hstate]
        cases endStream <;> nofun
      · simp only [Stream.complete, Stream.afterHeaders, hheads, Option.isSome_none,
          Bool.and_false]

end

/-- A connection on which a GET has gone out. -/
def afterGet : Connection :=
  ((Connection.dial ⟨[], none⟩).openStream.2.sendRequestOn 1 sampleGet).2

/-- The block `:status: 200` in one frame. -/
def wholeOk (endStream : Bool) : Frame where
  typ := fHeaders
  flags := if endStream then 0x5 else 0x4
  streamId := 1
  payload := [0x88]

/-- The same block behind an empty fragment. -/
def cutOk (endStream : Bool) : List Frame :=
  [{ typ := fHeaders, flags := if endStream then 0x1 else 0, streamId := 1, payload := [] },
    { typ := fContinuation, flags := 0x4, streamId := 1, payload := [0x88] }]

theorem reachable_afterGet : Reachable afterGet := by
  refine ⟨_, _, new_dial ⟨[], none⟩, .head (@Step.opens _ _ _ 1 rfl) (steps_of_turns ?_)⟩
  exact turns_sendRequestOn false _ 1 sampleGet nofun

theorem cutting_afterGet (endStream : Bool) :
    ∃ s, Cutting afterGet 1 s endStream [0x88] (wholeOk endStream) (cutOk endStream) ∧
      s.state = .halfClosedLocal := by
  obtain ⟨s, hs, hstate⟩ : ∃ s, afterGet.streams.lookup 1 = some s ∧
    s.state = .halfClosedLocal := ⟨_, rfl, by decide +kernel⟩
  refine ⟨s, ⟨reachable_afterGet, rfl, hs, .inr hstate, ?_, by decide, ?_, ?_⟩, hstate⟩
  · exact ⟨[(":status".toList, "200".toList)], by decide +kernel⟩
  · cases endStream <;> exact .whole rfl rfl (by decide) (by decide) rfl
  · show IsBlock 1 endStream ([] ++ [0x88]) (cutOk endStream)
    have hrest : IsRest 1 [0x88] (cutOk endStream).tail :=
      IsRest.last (f := { typ := fContinuation, flags := 0x4, streamId := 1, payload := [0x88] })
        rfl rfl (by decide)
    refine IsBlock.cut (f := { typ := fHeaders, flags := _, streamId := 1, payload := [] })
      rfl rfl ?_ ?_ ?_ hrest
    · cases endStream <;> decide
    · cases endStream <;> decide
    · cases endStream <;> rfl

/-- The answer to a GET, a block with END_STREAM and no body, is lost when it is cut. -/
theorem fragmentation_loses_answer :
    ∃ s, Cutting afterGet 1 s true [0x88] (wholeOk true) (cutOk true) ∧
      ¬ SameEffect afterGet 1 true (wholeOk true) (cutOk true) := by
  obtain ⟨s, hcutting, -⟩ := cutting_afterGet true
  refine ⟨s, hcutting, fun hsame => ?_⟩
  obtain ⟨o, os, -, hos, -, hdone⟩ := hsame.outcome
  have hrun : (afterGet.processFrames (cutOk true)).1 = .ok [.cont, .cont] := by decide +kernel
  rw [hrun] at hos
  rw [hdone.mpr rfl] at hos
  have hmem : DispatchOutcome.done 1 ∈ [DispatchOutcome.cont, .cont] := by
    rw [Except.ok.inj hos]
    exact List.mem_append_right _ List.mem_cons_self
  simp at hmem

/-- The head of an answer that has a body arrives in two frames as it does in one. -/
theorem fragmentation_without_end : SameEffect afterGet 1 false (wholeOk false) (cutOk false) := by
  obtain ⟨s, h, -⟩ := cutting_afterGet false
  exact (fragmentation_iff h).mpr (.inr (.inl rfl))

end Rsurl.H2
