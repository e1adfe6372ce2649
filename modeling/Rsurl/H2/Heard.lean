/-
# `Rsurl.H2.Heard` — what is heard on a stream before its response

`Hears` follows one request stream from its opening: the frames handled on it
with the header blocks that end with them, and whatever else the connection
does meanwhile.  The handlers look at one frame and a few flags; `Told` says
what those flags know of the whole history, and `told_of_trace` that they do.
-/
import Rsurl.H2.Concurrency

namespace Rsurl.H2

open Http (Header Request Response)

/-! ## The history of a stream -/

/-- A frame that was handled, and the header block that ended with it, decoded. -/
structure Heard where
  frame : Frame
  fields : Option (List Header)

/-- The fields of the header block that ends with the frame. -/
def Connection.fieldsOf (c : Connection) (f : Frame) (s : Stream) : Option (List Header) :=
  (f.endedBlock s).bind fun block => (c.decoder.decodeBlock block).1.toOption

/-- Nothing comes in on the stream `id`: at most it is sent on, or closed by a GOAWAY. -/
structure Spares (id : Nat) (c c' : Connection) : Prop where
  next : c.nextStreamId ≤ c'.nextStreamId
  came : ∀ {s'}, c'.streams.lookup id = some s' → ∃ s, c.streams.lookup id = some s ∧
    (SentTo s s' ∨ s'.state = .closed ∧ s'.endStreamRecv = s.endStreamRecv ∧
      s'.responseHeaders = s.responseHeaders)

/-- A step in the history of the stream `id`, with what is heard on it: a frame on it that is
handled, or an act of the connection in which no frame comes on it. -/
inductive Hears (p : Path) (ok : Bool) (id : Nat) (c : Connection) :
    List Heard → Connection → Prop
  | frame {source : Source} {f : Frame} {s : Stream} {o : DispatchOutcome} {c' : Connection}
      (hid : f.streamId = id) (hs : c.streams.lookup id = some s) (hlive : s.complete = false)
      (h : (c.receive source f).processFrame f = (.ok o, c')) :
      Hears p ok id c [⟨f, c.fieldsOf f s⟩] c'
  | aside {new : List Event} {c' : Connection} (h : Acts p ok c new c')
      (hothers : ∀ f ∈ new.filterMap Event.came, f.streamId ≠ id) : Hears p ok id c [] c'

/-- END_STREAM comes once, with HEADERS or DATA, and after it nothing of a message but
CONTINUATION. -/
def EndsOnce (id : Nat) (heard : List Heard) : Prop :=
  ∃ before last after, heard = before ++ last :: after ∧
    (∀ h ∈ before, h.frame.endsStream id = false) ∧ last.frame.endsStream id = true ∧
    ∀ h ∈ after, h.frame.typ ≠ fHeaders ∧ h.frame.typ ≠ fData

/-- The last header block that was decoded. -/
def lastFields (heard : List Heard) : Option (List Header) := (heard.filterMap Heard.fields).getLast?

/-- What a stream knows of its history. -/
inductive Told (id : Nat) (heard : List Heard) (s : Stream) : Prop
  | live (hstate : s.state.remoteDone = false) (hended : s.endStreamRecv = false)
      (hnone : ∀ h ∈ heard, h.frame.endsStream id = false)
      (hfields : s.responseHeaders = lastFields heard)
  | ended (hstate : s.state.remoteDone = true) (hended : s.endStreamRecv = true)
      (honce : EndsOnce id heard) (hfields : s.responseHeaders = lastFields heard)
  | dead (hclosed : s.state = .closed)
      (hincomplete : (s.endStreamRecv && s.responseHeaders.isSome) = false)

section

variable {c c' : Connection} {f : Frame} {id : Nat} {s s' : Stream} {o : DispatchOutcome}
  {heard : List Heard}

theorem lastFields_snoc (heard : List Heard) (h : Heard) :
    lastFields (heard ++ [h]) = h.fields.or (lastFields heard) := by
  unfold lastFields
  rw [List.filterMap_append, List.getLast?_append]
  cases hfields : h.fields with
  | none => rw [List.filterMap_cons_none hfields]; rfl
  | some fields => rw [List.filterMap_cons_some hfields]; rfl

theorem EndsOnce.snoc (h : EndsOnce id heard) {next : Heard}
    (hnext : next.frame.typ ≠ fHeaders ∧ next.frame.typ ≠ fData) :
    EndsOnce id (heard ++ [next]) := by
  obtain ⟨before, last, after, rfl, hbefore, hlast, hafter⟩ := h
  refine ⟨before, last, after ++ [next], ?_, hbefore, hlast, ?_⟩
  · rw [List.append_assoc, List.cons_append]
  · intro h hmem
    rcases List.mem_append.mp hmem with hmem | hmem
    · exact hafter h hmem
    · rw [List.mem_singleton.mp hmem]
      exact hnext

theorem Stream.incomplete_of_flags (h : (s.endStreamRecv && s.responseHeaders.isSome) = false) :
    s.complete = false := by
  rw [Stream.complete, Bool.and_assoc, h, Bool.and_false]

/-- A stream that is not complete is not ended, or has no response headers. -/
theorem Told.flags (h : Told id heard s) (hlive : s.complete = false) :
    (s.endStreamRecv && s.responseHeaders.isSome) = false := by
  cases h with
  | live _ hended => rw [hended, Bool.false_and]
  | ended hstate =>
      rwa [Stream.complete, hstate, Bool.true_and] at hlive
  | dead _ hincomplete => exact hincomplete

/-- A complete stream was ended once, and its headers are the last that were decoded. -/
theorem Told.of_complete (h : Told id heard s) (hcomplete : s.complete = true) :
    EndsOnce id heard ∧ s.responseHeaders = lastFields heard := by
  cases h with
  | live hstate =>
      rw [Stream.complete, hstate] at hcomplete
      cases hcomplete
  | ended _ _ honce hfields => exact ⟨honce, hfields⟩
  | dead _ hincomplete =>
      rw [Stream.incomplete_of_flags hincomplete] at hcomplete
      cases hcomplete

/-- Sending keeps what the stream knows. -/
theorem Told.sends (h : Told id heard s) (hsent : SentTo s s') : Told id heard s' := by
  have hdone := hsent.remoteDone
  cases h with
  | live hstate hended hnone hfields =>
      exact .live (hdone.trans hstate) (hsent.ended.trans hended) hnone
        (hsent.headers.trans hfields)
  | ended hstate hended honce hfields =>
      exact .ended (hdone.trans hstate) (hsent.ended.trans hended) honce
        (hsent.headers.trans hfields)
  | dead hclosed hincomplete =>
      refine .dead ?_ (by rw [hsent.ended, hsent.headers, hincomplete])
      rcases hsent.state with heq | ⟨_, hsend⟩
      · exact heq.trans hclosed
      · rw [hclosed] at hsend
        cases hsend

theorem Told.spares (h : Told id heard s) (hsame : SentTo s s' ∨ s'.state = .closed ∧
    s'.endStreamRecv = s.endStreamRecv ∧ s'.responseHeaders = s.responseHeaders) :
    Told id heard s' := by
  rcases hsame with hsent | ⟨hclosed, hended, hheaders⟩
  · exact h.sends hsent
  cases h with
  | live _ hopen => exact .dead hclosed (by rw [hended, hopen, Bool.false_and])
  | ended _ hwas honce hfields =>
      refine .ended ?_ (hended.trans hwas) honce (hheaders.trans hfields)
      rw [hclosed]
      rfl
  | dead _ hincomplete => exact .dead hclosed (by rw [hended, hheaders, hincomplete])

/-- Nothing that spares a stream completes it. -/
theorem Told.spares_incomplete (h : Told id heard s) (hlive : s.complete = false)
    (hsame : SentTo s s' ∨ s'.state = .closed ∧ s'.endStreamRecv = s.endStreamRecv ∧
      s'.responseHeaders = s.responseHeaders) : s'.complete = false := by
  have hflags : s'.endStreamRecv = s.endStreamRecv ∧ s'.responseHeaders = s.responseHeaders := by
    rcases hsame with hsent | ⟨-, hsame⟩
    · exact ⟨hsent.ended, hsent.headers⟩
    · exact hsame
  refine Stream.incomplete_of_flags ?_
  rw [hflags.1, hflags.2]
  exact h.flags hlive

/-! ## A frame on the stream -/

theorem endsStream_of_typ (h : f.typ = fHeaders ∨ f.typ = fData) :
    f.endsStream f.streamId = f.has flagEndStream := by
  have htyp : (f.typ = fHeaders || f.typ = fData : Bool) = true := by
    rw [Bool.or_eq_true, decide_eq_true_eq, decide_eq_true_eq]
    exact h
  rw [Frame.endsStream, decide_eq_true rfl, htyp, Bool.true_and, Bool.true_and]

theorem endsStream_of_other (h : f.typ ≠ fHeaders ∧ f.typ ≠ fData) :
    f.endsStream id = false := by
  have htyp : (f.typ = fHeaders || f.typ = fData : Bool) = false := by
    rw [Bool.or_eq_false_iff, decide_eq_false_iff_not, decide_eq_false_iff_not]
    exact h
  rw [Frame.endsStream, htyp, Bool.and_false, Bool.false_and]

theorem remoteDone_of_recv_end {state state' : StreamState}
    (h : state.recvHeaders true = .ok state' ∨ state.recvData true = .ok state') :
    state'.remoteDone = true := by
  cases state with
  | idle | halfClosedRemote => rcases h with h | h <;> cases h
  | closed =>
      rcases h with h | h
      · cases h
        rfl
      · cases h
  | «open» | halfClosedLocal => rcases h with h | h <;> (cases h; rfl)

theorem recv_of_more {state state' : StreamState}
    (h : state.recvHeaders false = .ok state' ∨ state.recvData false = .ok state') :
    state' = state := by
  rcases recv_cases h with heq | ⟨hend, -⟩
  · exact heq
  · cases hend

/-- What a frame that is handled does to its stream while that is not closed. -/
structure Absorbs (c : Connection) (f : Frame) (s s' : Stream) (o : DispatchOutcome) : Prop where
  state : (f.typ = fHeaders ∨ f.typ = fData) ∧
      (s.state.recvHeaders (f.has flagEndStream) = .ok s'.state ∨
        s.state.recvData (f.has flagEndStream) = .ok s'.state) ∨
    (f.typ ≠ fHeaders ∧ f.typ ≠ fData) ∧ s'.state = s.state
  ended : s'.endStreamRecv = (s.endStreamRecv || f.endsStream f.streamId)
  headers : s'.responseHeaders = (c.fieldsOf f s).or s.responseHeaders
  done : s'.complete = true → s.complete = true ∨ o = .done f.streamId

theorem outcome_of_complete (h : s.complete = true) : s.outcome id = .done id := by
  rw [Stream.outcome, if_pos h]

theorem fieldsOf_eq_none (h : f.endedBlock s = none) : c.fieldsOf f s = none := by
  rw [Connection.fieldsOf, h]
  rfl

theorem fieldsOf_eq_some {block : Bytes} {fields : List Header} (h : f.endedBlock s = some block)
    (hdec : (c.decoder.decodeBlock block).1 = .ok fields) : c.fieldsOf f s = some fields := by
  rw [Connection.fieldsOf, h, Option.bind_some, hdec]
  rfl

theorem endedBlock_of_more (h : f.has flagEndHeaders = false) : f.endedBlock s = none := by
  unfold Frame.endedBlock
  rw [h]
  rfl

theorem absorbs_headers (htyp : f.typ = fHeaders) (hs : c.streams.lookup f.streamId = some s)
    (hopen : s.state ≠ .closed) (h : c.processHeaders f = (.ok o, c'))
    (hs' : c'.streams.lookup f.streamId = some s') : Absorbs c f s s' o := by
  have hends : f.endsStream f.streamId = f.has flagEndStream := endsStream_of_typ (.inl htyp)
  unfold Connection.processHeaders at h
  split at h
  · cases h
  next frag hfrag =>
  simp only [hs, if_neg hopen] at h
  split at h
  · cases h
  next state hstate =>
  split at h
  · cases h
  next s₁ hpush =>
  have hlen : s.headersBuf.length + frag.length ≤ maxHeadersBuf := by
    unfold Stream.pushHeaderFragment at hpush
    split at hpush
    · cases hpush
    · next hle => exact Nat.not_lt.mp hle
  obtain rfl := pushHeaderFragment_eq_ok hpush
  generalize hnoted : (if f.has flagEndStream then
    ({ s with headersBuf := s.headersBuf ++ frag, endStreamRecv := true } : Stream)
    else { s with headersBuf := s.headersBuf ++ frag }) = s₂ at h
  have hended : s₂.endStreamRecv = (s.endStreamRecv || f.endsStream f.streamId) := by
    rw [← hnoted, hends]
    split
    · next hlast => rw [hlast, Bool.or_true]
    · next hmore => rw [Bool.eq_false_iff.mpr hmore, Bool.or_false]
  have hsame : s₂.headersBuf = s.headersBuf ++ frag ∧ s₂.responseHeaders = s.responseHeaders := by
    rw [← hnoted]
    split <;> exact ⟨rfl, rfl⟩
  split at h
  · next hlast =>
      split at h
      · cases h
      next fields decoder hdec =>
      obtain ⟨ho, rfl⟩ := Prod.mk.inj h
      rw [hsame.1] at hdec
      have hblock : f.endedBlock s = some (s.headersBuf ++ frag) := by
        simp [Frame.endedBlock, htyp, hlast, hfrag, Except.toOption, hlen]
      simp only [Connection.setStream, AList.lookup_insert] at hs'
      obtain rfl := Option.some.inj hs'
      refine ⟨.inl ⟨.inl htyp, .inl hstate⟩, hended, ?_, fun hcomplete => .inr ?_⟩
      · rw [fieldsOf_eq_some hblock (by rw [hdec])]
        rfl
      · rw [← Except.ok.inj ho]
        exact outcome_of_complete hcomplete
  · next hmore =>
      obtain ⟨ho, rfl⟩ := Prod.mk.inj h
      simp only [Connection.setStream, AList.lookup_insert] at hs'
      obtain rfl := Option.some.inj hs'
      refine ⟨.inl ⟨.inl htyp, .inl hstate⟩, hended, ?_, fun hcomplete => .inr ?_⟩
      · rw [fieldsOf_eq_none (endedBlock_of_more (Bool.eq_false_iff.mpr hmore))]
        exact hsame.2
      · rw [← Except.ok.inj ho]
        exact outcome_of_complete hcomplete

theorem absorbs_continuation (htyp : f.typ = fContinuation)
    (hs : c.streams.lookup f.streamId = some s) (hopen : s.state ≠ .closed)
    (h : c.processContinuation f = (.ok o, c')) (hs' : c'.streams.lookup f.streamId = some s') :
    Absorbs c f s s' o := by
  have hother : f.typ ≠ fHeaders ∧ f.typ ≠ fData := by
    rw [htyp]
    decide
  have hends : f.endsStream f.streamId = false := endsStream_of_other hother
  rcases processContinuation_ok htyp hs hopen h with
    ⟨block, fields, hblock, hdec, hstreams, rfl⟩ | ⟨hmore, rfl⟩
  · rw [hstreams, AList.lookup_insert] at hs'
    obtain rfl := Option.some.inj hs'
    refine ⟨.inr ⟨hother, rfl⟩, ?_, ?_, fun hcomplete => .inr (outcome_of_complete hcomplete)⟩
    · rw [hends, Bool.or_false]
    · rw [fieldsOf_eq_some hblock hdec]
      rfl
  · rw [Connection.setStream, AList.lookup_insert] at hs'
    obtain rfl := Option.some.inj hs'
    refine ⟨.inr ⟨hother, rfl⟩, ?_, ?_, .inl⟩
    · rw [hends, Bool.or_false]
    · rw [fieldsOf_eq_none (endedBlock_of_more hmore)]
      rfl

theorem endedBlock_of_other (h : f.typ ≠ fHeaders ∧ f.typ ≠ fContinuation) :
    f.endedBlock s = none := by
  unfold Frame.endedBlock
  rw [if_neg h.1, if_neg h.2]
  split <;> rfl

theorem absorbs_data (htyp : f.typ = fData) (hs : c.streams.lookup f.streamId = some s)
    (hopen : s.state ≠ .closed) (h : c.processData f = (.ok o, c'))
    (hs' : c'.streams.lookup f.streamId = some s') : Absorbs c f s s' o := by
  have hends : f.endsStream f.streamId = f.has flagEndStream := endsStream_of_typ (.inr htyp)
  have hblock : f.endedBlock s = none := endedBlock_of_other (by rw [htyp]; decide)
  unfold Connection.processData at h
  simp only [hs, if_neg hopen] at h
  split at h
  · cases h
  split at h
  · cases h
  next state hstate =>
  split at h
  · cases h
  split at h
  · cases h
  next payload _ =>
  split at h
  · cases h
  obtain ⟨t, hsame, -, hstreams, hres⟩ := replenishBoth_touch
    { c with connRecvWindow := c.connRecvWindow.consume f.payload.length } f.streamId
    { s with
      recvWindow := s.recvWindow.consume f.payload.length
      body := s.body ++ payload
      endStreamRecv := s.endStreamRecv || f.has flagEndStream
      state }
  rw [h] at hstreams hres
  change c'.streams = _ at hstreams
  rw [hstreams, AList.lookup_insert] at hs'
  obtain rfl := Option.some.inj hs'
  refine ⟨.inl ⟨.inr htyp, .inr (by rw [hsame.state]; exact hstate)⟩, ?_, ?_,
    fun hcomplete => .inr ?_⟩
  · rw [hends]
    exact hsame.ended
  · rw [fieldsOf_eq_none hblock]
    exact hsame.headers
  · rcases hres with hok | ⟨e, herr⟩
    · obtain rfl := Except.ok.inj hok
      exact outcome_of_complete hcomplete
    · cases herr

/-- A frame that is part of no message changes nothing that counts. -/
theorem absorbs_other (htyp : f.typ ≠ fHeaders ∧ f.typ ≠ fContinuation ∧ f.typ ≠ fData)
    (hid : f.streamId ≠ 0) (hs : c.streams.lookup f.streamId = some s)
    (h : c.processFrame f = (.ok o, c')) (hs' : c'.streams.lookup f.streamId = some s') :
    Absorbs c f s s' o := by
  have htouches := processFrame_touch c f
  rw [h] at htouches
  obtain ⟨t, ht, htouch, -⟩ := htouches hs'
  obtain rfl := Option.some.inj (hs.symm.trans ht)
  cases htouch with
  | kept same =>
      refine ⟨.inr ⟨⟨htyp.1, htyp.2.2⟩, same.state⟩, ?_, ?_, fun hcomplete => .inl ?_⟩
      · rw [endsStream_of_other ⟨htyp.1, htyp.2.2⟩, Bool.or_false]
        exact same.ended
      · rw [fieldsOf_eq_none (endedBlock_of_other ⟨htyp.1, htyp.2.1⟩)]
        exact same.headers
      · rwa [Stream.complete, same.state, same.ended, same.headers] at hcomplete
  | doomed _ hzero => exact absurd hzero hid
  | reset _ _ hres =>
      obtain ⟨e, herr⟩ := hres
      cases herr
  | headers hheaders => exact absurd hheaders htyp.1
  | garbled hheaders => exact absurd hheaders htyp.1
  | continued hcontinues => exact absurd hcontinues htyp.2.1
  | data hdata => exact absurd hdata htyp.2.2

/-- A frame that is handled does one of these. -/
theorem absorbs_frame (hid : f.streamId ≠ 0) (hs : c.streams.lookup f.streamId = some s)
    (hopen : s.state ≠ .closed) (h : c.processFrame f = (.ok o, c'))
    (hs' : c'.streams.lookup f.streamId = some s') : Absorbs c f s s' o := by
  have hadmits := admits_of_ok h
  by_cases hheaders : f.typ = fHeaders
  · exact absorbs_headers hheaders hs hopen ((processFrame_headers hheaders hadmits hid).symm.trans h)
      hs'
  by_cases hcontinues : f.typ = fContinuation
  · exact absorbs_continuation hcontinues hs hopen
      ((processFrame_continuation hcontinues hadmits hid).symm.trans h) hs'
  by_cases hdata : f.typ = fData
  · exact absorbs_data hdata hs hopen ((Batch.processFrame_data hdata hadmits hid).symm.trans h) hs'
  · exact absorbs_other ⟨hheaders, hcontinues, hdata⟩ hid hs h hs'

/-- A closed stream stays as it is. -/
theorem Touch.of_closed {res : Result DispatchOutcome} (h : Touch f res id s s')
    (hclosed : s.state = .closed) : s'.state = .closed ∧ s'.endStreamRecv = s.endStreamRecv ∧
      s'.responseHeaders = s.responseHeaders := by
  cases h with
  | kept same => exact ⟨same.state.trans hclosed, same.ended, same.headers⟩
  | doomed _ _ _ _ hstate hended hheaders => exact ⟨hstate, hended, hheaders⟩
  | reset _ _ _ hopen | headers _ _ hopen | garbled _ _ hopen | continued _ _ _ hopen =>
      exact absurd hclosed hopen
  | data _ _ hstate =>
      rw [hclosed] at hstate
      cases hstate

/-- What the stream knows keeps up with a frame on it, and its completion is reported. -/
theorem Told.frame (h : Told id heard s) (hlive : s.complete = false) (hid : f.streamId = id)
    (hzero : id ≠ 0) (hs : c.streams.lookup id = some s) (hframe : c.processFrame f = (.ok o, c'))
    (hs' : c'.streams.lookup id = some s') :
    Told id (heard ++ [⟨f, c.fieldsOf f s⟩]) s' ∧ (s'.complete = true → o = .done id) := by
  subst hid
  have hflags := h.flags hlive
  by_cases hclosed : s.state = .closed
  · have htouches := processFrame_touch c f
    rw [hframe] at htouches
    obtain ⟨t, ht, htouch, -⟩ := htouches hs'
    obtain rfl := Option.some.inj (hs.symm.trans ht)
    obtain ⟨hstate, hended, hheaders⟩ := htouch.of_closed hclosed
    have hincomplete : (s'.endStreamRecv && s'.responseHeaders.isSome) = false := by
      rw [hended, hheaders, hflags]
    refine ⟨.dead hstate hincomplete, fun hcomplete => ?_⟩
    rw [Stream.incomplete_of_flags hincomplete] at hcomplete
    cases hcomplete
  obtain ⟨hstate, hended, hheaders, hdone⟩ := absorbs_frame hzero hs hclosed hframe hs'
  refine ⟨?_, fun hcomplete => (hdone hcomplete).resolve_left (by rw [hlive]; nofun)⟩
  have hfields : s.responseHeaders = lastFields heard →
      s'.responseHeaders = lastFields (heard ++ [⟨f, c.fieldsOf f s⟩]) := by
    intro hwas
    rw [lastFields_snoc, hheaders, hwas]
  cases h with
  | dead hwas => exact absurd hwas hclosed
  | live hwas hopen hnone hsaid =>
      rcases hstate with ⟨htyp, hrecv⟩ | ⟨hother, hsame⟩
      · rw [endsStream_of_typ htyp] at hended
        cases hlast : f.has flagEndStream with
        | true =>
            rw [hlast] at hrecv hended
            refine .ended ?_ (by rw [hended, Bool.or_true]) ?_ (hfields hsaid)
            · exact remoteDone_of_recv_end hrecv
            · refine ⟨heard, _, [], rfl, hnone, ?_, List.forall_mem_nil _⟩
              exact (endsStream_of_typ htyp).trans hlast
        | false =>
            rw [hlast] at hrecv hended
            refine .live ?_ (by rw [hended, hopen]; rfl) ?_ (hfields hsaid)
            · rw [recv_of_more hrecv]
              exact hwas
            · intro x hx
              rcases List.mem_append.mp hx with hx | hx
              · exact hnone x hx
              · rw [List.mem_singleton.mp hx]
                exact (endsStream_of_typ htyp).trans hlast
      · rw [endsStream_of_other hother] at hended
        refine .live (by rw [hsame]; exact hwas) (by rw [hended, hopen]; rfl) ?_ (hfields hsaid)
        intro x hx
        rcases List.mem_append.mp hx with hx | hx
        · exact hnone x hx
        · rw [List.mem_singleton.mp hx]
          exact endsStream_of_other hother
  | ended hwas hover honce hsaid =>
      have hremote : s.state = .halfClosedRemote := by
        rw [StreamState.remoteDone, Bool.or_eq_true, decide_eq_true_eq, decide_eq_true_eq] at hwas
        exact hwas.resolve_left hclosed
      rcases hstate with ⟨-, hrecv⟩ | ⟨hother, hsame⟩
      · rw [hremote] at hrecv
        rcases hrecv with hrecv | hrecv <;> cases hrecv
      · refine .ended (by rw [hsame]; exact hwas) (by rw [hended, hover, Bool.true_or])
          (honce.snoc hother) (hfields hsaid)

end

/-! ## What spares a stream -/

section

variable {p : Path} {ok : Bool} {c c' : Connection} {f : Frame} {id : Nat} {new : List Event}

/-- A frame on another stream. -/
theorem spares_frame {source : Source} {res : Result DispatchOutcome} (hid : f.streamId ≠ id)
    (hframe : (c.receive source f).processFrame f = (res, c')) : Spares id c c' := by
  have heff := processFrame_effect (c.receive source f) f
  have htouches := processFrame_touch (c.receive source f) f
  rw [hframe] at heff htouches
  refine ⟨heff.next_eq.ge, fun {s'} hs' => ?_⟩
  obtain ⟨s, hs, htouch, -⟩ := htouches hs'
  refine ⟨s, hs, ?_⟩
  cases htouch with
  | kept same => exact .inl ⟨.inl same.state, same.ended, same.headers⟩
  | doomed _ _ _ _ hstate hended hheaders => exact .inr ⟨hstate, hended, hheaders⟩
  | reset _ hon | headers _ hon | garbled _ hon | continued _ hon | data _ hon =>
      exact absurd hon hid

/-- An act in which no frame comes on a stream spares it. -/
theorem Acts.spares (h : Acts p ok c new c') (hlt : id < c.nextStreamId)
    (hothers : ∀ f ∈ new.filterMap Event.came, f.streamId ≠ id) : Spares id c c' := by
  have hnext : c.nextStreamId ≤ c'.nextStreamId := by
    rw [h.next]
    exact Nat.le_add_right _ _
  have hsends : Sends c c' → Spares id c c' := by
    refine fun hsends => ⟨hnext, fun {s'} hs' => ?_⟩
    obtain ⟨s, hs, hsent⟩ := hsends hs'
    exact ⟨s, hs, .inl hsent⟩
  have hstays : (∀ {s}, c'.streams.lookup id = some s → c.streams.lookup id = some s) →
      Spares id c c' := fun hlook => ⟨hnext, fun hs => ⟨_, hlook hs, .inl (.refl _)⟩⟩
  have hne : id ≠ c.nextStreamId := Nat.ne_of_lt hlt
  cases h with
  | opens hopen =>
      obtain ⟨-, rfl⟩ := openStream_eq_ok hopen
      exact hstays fun hs => (AList.lookup_insert_ne hne).symm.trans hs
  | heads _ hsent =>
      obtain ⟨t, state, sink, ht, hstate, rfl, -, rfl⟩ := sendHeadersOn_eq_ok hsent
      exact hsends (sends_of_insert ht rfl ⟨.inr ⟨_, hstate⟩, rfl, rfl⟩)
  | starts _ hopen hstage =>
      obtain ⟨rfl, rfl⟩ := openStream_eq_ok hopen
      have hstreams := stageRequestOn_ok (AList.lookup_insert _) hstage
      refine hstays fun hs => ?_
      rwa [hstreams, AList.lookup_insert_ne hne, AList.lookup_insert_ne hne] at hs
  | chunk _ ht _ _ _ hsend => exact hsends (sendChunk_sends ht hsend)
  | @pump i n t pb isLast res c₁ _ ht _ _ _ _ _ hsend =>
      cases res with
      | error e => exact hsends (sendChunk_sends ht hsend)
      | ok t' =>
          obtain ⟨hsent, -, hstreams⟩ := sendChunk_sent hsend
          have hkept : SentTo t { t' with
              pendingBody := if isLast then none else some { pb with sent := pb.sent + n } } :=
            ⟨hsent.state, hsent.ended, hsent.headers⟩
          refine hsends (sends_of_insert ht ?_ hkept)
          rw [Connection.afterPump, Connection.setStream, hstreams, AList.insert_insert]
  | cleared _ hs => exact hsends (sends_of_insert hs rfl ⟨.inl rfl, rfl, rfl⟩)
  | handled hframe | refused _ hframe => exact spares_frame (hothers _ List.mem_cons_self) hframe
  | drops hkept => exact hstays hkept
  | breaks => exact hsends (sends_of_streams_eq rfl)

end

/-! ## The whole history -/

/-- The act that opens the stream `id`. -/
def Opens (p : Path) (ok : Bool) (id : Nat) (c c' : Connection) : Prop :=
  ∃ new, Acts p ok c new c' ∧ .opened id ∈ new

/-- A history of the stream `id` that opened in `c₀`, as long as the stream is not complete. -/
structure Hearing (p : Path) (ok : Bool) (id : Nat) (c₀ : Connection) (heard : List Heard)
    (c : Connection) : Prop where
  opened : ∃ c₁, Opens p ok id c₀ c₁ ∧ Base.Trace (Hears p ok id) c₁ heard c
  nonzero : id ≠ 0
  below : id < c.nextStreamId
  live : ∀ {s}, c.streams.lookup id = some s → s.complete = false

/-- The complete stream `s` of the connection `c`, at the end of a history. -/
structure Brought (p : Path) (ok : Bool) (id : Nat) (c₀ : Connection) (heard : List Heard)
    (c : Connection) (s : Stream) : Prop where
  opened : ∃ c₁, Opens p ok id c₀ c₁ ∧ Base.Trace (Hears p ok id) c₁ heard c
  nonzero : id ≠ 0
  stream : c.streams.lookup id = some s
  complete : s.complete = true

/-- The response was built from the stream at the end of a history. -/
def BuiltOn (codec : Codec) (p : Path) (ok : Bool) (id : Nat) (c₀ : Connection)
    (heard : List Heard) (c : Connection) (r : Response) : Prop :=
  ∃ s, Brought p ok id c₀ heard c s ∧ buildResponseFromStream codec s = .ok r

section

variable {p : Path} {ok : Bool} {c₀ c₁ c c' : Connection} {f : Frame} {id : Nat} {s s' : Stream}
  {o : DispatchOutcome} {heard : List Heard} {new : List Event}

/-- A stream that has just been opened has heard nothing. -/
structure Opens.Fresh (id : Nat) (c c' : Connection) : Prop where
  id_eq : id = c.nextStreamId
  next : c'.nextStreamId = c.nextStreamId + 2
  received : c'.tls.received = c.tls.received
  stream : ∃ s, c'.streams.lookup id = some s ∧
    SentTo (.new id c.peer.initialWindowSize) s ∧ s.body = []

theorem Opens.fresh (h : Opens p ok id c c') : Opens.Fresh id c c' := by
  obtain ⟨new, hact, hmem⟩ := h
  have hnext := hact.next
  have hreceived := hact.received
  have hout : ∀ fs : List Frame, .opened id ∉ fs.map Event.outbound := by
    intro fs hfs
    obtain ⟨f, -, heq⟩ := List.mem_map.mp hfs
    cases heq
  cases hact with
  | opens hopen =>
      cases List.mem_singleton.mp hmem
      obtain ⟨rfl, rfl⟩ := openStream_eq_ok hopen
      exact ⟨rfl, rfl, rfl, _, AList.lookup_insert _, .refl _, rfl⟩
  | @starts i req c₁ _ _ hopen hstage =>
      rcases List.mem_cons.mp hmem with heq | hmem
      · cases heq
        obtain ⟨rfl, hc₁⟩ := openStream_eq_ok hopen
        have hstreams := stageRequestOn_ok (w := c.peer.initialWindowSize)
          (by rw [hc₁]; exact AList.lookup_insert _) hstage
        have hmoves := stageRequestOn_moves c₁ c.nextStreamId req
        rw [hstage] at hmoves
        refine ⟨rfl, hmoves.next.trans (by rw [hc₁]), hmoves.received.trans (by rw [hc₁]),
          .staged c.nextStreamId c.peer.initialWindowSize req, ?_, ?_, rfl⟩
        · rw [hstreams, AList.lookup_insert]
        · exact ⟨.inr ⟨req.body.isEmpty, rfl⟩, rfl, rfl⟩
      · rcases List.mem_cons.mp hmem with heq | hmem
        · cases heq
        · exact absurd hmem (hout _)
  | heads | handled =>
      rcases List.mem_cons.mp hmem with heq | hmem
      · cases heq
      · exact absurd hmem (hout _)
  | chunk | pump | refused => cases List.mem_singleton.mp hmem
  | cleared | drops | breaks => cases hmem

theorem told_of_fresh (h : Opens.Fresh id c c') (hs : c'.streams.lookup id = some s) :
    Told id [] s := by
  obtain ⟨t, ht, hsent, -⟩ := h.stream
  obtain rfl := Option.some.inj (ht.symm.trans hs)
  exact Told.sends (.live rfl rfl (List.forall_mem_nil _) rfl) hsent

theorem told_step {new : List Heard} (hzero : id ≠ 0) (hlt : id < c.nextStreamId)
    (hstep : Hears p ok id c new c') (h : ∀ {s}, c.streams.lookup id = some s → Told id heard s)
    (hs' : c'.streams.lookup id = some s') : Told id (heard ++ new) s' := by
  cases hstep with
  | @frame source f _ _ _ hid hs hlive hframe =>
      exact ((h hs).frame (c := c.receive source f) hlive hid hzero hs hframe hs').1
  | aside hact hothers =>
      obtain ⟨s, hs, hsame⟩ := (hact.spares hlt hothers).came hs'
      rw [List.append_nil]
      exact (h hs).spares hsame

theorem Hears.next {new : List Heard} (h : Hears p ok id c new c') :
    c.nextStreamId ≤ c'.nextStreamId := by
  cases h with
  | @frame source f _ _ _ _ _ _ hframe =>
      have heff := processFrame_effect (c.receive source f) f
      rw [hframe] at heff
      exact heff.next_eq.ge
  | aside hact =>
      rw [hact.next]
      exact Nat.le_add_right _ _

/-- The stream knows its history, however that went. -/
theorem told_of_trace (hopen : Opens p ok id c₀ c₁) (hzero : id ≠ 0)
    (h : Base.Trace (Hears p ok id) c₁ heard c) (hs : c.streams.lookup id = some s) :
    Told id heard s := by
  have hfresh := hopen.fresh
  have hlt : id < c₁.nextStreamId := by
    rw [hfresh.next, ← hfresh.id_eq]
    exact Nat.lt_add_of_pos_right (by decide)
  refine (Base.Trace.invariant (I := fun heard c => id < c.nextStreamId ∧
    ∀ {s}, c.streams.lookup id = some s → Told id heard s) ⟨hlt, told_of_fresh hfresh⟩ ?_ h).2 hs
  rintro heard new c c' ⟨hlt, hall⟩ hstep
  exact ⟨Nat.lt_of_lt_of_le hlt hstep.next, told_step hzero hlt hstep hall⟩

/-- What is heard are the frames on the stream among those that came. -/
theorem frames_of_trace (h : Base.Trace (Hears p ok id) c heard c') :
    ∃ fs, c'.tls.received = c.tls.received ++ fs ∧
      heard.map Heard.frame = fs.filter fun f => f.streamId = id := by
  refine Base.Trace.invariant (I := fun heard c' => ∃ fs, c'.tls.received = c.tls.received ++ fs ∧
    heard.map Heard.frame = fs.filter fun f => f.streamId = id) ?_ ?_ h
  · exact ⟨[], (List.append_nil _).symm, rfl⟩
  rintro heard new c₁ c₂ ⟨fs, hreceived, hheard⟩ hstep
  cases hstep with
  | @frame source f s o _ hid hs _ hframe =>
      have heff := processFrame_effect (c₁.receive source f) f
      rw [hframe] at heff
      refine ⟨fs ++ [f], ?_, ?_⟩
      · rw [heff.received_eq, ← List.append_assoc, ← hreceived]
        rfl
      · rw [List.map_append, List.filter_append, hheard, List.map_cons, List.map_nil,
          List.filter_singleton, decide_eq_true hid]
        rfl
  | @aside new _ hact hothers =>
      refine ⟨fs ++ new.filterMap Event.came, ?_, ?_⟩
      · rw [hact.received, hreceived, List.append_assoc]
      · have hnone : (new.filterMap Event.came).filter (fun f => f.streamId = id) = [] :=
          List.filter_eq_nil_iff.mpr fun f hf hid => hothers f hf (of_decide_eq_true hid)
        rw [List.append_nil, List.filter_append, hnone, List.append_nil, hheard]

/-- What was heard are the frames on the stream among those that came since it was opened. -/
theorem BuiltOn.frames {codec : Codec} {r : Response} (h : BuiltOn codec p ok id c₀ heard c r) :
    ∃ fs, c.tls.received = c₀.tls.received ++ fs ∧
      heard.map Heard.frame = fs.filter fun f => f.streamId = id := by
  obtain ⟨s, hbrought, -⟩ := h
  obtain ⟨c₁, hopen, htrace⟩ := hbrought.opened
  rw [← hopen.fresh.received]
  exact frames_of_trace htrace

theorem Hearing.told (h : Hearing p ok id c₀ heard c) (hs : c.streams.lookup id = some s) :
    Told id heard s := by
  obtain ⟨c₁, hopen, htrace⟩ := h.opened
  exact told_of_trace hopen h.nonzero htrace hs

/-- A history goes on through whatever is not about its stream. -/
theorem Hearing.act (h : Hearing p ok id c₀ heard c) (hact : Acts p ok c new c')
    (hothers : ∀ f ∈ new.filterMap Event.came, f.streamId ≠ id) :
    Hearing p ok id c₀ heard c' where
  opened := by
    obtain ⟨c₁, hopen, htrace⟩ := h.opened
    have hnext := htrace.snoc (.aside hact hothers)
    rw [List.append_nil] at hnext
    exact ⟨c₁, hopen, hnext⟩
  nonzero := h.nonzero
  below := Nat.lt_of_lt_of_le h.below (hact.spares h.below hothers).next
  live hs' := by
    obtain ⟨s, hs, hsame⟩ := (hact.spares h.below hothers).came hs'
    exact (h.told hs).spares_incomplete (h.live hs) hsame

theorem Hearing.acts (h : Hearing p ok id c₀ heard c) (htrace : Traced p ok c new c')
    (hothers : ∀ f ∈ new.filterMap Event.came, f.streamId ≠ id) :
    Hearing p ok id c₀ heard c' := by
  refine Base.Trace.invariant (I := fun evs c' =>
    (∀ f ∈ evs.filterMap Event.came, f.streamId ≠ id) → Hearing p ok id c₀ heard c')
    (fun _ => h) (fun {evs new c₁ c₂} hwas hact hothers => ?_) htrace hothers
  rw [List.filterMap_append, List.forall_mem_append] at hothers
  exact (hwas hothers.1).act hact hothers.2

/-- A stream as it is opened. -/
theorem hearing_open (hzero : c₀.nextStreamId ≠ 0) (hopen : Opens p ok id c₀ c) :
    Hearing p ok id c₀ [] c where
  opened := ⟨c, hopen, .nil⟩
  nonzero := hopen.fresh.id_eq ▸ hzero
  below := by
    rw [hopen.fresh.next, ← hopen.fresh.id_eq]
    exact Nat.lt_add_of_pos_right (by decide)
  live hs := by
    obtain ⟨t, ht, hsent, -⟩ := hopen.fresh.stream
    obtain rfl := Option.some.inj (ht.symm.trans hs)
    rw [Stream.complete, hsent.ended]
    change (t.state.remoteDone && false && t.responseHeaders.isSome) = false
    rw [Bool.and_false, Bool.false_and]

/-- A frame on the stream goes into its history, and completes the stream or not. -/
theorem Hearing.frame (h : Hearing p ok id c₀ heard c) {source : Source} (hid : f.streamId = id)
    (hs : c.streams.lookup id = some s)
    (hframe : (c.receive source f).processFrame f = (.ok o, c')) :
    ∃ heard', (o ≠ .done id → Hearing p ok id c₀ heard' c') ∧
      (o = .done id → ∀ s', c'.streams.lookup id = some s' →
        Brought p ok id c₀ heard' c' s') := by
  obtain ⟨c₁, hopen, htrace⟩ := h.opened
  have hnext := htrace.snoc (.frame hid hs (h.live hs) hframe)
  have heff := processFrame_effect (c.receive source f) f
  rw [hframe] at heff
  refine ⟨_, fun ho => ⟨⟨c₁, hopen, hnext⟩, h.nonzero, ?_, fun {s'} hs' => ?_⟩, ?_⟩
  · rw [heff.next_eq]
    exact h.below
  · have hdone := ((h.told hs).frame (c := c.receive source f) (h.live hs) hid h.nonzero hs hframe
      hs').2
    exact Bool.eq_false_iff.mpr fun hcomplete => ho (hdone hcomplete)
  · rintro rfl s' hs'
    obtain ⟨-, t, ht, hcomplete⟩ := heff.of_done
    obtain rfl := Option.some.inj (hs'.symm.trans ht)
    exact ⟨⟨c₁, hopen, hnext⟩, h.nonzero, hs', hcomplete⟩

/-- A frame on another stream is an act beside the history. -/
theorem Hearing.other (h : Hearing p ok id c₀ heard c) {source : Source} (hid : f.streamId ≠ id)
    (hframe : (c.receive source f).processFrame f = (.ok o, c')) :
    Hearing p ok id c₀ heard c' := by
  refine h.act (.handled hframe) fun g hg => ?_
  change g ∈ f :: ((c.answers f).map Event.outbound).filterMap Event.came at hg
  rw [came_of_outbound] at hg
  rwa [List.mem_singleton.mp hg]

/-- A frame that is read goes into the history or spares the stream. -/
theorem Hearing.read (h : Hearing p ok id c₀ heard c) (hs : c.streams.lookup id = some s)
    (hread : c.readAndDispatch = (.ok o, c')) :
    ∃ heard', (o ≠ .done id → Hearing p ok id c₀ heard' c') ∧
      (o = .done id → ∀ s', c'.streams.lookup id = some s' →
        Brought p ok id c₀ heard' c' s') := by
  rcases readAndDispatch_cases c with ⟨e, source, hfail, -⟩ | ⟨f, source, -, hframe, -⟩
  · cases hfail.symm.trans hread
  have hframe := hframe.symm.trans hread
  by_cases hid : f.streamId = id
  · exact h.frame hid hs hframe
  · refine ⟨heard, fun _ => h.other hid hframe, ?_⟩
    rintro rfl
    have heff := processFrame_effect (c.receive source f) f
    rw [hframe] at heff
    exact absurd heff.of_done.1.symm hid

/-! ## One request -/

theorem Hearing.awaitBudget (fuel : Nat) (h : Hearing p ok id c₀ heard c)
    (hout : Connection.awaitBudget fuel c id = (.ok (), c')) :
    ∃ heard', Hearing p ok id c₀ heard' c' := by
  induction fuel generalizing c heard with
  | zero => cases hout
  | succ fuel ih =>
      unfold Connection.awaitBudget at hout
      split at hout
      · cases hout
      next s hs =>
      split at hout
      · obtain ⟨-, rfl⟩ := Prod.mk.inj hout
        exact ⟨heard, h⟩
      obtain ⟨res, c₁, hread⟩ : ∃ res c₁, c.readAndDispatch = (res, c₁) := ⟨_, _, rfl⟩
      rw [hread] at hout
      cases res with
      | error e => cases hout
      | ok o =>
          change (if o = .done id then _ else Connection.awaitBudget fuel c₁ id) = _ at hout
          split at hout
          · cases hout
          · next ho =>
              obtain ⟨heard', hgoes, -⟩ := h.read hs hread
              exact ih (hgoes ho) hout

theorem Hearing.sendBody (hp : p ≠ .multi) (fuel : Nat) {remaining : Bytes}
    (h : Hearing p ok id c₀ heard c)
    (hout : Connection.sendBody fuel c id remaining = (.ok (), c')) :
    ∃ heard', Hearing p ok id c₀ heard' c' := by
  induction fuel generalizing c heard remaining with
  | zero =>
      obtain ⟨-, rfl⟩ := Prod.mk.inj hout
      exact ⟨heard, h⟩
  | succ fuel ih =>
      unfold Connection.sendBody at hout
      split at hout
      · obtain ⟨-, rfl⟩ := Prod.mk.inj hout
        exact ⟨heard, h⟩
      obtain ⟨res, c₁, hbudget⟩ : ∃ res c₁,
          Connection.awaitBudget (c.tls.source.bytes.length + 1) c id = (res, c₁) := ⟨_, _, rfl⟩
      rw [hbudget] at hout
      cases res with
      | error e => cases hout
      | ok u =>
      obtain ⟨heard₁, h₁⟩ := h.awaitBudget _ hbudget
      obtain ⟨s, hs, hpos⟩ := awaitBudget_ok hbudget
      simp only [Connection.andThen, hs] at hout
      generalize hn : nextDataChunkSize c₁.peer.maxFrameSize (s.sendBudget c₁.connSendWindow)
        remaining.length = n at hout
      obtain ⟨res, c₂, hsend⟩ : ∃ res c₂, c₁.sendChunk id s (remaining.take n)
          (remaining.drop n).isEmpty = (res, c₂) := ⟨_, _, rfl⟩
      rw [hsend] at hout
      cases res with
      | error e => cases hout
      | ok s' =>
          rcases sendChunk_cases c₁ id s (remaining.take n) (remaining.drop n).isEmpty with
            hwrite | ⟨e, sink, -, heq⟩
          · have hact : Acts p ok c₁ _ c₂ :=
              .chunk hp hs hpos hn.symm hwrite hsend fun _ => ⟨s', rfl⟩
            exact ih (h₁.act hact (List.forall_mem_nil _)) hout
          · cases heq.symm.trans hsend

theorem Hearing.sendRequestOn (hp : p ≠ .multi) (h : Hearing p ok id c₀ heard c) {req : Request}
    (hout : c.sendRequestOn id req = (.ok (), c')) :
    ∃ heard', Hearing p ok id c₀ heard' c' := by
  unfold Connection.sendRequestOn at hout
  obtain ⟨res, c₁, hheads⟩ : ∃ res c₁, c.sendHeadersOn id req = (res, c₁) := ⟨_, _, rfl⟩
  rw [hheads] at hout
  cases res with
  | error e => cases hout
  | ok s' =>
  have hact : Acts p ok c _ c₁ := .heads hp hheads
  have hquiet : (Event.request id req :: (c.headerFrames id req).map .outbound).filterMap
      Event.came = [] := came_of_outbound _
  simp only [Connection.andThen] at hout
  obtain ⟨res, c₂, hbody⟩ : ∃ res c₂,
      Connection.sendBody req.body.length c₁ id req.body = (res, c₂) := ⟨_, _, rfl⟩
  rw [hbody] at hout
  cases res with
  | error e => cases hout
  | ok u =>
      obtain ⟨heard', h'⟩ := (h.act hact (by rw [hquiet]; exact List.forall_mem_nil _)).sendBody
        hp _ hbody
      obtain rfl := Batch.flush_eq hout
      exact ⟨heard', h'⟩

/-- The stream is handed out at the end of its history. -/
theorem Hearing.driveUntilStreamDone (fuel : Nat) (h : Hearing p ok id c₀ heard c)
    (hout : Connection.driveUntilStreamDone fuel c id = (.ok s, c')) :
    ∃ heard' c₁, Brought p ok id c₀ heard' c₁ s ∧
      c' = { c₁ with streams := c₁.streams.erase id } := by
  induction fuel generalizing c heard with
  | zero => cases hout
  | succ fuel ih =>
      unfold Connection.driveUntilStreamDone at hout
      split at hout
      · cases hout
      next t ht =>
      split at hout
      · next hcomplete =>
          rw [h.live ht] at hcomplete
          cases hcomplete
      obtain ⟨res, c₁, hread⟩ : ∃ res c₁, c.readAndDispatch = (res, c₁) := ⟨_, _, rfl⟩
      rw [hread] at hout
      cases res with
      | error e => cases hout
      | ok o =>
      obtain ⟨heard', hgoes, hdone⟩ := h.read ht hread
      change (if o = .done id then c₁.takeStream id
        else Connection.driveUntilStreamDone fuel c₁ id) = _ at hout
      split at hout
      · next ho =>
          unfold Connection.takeStream at hout
          split at hout
          · next s' hs' =>
              obtain ⟨hs, hc'⟩ := Prod.mk.inj hout
              obtain rfl := Except.ok.inj hs
              exact ⟨heard', c₁, hdone ho s' hs', hc'.symm⟩
          · cases hout
      · next ho => exact ih (hgoes ho) hout

/-- What a response of `run_one_request` is built from, and what that leaves behind. -/
theorem builtOn_runOneRequest {codec : Codec} {req : Request} {r : Response}
    (hzero : c.nextStreamId ≠ 0) (hout : (runOneRequest codec c req).1 = .ok r) :
    ∃ heard c', BuiltOn codec .single true c.nextStreamId c heard c' r ∧
      (runOneRequest codec c req).2 = Connection.pruneCompletedStreams
        { c' with streams := c'.streams.erase c.nextStreamId } := by
  unfold runOneRequest at hout ⊢
  obtain ⟨res, c₁, hopen⟩ : ∃ res c₁, c.openStream = (res, c₁) := ⟨_, _, rfl⟩
  rw [hopen] at hout ⊢
  cases res with
  | error e => cases hout
  | ok id =>
  have h : Hearing .single true id c [] c₁ :=
    hearing_open hzero ⟨_, .opens hopen, List.mem_singleton_self _⟩
  obtain ⟨rfl, -⟩ := openStream_eq_ok hopen
  simp only [Connection.andThen] at hout ⊢
  obtain ⟨res, c₂, hsend⟩ : ∃ res c₂, c₁.sendRequestOn c.nextStreamId req = (res, c₂) :=
    ⟨_, _, rfl⟩
  rw [hsend] at hout ⊢
  cases res with
  | error e => cases hout
  | ok u =>
  obtain ⟨heard, h⟩ := h.sendRequestOn (by decide) hsend
  simp only at hout ⊢
  obtain ⟨res, c₃, hdrive⟩ : ∃ res c₃, Connection.driveUntilStreamDone
      (c₂.tls.source.bytes.length + 1) c₂ c.nextStreamId = (res, c₃) := ⟨_, _, rfl⟩
  rw [hdrive] at hout ⊢
  cases res with
  | error e => cases hout
  | ok s' =>
      obtain ⟨heard', c₄, hbrought, rfl⟩ := h.driveUntilStreamDone _ hdrive
      exact ⟨heard', c₄, ⟨s', hbrought, hout⟩, rfl⟩

end

end Rsurl.H2
