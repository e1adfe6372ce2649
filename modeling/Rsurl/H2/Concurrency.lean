/-
# `Rsurl.H2.Concurrency` — streams open on the wire

The peer counts a stream until END_STREAM has gone both ways or one side has
reset it; `open_stream` counts the streams that are registered.  The two
counts agree as long as no stream leaves the map before it is closed on the
wire (`OnWire`), and `below_limit_run` says when that is.
-/
import Rsurl.H2.Interleave
import Rsurl.H2.Strand

namespace Rsurl.H2

open Http (Request Response)

/-! ## The wire -/

/-- The frame carries END_STREAM on the stream `id`. -/
def Frame.endsStream (f : Frame) (id : Nat) : Bool :=
  f.streamId = id && (f.typ = fHeaders || f.typ = fData) && f.has flagEndStream

namespace Event

/-- END_STREAM goes out on the stream. -/
def sentEnd (id : Nat) : Event → Bool
  | outbound f => f.endsStream id
  | _ => false

/-- END_STREAM comes in on the stream. -/
def gotEnd (id : Nat) : Event → Bool
  | inbound f _ => f.endsStream id
  | _ => false

/-- One side resets the stream. -/
def resets (id : Nat) : Event → Bool
  | outbound f => f.typ = fRstStream && f.streamId = id
  | inbound f _ => f.typ = fRstStream && f.streamId = id
  | _ => false

/-- The stream whose HEADERS go out. -/
def head : Event → Option Nat
  | outbound f => if f.typ = fHeaders then some f.streamId else none
  | _ => none

end Event

/-- END_STREAM was both sent and received, or the stream was reset. -/
def closedOnWire (id : Nat) (evs : List Event) : Bool :=
  (evs.any (Event.sentEnd id) && evs.any (Event.gotEnd id)) || evs.any (Event.resets id)

/-- The streams whose HEADERS went out and that are not closed since. -/
def openOnWire (evs : List Event) : List Nat :=
  (evs.filterMap Event.head).filter fun id => !closedOnWire id evs

section

variable {evs new : List Event} {id : Nat}

theorem closedOnWire_append (h : closedOnWire id evs = true) :
    closedOnWire id (evs ++ new) = true := by
  simp only [closedOnWire, List.any_append, Bool.or_eq_true, Bool.and_eq_true] at h ⊢
  rcases h with ⟨hsent, hgot⟩ | hreset
  · exact .inl ⟨.inl hsent, .inl hgot⟩
  · exact .inr (.inl hreset)

theorem closedOnWire_of_ends (hsent : evs.any (Event.sentEnd id) = true)
    (hgot : evs.any (Event.gotEnd id) = true) : closedOnWire id evs = true := by
  rw [closedOnWire, hsent, hgot]
  rfl

theorem closedOnWire_of_reset (h : evs.any (Event.resets id) = true) :
    closedOnWire id evs = true := by
  rw [closedOnWire, h, Bool.or_true]

/-- What happens next closes streams or opens new ones. -/
theorem openOnWire_append (evs new : List Event) :
    (openOnWire (evs ++ new)).Sublist (openOnWire evs ++ new.filterMap Event.head) := by
  rw [openOnWire, List.filterMap_append, List.filter_append]
  refine List.Sublist.append ?_ List.filter_sublist
  refine List.monotone_filter_right _ fun id hid => ?_
  rw [Bool.not_eq_true'] at hid ⊢
  by_contra hclosed
  rw [closedOnWire_append (Bool.eq_true_of_not_eq_false hclosed)] at hid
  cases hid

end

/-! ## Frames that come too early -/

/-- With the frame the response of the stream is complete. -/
def Frame.completes (f : Frame) (s : Stream) : Bool :=
  (s.responseHeaders.isSome || f.typ ≠ fData && f.has flagEndHeaders) &&
    if f.typ = fContinuation then s.endStreamRecv else f.has flagEndStream

namespace Connection

/-- The frame completes a response while the request is still being sent. -/
def CutsShort (c : Connection) (f : Frame) : Prop :=
  ∃ s, c.streams.lookup f.streamId = some s ∧
    (s.state = .open ∨ s.state = .halfClosedRemote) ∧ f.completes s = true

/-- After a GOAWAY, no stream can be opened. -/
def Blocked (c : Connection) : Prop :=
  ∃ last, c.goawayReceived = some last ∧ last < c.nextStreamId

/-- The frame is a GOAWAY that takes back an earlier one. -/
def Reopens (c : Connection) (f : Frame) : Prop :=
  c.seesGoaway f ∧ c.Blocked ∧ c.nextStreamId ≤ f.lastStreamId

/-- The frame comes at a time when handling it drops no stream that is open on the wire. -/
def Timely (c : Connection) (f : Frame) : Prop := ¬ c.CutsShort f ∧ ¬ c.Reopens f

end Connection

section

variable {c c' : Connection} {f : Frame} {id : Nat} {s s' : Stream}

theorem processConnFrame_ne_done (c : Connection) (f : Frame) (id : Nat) :
    (c.processConnFrame f).1 ≠ .ok (.done id) := by
  unfold Connection.processConnFrame
  split
  · split
    · exact cont_ne_done id
    · exact (processSettings_moves c f).2 id
  split
  · split
    · exact cont_ne_done id
    · exact afterWrite_ne_done c _ id
  split
  · split
    · exact error_ne_done id
    · exact cont_ne_done id
  split <;> exact cont_ne_done id

/-- On a stream the peer has ended, HEADERS and DATA are refused. -/
theorem processFrame_on_ended (hs : c.streams.lookup f.streamId = some s)
    (hstate : s.state = .halfClosedRemote) (htyp : f.typ = fHeaders ∨ f.typ = fData)
    (hadmits : c.admits f = true) (hid : f.streamId ≠ 0) :
    ∃ e, (c.processFrame f).1 = .error e := by
  have hne : ¬ (StreamState.halfClosedRemote = .closed) := by decide
  rcases htyp with htyp | htyp
  · rw [processFrame_headers htyp hadmits hid]
    unfold Connection.processHeaders
    split
    · exact ⟨_, rfl⟩
    · simp only [hs, hstate, if_neg hne, StreamState.recvHeaders]
      exact ⟨_, rfl⟩
  · rw [Batch.processFrame_data htyp hadmits hid]
    unfold Connection.processData
    simp only [hs, hstate, if_neg hne, StreamState.recvData]
    split <;> exact ⟨_, rfl⟩

theorem streamId_ne_zero_of_done (h : c.processFrame f = (.ok (.done id), c')) :
    f.streamId ≠ 0 := by
  intro hid
  refine processConnFrame_ne_done c f id ?_
  unfold Connection.processFrame at h
  rw [if_pos (admits_of_ok h), if_pos hid] at h
  rw [h]

/-- Only frames of a message make a stream done. -/
theorem typ_of_done (h : Effect c f (.ok (.done id)) c') :
    (f.typ = fHeaders ∨ f.typ = fData) ∨ f.typ = fContinuation := by
  generalize hres : (.ok (.done id) : Result DispatchOutcome) = res at h
  cases h with
  | quiet _ hdone => exact absurd hres.symm (hdone id)
  | data htyp => exact .inl (.inr htyp)
  | opens htyp => exact .inl (.inl htyp)
  | continues htyp => exact .inr htyp
  | closes hblock => exact hblock.imp (fun h => .inl h.1) And.left
  | garbled => cases hres
  | drained htyp => exact .inl (.inl htyp)

theorem open_of_recvHeaders {state : StreamState} {endStream : Bool}
    (h : state.recvHeaders endStream = .ok .halfClosedRemote) :
    state = .open ∧ endStream = true := by
  cases state with
  | «open» => cases endStream with
    | true => exact ⟨rfl, rfl⟩
    | false => cases h
  | halfClosedLocal => cases endStream <;> cases h
  | idle | halfClosedRemote | closed => cases h

theorem open_of_recvData {state : StreamState} {endStream : Bool}
    (h : state.recvData endStream = .ok .halfClosedRemote) :
    state = .open ∧ endStream = true := by
  cases state with
  | «open» => cases endStream with
    | true => exact ⟨rfl, rfl⟩
    | false => cases h
  | halfClosedLocal => cases endStream <;> cases h
  | idle | halfClosedRemote | closed => cases h

/-- A stream that is done while it is open to the client was cut short. -/
theorem cutsShort_of_done (h : c.processFrame f = (.ok (.done id), c'))
    (hs' : c'.streams.lookup id = some s') (hstate : s'.state = .halfClosedRemote) :
    c.CutsShort f := by
  have heff := processFrame_effect c f
  have htouches := processFrame_touch c f
  have hid0 := streamId_ne_zero_of_done h
  have hadmits := admits_of_ok h
  rw [h] at heff htouches
  obtain ⟨rfl, t, ht, hcomplete⟩ := heff.of_done
  obtain rfl := Option.some.inj (hs'.symm.trans ht)
  obtain ⟨s, hs, htouch, -⟩ := htouches hs'
  have hsome : s'.endStreamRecv = true ∧ s'.responseHeaders.isSome = true := by
    rw [Stream.complete, Bool.and_assoc, Bool.and_eq_true, Bool.and_eq_true] at hcomplete
    exact hcomplete.2
  have hstays : s.state = .halfClosedRemote → f.typ = fHeaders ∨ f.typ = fData → False := by
    intro hwas htyp
    obtain ⟨e, he⟩ := processFrame_on_ended hs hwas htyp hadmits hid0
    rw [h] at he
    cases he
  refine ⟨s, hs, ?_⟩
  cases htouch with
  | kept same =>
      have hwas : s.state = .halfClosedRemote := same.state ▸ hstate
      have htyp : f.typ = fContinuation := (typ_of_done heff).resolve_left (hstays hwas)
      refine ⟨.inr hwas, ?_⟩
      rw [Frame.completes, if_pos htyp, ← same.ended, ← same.headers, hsome.1, hsome.2,
        Bool.true_or]
      rfl
  | doomed _ _ hres => cases hres
  | reset _ _ hres =>
      obtain ⟨e, he⟩ := hres
      cases he
  | headers htyp _ _ hrecv hended hheaders =>
      rw [hstate] at hrecv
      obtain ⟨hopen, hend⟩ := open_of_recvHeaders hrecv
      refine ⟨.inl hopen, ?_⟩
      have hne : fHeaders ≠ fContinuation ∧ fHeaders ≠ fData := by decide
      rw [Frame.completes, htyp, if_neg hne.1, hend, decide_eq_true hne.2, Bool.true_and,
        Bool.and_true]
      split at hheaders
      · next hlast => rw [hlast, Bool.or_true]
      · rw [← hheaders, hsome.2, Bool.true_or]
  | garbled _ _ _ hres =>
      obtain ⟨e, he⟩ := hres
      cases he
  | continued htyp _ hlast _ hsame hended =>
      refine ⟨.inr (hsame ▸ hstate), ?_⟩
      have hne : fContinuation ≠ fData := by decide
      rw [Frame.completes, if_pos htyp, ← hended, hsome.1, hlast, htyp, decide_eq_true hne,
        Bool.true_and, Bool.or_true]
      rfl
  | data htyp _ hrecv hended hheaders =>
      rw [hstate] at hrecv
      obtain ⟨hopen, hend⟩ := open_of_recvData hrecv
      refine ⟨.inl hopen, ?_⟩
      have hne : fData ≠ fContinuation := by decide
      rw [Frame.completes, htyp, if_neg hne, hend, ← hheaders, hsome.2, Bool.true_or]
      rfl

end

/-! ## Registered streams and the wire -/

/-- What the state of a registered stream says about the wire. -/
structure Tracks (evs : List Event) (blocked : Prop) (id : Nat) (s : Stream) : Prop where
  sent : s.state = .halfClosedLocal → evs.any (Event.sentEnd id) = true
  got : s.state = .halfClosedRemote → evs.any (Event.gotEnd id) = true
  closed : s.state = .closed → blocked ∨ closedOnWire id evs = true

/-- Every stream that is open on the wire is registered, unless no stream can be opened any
more. -/
structure OnWire (evs : List Event) (c : Connection) : Prop where
  streams : ∀ ⦃id s⦄, c.streams.lookup id = some s →
    id < c.nextStreamId ∧ Tracks evs c.Blocked id s
  ids : ∀ id ∈ evs.filterMap Event.head, id < c.nextStreamId
  distinct : (openOnWire evs).Nodup
  held : c.Blocked ∨ ∀ id ∈ openOnWire evs, ∃ s, c.streams.lookup id = some s

section

variable {evs new : List Event} {P Q : Prop} {id : Nat} {s s' : Stream}

theorem any_append_left {p : Event → Bool} (h : evs.any p = true) :
    (evs ++ new).any p = true := by
  rw [List.any_append, h, Bool.true_or]

theorem any_append_right {p : Event → Bool} (h : new.any p = true) :
    (evs ++ new).any p = true := by
  rw [List.any_append, h, Bool.or_true]

theorem Tracks.same (h : Tracks evs P id s) (hstate : s'.state = s.state) (hPQ : P → Q) :
    Tracks (evs ++ new) Q id s' where
  sent hs := any_append_left (h.sent (hstate ▸ hs))
  got hs := any_append_left (h.got (hstate ▸ hs))
  closed hs := (h.closed (hstate ▸ hs)).imp hPQ closedOnWire_append

theorem sendData_cases {state state' : StreamState} {isLast : Bool}
    (h : state.sendData isLast = .ok state') :
    state' = state ∨ state' = .open ∨ isLast = true ∧
      (state' = .halfClosedLocal ∨ state = .halfClosedRemote ∧ state' = .closed) := by
  cases isLast with
  | false =>
      cases state with
      | idle | «open» | halfClosedRemote => cases h; simp
      | halfClosedLocal | closed => cases h
  | true =>
      cases state with
      | idle | «open» | halfClosedRemote => cases h; simp
      | halfClosedLocal | closed => cases h

theorem recv_cases {state state' : StreamState} {endStream : Bool}
    (h : state.recvHeaders endStream = .ok state' ∨ state.recvData endStream = .ok state') :
    state' = state ∨ endStream = true ∧
      (state' = .halfClosedRemote ∨ state = .halfClosedLocal ∧ state' = .closed) := by
  cases state with
  | idle | halfClosedRemote => rcases h with h | h <;> cases h
  | closed =>
      rcases h with h | h
      · exact .inl (Except.ok.inj h).symm
      · cases h
  | «open» | halfClosedLocal =>
      cases endStream <;> rcases h with h | h <;> (cases h; simp)

theorem Tracks.of_open (hs : s.state = .open) : Tracks evs P id s where
  sent h := by cases hs.symm.trans h
  got h := by cases hs.symm.trans h
  closed h := by cases hs.symm.trans h

theorem Tracks.of_local (hs : s.state = .halfClosedLocal)
    (hsent : evs.any (Event.sentEnd id) = true) : Tracks evs P id s where
  sent _ := hsent
  got h := by cases hs.symm.trans h
  closed h := by cases hs.symm.trans h

theorem Tracks.of_remote (hs : s.state = .halfClosedRemote)
    (hgot : evs.any (Event.gotEnd id) = true) : Tracks evs P id s where
  sent h := by cases hs.symm.trans h
  got _ := hgot
  closed h := by cases hs.symm.trans h

theorem Tracks.of_closed (hs : s.state = .closed) (hclosed : P ∨ closedOnWire id evs = true) :
    Tracks evs P id s where
  sent h := by cases hs.symm.trans h
  got h := by cases hs.symm.trans h
  closed _ := hclosed

/-- What is sent moves the state along with the wire. -/
theorem Tracks.sends (h : Tracks evs P id s) {isLast : Bool}
    (hsend : s.state.sendData isLast = .ok s'.state)
    (hlast : isLast = true → new.any (Event.sentEnd id) = true) (hPQ : P → Q) :
    Tracks (evs ++ new) Q id s' := by
  rcases sendData_cases hsend with hsame | hopen | ⟨hend, hlocal | ⟨hwas, hclosed⟩⟩
  · exact h.same hsame hPQ
  · exact .of_open hopen
  · exact .of_local hlocal (any_append_right (hlast hend))
  · exact .of_closed hclosed (.inr (closedOnWire_of_ends (any_append_right (hlast hend))
      (any_append_left (h.got hwas))))

/-- What is received moves the state along with the wire. -/
theorem Tracks.receives (h : Tracks evs P id s) {endStream : Bool}
    (hrecv : s.state.recvHeaders endStream = .ok s'.state ∨
      s.state.recvData endStream = .ok s'.state)
    (hend : endStream = true → new.any (Event.gotEnd id) = true) (hPQ : P → Q) :
    Tracks (evs ++ new) Q id s' := by
  rcases recv_cases hrecv with hsame | ⟨hlast, hremote | ⟨hwas, hclosed⟩⟩
  · exact h.same hsame hPQ
  · exact .of_remote hremote (any_append_right (hend hlast))
  · exact .of_closed hclosed (.inr (closedOnWire_of_ends (any_append_left (h.sent hwas))
      (any_append_right (hend hlast))))

theorem gotEnd_of_frame {f : Frame} {handled : Bool} {rest : List Event}
    (htyp : f.typ = fHeaders ∨ f.typ = fData) (hid : f.streamId = id)
    (hend : f.has flagEndStream = true) :
    (.inbound f handled :: rest).any (Event.gotEnd id) = true := by
  have hends : f.endsStream id = true := by
    rw [Frame.endsStream, hend, Bool.and_true, Bool.and_eq_true, Bool.or_eq_true,
      decide_eq_true_eq, decide_eq_true_eq, decide_eq_true_eq]
    exact ⟨hid, htyp⟩
  rw [List.any_cons, Event.gotEnd, hends, Bool.true_or]

/-- A frame moves the states along with the wire; a GOAWAY that dooms a stream blocks new ones. -/
theorem Touch.tracks {f : Frame} {res : Result DispatchOutcome} {handled : Bool}
    {rest : List Event} (h : Touch f res id s s') (htracks : Tracks evs P id s) (hPQ : P → Q)
    (hdoomed : f.typ = fGoaway → f.streamId = 0 → res = .ok .cont → f.lastStreamId < id → Q) :
    Tracks (evs ++ .inbound f handled :: rest) Q id s' := by
  cases h with
  | kept same => exact htracks.same same.state hPQ
  | doomed htyp hid hres hlast hstate =>
      exact .of_closed hstate (.inl (hdoomed htyp hid hres hlast))
  | reset htyp hid _ _ hstate =>
      refine .of_closed hstate (.inr (closedOnWire_of_reset (any_append_right ?_)))
      rw [List.any_cons, Event.resets, htyp, hid, decide_eq_true rfl, decide_eq_true rfl]
      rfl
  | headers htyp hid _ hstate =>
      exact htracks.receives (.inl hstate) (gotEnd_of_frame (.inl htyp) hid) hPQ
  | garbled _ _ _ _ hstate => exact htracks.same hstate hPQ
  | continued _ _ _ _ hstate => exact htracks.same hstate hPQ
  | data htyp hid hstate =>
      exact htracks.receives (.inr hstate) (gotEnd_of_frame (.inr htyp) hid) hPQ

/-- Nothing is opened, and a stream that goes was closed on the wire or no other comes. -/
theorem OnWire.step {c c' : Connection} (h : OnWire evs c)
    (hnext : c'.nextStreamId = c.nextStreamId) (hhead : new.filterMap Event.head = [])
    (hblocked : c.Blocked → c'.Blocked)
    (hcame : ∀ ⦃id s'⦄, c'.streams.lookup id = some s' → ∃ s, c.streams.lookup id = some s ∧
      (id < c.nextStreamId → Tracks evs c.Blocked id s → Tracks (evs ++ new) c'.Blocked id s'))
    (hgone : ∀ ⦃id s⦄, c.streams.lookup id = some s → (∃ s', c'.streams.lookup id = some s') ∨
      c'.Blocked ∨ closedOnWire id (evs ++ new) = true) : OnWire (evs ++ new) c' where
  streams id s' hs' := by
    obtain ⟨s, hs, htracks⟩ := hcame hs'
    obtain ⟨hlt, hwas⟩ := h.streams hs
    exact ⟨hnext ▸ hlt, htracks hlt hwas⟩
  ids id hid := by
    rw [List.filterMap_append, hhead, List.append_nil] at hid
    rw [hnext]
    exact h.ids id hid
  distinct := by
    have hsub := openOnWire_append evs new
    rw [hhead, List.append_nil] at hsub
    exact h.distinct.sublist hsub
  held := by
    by_cases hb : c'.Blocked
    · exact .inl hb
    refine .inr fun id hid => ?_
    have hheld := h.held.resolve_left fun hwas => hb (hblocked hwas)
    have hsub := openOnWire_append evs new
    rw [hhead, List.append_nil] at hsub
    obtain ⟨s, hs⟩ := hheld id (hsub.subset hid)
    have hopen : closedOnWire id (evs ++ new) = false := by
      rw [← Bool.not_eq_true']
      exact (List.mem_filter.mp hid).2
    rcases hgone hs with hstays | hblocks | hclosed
    · exact hstays
    · exact absurd hblocks hb
    · rw [hopen] at hclosed
      cases hclosed

/-- Streams go that were closed on the wire, or no others come. -/
theorem OnWire.removes {c : Connection} {streams : Streams} (h : OnWire evs c)
    (hstays : ∀ ⦃id s⦄, streams.lookup id = some s → c.streams.lookup id = some s)
    (hgone : ∀ ⦃id s⦄, c.streams.lookup id = some s → streams.lookup id = some s ∨
      c.Blocked ∨ closedOnWire id evs = true) : OnWire evs { c with streams } := by
  have hstep : OnWire (evs ++ []) { c with streams } := h.step rfl rfl id
    (fun _ s' hs' => ⟨s', hstays hs', fun _ htracks => htracks.same rfl id⟩)
    (fun _ s hs => (hgone hs).imp (fun hs => ⟨s, hs⟩)
      (Or.imp_right fun hclosed => closedOnWire_append hclosed))
  rwa [List.append_nil] at hstep

theorem OnWire.erase {c : Connection} (h : OnWire evs c)
    (hgone : ∀ ⦃s⦄, c.streams.lookup id = some s → c.Blocked ∨ closedOnWire id evs = true) :
    OnWire evs { c with streams := c.streams.erase id } := by
  have hremoves := removes_erase (p := fun _ => c.Blocked ∨ closedOnWire id evs = true) c id
    fun s hs => hgone hs
  refine h.removes (fun _ _ hs => hremoves.stays hs) fun j s hs => ?_
  by_cases hj : j = id
  · subst hj
    exact .inr (hgone hs)
  · exact .inl (by rwa [AList.lookup_erase_ne hj])

/-! ## Sending -/

/-- The streams after a turn of the pump that put a chunk on the wire. -/
theorem pump_lookup {c c₁ : Connection} {i n : Nat} {t : Stream} {pb : PendingBody}
    {chunk : Bytes} {isLast : Bool} {res : Result Stream} (ht : c.streams.lookup i = some t)
    (h : c.sendChunk i t chunk isLast = (res, c₁))
    (hs' : (Connection.afterPump i pb n isLast (res, c₁)).streams.lookup id = some s') :
    ∃ s, c.streams.lookup id = some s ∧
      (s'.state = s.state ∨ id = i ∧ s.state.sendData isLast = .ok s'.state) := by
  have hput : ∀ {c₂ : Connection} {t' : Stream}, c₂.streams = c.streams.insert i t' →
      c₂.streams.lookup id = some s' →
      (t'.state = t.state ∨ t.state.sendData isLast = .ok t'.state) →
      ∃ s, c.streams.lookup id = some s ∧
        (s'.state = s.state ∨ id = i ∧ s.state.sendData isLast = .ok s'.state) := by
    intro c₂ t' hstreams hlook hstate
    rw [hstreams] at hlook
    by_cases hi : id = i
    · subst hi
      rw [AList.lookup_insert] at hlook
      obtain rfl := Option.some.inj hlook
      exact ⟨t, ht, hstate.imp_right fun hsend => ⟨rfl, hsend⟩⟩
    · rw [AList.lookup_insert_ne hi] at hlook
      exact ⟨s', hlook, .inl rfl⟩
  unfold Connection.sendChunk at h
  split at h
  · obtain ⟨rfl, rfl⟩ := Prod.mk.inj h
    exact ⟨s', hs', .inl rfl⟩
  simp only at h
  split at h
  · obtain ⟨rfl, rfl⟩ := Prod.mk.inj h
    exact @hput _ { t with sendWindow := t.sendWindow.consume chunk.length } rfl hs' (.inl rfl)
  · next state hstate =>
      obtain ⟨rfl, rfl⟩ := Prod.mk.inj h
      refine @hput _ { t with
        sendWindow := t.sendWindow.consume chunk.length
        state
        pendingBody := if isLast then none else some { pb with sent := pb.sent + n } } ?_ hs'
        (.inr hstate)
      exact AList.insert_insert ..

theorem sentEnd_dataFrame (chunk : Bytes) {isLast : Bool} (h : isLast = true) :
    [Event.outbound (dataFrame id chunk isLast)].any (Event.sentEnd id) = true := by
  subst h
  have hflag : (dataFrame id chunk true).has flagEndStream = true := by
    show (flagEndStream &&& flagEndStream != 0) = true
    decide
  have htyp : (dataFrame id chunk true).typ = fData := rfl
  have hid : (dataFrame id chunk true).streamId = id := rfl
  rw [List.any_cons, Event.sentEnd, Frame.endsStream, hflag, htyp, hid, decide_eq_true rfl,
    decide_eq_true rfl, Bool.or_true]
  rfl

theorem OnWire.sends {c c' : Connection} (h : OnWire evs c) (hact : Acts .multi false c new c')
    (hids : SameIds c c') (hdata : ∀ e ∈ new, ∃ f, e = .outbound f ∧ f.typ = fData) :
    OnWire (evs ++ new) c' := by
  have hkeeps : c'.peer = c.peer ∧ c'.goawayReceived = c.goawayReceived := by
    refine hact.keepsPeer fun f handled hmem => ?_
    obtain ⟨_, heq, -⟩ := hdata _ hmem
    cases heq
  have hblocked : c.Blocked → c'.Blocked := by
    rw [Connection.Blocked, Connection.Blocked, hkeeps.2, hids.next]
    exact fun hb => hb
  have hhead : new.filterMap Event.head = [] := by
    refine List.filterMap_eq_nil_iff.mpr fun e he => ?_
    obtain ⟨f, rfl, htyp⟩ := hdata e he
    rw [Event.head, htyp, if_neg (by decide)]
  refine h.step hids.next hhead hblocked ?_ fun _ s hs => .inl ((hids.ids _).mpr ⟨s, hs⟩)
  intro id s' hs'
  have hsame : c.streams.lookup id = some s' → ∃ s, c.streams.lookup id = some s ∧
      (id < c.nextStreamId → Tracks evs c.Blocked id s →
        Tracks (evs ++ new) c'.Blocked id s') :=
    fun hs => ⟨s', hs, fun _ htracks => htracks.same rfl hblocked⟩
  cases hact with
  | opens =>
      obtain ⟨_, heq, -⟩ := hdata _ List.mem_cons_self
      cases heq
  | starts | handled | refused =>
      obtain ⟨_, heq, -⟩ := hdata _ List.mem_cons_self
      cases heq
  | heads hp | chunk hp => exact absurd rfl hp
  | @pump i n t pb isLast res c₁ _ ht _ _ _ _ _ hsend =>
      obtain ⟨s, hs, hstate⟩ := pump_lookup ht hsend hs'
      refine ⟨s, hs, fun _ htracks => ?_⟩
      rcases hstate with hsame | ⟨rfl, hmoves⟩
      · exact htracks.same hsame hblocked
      · exact htracks.sends hmoves (sentEnd_dataFrame _) hblocked
  | @cleared i t pb _ ht =>
      by_cases hi : id = i
      · subst hi
        rw [Connection.setStream, AList.lookup_insert] at hs'
        obtain rfl := Option.some.inj hs'
        exact ⟨t, ht, fun _ htracks => htracks.same rfl hblocked⟩
      · rw [Connection.setStream, AList.lookup_insert_ne hi] at hs'
        exact hsame hs'
  | drops hstays => exact hsame (hstays hs')
  | breaks => exact hsame hs'

/-! ## Receiving -/

theorem Connection.seesGoaway_of_ok {c c' : Connection} {f : Frame} {o : DispatchOutcome}
    (h : c.processFrame f = (.ok o, c')) (htyp : f.typ = fGoaway) (hid : f.streamId = 0) :
    c.seesGoaway f := ⟨admits_of_ok h, hid, htyp⟩

/-- A frame is taken in, whether it is handled or refused. -/
theorem OnWire.frame {c conn : Connection} {source : Source} {f : Frame} {handled : Bool}
    {res : Result DispatchOutcome} {rest : List Event} (h : OnWire evs c)
    (hframe : (c.receive source f).processFrame f = (res, conn))
    (hblocked : c.Blocked → conn.Blocked) (hrest : rest.filterMap Event.head = []) :
    OnWire (evs ++ .inbound f handled :: rest) conn := by
  have heff := processFrame_effect (c.receive source f) f
  have htouches := processFrame_touch (c.receive source f) f
  have hgoaway := processFrame_goaway (c.receive source f) f
  rw [hframe] at heff htouches hgoaway
  refine h.step heff.next_eq hrest hblocked ?_ fun _ s hs => .inl (heff.kept hs)
  intro id s' hs'
  obtain ⟨s, hs, htouch, -⟩ := htouches hs'
  refine ⟨s, hs, fun hlt htracks => htouch.tracks htracks hblocked ?_⟩
  intro htyp hid hres hlast
  obtain rfl : res = .ok .cont := hres
  rw [if_pos (Connection.seesGoaway_of_ok hframe htyp hid)] at hgoaway
  refine ⟨f.lastStreamId, hgoaway, ?_⟩
  rw [heff.next_eq]
  exact hlast.trans hlt

theorem blocked_of_timely {c conn : Connection} {source : Source} {f : Frame}
    {res : Result DispatchOutcome} (hframe : (c.receive source f).processFrame f = (res, conn))
    (hreopens : ¬ c.Reopens f) (hb : c.Blocked) : conn.Blocked := by
  have heff := processFrame_effect (c.receive source f) f
  have hgoaway := processFrame_goaway (c.receive source f) f
  rw [hframe] at heff hgoaway
  rw [Connection.Blocked, heff.next_eq]
  split at hgoaway
  · next hsees =>
      refine ⟨f.lastStreamId, hgoaway, ?_⟩
      by_contra hge
      exact hreopens ⟨hsees, hb, Nat.not_lt.mp hge⟩
  · obtain ⟨last, hlast, hlt⟩ := hb
    exact ⟨last, hgoaway.trans hlast, hlt⟩

theorem not_reopens_of_error {c conn : Connection} {source : Source} {f : Frame} {e : Error}
    (hframe : (c.receive source f).processFrame f = (.error e, conn)) : ¬ c.Reopens f := by
  rintro ⟨hsees, -⟩
  have hok := processFrame_of_goaway (c.receive source f) f hsees
  cases hok.symm.trans hframe

/-! ## Starting -/

/-- A header block is one HEADERS frame, and CONTINUATION. -/
theorem fragmentHeaderBlock_eq_cons (i max : Nat) (block : Bytes) (endStream : Bool) :
    ∃ g gs, fragmentHeaderBlock i block max endStream = g :: gs ∧ g.typ = fHeaders ∧
      g.streamId = i ∧ g.has flagEndStream = endStream ∧ ∀ g' ∈ gs, g'.typ = fContinuation := by
  have hshape : ∀ {g gs}, fragmentHeaderBlock i block max endStream = g :: gs → g.typ = fHeaders →
      g.streamId = i ∧ g.has flagEndStream = endStream := by
    intro g gs heq htyp
    have hmem : g ∈ fragmentHeaderBlock i block max endStream := by
      rw [heq]
      exact List.mem_cons_self
    obtain ⟨hid, ⟨-, hend⟩ | ⟨hcont, -⟩⟩ := fragmentHeaderBlock_shape hmem
    · exact ⟨hid, hend⟩
    · have hne : fHeaders = fContinuation := htyp.symm.trans hcont
      exact absurd hne (by decide)
  have hlist : ∃ g gs, fragmentHeaderBlock i block max endStream = g :: gs ∧ g.typ = fHeaders ∧
      ∀ g' ∈ gs, g'.typ = fContinuation := by
    unfold fragmentHeaderBlock
    simp only
    split
    · exact ⟨_, [], rfl, rfl, List.forall_mem_nil _⟩
    · exact ⟨_, [], rfl, rfl, List.forall_mem_nil _⟩
    · exact ⟨_, _, rfl, rfl, fun g' hg' => (continuationFrames_shape hg').1⟩
  obtain ⟨g, gs, heq, htyp, hrest⟩ := hlist
  obtain ⟨hid, hend⟩ := hshape heq htyp
  exact ⟨g, gs, heq, htyp, hid, hend, hrest⟩

/-- The events of a request whose HEADERS go out. -/
theorem headEvents (c : Connection) (i : Nat) (req : Request) :
    (Event.request i req :: (c.headerFrames i req).map .outbound).filterMap Event.head = [i] ∧
      (req.body.isEmpty = true →
        (Event.request i req :: (c.headerFrames i req).map .outbound).any (Event.sentEnd i) =
          true) := by
  obtain ⟨g, gs, heq, htyp, hid, hend, hrest⟩ :=
    fragmentHeaderBlock_eq_cons i c.peer.maxFrameSize (buildHeaderBlock c.encoder req).1
      req.body.isEmpty
  rw [Connection.headerFrames, heq, List.map_cons]
  constructor
  · have hnone : (gs.map Event.outbound).filterMap Event.head = [] := by
      refine List.filterMap_eq_nil_iff.mpr fun e he => ?_
      obtain ⟨g', hg', rfl⟩ := List.mem_map.mp he
      rw [Event.head, hrest g' hg', if_neg (by decide)]
    have hhead : Event.head (.outbound g) = some i := by
      rw [Event.head, htyp, if_pos rfl, hid]
    rw [List.filterMap_cons_none rfl, List.filterMap_cons_some hhead, hnone]
  · intro hempty
    have hsent : Event.sentEnd i (.outbound g) = true := by
      rw [Event.sentEnd, Frame.endsStream, hid, htyp, hend, hempty, decide_eq_true rfl,
        decide_eq_true rfl]
      rfl
    rw [List.any_cons, List.any_cons, hsent, Bool.true_or, Bool.or_true]

/-- An id is given out: the stream is registered if HEADERS went out on it. -/
theorem OnWire.opens {c c' : Connection} (h : OnWire evs c)
    (hnext : c'.nextStreamId = c.nextStreamId + 2) (hgoaway : c'.goawayReceived = c.goawayReceived)
    (hcame : ∀ ⦃id s'⦄, c'.streams.lookup id = some s' → c.streams.lookup id = some s' ∨
      id = c.nextStreamId ∧ Tracks (evs ++ new) c'.Blocked id s')
    (hkept : ∀ ⦃id s⦄, id < c.nextStreamId → c.streams.lookup id = some s →
      c'.streams.lookup id = some s)
    (hhead : ∀ id ∈ new.filterMap Event.head,
      id = c.nextStreamId ∧ ∃ s', c'.streams.lookup id = some s')
    (hone : (new.filterMap Event.head).Nodup) : OnWire (evs ++ new) c' := by
  have hblocked : c.Blocked → c'.Blocked := by
    rintro ⟨last, hlast, hlt⟩
    refine ⟨last, hgoaway.trans hlast, ?_⟩
    rw [hnext]
    exact Nat.lt_add_right 2 hlt
  have hsub := openOnWire_append evs new
  refine ⟨fun id s' hs' => ?_, fun id hid => ?_, ?_, ?_⟩
  · rw [hnext]
    rcases hcame hs' with hs | ⟨rfl, htracks⟩
    · obtain ⟨hlt, htracks⟩ := h.streams hs
      exact ⟨Nat.lt_add_right 2 hlt, htracks.same rfl hblocked⟩
    · exact ⟨Nat.lt_add_of_pos_right (by decide), htracks⟩
  · rw [List.filterMap_append] at hid
    rw [hnext]
    rcases List.mem_append.mp hid with hid | hid
    · exact Nat.lt_add_right 2 (h.ids id hid)
    · rw [(hhead id hid).1]
      exact Nat.lt_add_of_pos_right (by decide)
  · refine List.Nodup.sublist hsub (List.nodup_append.mpr ⟨h.distinct, hone, ?_⟩)
    rintro id hid j hj rfl
    have hlt := h.ids id (List.mem_filter.mp hid).1
    rw [(hhead id hj).1] at hlt
    exact Nat.lt_irrefl _ hlt
  · refine or_iff_not_imp_left.mpr fun hb id hid => ?_
    have hheld := h.held.resolve_left fun hwas => hb (hblocked hwas)
    rcases List.mem_append.mp (hsub.subset hid) with hid | hid
    · obtain ⟨s, hs⟩ := hheld id hid
      exact ⟨s, hkept (h.streams hs).1 hs⟩
    · exact (hhead id hid).2

end

namespace Batch

section

variable {codec : Codec} {reqs : List Request} {b b' : Batch} {evs new : List Event}

theorem startEvents_of_lost {idx id : Nat} {queue : List Nat} {conn : Connection}
    (hqueue : b.queue = idx :: queue) (hopen : b.conn.openStream = (.ok id, conn))
    (hreq : reqs[idx]? = none) : b.startEvents reqs = [] := by
  simp only [startEvents, hqueue, hopen, hreq]

theorem startEvents_of_staged {idx id : Nat} {queue : List Nat} {conn conn' : Connection}
    {req : Request} {res : Result Unit} (hqueue : b.queue = idx :: queue)
    (hopen : b.conn.openStream = (.ok id, conn)) (hreq : reqs[idx]? = some req)
    (hstage : conn.stageRequestOn id req = (res, conn')) :
    b.startEvents reqs = match res with
      | .error _ => []
      | .ok () => .request id req :: (conn.headerFrames id req).map .outbound := by
  simp only [startEvents, hqueue, hopen, hreq, hstage]
  cases res <;> rfl

/-- A start keeps the two counts together. -/
theorem onWire_starts (h : OnWire evs b.conn) (hstart : Starts reqs b b') :
    OnWire (evs ++ b.startEvents reqs) b'.conn := by
  have hnone : ∀ id ∈ ([] : List Event).filterMap Event.head,
      id = b.conn.nextStreamId ∧ ∃ s', b'.conn.streams.lookup id = some s' := by
    intro id hid
    cases hid
  cases hstart with
  | @refused idx queue e hqueue hopen =>
      obtain ⟨res, conn, heq⟩ : ∃ res conn, b.conn.openStream = (res, conn) := ⟨_, _, rfl⟩
      rw [heq] at hopen
      obtain rfl : res = .error e := hopen
      have hevents : b.startEvents reqs = [] := by
        simp only [startEvents, hqueue, heq]
      obtain rfl := openStream_eq_error heq
      rw [hevents, List.append_nil, heq]
      exact h
  | @lost idx id queue conn hqueue hopen hreq =>
      rw [startEvents_of_lost hqueue hopen hreq]
      obtain ⟨rfl, rfl⟩ := openStream_eq_ok hopen
      refine h.opens rfl rfl (fun j s' hs' => ?_) (fun j s hj hs => ?_) hnone List.nodup_nil
      · by_cases hj : j = b.conn.nextStreamId
        · subst hj
          change (b.conn.streams.insert _ _).lookup _ = _ at hs'
          rw [AList.lookup_insert] at hs'
          obtain rfl := Option.some.inj hs'
          exact .inr ⟨rfl, nofun, nofun, nofun⟩
        · exact .inl (by rwa [← AList.lookup_insert_ne hj])
      · exact (AList.lookup_insert_ne (Nat.ne_of_lt hj)).trans hs
  | @failed idx id queue conn conn' req e hqueue hopen hreq hstage =>
      rw [startEvents_of_staged hqueue hopen hreq hstage]
      obtain ⟨encoder, sink, -, rfl⟩ := stageRequestOn_error hstage
      obtain ⟨rfl, rfl⟩ := openStream_eq_ok hopen
      have hlook : ∀ j, j ≠ b.conn.nextStreamId →
          ((b.conn.streams.insert b.conn.nextStreamId (.new b.conn.nextStreamId
            b.conn.peer.initialWindowSize)).erase b.conn.nextStreamId).lookup j =
              b.conn.streams.lookup j := by
        intro j hj
        rw [AList.lookup_erase_ne hj, AList.lookup_insert_ne hj]
      refine h.opens rfl rfl (fun j s' hs' => ?_) (fun j s hj hs => ?_) hnone List.nodup_nil
      · by_cases hj : j = b.conn.nextStreamId
        · subst hj
          change (AList.erase _ _).lookup _ = _ at hs'
          rw [AList.lookup_erase] at hs'
          cases hs'
        · exact .inl ((hlook j hj).symm.trans hs')
      · exact (hlook j (Nat.ne_of_lt hj)).trans hs
  | @started idx id queue conn conn' req hqueue hopen hreq hstage =>
      rw [startEvents_of_staged hqueue hopen hreq hstage]
      have hkeeps := stageRequestOn_keepsPeer conn id req
      have hmoves := stageRequestOn_moves conn id req
      rw [hstage] at hkeeps hmoves
      obtain ⟨hhead, hend⟩ := headEvents conn id req
      obtain ⟨rfl, hconn⟩ := openStream_eq_ok hopen
      have hnew : conn.streams.lookup b.conn.nextStreamId =
          some (.new b.conn.nextStreamId b.conn.peer.initialWindowSize) := by
        rw [hconn]
        exact AList.lookup_insert _
      have hstreams := stageRequestOn_ok hnew hstage
      have hothers : ∀ j, j ≠ b.conn.nextStreamId →
          conn'.streams.lookup j = b.conn.streams.lookup j := by
        intro j hj
        rw [hstreams, AList.lookup_insert_ne hj, hconn]
        exact AList.lookup_insert_ne hj
      have hown : conn'.streams.lookup b.conn.nextStreamId = some (.staged b.conn.nextStreamId
          b.conn.peer.initialWindowSize req) := by
        rw [hstreams, AList.lookup_insert]
      refine h.opens (hmoves.next.trans (by rw [hconn])) (hkeeps.goaway.trans (by rw [hconn]))
        (fun j s' hs' => ?_) (fun j s hj hs => (hothers j (Nat.ne_of_lt hj)).trans hs)
        (fun j hj => ?_) ?_
      · by_cases hj : j = b.conn.nextStreamId
        · subst hj
          obtain rfl := Option.some.inj (hown.symm.trans hs')
          refine .inr ⟨rfl, ?_⟩
          cases hempty : req.body.isEmpty with
          | true =>
              refine .of_local ?_ (any_append_right (hend hempty))
              rw [Stream.staged, hempty]
              rfl
          | false =>
              refine .of_open ?_
              rw [Stream.staged, hempty]
              rfl
        · exact .inl ((hothers j hj).symm.trans hs')
      · rw [hhead, List.mem_singleton] at hj
        subst hj
        exact ⟨rfl, _, hown⟩
      · rw [hhead]
        exact List.nodup_singleton _

/-- The streams that reaping leaves, and those it takes. -/
theorem foldl_failDoomed_streams (last : Nat) (doomed : List Nat) (b : Batch) :
    ∃ streams, (doomed.foldl (failDoomed last) b).conn = { b.conn with streams } ∧
      (∀ ⦃id s⦄, streams.lookup id = some s → b.conn.streams.lookup id = some s) ∧
      ∀ ⦃id s⦄, b.conn.streams.lookup id = some s → streams.lookup id = some s ∨ id ∈ doomed := by
  induction doomed generalizing b with
  | nil => exact ⟨_, rfl, fun _ _ => id, fun _ _ => .inl⟩
  | cons i doomed ih =>
      obtain ⟨streams, hconn, hstays, hgone⟩ := ih (failDoomed last b i)
      have hone : ∃ streams, (failDoomed last b i).conn = { b.conn with streams } ∧
          (∀ ⦃id s⦄, streams.lookup id = some s → b.conn.streams.lookup id = some s) ∧
          ∀ ⦃id s⦄, b.conn.streams.lookup id = some s →
            streams.lookup id = some s ∨ id = i := by
        unfold failDoomed
        split
        · exact ⟨_, rfl, fun _ _ => id, fun _ _ => .inl⟩
        · have hremoves := removes_erase (p := fun _ => True) b.conn i fun _ _ => trivial
          refine ⟨_, rfl, fun _ _ hs => hremoves.stays hs, fun j s hs => ?_⟩
          by_cases hj : j = i
          · exact .inr hj
          · exact .inl (by rwa [AList.lookup_erase_ne hj])
      obtain ⟨streams', hconn', hstays', hgone'⟩ := hone
      rw [hconn'] at hconn hstays hgone
      refine ⟨streams, hconn, fun _ _ hs => hstays' (hstays hs), fun j s hs => ?_⟩
      rcases hgone' hs with hs | rfl
      · exact (hgone hs).imp_right (List.mem_cons_of_mem _)
      · exact .inr List.mem_cons_self

/-- Streams abandoned by a GOAWAY may be open on the wire, but then no other comes. -/
theorem onWire_failGoawayDoomed (h : OnWire evs b.conn) :
    OnWire evs b.failGoawayDoomed.conn ∧
      ∀ ⦃id s⦄, b.failGoawayDoomed.conn.streams.lookup id = some s →
        b.conn.streams.lookup id = some s := by
  unfold failGoawayDoomed
  split
  · exact ⟨h, fun _ _ => id⟩
  next last hlast =>
  simp only
  generalize hdoomed : List.filter _ b.idToIdx.keys = doomed
  obtain ⟨streams, hconn, hstays, hgone⟩ := foldl_failDoomed_streams last doomed b
  rw [hconn]
  refine ⟨h.removes hstays fun id s hs => (hgone hs).imp_right fun hid => .inl ?_, hstays⟩
  rw [← hdoomed, List.mem_filter, Bool.and_eq_true, decide_eq_true_eq] at hid
  exact ⟨last, hlast, hid.2.1.trans (h.streams hs).1⟩

/-- A stream that is done is closed on the wire, unless it was cut short. -/
theorem onWire_deliver (h : OnWire evs b.conn) {o : DispatchOutcome}
    (hdone : ∀ id s, o = .done id → b.conn.streams.lookup id = some s →
      s.complete = true ∧ s.state ≠ .halfClosedRemote) :
    OnWire evs (b.deliver codec o).conn := by
  cases o with
  | cont => exact h
  | done id =>
      simp only [deliver]
      split
      · next idx s hidx hs =>
          refine h.erase fun t ht => ?_
          obtain rfl := Option.some.inj (hs.symm.trans ht)
          obtain ⟨hcomplete, hne⟩ := hdone id s rfl hs
          refine (h.streams hs).2.closed ?_
          rw [Stream.complete, Bool.and_assoc, Bool.and_eq_true, StreamState.remoteDone,
            Bool.or_eq_true, decide_eq_true_eq, decide_eq_true_eq] at hcomplete
          exact hcomplete.1.resolve_right hne
      · exact h

theorem heads_of_answers (c : Connection) (f : Frame) :
    ((c.answers f).map Event.outbound).filterMap Event.head = [] := by
  refine List.filterMap_eq_nil_iff.mpr fun e he => ?_
  obtain ⟨g, hg, rfl⟩ := List.mem_map.mp he
  rw [Event.head, if_neg (answers_plain c f hg).2]

/-- What a batch does keeps the two counts together, as long as no frame comes too early. -/
theorem onWire_does (h : OnWire evs b.conn) (hdoes : Does codec reqs b new b')
    (htimely : ∀ f, .inbound f true ∈ new → b.conn.Timely f) : OnWire (evs ++ new) b'.conn := by
  cases hdoes with
  | starts hstart => exact onWire_starts h hstart
  | sends hact hids hdata => exact h.sends hact hids hdata
  | refused hframe =>
      exact h.frame hframe (blocked_of_timely hframe (not_reopens_of_error hframe)) rfl
  | charged htake =>
      obtain ⟨id, s, hs, hclosed, -, rfl⟩ := stalled_of_takeStreamError htake
      rw [List.append_nil]
      refine h.erase fun t ht => ?_
      obtain rfl := Option.some.inj (hs.symm.trans ht)
      exact (h.streams hs).2.closed hclosed
  | @handled source f o conn hframe =>
      obtain ⟨hcuts, hreopens⟩ := htimely f List.mem_cons_self
      have hframed : OnWire (evs ++ .inbound f true :: (b.conn.answers f).map .outbound) conn :=
        h.frame hframe (blocked_of_timely hframe hreopens) (heads_of_answers b.conn f)
      obtain ⟨hreaped, hstays⟩ :=
        @onWire_failGoawayDoomed { b with conn } _ hframed
      refine onWire_deliver hreaped fun id s ho hs => ?_
      subst ho
      have heff := processFrame_effect (b.conn.receive source f) f
      rw [hframe] at heff
      obtain ⟨rfl, t, ht, hcomplete⟩ := heff.of_done
      have hs : conn.streams.lookup f.streamId = some s := hstays hs
      obtain rfl := Option.some.inj (hs.symm.trans ht)
      refine ⟨hcomplete, fun hstate => hcuts ?_⟩
      exact @cutsShort_of_done (b.conn.receive source f) conn f _ s hframe hs hstate
  | notes =>
      rw [List.append_nil]
      exact h

/-! ## The limit -/

/-- A stream that can be opened is below the limit, and no GOAWAY forbids it. -/
theorem openStream_ok {c c' : Connection} {id : Nat} (h : c.openStream = (.ok id, c')) :
    c.streams.entries.length < c.peer.maxConcurrentStreams ∧ ¬ c.Blocked := by
  unfold Connection.openStream at h
  split at h
  · cases h
  next hlimit =>
  split at h
  · cases h
  split at h
  · cases h
  next hgoaway =>
  refine ⟨Nat.not_le.mp hlimit, ?_⟩
  rintro ⟨last, hlast, hlt⟩
  rw [hlast] at hgoaway
  exact hgoaway (decide_eq_true hlt)

/-- Where the two counts agree, a stream is opened below the limit only. -/
theorem below_limit {c c' : Connection} {id : Nat} (h : OnWire evs c)
    (hopen : c.openStream = (.ok id, c')) :
    (openOnWire evs).length < c.peer.maxConcurrentStreams := by
  obtain ⟨hlimit, hfree⟩ := openStream_ok hopen
  have hsub : openOnWire evs ⊆ c.streams.keys := by
    intro j hj
    obtain ⟨s, hs⟩ := h.held.resolve_left hfree j hj
    rw [← AList.mem_keys, ← AList.lookup_isSome, hs]
    rfl
  have hle : (openOnWire evs).length ≤ c.streams.entries.length := by
    have hkeys := (h.distinct.subperm hsub).length_le
    rwa [AList.keys, List.keys, List.length_map] at hkeys
  exact hle.trans_lt hlimit

theorem openStream_of_startEvents (h : b.startEvents reqs ≠ []) :
    ∃ id conn, b.conn.openStream = (.ok id, conn) := by
  unfold startEvents at h
  split at h
  · next hopen => exact ⟨_, _, hopen⟩
  · exact absurd rfl h

/-- What a batch does at a time when handling it drops no stream that is open on the wire. -/
def DoesTimely (codec : Codec) (reqs : List Request) (b : Batch) (new : List Event) (b' : Batch) : Prop :=
  Does codec reqs b new b' ∧ ∀ f, .inbound f true ∈ new → b.conn.Timely f

end

end Batch

/-- No stream is registered, and those that were opened are closed on the wire. -/
structure Rested (past : List Event) (c : Connection) : Prop where
  usable : c.isUsable = true
  ids : ∀ id ∈ past.filterMap Event.head, id < c.nextStreamId
  closed : openOnWire past = []

theorem Rested.streams {past : List Event} {c : Connection} (h : Rested past c) :
    c.streams.entries = [] := by
  have husable := h.usable
  rw [Connection.isUsable, Bool.and_eq_true, Bool.and_eq_true, List.isEmpty_iff] at husable
  exact husable.1.2

theorem Rested.onWire {past : List Event} {c : Connection} (h : Rested past c) :
    OnWire past c where
  streams id s hs := by
    rw [AList.lookup, h.streams] at hs
    cases hs
  ids := h.ids
  distinct := by
    rw [h.closed]
    exact List.nodup_nil
  held := by
    rw [h.closed]
    exact .inr (List.forall_mem_nil _)

/-- A connection on which nothing has happened is rested. -/
theorem rested_of_new {tls : Tls} {c : Connection} (h : Connection.new tls = .ok c) :
    Rested [] c where
  usable := by
    have hfresh := fresh_of_new h
    rw [Connection.isUsable, hfresh.goaway, hfresh.streams, hfresh.next]
    rfl
  ids := List.forall_mem_nil _
  closed := rfl

namespace Batch

variable {codec : Codec} {reqs : List Request} {c : Connection} {past : List Event}

theorem onWire_run (hrest : Rested past c) {b : Batch} {evs : List Event}
    (h : Base.Trace (DoesTimely codec reqs) (init c reqs) evs b) : OnWire (past ++ evs) b.conn := by
  refine Base.Trace.invariant (I := fun evs b => OnWire (past ++ evs) b.conn) ?_ ?_ h
  · rw [List.append_nil]
    exact hrest.onWire
  · intro evs new b₁ b₂ hwire hstep
    have hnext := onWire_does hwire hstep.1 hstep.2
    rwa [List.append_assoc] at hnext

/-- What the pool takes back after such a run is rested again. -/
theorem rested_of_usable (hrest : Rested past c) {b : Batch} {evs : List Event}
    (h : Base.Trace (DoesTimely codec reqs) (init c reqs) evs b) (husable : b.conn.isUsable = true) :
    Rested (past ++ evs) b.conn where
  usable := husable
  ids := (onWire_run hrest h).ids
  closed := by
    have hempty : b.conn.goawayReceived = none ∧ b.conn.streams.entries = [] := by
      rw [Connection.isUsable, Bool.and_eq_true, Bool.and_eq_true, List.isEmpty_iff,
        Option.isNone_iff_eq_none] at husable
      exact husable.1
    have hfree : ¬ b.conn.Blocked := by
      rintro ⟨last, hlast, -⟩
      cases hempty.1.symm.trans hlast
    refine List.eq_nil_iff_forall_not_mem.mpr fun id hid => ?_
    obtain ⟨s, hs⟩ := (onWire_run hrest h).held.resolve_left hfree id hid
    rw [AList.lookup, hempty.2] at hs
    cases hs

/-- `run_multiplexed` is a run of what a batch does.  In every such run in which no frame comes
too early, HEADERS go out only while fewer streams than the peer's limit are open on the wire. -/
theorem below_limit_run (codec : Codec) (reqs : List Request) (hrest : Rested past c) :
    (∃ evs, Base.Trace (Does codec reqs) (init c reqs) evs (final codec c reqs) ∧
      (runMultiplexed codec c reqs).1 = collectResults (final codec c reqs).results) ∧
    ∀ evs b, Base.Trace (DoesTimely codec reqs) (init c reqs) evs b → b.startEvents reqs ≠ [] →
      (openOnWire (past ++ evs)).length < b.conn.peer.maxConcurrentStreams := by
  constructor
  · obtain ⟨evs, hpath⟩ := reaches_final codec c reqs
    exact ⟨evs, hpath, runMultiplexed_results codec c reqs⟩
  · intro evs b hpath hstart
    obtain ⟨id, conn, hopen⟩ := openStream_of_startEvents hstart
    exact below_limit (onWire_run hrest hpath) hopen

/-! ### Runs on a connection with a limit -/

/-- The answer to the request on stream 3, which may come before its body. -/
def earlyAnswer : Frame where
  typ := fHeaders
  flags := 0x5
  streamId := 3
  payload := [0x88]

/-- A peer that takes `limit` streams at a time and no body, and answers two requests. -/
def hasty (limit : UInt8) : Bytes :=
  ([{ typ := fSettings, flags := 0, streamId := 0
      payload := [0, 3, 0, 0, 0, limit, 0, 4, 0, 0, 0, 0] },
    { typ := fHeaders, flags := 0x5, streamId := 1, payload := [0x88] },
    earlyAnswer] : List Frame).flatMap Frame.bytes

/-- The connection after a first batch. -/
def afterBatch (limit : UInt8) : Connection :=
  (runMultiplexed (fun _ _ _ => .error []) (.dial ⟨hasty limit, none⟩) [sampleGet]).2

/-- The next request of a batch, a GET, is started. -/
def startedGet (b : Batch) (id idx : Nat) : Batch :=
  { b with
    conn := (b.conn.openStream.2.stageRequestOn id sampleGet).2
    idToIdx := b.idToIdx.insert id idx
    queue := b.queue.tail }

/-- Three GETs where two streams may be open. -/
def downloads : List Request := [sampleGet, sampleGet, sampleGet]

/-- The batch when the first of them is open. -/
def oneOpen : Batch := startedGet (init (afterBatch 2) downloads) 3 0

/-- The batch when two of them are open. -/
def twoOpen : Batch := startedGet oneOpen 5 1

/-- The batch after the answer to the first. -/
def oneLeft : Batch :=
  (failGoawayDoomed { twoOpen with conn := twoOpen.conn.readAndDispatch.2 }).deliver
    (fun _ _ _ => .error []) (.done 3)

/-- What has happened up to then. -/
def untilOneLeft : List Event :=
  ((init (afterBatch 2) downloads).startEvents downloads ++ oneOpen.startEvents downloads) ++
    .inbound earlyAnswer true :: (twoOpen.conn.answers earlyAnswer).map .outbound

theorem oneLeft_facts :
    ((afterBatch 2).isUsable = true ∧ (afterBatch 2).openStream.1 = .ok 3 ∧
      ((afterBatch 2).openStream.2.stageRequestOn 3 sampleGet).1 = .ok () ∧
      oneOpen.conn.openStream.1 = .ok 5 ∧
      (oneOpen.conn.openStream.2.stageRequestOn 5 sampleGet).1 = .ok ()) ∧
    ((readFrame twoOpen.conn.tls.source).1 = .ok earlyAnswer ∧
      twoOpen.conn.readAndDispatch.1 = .ok (.done 3) ∧
      (twoOpen.conn.streams.lookup 3).map Stream.state = some .halfClosedLocal) ∧
    oneLeft.startEvents downloads ≠ [] ∧ untilOneLeft.filterMap Event.head = [3, 5] ∧
      oneLeft.conn.peer.maxConcurrentStreams = 2 := by
  decide +kernel

/-- A frame that is dispatched has been read and handled. -/
theorem processFrame_of_dispatch {c : Connection} {f : Frame} {o : DispatchOutcome}
    (hframe : (readFrame c.tls.source).1 = .ok f) (hread : c.readAndDispatch.1 = .ok o) :
    ∃ source, (c.receive source f).processFrame f = (.ok o, c.readAndDispatch.2) := by
  obtain ⟨source, hsource⟩ : ∃ source, readFrame c.tls.source = (.ok f, source) :=
    ⟨_, Prod.ext hframe rfl⟩
  have hdispatch : c.readAndDispatch = (.ok o, c.readAndDispatch.2) := Prod.ext hread rfl
  refine ⟨source, ?_⟩
  rw [← hdispatch, Connection.readAndDispatch, hsource]

/-- Two streams have been opened and one of them is done when the third is. -/
theorem below_limit_downloads :
    (∃ evs, Base.Trace (DoesTimely (fun _ _ _ => .error []) downloads)
        (init (afterBatch 2) downloads) evs oneLeft ∧ evs.filterMap Event.head = [3, 5] ∧
      (openOnWire evs).length < 2) ∧ oneLeft.startEvents downloads ≠ [] := by
  obtain ⟨⟨husable, hopen, hstage, hopen', hstage'⟩, ⟨hframe, hread, hstate⟩, hstart, hheads,
    hlimit⟩ := oneLeft_facts
  have hrest : Rested [] (afterBatch 2) := ⟨husable, List.forall_mem_nil _, rfl⟩
  have hfirst : Starts downloads (init (afterBatch 2) downloads) oneOpen :=
    .started rfl (Prod.ext hopen rfl) rfl (Prod.ext hstage rfl)
  have hsecond : Starts downloads oneOpen twoOpen :=
    .started rfl (Prod.ext hopen' rfl) rfl (Prod.ext hstage' rfl)
  obtain ⟨source, hprocess⟩ := processFrame_of_dispatch hframe hread
  have hquiet : ∀ {b : Batch} f, .inbound f true ∈ b.startEvents downloads → b.conn.Timely f := by
    intro b f hmem
    unfold startEvents at hmem
    split at hmem
    · split at hmem
      · cases hmem
      · split at hmem
        · cases hmem
        · simp at hmem
    · cases hmem
  have htimely : twoOpen.conn.Timely earlyAnswer := by
    refine ⟨?_, fun hreopens => absurd hreopens.1.2.2 (by decide)⟩
    rintro ⟨s, hs, hcut, -⟩
    change twoOpen.conn.streams.lookup 3 = some s at hs
    rw [hs, Option.map_some, Option.some.injEq] at hstate
    rw [hstate] at hcut
    rcases hcut with hcut | hcut <;> cases hcut
  have hpath : Base.Trace (DoesTimely (fun _ _ _ => .error []) downloads)
      (init (afterBatch 2) downloads) untilOneLeft oneLeft := by
    refine ((Base.Trace.single ⟨.starts hfirst, hquiet⟩).snoc ⟨.starts hsecond, hquiet⟩).snoc
      ⟨.handled hprocess, fun f hmem => ?_⟩
    obtain rfl : f = earlyAnswer := by simpa using hmem
    exact htimely
  have hbelow := (below_limit_run (fun _ _ _ => .error []) downloads hrest).2 _ _ hpath hstart
  rw [hlimit, List.nil_append] at hbelow
  exact ⟨⟨_, hpath, hheads, hbelow⟩, hstart⟩

/-- A batch of an upload and a GET on it, when its first request is started. -/
def uploading : Batch :=
  let b := init (afterBatch 1) [samplePost, sampleGet]
  let conn := b.conn.openStream.2
  { b with conn := (conn.stageRequestOn 3 samplePost).2, idToIdx := b.idToIdx.insert 3 0, queue := [1] }

/-- The batch after the answer. -/
def answered : Batch :=
  (failGoawayDoomed { uploading with conn := uploading.conn.readAndDispatch.2 }).deliver
    (fun _ _ _ => .error []) (.done 3)

/-- What has happened up to then. -/
def untilAnswer : List Event :=
  (init (afterBatch 1) [samplePost, sampleGet]).startEvents [samplePost, sampleGet] ++
    .inbound earlyAnswer true :: (uploading.conn.answers earlyAnswer).map .outbound

theorem answered_facts :
    (afterBatch 1).isUsable = true ∧ (init (afterBatch 1) []).conn.openStream.1 = .ok 3 ∧
      ((afterBatch 1).openStream.2.stageRequestOn 3 samplePost).1 = .ok () ∧
      (readFrame uploading.conn.tls.source).1 = .ok earlyAnswer ∧
      uploading.conn.readAndDispatch.1 = .ok (.done 3) ∧
      answered.startEvents [samplePost, sampleGet] ≠ [] ∧
      (openOnWire untilAnswer).length = 1 ∧ answered.conn.peer.maxConcurrentStreams = 1 := by
  decide +kernel

/-- What the batch writes: the HEADERS of the upload and of the GET, and no body. -/
theorem written_afterBatch :
    (runMultiplexed (fun _ _ _ => .error []) (afterBatch 1) [samplePost, sampleGet]).2.tls.sink.written =
      (afterBatch 1).tls.sink.written ++
        (((afterBatch 1).headerFrames 3 samplePost).flatMap Frame.bytes ++
          (answered.conn.headerFrames 5 sampleGet).flatMap Frame.bytes) := by
  decide +kernel

/-- The GET is opened while the upload is open, and the peer takes one stream at a time; the batch
ends so. -/
theorem opened_beyond_limit :
    (¬ ∀ (codec : Codec) (c : Connection) (reqs : List Request) (past : List Event),
      Rested past c → ∀ evs b, Base.Trace (Does codec reqs) (init c reqs) evs b →
        b.startEvents reqs ≠ [] →
          (openOnWire (past ++ evs)).length < b.conn.peer.maxConcurrentStreams) ∧
    (runMultiplexed (fun _ _ _ => .error []) (afterBatch 1)
        [samplePost, sampleGet]).2.tls.sink.written =
      (afterBatch 1).tls.sink.written ++
        (((afterBatch 1).headerFrames 3 samplePost).flatMap Frame.bytes ++
          (answered.conn.headerFrames 5 sampleGet).flatMap Frame.bytes) := by
  refine ⟨fun hclaim => ?_, written_afterBatch⟩
  obtain ⟨husable, hopen, hstage, hframe, hread, hstart, hone, hlimit⟩ := answered_facts
  have hrest : Rested [] (afterBatch 1) := ⟨husable, List.forall_mem_nil _, rfl⟩
  have hfirst : Starts [samplePost, sampleGet] (init (afterBatch 1) [samplePost, sampleGet]) uploading :=
    .started rfl (Prod.ext hopen rfl) rfl (Prod.ext hstage rfl)
  obtain ⟨source, hprocess⟩ := processFrame_of_dispatch hframe hread
  have hpath : Base.Trace (Does (fun _ _ _ => .error []) [samplePost, sampleGet])
      (init (afterBatch 1) [samplePost, sampleGet]) untilAnswer answered :=
    .snoc (.single (.starts hfirst)) (.handled hprocess)
  have hlt := hclaim _ _ _ [] hrest _ _ hpath hstart
  rw [List.nil_append, hone, hlimit] at hlt
  exact Nat.lt_irrefl _ hlt

end Batch
end Rsurl.H2
