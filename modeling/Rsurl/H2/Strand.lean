/-
# `Rsurl.H2.Strand` — frames that end a stream too early

Both drivers read frames until the streams they wait for are done.  A stream
that the peer ends before a final header block is in is closed without being
done; `Awaits` is what holds of a stream as long as no frame does that, and
`driven` what follows for `drive_until_stream_done`.
-/
import Rsurl.H2.Goaway
import Rsurl.H2.Scope

namespace Rsurl.H2

open Http (Header Request Response)
open Relation (ReflTransGen)
open Batch (processFrame_ignored processFrame_of_typ processFrame_data processFrame_rst)

/-! ## Frames that end a stream too early -/

/-- The fields of a final response or of trailers: no `:status` of three digits `1xx`. -/
def isFinal (headers : List Header) : Bool :=
  !headers.any fun (k, v) => k = ":status".toList && v.length = 3 && v.head? = some '1'

/-- A final header block is in. -/
def Stream.hasFinal (s : Stream) : Bool := s.responseHeaders.any isFinal

/-- The header block that ends with the frame, unless it is too long. -/
def Frame.endedBlock (f : Frame) (s : Stream) : Option Bytes :=
  let block :=
    if f.typ = fHeaders then (Connection.headersFragment f).toOption.map (s.headersBuf ++ ·)
    else if f.typ = fContinuation then some (s.headersBuf ++ f.payload)
    else none
  if f.has flagEndHeaders then block.filter (·.length ≤ maxHeadersBuf) else none

/-- With the frame the peer has ended the stream, and no final header block came before or comes
with it. -/
structure Connection.EndsEarly (c : Connection) (f : Frame) (s : Stream) : Prop where
  headers : s.hasFinal = false
  ended : f.typ = fData ∧ f.has flagEndStream = true ∨
    f.typ = fHeaders ∧ f.has flagEndHeaders = true ∧ f.has flagEndStream = true ∨
    f.typ = fContinuation ∧ f.has flagEndHeaders = true ∧ s.endStreamRecv = true
  block : ∀ block fields, f.endedBlock s = some block →
    (c.decoder.decodeBlock block).1 = .ok fields → isFinal fields = false

/-- The frame makes it impossible for the stream `id` to complete. -/
inductive Connection.Dooms (c : Connection) (f : Frame) (id : Nat) (s : Stream) : Prop
  | reset (htyp : f.typ = fRstStream) (hid : f.streamId = id) (hstream : id ≠ 0)
  | goaway (hgoaway : f.isGoaway) (hlast : f.lastStreamId < id)
  | ended (hid : f.streamId = id) (hstream : id ≠ 0) (hends : c.EndsEarly f s)

/-- The frame ends the stream too early, and is accepted. -/
inductive Connection.Strands (c : Connection) (f : Frame) (s : Stream) : Prop
  | data (htyp : f.typ = fData) (hend : f.has flagEndStream = true) (hnone : s.hasFinal = false)
      (hpasses : DataPasses c f s)
  | block {block : Bytes} {fields : List Header} (hends : c.EndsEarly f s)
      (hblock : f.endedBlock s = some block)
      (hdec : (c.decoder.decodeBlock block).1 = .ok fields)
  /-- HEADERS with END_STREAM whose block is to be continued; a stream that has request body left
  and no window for it stays open until then. -/
  | split {frag : Bytes} (htyp : f.typ = fHeaders) (hmore : f.has flagEndHeaders = false)
      (hend : f.has flagEndStream = true) (hnone : s.hasFinal = false)
      (hfrag : Connection.headersFragment f = .ok frag)
      (hlen : s.headersBuf.length + frag.length ≤ maxHeadersBuf)
      (hclosed : ¬ (s.state = .open ∧ s.responseHeaders = none ∧
        s.sendBudget c.connSendWindow ≤ 0))

/-- The frame ends no stream too early. -/
def Connection.Regular (c : Connection) (f : Frame) : Prop :=
  c.admits f = true → ∀ s, c.streams.lookup f.streamId = some s → ¬ c.Strands f s

/-- The stream can still complete: the peer has not ended it, or the header block that ends it is
on its way. -/
inductive Connection.Awaits (c : Connection) (id : Nat) (s : Stream) : Prop
  | live (hended : s.endStreamRecv = false) (hstate : s.state = .open ∨ s.state = .halfClosedLocal)
  | inBlock (hended : s.endStreamRecv = true) (hstate : s.state = .halfClosedRemote)
      (hheaders : s.responseHeaders = none) (hexp : c.expectingContinuation = some id)
      (hbudget : s.sendBudget c.connSendWindow ≤ 0)

section

variable {c c' : Connection} {f : Frame} {id : Nat} {s s' : Stream} {o : DispatchOutcome}

theorem Connection.Awaits.not_closed (h : c.Awaits id s) : s.state ≠ .closed := by
  cases h with
  | live _ hstate => rcases hstate with h | h <;> rw [h] <;> decide
  | inBlock _ hstate => rw [hstate]; nofun

theorem Connection.Awaits.incomplete (h : c.Awaits id s) :
    (s.endStreamRecv && s.responseHeaders.isSome) = false := by
  cases h with
  | live hended => rw [hended]; rfl
  | inBlock _ _ hheaders => rw [hheaders]; exact Bool.and_false _

theorem Connection.Awaits.not_complete (h : c.Awaits id s) : s.complete = false := by
  rw [Stream.complete, Bool.and_assoc, h.incomplete, Bool.and_false]

theorem Stream.hasFinal_of_none (h : s.responseHeaders = none) : s.hasFinal = false := by
  rw [Stream.hasFinal, h]
  rfl

theorem Connection.Awaits.congr (h : c.Awaits id s)
    (hexp : c'.expectingContinuation = c.expectingContinuation)
    (hwindow : c'.connSendWindow = c.connSendWindow) : c'.Awaits id s := by
  cases h with
  | live hended hstate => exact .live hended hstate
  | inBlock hended hstate hheaders hexpecting hbudget =>
      exact .inBlock hended hstate hheaders (hexp.trans hexpecting) (hwindow ▸ hbudget)

theorem Connection.Regular.receive (h : c.Regular f) (source : Source) :
    (c.receive source f).Regular f := by
  intro hadmits s hs hstrands
  refine h hadmits s hs ?_
  cases hstrands with
  | data htyp hend hnone hpasses =>
      exact .data htyp hend hnone ⟨hpasses.connWindow, hpasses.streamWindow, hpasses.payload⟩
  | block hends hblock hdec =>
      exact .block ⟨hends.headers, hends.ended, hends.block⟩ hblock hdec
  | split htyp hmore hend hnone hfrag hlen hclosed =>
      exact .split htyp hmore hend hnone hfrag hlen hclosed

theorem Connection.Dooms.receive (h : c.Dooms f id s) (source : Source) :
    (c.receive source f).Dooms f id s := by
  cases h with
  | reset htyp hid hstream => exact .reset htyp hid hstream
  | goaway hgoaway hlast => exact .goaway hgoaway hlast
  | ended hid hstream hends => exact .ended hid hstream ⟨hends.headers, hends.ended, hends.block⟩

/-! ## Frames that are handled -/

/-- DATA that is handled on an open stream has passed the checks. -/
theorem dataPasses_of_ok (hs : c.streams.lookup f.streamId = some s) (hopen : s.state ≠ .closed)
    (h : c.processData f = (.ok o, c')) : DataPasses c f s := by
  unfold Connection.processData at h
  simp only [hs, if_neg hopen] at h
  split at h
  · cases h
  next hconn =>
  split at h
  · cases h
  split at h
  · cases h
  next hstream =>
  split at h
  · cases h
  next bytes hbytes =>
  split at h
  · cases h
  next hshort =>
  exact ⟨Int.not_lt.mp hconn, Int.not_lt.mp hstream, bytes, hbytes, Nat.not_lt.mp hshort⟩

/-- HEADERS that are handled on an open stream, with END_HEADERS or without. -/
theorem processHeaders_ok (htyp : f.typ = fHeaders) (hs : c.streams.lookup f.streamId = some s)
    (hopen : s.state ≠ .closed) (h : c.processHeaders f = (.ok o, c')) :
    (∃ block fields, f.endedBlock s = some block ∧
        (c.decoder.decodeBlock block).1 = .ok fields) ∨
      f.has flagEndHeaders = false ∧ ∃ frag state,
        Connection.headersFragment f = .ok frag ∧
        s.headersBuf.length + frag.length ≤ maxHeadersBuf ∧
        s.state.recvHeaders (f.has flagEndStream) = .ok state ∧
        c' = { c.setStream f.streamId { s with
            headersBuf := s.headersBuf ++ frag
            endStreamRecv := s.endStreamRecv || f.has flagEndStream
            state } with expectingContinuation := some f.streamId } := by
  unfold Connection.processHeaders at h
  split at h
  · cases h
  next frag hfrag =>
  simp only [hs, if_neg hopen] at h
  split at h
  · cases h
  next state hstate =>
  split at h
  · cases h
  next s₁ hpush =>
  have hlen : s.headersBuf.length + frag.length ≤ maxHeadersBuf := by
    unfold Stream.pushHeaderFragment at hpush
    split at hpush
    · cases hpush
    · next hle => exact Nat.not_lt.mp hle
  obtain rfl := pushHeaderFragment_eq_ok hpush
  cases hlast : f.has flagEndHeaders with
  | true =>
      refine .inl ⟨s.headersBuf ++ frag, ?_⟩
      have hblock : f.endedBlock s = some (s.headersBuf ++ frag) := by
        simp [Frame.endedBlock, htyp, hlast, hfrag, Except.toOption, hlen]
      simp only [hlast, if_true] at h
      have hbuf : (if f.has flagEndStream then
          ({ s with headersBuf := s.headersBuf ++ frag, endStreamRecv := true } : Stream)
          else { s with headersBuf := s.headersBuf ++ frag }).headersBuf = s.headersBuf ++ frag := by
        split <;> rfl
      rw [hbuf] at h
      split at h
      · cases h
      · next fields decoder hdec => exact ⟨fields, hblock, by rw [hdec]⟩
  | false =>
      refine .inr ⟨rfl, frag, state, hfrag, hlen, hstate, ?_⟩
      simp only [hlast, Bool.false_eq_true, if_false] at h
      obtain ⟨-, rfl⟩ := Prod.mk.inj h
      cases hend : f.has flagEndStream with
      | true => simp only [if_true, Bool.or_true]
      | false => simp only [Bool.false_eq_true, if_false, Bool.or_false]

/-- CONTINUATION that is handled on an open stream, with END_HEADERS or without. -/
theorem processContinuation_ok (htyp : f.typ = fContinuation)
    (hs : c.streams.lookup f.streamId = some s) (hopen : s.state ≠ .closed)
    (h : c.processContinuation f = (.ok o, c')) :
    (∃ block fields, f.endedBlock s = some block ∧
        (c.decoder.decodeBlock block).1 = .ok fields ∧
        c'.streams = c.streams.insert f.streamId
          { s with headersBuf := [], responseHeaders := some fields } ∧
        o = ({ s with headersBuf := [], responseHeaders := some fields } : Stream).outcome
          f.streamId) ∨
      f.has flagEndHeaders = false ∧
        c' = c.setStream f.streamId { s with headersBuf := s.headersBuf ++ f.payload } := by
  unfold Connection.processContinuation at h
  simp only at h
  split at h
  · cases h
  simp only [hs] at h
  split at h
  · cases h
  next s₁ hpush =>
  have hlen : s.headersBuf.length + f.payload.length ≤ maxHeadersBuf := by
    unfold Stream.pushHeaderFragment at hpush
    split at hpush
    · cases hpush
    · next hle => exact Nat.not_lt.mp hle
  obtain rfl := pushHeaderFragment_eq_ok hpush
  cases hlast : f.has flagEndHeaders with
  | true =>
      refine .inl ⟨s.headersBuf ++ f.payload, ?_⟩
      have hne : fContinuation ≠ fHeaders := by decide
      have hblock : f.endedBlock s = some (s.headersBuf ++ f.payload) := by
        simp [Frame.endedBlock, htyp, hlast, hne, hlen]
      simp only [hlast, if_true, if_neg hopen] at h
      split at h
      · cases h
      · next fields decoder hdec =>
          obtain ⟨ho, rfl⟩ := Prod.mk.inj h
          exact ⟨fields, hblock, by rw [hdec], rfl, (Except.ok.inj ho).symm⟩
  | false =>
      simp only [hlast, Bool.false_eq_true, if_false] at h
      obtain ⟨-, rfl⟩ := Prod.mk.inj h
      exact .inr ⟨rfl, rfl⟩

theorem admits_kept (h : c.processFrame f = (.ok o, c')) (hid : f.streamId = 0)
    (htyp : f.typ = fHeaders ∨ f.typ = fContinuation ∨ f.typ = fData) : c' = c := by
  have hignored := processFrame_ignored (admits_of_ok h) hid (by
    rcases htyp with htyp | htyp | htyp <;> rw [htyp] <;> decide)
  rw [hignored] at h
  exact (Prod.mk.inj h).2.symm

theorem processFrame_headers (htyp : f.typ = fHeaders) (hadmits : c.admits f = true)
    (hid : f.streamId ≠ 0) : c.processFrame f = c.processHeaders f := by
  rw [processFrame_of_typ hadmits hid, Connection.processStreamFrame, if_pos htyp]

theorem processFrame_continuation (htyp : f.typ = fContinuation) (hadmits : c.admits f = true)
    (hid : f.streamId ≠ 0) : c.processFrame f = c.processContinuation f := by
  have hne : fContinuation ≠ fHeaders := by decide
  simp only [processFrame_of_typ hadmits hid, Connection.processStreamFrame, htyp, if_neg hne,
    if_true]

theorem recv_live {state state' : StreamState} (h : state = .open ∨ state = .halfClosedLocal)
    (hrecv : state.recvHeaders false = .ok state' ∨ state.recvData false = .ok state') :
    state' = .open ∨ state' = .halfClosedLocal := by
  rcases h with rfl | rfl <;> rcases hrecv with h | h <;> cases h
  · exact .inl rfl
  · exact .inl rfl
  · exact .inr rfl
  · exact .inr rfl

theorem recv_ended {state state' : StreamState} (h : state = .open ∨ state = .halfClosedLocal)
    (hrecv : state.recvHeaders true = .ok state' ∨ state.recvData true = .ok state') :
    state'.remoteDone = true ∧ (state = .open → state' = .halfClosedRemote) := by
  rcases h with rfl | rfl <;> rcases hrecv with h | h <;> cases h
  · exact ⟨rfl, fun _ => rfl⟩
  · exact ⟨rfl, fun _ => rfl⟩
  · exact ⟨rfl, nofun⟩
  · exact ⟨rfl, nofun⟩

/-- What a frame that is handled makes of an awaited stream: it is awaited still, or done, or
excluded. -/
def Connection.Heeds (c' : Connection) (f : Frame) (o : DispatchOutcome) (id : Nat) (s' : Stream) :
    Prop :=
  c'.Awaits id s' ∨ (o = .done id ∧ s'.complete = true) ∨
    (f.isGoaway ∧ f.lastStreamId < id ∧ s'.endStreamRecv = false ∧ s'.state = .closed)

/-- The frame ends an awaited stream that has response headers. -/
theorem heeds_of_ended (ho : o = s'.outcome id) (hdone : s'.state.remoteDone = true)
    (hended : s'.endStreamRecv = true) (hsome : s'.responseHeaders.isSome = true) :
    c'.Heeds f o id s' := by
  have hcomplete : s'.complete = true := by
    rw [Stream.complete, hdone, hended, hsome]
    rfl
  refine .inr (.inl ⟨?_, hcomplete⟩)
  rw [ho, Stream.outcome, if_pos hcomplete]

theorem heeds_headers (hframe : c.processFrame f = (.ok o, c')) (hreg : c.Regular f)
    (htyp : f.typ = fHeaders) (hid : f.streamId ≠ 0) (hs : c.streams.lookup f.streamId = some s)
    (hs' : c'.streams.lookup f.streamId = some s') (hended : s.endStreamRecv = false)
    (hstate : s.state = .open ∨ s.state = .halfClosedLocal)
    (hrecv : s.state.recvHeaders (f.has flagEndStream) = .ok s'.state)
    (hended' : s'.endStreamRecv = (s.endStreamRecv || f.has flagEndStream))
    (hheaders : if f.has flagEndHeaders then s'.responseHeaders.isSome
      else s'.responseHeaders = s.responseHeaders)
    (ho : o = s'.outcome f.streamId) : c'.Heeds f o f.streamId s' := by
  have hadmits := admits_of_ok hframe
  have hopen : s.state ≠ .closed := by rcases hstate with h | h <;> rw [h] <;> decide
  cases hend : f.has flagEndStream with
  | false =>
      rw [hend] at hrecv hended'
      exact .inl (.live (by rw [hended', hended]; rfl) (recv_live hstate (.inl hrecv)))
  | true =>
      rw [hend] at hrecv hended'
      obtain ⟨hdone, hremote⟩ := recv_ended hstate (.inl hrecv)
      have hended₁ : s'.endStreamRecv = true := by rw [hended', Bool.or_true]
      cases hsome : s'.responseHeaders with
      | some fields => exact heeds_of_ended ho hdone hended₁ (by rw [hsome]; rfl)
      | none =>
          -- the block goes on, and nothing of the response is in
          have hmore : f.has flagEndHeaders = false := by
            by_contra hlast
            rw [if_pos (Bool.not_eq_false _ ▸ hlast), hsome] at hheaders
            cases hheaders
          rw [if_neg (by rw [hmore]; nofun), hsome] at hheaders
          rw [processFrame_headers htyp hadmits hid] at hframe
          rcases processHeaders_ok htyp hs hopen hframe with
            ⟨block, fields, hblock, -⟩ | ⟨-, frag, state, hfrag, hlen, -, rfl⟩
          · rw [Frame.endedBlock, hmore] at hblock
            cases hblock
          have hheld : s.state = .open ∧ s.responseHeaders = none ∧
              s.sendBudget c.connSendWindow ≤ 0 := by
            by_contra hclosed
            exact hreg hadmits s hs (.split htyp hmore hend (Stream.hasFinal_of_none hheaders.symm)
              hfrag hlen hclosed)
          refine .inl (.inBlock hended₁ (hremote hheld.1) hsome rfl ?_)
          obtain rfl := Option.some.inj ((AList.lookup_insert _).symm.trans hs')
          exact hheld.2.2

/-- What every frame that is handled makes of an awaited stream. -/
theorem Connection.Awaits.handled (h : c.Awaits id s) (hs : c.streams.lookup id = some s)
    (hreg : c.Regular f) (hframe : c.processFrame f = (.ok o, c'))
    (hs' : c'.streams.lookup id = some s') : c'.Heeds f o id s' := by
  have hadmits := admits_of_ok hframe
  have hsame : c' = c → c'.Heeds f o id s' := by
    rintro rfl
    obtain rfl := Option.some.inj (hs.symm.trans hs')
    exact .inl h
  have htouches := processFrame_touch c f
  rw [hframe] at htouches
  obtain ⟨t, ht, htouch, -⟩ := htouches hs'
  obtain rfl := Option.some.inj (hs.symm.trans ht)
  cases h with
  | live hended hstate =>
      cases htouch with
      | kept same => exact .inl (.live (same.ended.trans hended) (same.state ▸ hstate))
      | doomed htyp hid _ hlast hclosed hended' =>
          exact .inr (.inr ⟨⟨hid, htyp⟩, hlast, hended'.trans hended, hclosed⟩)
      | reset _ _ hres | garbled _ _ _ hres => obtain ⟨e, he⟩ := hres; cases he
      | headers htyp hid hopen hrecv hended' hheaders hres =>
          subst hid
          by_cases hzero : f.streamId = 0
          · exact hsame (admits_kept hframe hzero (.inl htyp))
          · exact heeds_headers hframe hreg htyp hzero hs hs' hended hstate hrecv hended' hheaders
              (Except.ok.inj hres)
      | continued _ _ _ _ hstate' hended' =>
          exact .inl (.live (hended'.trans hended) (hstate' ▸ hstate))
      | data htyp hid hrecv hended' hheaders hres =>
          subst hid
          have ho : o = s'.outcome f.streamId := by
            rcases hres with hres | ⟨e, he⟩
            · exact Except.ok.inj hres
            · cases he
          by_cases hzero : f.streamId = 0
          · exact hsame (admits_kept hframe hzero (.inr (.inr htyp)))
          cases hend : f.has flagEndStream with
          | false =>
              rw [hend] at hrecv hended'
              exact .inl (.live (by rw [hended', hended]; rfl) (recv_live hstate (.inr hrecv)))
          | true =>
              rw [hend] at hrecv hended'
              obtain ⟨hdone, -⟩ := recv_ended hstate (.inr hrecv)
              have hended₁ : s'.endStreamRecv = true := by rw [hended', Bool.or_true]
              cases hsome : s'.responseHeaders with
              | some fields => exact heeds_of_ended ho hdone hended₁ (by rw [hsome]; rfl)
              | none =>
                  have hopen : s.state ≠ .closed := by
                    rcases hstate with h | h <;> rw [h] <;> decide
                  rw [processFrame_data htyp hadmits hzero] at hframe
                  exact absurd (.data htyp hend (Stream.hasFinal_of_none (hheaders ▸ hsome))
                    (dataPasses_of_ok hs hopen hframe)) (hreg hadmits s hs)
  | inBlock hended hstate hheaders hexp hbudget =>
      -- only the continuation of the block passes the gate
      have hgate := hadmits
      rw [Connection.admits, hexp] at hgate
      simp only [Bool.and_eq_true, decide_eq_true_eq] at hgate
      obtain ⟨htyp, rfl⟩ := hgate
      by_cases hzero : f.streamId = 0
      · exact hsame (admits_kept hframe hzero (.inr (.inl htyp)))
      have hopen : s.state ≠ .closed := by rw [hstate]; decide
      rw [processFrame_continuation htyp hadmits hzero] at hframe
      rcases processContinuation_ok htyp hs hopen hframe with
        ⟨block, fields, -, -, hstreams, ho⟩ | ⟨-, rfl⟩
      · rw [hstreams, AList.lookup_insert] at hs'
        obtain rfl := Option.some.inj hs'
        exact heeds_of_ended ho (by rw [hstate]; rfl) hended rfl
      · rw [Connection.lookup_setStream] at hs'
        obtain rfl := Option.some.inj hs'
        exact .inl (.inBlock hended hstate hheaders hexp hbudget)

/-- A frame that makes completion impossible, and is no GOAWAY, is not handled. -/
theorem Connection.Awaits.refuses (h : c.Awaits id s) (hs : c.streams.lookup id = some s)
    (hreg : c.Regular f) (hdooms : c.Dooms f id s) (hgoaway : ¬ f.isGoaway) :
    ∃ e c', c.processFrame f = (.error e, c') := by
  obtain ⟨res, c', hframe⟩ : ∃ res c', c.processFrame f = (res, c') := ⟨_, _, rfl⟩
  cases res with
  | error e => exact ⟨e, c', hframe⟩
  | ok o =>
  exfalso
  have hadmits := admits_of_ok hframe
  cases hdooms with
  | goaway hgo => exact hgoaway hgo
  | reset htyp hid hstream =>
      subst hid
      rw [processFrame_rst htyp hadmits hstream] at hframe
      unfold Connection.processRst at hframe
      simp only [hs, if_neg h.not_closed] at hframe
      split at hframe <;> cases hframe
  | ended hid hstream hends =>
      subst hid
      obtain ⟨htyp, hend⟩ | ⟨htyp, hlast, -⟩ | ⟨htyp, hlast, -⟩ := hends.ended
      · rw [processFrame_data htyp hadmits hstream] at hframe
        exact hreg hadmits s hs (.data htyp hend hends.headers
          (dataPasses_of_ok hs h.not_closed hframe))
      · rw [processFrame_headers htyp hadmits hstream] at hframe
        rcases processHeaders_ok htyp hs h.not_closed hframe with
          ⟨block, fields, hblock, hdec⟩ | ⟨hmore, -⟩
        · exact hreg hadmits s hs (.block hends hblock hdec)
        · rw [hmore] at hlast
          cases hlast
      · rw [processFrame_continuation htyp hadmits hstream] at hframe
        rcases processContinuation_ok htyp hs h.not_closed hframe with
          ⟨block, fields, hblock, hdec, -⟩ | ⟨hmore, -⟩
        · exact hreg hadmits s hs (.block hends hblock hdec)
        · rw [hmore] at hlast
          cases hlast

end

/-! ## One stream -/

/-- The stream is closed without a complete response. -/
def Stream.Wedged (s : Stream) : Prop := s.state = .closed ∧ s.complete = false

/-- A turn of `drive_until_stream_done` that goes on: the frame ends no stream too early, and is no
GOAWAY that excludes the stream. -/
inductive Drives (id : Nat) (c : Connection) : Connection → Prop
  | turn {f : Frame} {source : Source} {o : DispatchOutcome} {c' : Connection}
      (hread : readFrame c.tls.source = (.ok f, source))
      (hframe : (c.receive source f).processFrame f = (.ok o, c')) (hdone : o ≠ .done id)
      (hreg : c.Regular f) (hwithin : f.isGoaway → id ≤ f.lastStreamId) : Drives id c c'

/-- What holds at a turn `c'` of `drive_until_stream_done` entered at `c`. -/
structure Driven (id : Nat) (c c' : Connection) : Prop where
  /-- The driver gets there. -/
  reached : ∃ turns, ∀ fuel, c.driveUntilStreamDone (turns + fuel) id =
    c'.driveUntilStreamDone fuel id
  stream : ∃ s, c'.streams.lookup id = some s ∧ ¬ s.Wedged
  within : ∃ frames, c'.tls.received = c.tls.received ++ frames ∧
    ∀ f ∈ frames, f.isGoaway → id ≤ f.lastStreamId
  /-- A frame after which the stream cannot complete ends the wait. -/
  dooms : ∀ f source s, readFrame c'.tls.source = (.ok f, source) →
    c'.streams.lookup id = some s → c'.Dooms f id s → c'.Regular f →
    (f.isGoaway → id ≤ f.lastStreamId) →
    ∀ fuel, ∃ e, (c'.driveUntilStreamDone (fuel + 1) id).1 = .error e

section

variable {c c' : Connection} {id : Nat}

theorem Connection.Awaits.not_wedged {s : Stream} (h : c.Awaits id s) : ¬ s.Wedged :=
  fun hwedged => h.not_closed hwedged.1

/-- While the stream is awaited, the driver reads. -/
theorem Connection.Awaits.drive {s : Stream} (h : c.Awaits id s)
    (hs : c.streams.lookup id = some s) (fuel : Nat) :
    c.driveUntilStreamDone (fuel + 1) id =
      Connection.andThen c.readAndDispatch fun outcome c =>
        if outcome = .done id then c.takeStream id else c.driveUntilStreamDone fuel id := by
  rw [Connection.driveUntilStreamDone]
  simp only [hs, h.not_complete, Bool.false_eq_true, if_false]

theorem readAndDispatch_of_frame {f : Frame} {source : Source} {res : Result DispatchOutcome}
    (hread : readFrame c.tls.source = (.ok f, source))
    (hframe : (c.receive source f).processFrame f = (res, c')) :
    c.readAndDispatch = (res, c') := by
  rw [Connection.readAndDispatch, hread]
  exact hframe

theorem Drives.awaits (h : Drives id c c') {s : Stream} (hs : c.streams.lookup id = some s)
    (hawaits : c.Awaits id s) : ∃ s', c'.streams.lookup id = some s' ∧ c'.Awaits id s' := by
  cases h with
  | @turn f source o c' hread hframe hdone hreg hwithin =>
      have heff := processFrame_effect (c.receive source f) f
      rw [hframe] at heff
      obtain ⟨s', hs'⟩ : ∃ s', c'.streams.lookup id = some s' := heff.kept hs
      refine ⟨s', hs', ?_⟩
      have hstill : (c.receive source f).Awaits id s := hawaits.congr rfl rfl
      rcases hstill.handled hs (hreg.receive source) hframe hs' with h | ⟨rfl, -⟩ | ⟨hgoaway, hlast, -⟩
      · exact h
      · exact absurd rfl hdone
      · exact absurd (hwithin hgoaway) (Nat.not_le.mpr hlast)

/-- In a run without frames that end the stream too early, or exclude it. -/
theorem driven {s : Stream} (hs : c.streams.lookup id = some s) (hawaits : c.Awaits id s)
    (h : ReflTransGen (Drives id) c c') : Driven id c c' := by
  have hinv : (∃ s, c'.streams.lookup id = some s ∧ c'.Awaits id s) ∧
      (∃ turns, ∀ fuel, c.driveUntilStreamDone (turns + fuel) id =
        c'.driveUntilStreamDone fuel id) ∧
      ∃ frames, c'.tls.received = c.tls.received ++ frames ∧
        ∀ f ∈ frames, f.isGoaway → id ≤ f.lastStreamId := by
    induction h with
    | refl =>
        exact ⟨⟨s, hs, hawaits⟩, ⟨0, fun fuel => by rw [Nat.zero_add]⟩, [],
          (List.append_nil _).symm, List.forall_mem_nil _⟩
    | @tail c₁ c₂ _ hturn ih =>
        obtain ⟨⟨t, ht, hstill⟩, ⟨turns, hturns⟩, frames, hreceived, hwithin⟩ := ih
        refine ⟨hturn.awaits ht hstill, ⟨turns + 1, fun fuel => ?_⟩, ?_⟩
        · cases hturn with
          | turn hread hframe hdone =>
              rw [Nat.add_assoc, hturns, Nat.add_comm, hstill.drive ht,
                readAndDispatch_of_frame hread hframe, Connection.andThen, if_neg hdone]
        · cases hturn with
          | @turn f source o _ hread hframe hdone hreg hlast =>
              have heff := processFrame_effect (c₁.receive source f) f
              rw [hframe] at heff
              have hnow : c₂.tls.received = c₁.tls.received ++ [f] := heff.received_eq
              refine ⟨frames ++ [f], by rw [hnow, hreceived, List.append_assoc], ?_⟩
              intro g hg hgoaway
              rcases List.mem_append.mp hg with hg | hg
              · exact hwithin g hg hgoaway
              · obtain rfl := List.mem_singleton.mp hg
                exact hlast hgoaway
  obtain ⟨⟨t, ht, hstill⟩, hreached, hframes⟩ := hinv
  refine ⟨hreached, ⟨t, ht, hstill.not_wedged⟩, hframes, ?_⟩
  intro f source t' hread ht' hdooms hreg hwithin fuel
  obtain rfl := Option.some.inj (ht.symm.trans ht')
  have hgoaway : ¬ f.isGoaway := by
    intro hgoaway
    cases hdooms with
    | goaway _ hlast => exact absurd (hwithin hgoaway) (Nat.not_le.mpr hlast)
    | reset htyp => exact absurd (htyp.symm.trans hgoaway.2) (by decide)
    | ended hid hstream => exact hstream (hid.symm.trans hgoaway.1)
  have hawaits' : (c'.receive source f).Awaits id t := hstill.congr rfl rfl
  obtain ⟨e, c₁, hframe⟩ := hawaits'.refuses ht (hreg.receive source) (hdooms.receive source)
    hgoaway
  rw [hstill.drive ht, readAndDispatch_of_frame hread hframe]
  exact ⟨e, rfl⟩

end

end Rsurl.H2
