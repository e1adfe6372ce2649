/-
# `Rsurl.H2.Progress` — streams in the loop

How the states of the streams move in a batch: what sending does to them, what
the reaping of doomed streams leaves, and that every stream the peer has
finished is one it ended (`Marked`), which bounds the passes of the loop.
-/
import Mathlib.Data.Finset.Card
import Rsurl.H2.Slots
import Rsurl.H2.States

namespace Rsurl.H2

open Http (Request Response)
open Relation (ReflTransGen)

/-! ## Sending -/

/-- A stream after something was sent on it. -/
structure SentTo (s s' : Stream) : Prop where
  state : s'.state = s.state ∨ ∃ isLast, s.state.sendData isLast = .ok s'.state
  ended : s'.endStreamRecv = s.endStreamRecv
  headers : s'.responseHeaders = s.responseHeaders

theorem SentTo.refl (s : Stream) : SentTo s s := ⟨.inl rfl, rfl, rfl⟩

theorem remoteDone_of_sendData {state state' : StreamState} {isLast : Bool}
    (h : state.sendData isLast = .ok state') : state'.remoteDone = state.remoteDone := by
  cases state with
  | idle | «open» | halfClosedRemote => cases isLast <;> (cases h; rfl)
  | halfClosedLocal | closed => cases h

theorem SentTo.remoteDone {s s' : Stream} (h : SentTo s s') :
    s'.state.remoteDone = s.state.remoteDone := by
  rcases h.state with heq | ⟨_, hsend⟩
  · rw [heq]
  · exact remoteDone_of_sendData hsend

/-- Every stream afterwards is one of before, on which something may have been sent. -/
def Sends (c c' : Connection) : Prop :=
  ∀ ⦃id s'⦄, c'.streams.lookup id = some s' → ∃ s, c.streams.lookup id = some s ∧ SentTo s s'

theorem sends_of_streams_eq {c c' : Connection} (h : c'.streams = c.streams) : Sends c c' :=
  fun _ s' hs' => ⟨s', h ▸ hs', .refl s'⟩

theorem sends_of_insert {c c' : Connection} {id : Nat} {s s' : Stream}
    (hs : c.streams.lookup id = some s) (h : c'.streams = c.streams.insert id s')
    (hsent : SentTo s s') : Sends c c' := by
  intro j t ht
  rw [h] at ht
  by_cases hj : j = id
  · subst hj
    rw [AList.lookup_insert] at ht
    obtain rfl := Option.some.inj ht
    exact ⟨s, hs, hsent⟩
  · rw [AList.lookup_insert_ne hj] at ht
    exact ⟨t, ht, .refl t⟩

/-- The stream that `send_chunk` hands back. -/
theorem sendChunk_sent {c c' : Connection} {id : Nat} {s s' : Stream} {chunk : Bytes}
    {isLast : Bool} (h : c.sendChunk id s chunk isLast = (.ok s', c')) :
    SentTo s s' ∧ s'.pendingBody = s.pendingBody ∧
      c'.streams = c.streams.insert id s' := by
  unfold Connection.sendChunk at h
  split at h
  · cases h
  simp only at h
  split at h
  · cases h
  · next state hstate =>
      obtain ⟨hs, rfl⟩ := Prod.mk.inj h
      obtain rfl := Except.ok.inj hs
      exact ⟨⟨.inr ⟨isLast, hstate⟩, rfl, rfl⟩, rfl, rfl⟩

theorem sendChunk_sends {c c' : Connection} {id : Nat} {s : Stream} {chunk : Bytes}
    {isLast : Bool} {res : Result Stream} (hs : c.streams.lookup id = some s)
    (h : c.sendChunk id s chunk isLast = (res, c')) : Sends c c' := by
  obtain rfl := congrArg Prod.snd h
  unfold Connection.sendChunk
  split
  · exact sends_of_streams_eq rfl
  simp only
  split
  · exact sends_of_insert hs rfl ⟨.inl rfl, rfl, rfl⟩
  · next state hstate => exact sends_of_insert hs rfl ⟨.inr ⟨isLast, hstate⟩, rfl, rfl⟩

theorem Pumps.sends {ok : Bool} {maxFrameSize : Nat} {c c' : Connection}
    (h : Pumps ok maxFrameSize c c') : Sends c c' := by
  cases h with
  | cleared hs => exact sends_of_insert hs rfl ⟨.inl rfl, rfl, rfl⟩
  | @advanced id n s s' pb c' hs _ _ _ _ hsend =>
      obtain ⟨hsent, -, hstreams⟩ := sendChunk_sent hsend
      have hkept : SentTo s { s' with pendingBody := some { pb with sent := pb.sent + n } } :=
        ⟨hsent.state, hsent.ended, hsent.headers⟩
      refine sends_of_insert hs ?_ hkept
      rw [Connection.setStream, hstreams, AList.insert_insert]
  | @finished id n s s' pb c' hs _ _ _ _ hsend =>
      obtain ⟨hsent, -, hstreams⟩ := sendChunk_sent hsend
      have hkept : SentTo s { s' with pendingBody := none } :=
        ⟨hsent.state, hsent.ended, hsent.headers⟩
      refine sends_of_insert hs ?_ hkept
      rw [Connection.setStream, hstreams, AList.insert_insert]
  | failed _ hs _ _ _ hsend => exact sendChunk_sends hs hsend

/-- HEADERS that went out change the state of their stream only. -/
theorem sendHeadersOn_ok {c c' : Connection} {id : Nat} {req : Request} {s s' : Stream}
    (hs : c.streams.lookup id = some s) (h : c.sendHeadersOn id req = (.ok s', c')) :
    ∃ state, s.state.sendData req.body.isEmpty = .ok state ∧ s' = { s with state } ∧
      c'.streams = c.streams.insert id s' := by
  unfold Connection.sendHeadersOn at h
  simp only [Bool.not_not] at h
  split at h
  · cases h
  simp only [Connection.setSink, hs] at h
  split at h
  · cases h
  · next state hstate =>
      obtain ⟨hs', rfl⟩ := Prod.mk.inj h
      obtain rfl := Except.ok.inj hs'
      exact ⟨state, hstate, rfl, rfl⟩

/-- The stream of a staged request. -/
def Stream.staged (id : Nat) (w : Int) (req : Request) : Stream :=
  { Stream.new id w with
    state := if req.body.isEmpty then .halfClosedLocal else .open
    pendingBody := if req.body.isEmpty then none else some { bytes := req.body, sent := 0 } }

theorem stageRequestOn_ok {c c' : Connection} {id : Nat} {req : Request} {w : Int}
    (hs : c.streams.lookup id = some (.new id w)) (h : c.stageRequestOn id req = (.ok (), c')) :
    c'.streams = c.streams.insert id (.staged id w req) := by
  unfold Connection.stageRequestOn at h
  obtain ⟨res, c₁, hsend⟩ : ∃ res c₁, c.sendHeadersOn id req = (res, c₁) := ⟨_, _, rfl⟩
  rw [hsend] at h
  cases res with
  | error e => cases h
  | ok s' =>
  obtain ⟨state, hstate, rfl, hstreams⟩ := sendHeadersOn_ok hs hsend
  cases hempty : req.body.isEmpty with
  | true =>
      rw [hempty] at hstate
      obtain rfl := Except.ok.inj hstate
      simp only [Connection.andThen, hempty, if_true] at h
      obtain ⟨-, rfl⟩ := Prod.mk.inj h
      rw [hstreams, Stream.staged, hempty]
      rfl
  | false =>
      rw [hempty] at hstate
      obtain rfl := Except.ok.inj hstate
      simp only [Connection.andThen, hempty, Bool.false_eq_true, if_false] at h
      obtain ⟨-, rfl⟩ := Prod.mk.inj h
      rw [Connection.setStream, hstreams, AList.insert_insert, Stream.staged, hempty]
      rfl

/-- Streams other than the one HEADERS are for stay as they are. -/
theorem stageRequestOn_others (c : Connection) {id j : Nat} (req : Request) (hj : j ≠ id) :
    (c.stageRequestOn id req).2.streams.lookup j = c.streams.lookup j := by
  have hheaders : (c.sendHeadersOn id req).2.streams.lookup j = c.streams.lookup j := by
    unfold Connection.sendHeadersOn
    simp only
    split
    · rfl
    split
    · rfl
    split
    · rfl
    · rw [Connection.setStream, AList.lookup_insert_ne hj]
      rfl
  unfold Connection.stageRequestOn
  generalize c.sendHeadersOn id req = out at *
  obtain ⟨res, c₁⟩ := out
  cases res with
  | error e => exact hheaders
  | ok s =>
      change (if req.body.isEmpty then _ else _ : Result Unit × Connection).2.streams.lookup j = _
      split
      · exact hheaders
      · rw [Connection.setStream, AList.lookup_insert_ne hj]
        exact hheaders

/-! ## Starting -/

namespace Batch

variable {reqs : List Request}

/-- What a start does to the streams: one comes, staged under a fresh id, or none does. -/
theorem Starts.streams {b b' : Batch} (h : Starts reqs b b') (hacc : Accounted reqs b) :
    KeepsPeer b.conn b'.conn ∧ ∀ ⦃id s'⦄, b'.conn.streams.lookup id = some s' →
      b.conn.streams.lookup id = some s' ∨
        ∃ w req, s' = .staged id w req ∧ id = b.conn.nextStreamId := by
  cases h with
  | @refused idx queue e hqueue hopen =>
      rcases openStream_cases b.conn with ⟨e', heq⟩ | heq
      · rw [heq]
        exact ⟨⟨rfl, rfl, rfl⟩, fun _ _ => .inl⟩
      · rw [heq] at hopen
        cases hopen
  | @lost idx id queue conn hqueue hopen hreq =>
      have hout : idx ∈ b.out := by
        rw [out, hqueue]
        exact List.mem_cons_self
      exact absurd hreq (List.getElem?_eq_getElem (hacc.lt_length hout) ▸ Option.some_ne_none _)
  | @failed idx id queue conn conn' req e hqueue hopen hreq hstage =>
      have hkeeps := stageRequestOn_keepsPeer conn id req
      have hothers := @stageRequestOn_others conn id
      rw [hstage] at hkeeps
      rcases openStream_cases b.conn with ⟨e', heq⟩ | heq
      · rw [heq] at hopen
        cases hopen
      rw [heq] at hopen
      obtain ⟨hid, rfl⟩ := Prod.mk.inj hopen
      obtain rfl := Except.ok.inj hid
      refine ⟨⟨hkeeps.peer, hkeeps.goaway, hkeeps.source⟩, fun j s' hs' => .inl ?_⟩
      change (conn'.streams.erase b.conn.nextStreamId).lookup j = some s' at hs'
      have hj : j ≠ b.conn.nextStreamId := by
        rintro rfl
        rw [AList.lookup_erase] at hs'
        cases hs'
      have hsame := hothers req hj
      rw [hstage] at hsame
      change conn'.streams.lookup j = (AList.insert _ _ b.conn.streams).lookup j at hsame
      rw [AList.lookup_insert_ne hj] at hsame
      rwa [AList.lookup_erase_ne hj, hsame] at hs'
  | @started idx id queue conn conn' req hqueue hopen hreq hstage =>
      have hkeeps := stageRequestOn_keepsPeer conn id req
      rw [hstage] at hkeeps
      rcases openStream_cases b.conn with ⟨e', heq⟩ | heq
      · rw [heq] at hopen
        cases hopen
      rw [heq] at hopen
      obtain ⟨hid, rfl⟩ := Prod.mk.inj hopen
      obtain rfl := Except.ok.inj hid
      have hstreams := stageRequestOn_ok (AList.lookup_insert _) hstage
      refine ⟨⟨hkeeps.peer, hkeeps.goaway, hkeeps.source⟩, fun j s' hs' => ?_⟩
      change conn'.streams.lookup j = some s' at hs'
      rw [hstreams, AList.insert_insert] at hs'
      by_cases hj : j = b.conn.nextStreamId
      · subst hj
        rw [AList.lookup_insert] at hs'
        exact .inr ⟨_, req, (Option.some.inj hs').symm, rfl⟩
      · rw [AList.lookup_insert_ne hj] at hs'
        exact .inl hs'

end Batch

/-! ## Reading -/

/-- A read fails and takes what was there, or a frame is handled. -/
theorem readAndDispatch_cases (c : Connection) :
    (∃ e source, c.readAndDispatch = (.error e, { c with tls := { c.tls with source } }) ∧
        source.bytes.length ≤ c.tls.source.bytes.length) ∨
      ∃ f source, readFrame c.tls.source = (.ok f, source) ∧
        c.readAndDispatch = (c.receive source f).processFrame f ∧
        source.bytes.length + 9 ≤ c.tls.source.bytes.length := by
  unfold Connection.readAndDispatch
  split
  · next hread => exact .inl ⟨_, _, rfl, (readFrame_length hread).1⟩
  · next hread => exact .inl ⟨_, _, rfl, (readFrame_length hread).1⟩
  · next f source hread => exact .inr ⟨f, source, hread, rfl, (readFrame_length hread).2 rfl⟩

/-- Every stream the peer has finished was ended by it. -/
def Marked (c : Connection) : Prop :=
  ∀ ⦃id s⦄, c.streams.lookup id = some s → s.state.remoteDone = true → s.endStreamRecv = true

theorem Marked.sends {c c' : Connection} (h : Marked c) (hsends : Sends c c') : Marked c' := by
  intro id s' hs' hdone
  obtain ⟨s, hs, hsent⟩ := hsends hs'
  rw [hsent.ended]
  exact h hs (hsent.remoteDone ▸ hdone)

theorem Marked.stays {c c' : Connection} (h : Marked c)
    (hstays : ∀ {id s}, c'.streams.lookup id = some s → c.streams.lookup id = some s) :
    Marked c' :=
  fun _ _ hs => h (hstays hs)

theorem recvHeaders_remoteDone {state state' : StreamState} {endStream : Bool}
    (h : state.recvHeaders endStream = .ok state') (hdone : state'.remoteDone = true) :
    endStream = true ∨ state.remoteDone = true := by
  cases endStream with
  | true => exact .inl rfl
  | false =>
      cases state with
      | idle | halfClosedRemote => cases h
      | «open» | halfClosedLocal => cases h; cases hdone
      | closed => exact .inr rfl

theorem recvData_remoteDone {state state' : StreamState} {endStream : Bool}
    (h : state.recvData endStream = .ok state') (hdone : state'.remoteDone = true) :
    endStream = true := by
  cases endStream with
  | true => rfl
  | false =>
      cases state with
      | idle | halfClosedRemote | closed => cases h
      | «open» | halfClosedLocal => cases h; cases hdone

/-- A frame leaves a stream marked, unless it is a GOAWAY or RST_STREAM that closes it. -/
theorem Touch.marked {f : Frame} {res : Result DispatchOutcome} {id : Nat} {s s' : Stream}
    (h : Touch f res id s s') (hmark : s.state.remoteDone = true → s.endStreamRecv = true)
    (hdone : s'.state.remoteDone = true) :
    s'.endStreamRecv = true ∨
      (f.typ = fGoaway ∧ f.streamId = 0 ∧ res = .ok .cont ∧ f.lastStreamId < id) ∨
      (s'.state = .closed ∧ ∃ e, res = .error e) := by
  cases h with
  | kept same =>
      rw [same.ended]
      exact .inl (hmark (same.state ▸ hdone))
  | doomed htyp hid hres hlast => exact .inr (.inl ⟨htyp, hid, hres, hlast⟩)
  | reset _ _ hres _ hstate => exact .inr (.inr ⟨hstate, hres⟩)
  | headers _ _ _ hstate hended =>
      rw [hended]
      rcases recvHeaders_remoteDone hstate hdone with hend | hwas
      · exact .inl (by rw [hend, Bool.or_true])
      · exact .inl (by rw [hmark hwas, Bool.true_or])
  | garbled _ _ _ _ hstate hended =>
      rw [hended, hmark (hstate ▸ hdone), Bool.true_or]
      exact .inl rfl
  | continued _ _ _ _ hstate hended =>
      rw [hended]
      exact .inl (hmark (hstate ▸ hdone))
  | data _ _ hstate hended =>
      rw [hended, recvData_remoteDone hstate hdone, Bool.or_true]
      exact .inl rfl

namespace Batch

variable {reqs : List Request}

/-! ## Reaping -/

theorem failDoomed_conn (last : Nat) (b : Batch) (id : Nat) :
    ∃ streams, (failDoomed last b id).conn = { b.conn with streams } := by
  unfold failDoomed
  split
  · exact ⟨_, rfl⟩
  · exact ⟨_, rfl⟩

theorem foldl_failDoomed {b : Batch} (h : Accounted reqs b) (last : Nat) (doomed : List Nat) :
    (∃ streams, (doomed.foldl (failDoomed last) b).conn = { b.conn with streams }) ∧
      ∀ j, (doomed.foldl (failDoomed last) b).conn.streams.lookup j =
        if j ∈ doomed then none else b.conn.streams.lookup j := by
  induction doomed generalizing b with
  | nil => exact ⟨⟨_, rfl⟩, fun j => by simp⟩
  | cons id doomed ih =>
      obtain ⟨⟨streams, hconn⟩, hlook⟩ := ih (h.failDoomed last id).1
      obtain ⟨streams', hconn'⟩ := failDoomed_conn last b id
      refine ⟨⟨streams, by rw [List.foldl_cons, hconn, hconn']⟩, fun j => ?_⟩
      have hone : (failDoomed last b id).conn.streams.lookup j =
          if j = id then none else b.conn.streams.lookup j := by
        unfold failDoomed
        split
        · next hnone =>
            split
            · next hj =>
                subst hj
                by_contra hne
                obtain ⟨s, hs⟩ := Option.ne_none_iff_exists'.mp hne
                obtain ⟨idx, hidx⟩ := (h.registered j).mp ⟨s, hs⟩
                rw [hnone] at hidx
                cases hidx
            · rfl
        · change (b.conn.streams.erase id).lookup j = _
          split
          · next hj => rw [hj, AList.lookup_erase]
          · next hj => rw [AList.lookup_erase_ne hj]
      rw [List.foldl_cons, hlook, hone]
      by_cases hj : j = id <;> simp [hj]

/-- A GOAWAY leaves the streams it names, and those that have a complete response. -/
theorem failGoawayDoomed_lookup {b : Batch} (h : Accounted reqs b) :
    (∃ streams, b.failGoawayDoomed.conn = { b.conn with streams }) ∧
      ∀ ⦃id s⦄, b.failGoawayDoomed.conn.streams.lookup id = some s ↔
        b.conn.streams.lookup id = some s ∧
          ∀ last, b.conn.goawayReceived = some last → last < id →
            (s.endStreamRecv && s.responseHeaders.isSome) = true := by
  unfold failGoawayDoomed
  split
  · next hnone =>
      refine ⟨⟨_, rfl⟩, fun id s => ⟨fun hs => ⟨hs, ?_⟩, And.left⟩⟩
      rw [hnone]
      exact nofun
  · next last hlast =>
      simp only
      generalize hdoomed : List.filter _ b.idToIdx.keys = doomed
      obtain ⟨hconn, hlook⟩ := foldl_failDoomed h last doomed
      refine ⟨hconn, fun id s => ?_⟩
      have hmem : ∀ {s}, b.conn.streams.lookup id = some s →
          (id ∈ doomed ↔ last < id ∧ (s.endStreamRecv && s.responseHeaders.isSome) = false) := by
        intro s hs
        have hkey : id ∈ b.idToIdx.keys := by
          obtain ⟨idx, hidx⟩ := (h.registered id).mp ⟨s, hs⟩
          rw [← AList.mem_keys, ← AList.lookup_isSome, hidx]
          rfl
        rw [← hdoomed, List.mem_filter]
        simp only [hkey, hs, true_and, Bool.and_eq_true, decide_eq_true_eq, Bool.not_eq_true']
      rw [hlook, hlast]
      constructor
      · intro hs
        split at hs
        · cases hs
        · next hnot =>
            refine ⟨hs, fun last' hlast' hlt => ?_⟩
            obtain rfl := Option.some.inj hlast'
            by_contra hne
            exact hnot ((hmem hs).mpr ⟨hlt, Bool.eq_false_iff.mpr hne⟩)
      · rintro ⟨hs, hall⟩
        rw [if_neg]
        · exact hs
        · intro hin
          obtain ⟨hlt, hfalse⟩ := (hmem hs).mp hin
          rw [hall last rfl hlt] at hfalse
          cases hfalse

end Batch
end Rsurl.H2
