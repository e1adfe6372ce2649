/-
# `Rsurl.H2.Trace` — what happens on a connection, event by event

`Acts` is one act of a connection with the events it makes: a stream opened, a
request put on it, a frame handled or refused, a frame written.  Both drivers
are runs of acts (`traces_runOneRequest` here, `traces_runMultiplexed` in
`Rsurl.H2.TraceBatch`), so a ledger kept over events says what they do on the
wire.  Acts flagged `true` are those of a run in which nothing goes wrong.
-/
import Rsurl.Base.Trace
import Rsurl.H2.Run
import Rsurl.H2.Sending
import Rsurl.H2.States

namespace Rsurl.H2

open Http (Header Request Response)

/-! ## Events -/

/-- What can be seen of a connection: streams and requests, and the frames in either
direction. -/
inductive Event where
  | opened (id : Nat)
  | request (id : Nat) (req : Request)
  | inbound (f : Frame) (handled : Bool)
  | outbound (f : Frame)

namespace Event

/-- The frame that came in, handled or not. -/
def came : Event → Option Frame
  | inbound f _ => some f
  | _ => none

/-- The frame that went out. -/
def went : Event → Option Frame
  | outbound f => some f
  | _ => none

/-- The stream is opened. -/
def opens (id : Nat) : Event → Bool
  | opened i => i = id
  | _ => false

end Event

/-- Which of the two send paths a run may take, that of `run_one_request`, that of
`run_multiplexed`, or both. -/
inductive Path where
  | single
  | multi
  | both
deriving DecidableEq

namespace Connection

/-- The frames `process_frame` answers a frame with when it handles it. -/
def answers (c : Connection) (f : Frame) : List Frame :=
  if f.streamId = 0 then
    if f.typ = fSettings then
      if f.has flagAck then []
      else [{ typ := fSettings, flags := flagAck, streamId := 0, payload := [] }]
    else if f.typ = fPing then
      if f.has flagAck then []
      else [{ typ := fPing, flags := flagAck, streamId := 0, payload := f.payload }]
    else []
  else if f.typ = fData then
    ((c.connRecvWindow.consume f.payload.length).replenish 0).1.toList ++
      match c.streams.lookup f.streamId with
      | none => []
      | some s => ((s.recvWindow.consume f.payload.length).replenish f.streamId).1.toList
  else []

/-- What the pump notes of a chunk of `n` bytes that was the last or not. -/
def afterPump (id : Nat) (pb : PendingBody) (n : Nat) (isLast : Bool) :
    Result Stream × Connection → Connection
  | (.error _, c) => c
  | (.ok s, c) =>
      c.setStream id { s with
        pendingBody := if isLast then none else some { pb with sent := pb.sent + n } }

end Connection

/-! ## Acts -/

/-- What a write that fails leaves of the encoder and of the write half: that of a header block, or
that of a chunk. -/
inductive Breaks (c : Connection) : Encoder → Sink → Prop
  | heads (id : Nat) (req : Request) :
      Breaks c (buildHeaderBlock c.encoder req).2 (writeFrames c.tls.sink (c.headerFrames id req)).2
  | chunk {id : Nat} {chunk : Bytes} {isLast : Bool} {e : Error} {sink : Sink}
      (h : writeFrame c.tls.sink (dataFrame id chunk isLast) = (.error e, sink)) :
      Breaks c c.encoder sink

/-- One act on the path `p`, with its events; with `ok`, one of a run in which nothing goes
wrong. -/
inductive Acts (p : Path) (ok : Bool) (c : Connection) : List Event → Connection → Prop
  | opens {id : Nat} {c' : Connection} (h : c.openStream = (.ok id, c')) :
      Acts p ok c [.opened id] c'
  | heads {id : Nat} {req : Request} {s : Stream} {c' : Connection} (hp : p ≠ .multi)
      (h : c.sendHeadersOn id req = (.ok s, c')) :
      Acts p ok c (.request id req :: (c.headerFrames id req).map .outbound) c'
  /-- A turn of `start_queued`. -/
  | starts {id : Nat} {req : Request} {c₁ c' : Connection} (hp : p ≠ .single)
      (hopen : c.openStream = (.ok id, c₁)) (h : c₁.stageRequestOn id req = (.ok (), c')) :
      Acts p ok c (.opened id :: .request id req :: (c₁.headerFrames id req).map .outbound) c'
  /-- A turn of `send_request_on`. -/
  | chunk {id n : Nat} {s : Stream} {remaining : Bytes} {res : Result Stream} {c' : Connection}
      (hp : p ≠ .multi) (hs : c.streams.lookup id = some s)
      (hbudget : 0 < s.sendBudget c.connSendWindow)
      (hsize : n = nextDataChunkSize c.peer.maxFrameSize (s.sendBudget c.connSendWindow)
        remaining.length)
      (hwrite : (writeFrame c.tls.sink
        (dataFrame id (remaining.take n) (remaining.drop n).isEmpty)).1 = .ok ())
      (h : c.sendChunk id s (remaining.take n) (remaining.drop n).isEmpty = (res, c'))
      (hok : Allowed ok res) :
      Acts p ok c [.outbound (dataFrame id (remaining.take n) (remaining.drop n).isEmpty)] c'
  /-- A turn of `pump_pending_sends`. -/
  | pump {id n : Nat} {s : Stream} {pb : PendingBody} {isLast : Bool} {res : Result Stream}
      {c' : Connection} (hp : p ≠ .single) (hs : c.streams.lookup id = some s)
      (hpending : s.pendingBody = some pb)
      (hsize : n = nextDataChunkSize c.peer.maxFrameSize (s.sendBudget c.connSendWindow)
        (pb.bytes.length - pb.sent))
      (hpos : n ≠ 0) (hlast : isLast = decide (n = pb.bytes.length - pb.sent))
      (hwrite : (writeFrame c.tls.sink
        (dataFrame id ((pb.bytes.drop pb.sent).take n) isLast)).1 = .ok ())
      (h : c.sendChunk id s ((pb.bytes.drop pb.sent).take n) isLast = (res, c'))
      (hok : Allowed ok res) :
      Acts p ok c [.outbound (dataFrame id ((pb.bytes.drop pb.sent).take n) isLast)]
        (Connection.afterPump id pb n isLast (res, c'))
  | cleared {id : Nat} {s : Stream} {pb : PendingBody} (hp : p ≠ .single)
      (hs : c.streams.lookup id = some s) (hpending : s.pendingBody = some pb)
      (hsent : pb.bytes.length - pb.sent = 0) :
      Acts p ok c [] (c.setStream id { s with pendingBody := none })
  | handled {source : Source} {f : Frame} {o : DispatchOutcome} {c' : Connection}
      (h : (c.receive source f).processFrame f = (.ok o, c')) :
      Acts p ok c (.inbound f true :: (c.answers f).map .outbound) c'
  | refused {source : Source} {f : Frame} {e : Error} {c' : Connection} (hok : ok = false)
      (h : (c.receive source f).processFrame f = (.error e, c')) :
      Acts p ok c [.inbound f false] c'
  /-- Streams are handed out or dropped, or the source has ended. -/
  | drops {streams : Streams} {source : Source}
      (h : ∀ {id s}, streams.lookup id = some s → c.streams.lookup id = some s) :
      Acts p ok c [] { c with streams, tls := { c.tls with source } }
  /-- Something could not be written. -/
  | breaks {encoder : Encoder} {sink : Sink} (hok : ok = false) (h : Breaks c encoder sink) :
      Acts p ok c [] { c with encoder, tls := { c.tls with sink } }

/-- A run of acts. -/
abbrev Traced (p : Path) (ok : Bool) (c : Connection) : List Event → Connection → Prop :=
  Base.Trace (Acts p ok) c

/-- A function on a connection is a run of acts, and what happens satisfies `P`; with `ok`, if it
succeeds. -/
def Traces (p : Path) (ok : Bool) (P : List Event → Prop) {α : Type} (c : Connection)
    (out : Result α × Connection) : Prop :=
  Allowed ok out.1 → ∃ evs, Traced p ok c evs out.2 ∧ P evs

theorem Acts.weaken {p : Path} {ok : Bool} {c c' : Connection} {evs : List Event}
    (h : Acts p ok c evs c') : Acts .both false c evs c' := by
  have hboth : Path.both ≠ .single ∧ Path.both ≠ .multi := by decide
  cases h with
  | opens h => exact .opens h
  | heads _ h => exact .heads hboth.2 h
  | starts _ hopen h => exact .starts hboth.1 hopen h
  | chunk _ hs hbudget hsize hwrite h => exact .chunk hboth.2 hs hbudget hsize hwrite h nofun
  | pump _ hs hpending hsize hpos hlast hwrite h =>
      exact .pump hboth.1 hs hpending hsize hpos hlast hwrite h nofun
  | cleared _ hs hpending hsent => exact .cleared hboth.1 hs hpending hsent
  | handled h => exact .handled h
  | refused _ h => exact .refused rfl h
  | drops h => exact .drops h
  | breaks _ h => exact .breaks rfl h

theorem openStream_eq_ok {c c' : Connection} {id : Nat} (h : c.openStream = (.ok id, c')) :
    id = c.nextStreamId ∧ c' = { c with
      nextStreamId := c.nextStreamId + 2
      streams := c.streams.insert c.nextStreamId
        (.new c.nextStreamId c.peer.initialWindowSize) } := by
  rcases openStream_cases c with ⟨e, heq⟩ | heq
  · cases heq.symm.trans h
  · obtain ⟨hid, hc⟩ := Prod.mk.inj (h.symm.trans heq)
    exact ⟨Except.ok.inj hid, hc⟩

/-- A stream that is not opened leaves no mark. -/
theorem openStream_eq_error {c c' : Connection} {e : Error} (h : c.openStream = (.error e, c')) :
    c' = c := by
  rcases openStream_cases c with ⟨e', heq⟩ | heq
  · exact (Prod.mk.inj (h.symm.trans heq)).2
  · cases heq.symm.trans h

theorem moves_of_sendChunk {c c' : Connection} {id : Nat} {s : Stream} {chunk : Bytes}
    {isLast : Bool} {res : Result Stream} (hs : c.streams.lookup id = some s)
    (h : c.sendChunk id s chunk isLast = (res, c')) : Moves c c' := by
  have hmoves := (sendChunk_moves hs chunk isLast).1
  rwa [h] at hmoves

theorem came_of_outbound (fs : List Frame) : (fs.map Event.outbound).filterMap Event.came = [] := by
  rw [List.filterMap_map]
  exact List.filterMap_eq_nil_iff.mpr fun f _ => rfl

/-- The frames that come in are those the transport hands over. -/
theorem Acts.received {p : Path} {ok : Bool} {c c' : Connection} {evs : List Event}
    (h : Acts p ok c evs c') : c'.tls.received = c.tls.received ++ evs.filterMap Event.came := by
  have hnone : ∀ fs : List Frame, c.tls.received =
      c.tls.received ++ (fs.map Event.outbound).filterMap Event.came := by
    intro fs
    rw [came_of_outbound, List.append_nil]
  cases h with
  | opens h =>
      obtain ⟨-, rfl⟩ := openStream_eq_ok h
      exact hnone []
  | @heads id req s c' _ h =>
      have hmoves := (sendHeadersOn_moves c id req).1
      rw [h] at hmoves
      exact hmoves.received.trans (hnone _)
  | @starts id req c₁ c' _ hopen h =>
      obtain ⟨-, hc₁⟩ := openStream_eq_ok hopen
      have hmoves := stageRequestOn_moves c₁ id req
      rw [h] at hmoves
      have hsame : c₁.tls.received = c.tls.received := by rw [hc₁]
      exact (hmoves.received.trans hsame).trans (hnone _)
  | chunk _ hs _ _ _ h =>
      exact (moves_of_sendChunk hs h).received.trans (hnone [_])
  | @pump id n s pb isLast res c' _ hs _ _ _ _ _ h =>
      refine Eq.trans ?_ ((moves_of_sendChunk hs h).received.trans (hnone [_]))
      unfold Connection.afterPump
      cases res <;> rfl
  | cleared | drops | breaks => exact hnone []
  | @handled source f o c' h =>
      have heff := processFrame_effect (c.receive source f) f
      rw [h] at heff
      rw [heff.received_eq]
      show c.tls.received ++ [f] = c.tls.received ++ f :: _
      rw [came_of_outbound]
  | @refused source f e c' _ h =>
      have heff := processFrame_effect (c.receive source f) f
      rw [h] at heff
      exact heff.received_eq

theorem Traced.received {p : Path} {ok : Bool} {c c' : Connection} {evs : List Event}
    (h : Traced p ok c evs c') :
    c'.tls.received = c.tls.received ++ evs.filterMap Event.came := by
  refine Base.Trace.invariant
    (I := fun evs c' => c'.tls.received = c.tls.received ++ evs.filterMap Event.came) ?_ ?_ h
  · rw [List.filterMap_nil, List.append_nil]
  · intro evs new c₁ c₂ hevs hact
    rw [hact.received, hevs, List.filterMap_append, List.append_assoc]

/-- The streams opened. -/
def openings (evs : List Event) : Nat :=
  Base.total (fun | .opened _ => 1 | _ => 0) evs

theorem openings_of_outbound (fs : List Frame) : openings (fs.map Event.outbound) = 0 := by
  refine Base.total_eq_zero fun e he => ?_
  obtain ⟨f, -, rfl⟩ := List.mem_map.mp he
  rfl

/-- Every opening takes one id. -/
theorem Acts.next {p : Path} {ok : Bool} {c c' : Connection} {evs : List Event}
    (h : Acts p ok c evs c') : c'.nextStreamId = c.nextStreamId + 2 * openings evs := by
  cases h with
  | opens h =>
      obtain ⟨-, rfl⟩ := openStream_eq_ok h
      rfl
  | @heads id req s c' _ h =>
      have hmoves := (sendHeadersOn_moves c id req).1
      rw [h] at hmoves
      rw [openings, Base.total_cons, ← openings, openings_of_outbound]
      exact hmoves.next
  | @starts id req c₁ c' _ hopen h =>
      obtain ⟨-, hc₁⟩ := openStream_eq_ok hopen
      have hmoves := stageRequestOn_moves c₁ id req
      rw [h] at hmoves
      rw [openings, Base.total_cons, Base.total_cons, ← openings, openings_of_outbound]
      exact hmoves.next.trans (by rw [hc₁]; rfl)
  | chunk _ hs _ _ _ h => exact (moves_of_sendChunk hs h).next
  | @pump id n s pb isLast res c' _ hs _ _ _ _ _ h =>
      refine Eq.trans ?_ (moves_of_sendChunk hs h).next
      unfold Connection.afterPump
      cases res <;> rfl
  | cleared | drops | breaks => rfl
  | @handled source f o c' h =>
      have heff := processFrame_effect (c.receive source f) f
      rw [h] at heff
      rw [openings, Base.total_cons, ← openings, openings_of_outbound]
      exact heff.next_eq
  | @refused source f e c' _ h =>
      have heff := processFrame_effect (c.receive source f) f
      rw [h] at heff
      exact heff.next_eq

theorem Traced.next {p : Path} {ok : Bool} {c c' : Connection} {evs : List Event}
    (h : Traced p ok c evs c') : c'.nextStreamId = c.nextStreamId + 2 * openings evs := by
  refine Base.Trace.invariant
    (I := fun evs c' => c'.nextStreamId = c.nextStreamId + 2 * openings evs) rfl ?_ h
  intro evs new c₁ c₂ hevs hact
  rw [hact.next, hevs, openings, openings, openings, Base.total_append, Nat.mul_add, Nat.add_assoc]

/-- Where ids were taken, a stream was opened. -/
theorem Traced.exists_opened {p : Path} {ok : Bool} {c c' : Connection} {evs : List Event}
    (h : Traced p ok c evs c') (hne : c'.nextStreamId ≠ c.nextStreamId) :
    ∃ id, .opened id ∈ evs := by
  by_contra hno
  refine hne ((Traced.next h).trans ?_)
  have hzero : openings evs = 0 := by
    refine Base.total_eq_zero fun e he => ?_
    cases e with
    | opened id => exact absurd ⟨id, he⟩ hno
    | _ => rfl
  rw [hzero, Nat.mul_zero, Nat.add_zero]

theorem openStream_keepsPeer {c c' : Connection} {res : Result Nat}
    (h : c.openStream = (res, c')) : c'.peer = c.peer ∧ c'.goawayReceived = c.goawayReceived := by
  rcases openStream_cases c with ⟨e, heq⟩ | heq
  · obtain ⟨-, rfl⟩ := Prod.mk.inj (heq.symm.trans h)
    exact ⟨rfl, rfl⟩
  · obtain ⟨-, rfl⟩ := Prod.mk.inj (heq.symm.trans h)
    exact ⟨rfl, rfl⟩

/-- A frame is the only act that may change the settings or note a GOAWAY. -/
theorem Acts.keepsPeer {p : Path} {ok : Bool} {c c' : Connection} {evs : List Event}
    (h : Acts p ok c evs c') (hno : ∀ f handled, .inbound f handled ∉ evs) :
    c'.peer = c.peer ∧ c'.goawayReceived = c.goawayReceived := by
  cases h with
  | opens h => exact openStream_keepsPeer h
  | @heads id req s c' _ h =>
      have hkeeps := sendHeadersOn_keepsPeer c id req
      rw [h] at hkeeps
      exact ⟨hkeeps.peer, hkeeps.goaway⟩
  | @starts id req c₁ c' _ hopen h =>
      obtain ⟨hpeer, hgoaway⟩ := openStream_keepsPeer hopen
      have hkeeps := stageRequestOn_keepsPeer c₁ id req
      rw [h] at hkeeps
      exact ⟨hkeeps.peer.trans hpeer, hkeeps.goaway.trans hgoaway⟩
  | chunk _ _ _ _ _ h =>
      have hkeeps := sendChunk_keepsPeer h
      exact ⟨hkeeps.peer, hkeeps.goaway⟩
  | @pump id n s pb isLast res c' _ _ _ _ _ _ _ h =>
      have hkeeps := sendChunk_keepsPeer h
      unfold Connection.afterPump
      cases res <;> exact ⟨hkeeps.peer, hkeeps.goaway⟩
  | cleared | drops | breaks => exact ⟨rfl, rfl⟩
  | handled => exact absurd List.mem_cons_self (hno _ _)
  | refused => exact absurd List.mem_cons_self (hno _ _)

theorem Acts.sane {p : Path} {ok : Bool} {c c' : Connection} {evs : List Event}
    (h : Acts p ok c evs c') (hsane : c.Sane) : c'.Sane := by
  by_cases hno : ∀ f handled, .inbound f handled ∉ evs
  · unfold Connection.Sane
    rw [(h.keepsPeer hno).1]
    exact hsane
  cases h with
  | @handled source f o c' h =>
      have hframe := processFrame_sane (c.receive source f) f hsane
      rwa [h] at hframe
  | @refused source f e c' _ h =>
      have hframe := processFrame_sane (c.receive source f) f hsane
      rwa [h] at hframe
  | _ => exact absurd (by simp) hno

theorem Traced.sane {p : Path} {ok : Bool} {c c' : Connection} {evs : List Event}
    (h : Traced p ok c evs c') (hsane : c.Sane) : c'.Sane :=
  Base.Trace.invariant (I := fun _ c => c.Sane) hsane (fun hs hact => hact.sane hs) h

/-! ## One request -/

section

variable {p : Path} {ok : Bool} {α β : Type} {c : Connection} {P Q : List Event → Prop}

theorem Traces.refl (res : Result α) (hP : P []) : Traces p ok P c (res, c) :=
  fun _ => ⟨[], .nil, hP⟩

theorem Traces.mono {out : Result α × Connection} (h : Traces p ok P c out)
    (hPQ : ∀ evs, P evs → Q evs) : Traces p ok Q c out :=
  fun hok => (h hok).imp fun evs hevs => ⟨hevs.1, hPQ evs hevs.2⟩

/-- Two functions in sequence. -/
theorem Traces.andThen {R : List Event → Prop} {x : Result α × Connection}
    {k : α → Connection → Result β × Connection} (hx : Traces p ok P c x)
    (hk : ∀ a, x.1 = .ok a → Traces p ok Q x.2 (k a x.2)) (herr : ∀ evs, P evs → R evs)
    (hPQ : ∀ evs evs', P evs → Q evs' → R (evs ++ evs')) :
    Traces p ok R c (Connection.andThen x k) := by
  intro hok
  obtain ⟨res, c₁⟩ := x
  cases res with
  | error e =>
      obtain ⟨evs, htrace, hevs⟩ := hx fun h => absurd (hok h) nofun
      exact ⟨evs, htrace, herr evs hevs⟩
  | ok a =>
      obtain ⟨evs, htrace, hevs⟩ := hx fun _ => ⟨a, rfl⟩
      obtain ⟨evs', htrace', hevs'⟩ := hk a rfl hok
      exact ⟨evs ++ evs', htrace.trans htrace', hPQ evs evs' hevs hevs'⟩

/-- The frame carries neither DATA nor the head of a request. -/
def Frame.Plain (f : Frame) : Prop := f.typ ≠ fData ∧ f.typ ≠ fHeaders

/-- Nothing happens but that frames are taken in and answered. -/
def Listens (evs : List Event) : Prop :=
  ∀ e ∈ evs, (∃ f handled, e = .inbound f handled) ∨ ∃ f, e = .outbound f ∧ f.Plain

theorem listens_nil : Listens [] := by
  intro e he
  cases he

theorem Listens.append {evs evs' : List Event} (h : Listens evs) (h' : Listens evs') :
    Listens (evs ++ evs') := by
  intro e he
  rcases List.mem_append.mp he with he | he
  · exact h e he
  · exact h' e he

theorem windowUpdateFrame_typ (id n : Nat) : (windowUpdateFrame id n).typ = fWindowUpdate := rfl

theorem replenish_typ {w : RecvWindow} {id : Nat} {g : Frame}
    (h : g ∈ (w.replenish id).1.toList) : g.Plain := by
  unfold RecvWindow.replenish at h
  split at h
  · rw [Option.toList_some, List.mem_singleton] at h
    rw [h, Frame.Plain, windowUpdateFrame_typ]
    decide
  · cases h

/-- No answer carries anything of a request. -/
theorem answers_plain (c : Connection) (f : Frame) {g : Frame} (h : g ∈ c.answers f) :
    g.Plain := by
  have hne : (fSettings ≠ fData ∧ fSettings ≠ fHeaders) ∧ fPing ≠ fData ∧ fPing ≠ fHeaders := by
    decide
  unfold Connection.answers at h
  split at h
  · split at h
    · split at h
      · cases h
      · rw [List.mem_singleton.mp h]
        exact hne.1
    split at h
    · split at h
      · cases h
      · rw [List.mem_singleton.mp h]
        exact hne.2
    · cases h
  split at h
  · rcases List.mem_append.mp h with h | h
    · exact replenish_typ h
    · split at h
      · cases h
      · exact replenish_typ h
  · cases h

theorem answers_typ (c : Connection) (f : Frame) {g : Frame} (h : g ∈ c.answers f) :
    g.typ ≠ fData := (answers_plain c f h).1

theorem listens_handled (c : Connection) (f : Frame) :
    Listens (.inbound f true :: (c.answers f).map .outbound) := by
  intro e he
  rcases List.mem_cons.mp he with rfl | he
  · exact .inl ⟨f, true, rfl⟩
  · obtain ⟨g, hg, rfl⟩ := List.mem_map.mp he
    exact .inr ⟨g, rfl, answers_plain c f hg⟩

theorem traces_readAndDispatch (p : Path) (ok : Bool) (c : Connection) :
    Traces p ok Listens c c.readAndDispatch := by
  intro hok
  unfold Connection.readAndDispatch at hok ⊢
  split
  · exact ⟨[], .single (.drops id), listens_nil⟩
  · exact ⟨[], .single (.drops id), listens_nil⟩
  next f source hread =>
  simp only [hread] at hok
  obtain ⟨res, c', hframe⟩ : ∃ res c', (c.receive source f).processFrame f = (res, c') :=
    ⟨_, _, rfl⟩
  rw [hframe] at hok ⊢
  cases res with
  | ok o => exact ⟨_, .single (.handled hframe), listens_handled c f⟩
  | error e =>
      refine ⟨_, .single (.refused (Allowed.of_error hok) hframe), ?_⟩
      intro e he
      rw [List.mem_singleton.mp he]
      exact .inl ⟨f, false, rfl⟩

/-- The write in `send_chunk` went through, or nothing else happened. -/
theorem sendChunk_cases (c : Connection) (id : Nat) (s : Stream) (chunk : Bytes) (isLast : Bool) :
    (writeFrame c.tls.sink (dataFrame id chunk isLast)).1 = .ok () ∨
      ∃ e sink, Breaks c c.encoder sink ∧
        c.sendChunk id s chunk isLast = (.error e, c.setSink sink) := by
  unfold Connection.sendChunk
  split
  · next e sink hwrite => exact .inr ⟨e, sink, .chunk hwrite, rfl⟩
  · next hwrite => exact .inl (by rw [hwrite])

theorem sendHeadersOn_error {c c' : Connection} {id : Nat} {req : Request} {e : Error}
    (h : c.sendHeadersOn id req = (.error e, c')) :
    ∃ encoder sink, Breaks c encoder sink ∧
      c' = { c with encoder, tls := { c.tls with sink } } := by
  refine ⟨_, _, .heads id req, ?_⟩
  unfold Connection.sendHeadersOn at h
  simp only [Bool.not_not] at h
  split at h
  · next hwrite =>
      rw [Connection.headerFrames, hwrite]
      exact (Prod.mk.inj h).2.symm
  next hwrite =>
  rw [Connection.headerFrames, hwrite]
  split at h
  · exact (Prod.mk.inj h).2.symm
  split at h
  · exact (Prod.mk.inj h).2.symm
  · cases h

/-- A request goes out, or nothing is noted of it. -/
def Heads (id : Nat) (req : Request) (c : Connection) (evs : List Event) : Prop :=
  evs = [] ∨ evs = .request id req :: (c.headerFrames id req).map .outbound

theorem traces_sendHeadersOn (ok : Bool) (hp : p ≠ .multi) (c : Connection) (id : Nat) (req : Request) :
    Traces p ok (Heads id req c) c (c.sendHeadersOn id req) := by
  intro hok
  obtain ⟨res, c', h⟩ : ∃ res c', c.sendHeadersOn id req = (res, c') := ⟨_, _, rfl⟩
  rw [h] at hok ⊢
  cases res with
  | ok s => exact ⟨_, .single (.heads hp h), .inr rfl⟩
  | error e =>
      obtain ⟨encoder, sink, hbreaks, rfl⟩ := sendHeadersOn_error h
      exact ⟨[], .single (.breaks (Allowed.of_error hok) hbreaks), .inl rfl⟩

theorem traces_awaitBudget (p : Path) (ok : Bool) (fuel : Nat) (c : Connection) (id : Nat) :
    Traces p ok Listens c (Connection.awaitBudget fuel c id) := by
  induction fuel generalizing c with
  | zero => exact .refl _ listens_nil
  | succ fuel ih =>
      unfold Connection.awaitBudget
      split
      · exact .refl _ listens_nil
      split
      · exact .refl _ listens_nil
      refine (traces_readAndDispatch p ok c).andThen (Q := Listens) (fun o _ => ?_)
        (fun _ h => h) fun _ _ => Listens.append
      split
      · exact .refl _ listens_nil
      · exact ih _

/-- `await_budget` ends well only with budget to spend. -/
theorem awaitBudget_ok {fuel id : Nat} {c c' : Connection}
    (h : Connection.awaitBudget fuel c id = (.ok (), c')) :
    ∃ s, c'.streams.lookup id = some s ∧ 0 < s.sendBudget c'.connSendWindow := by
  induction fuel generalizing c with
  | zero => cases h
  | succ fuel ih =>
      unfold Connection.awaitBudget at h
      split at h
      · cases h
      next s hs =>
      split at h
      · next hbudget =>
          obtain ⟨-, rfl⟩ := Prod.mk.inj h
          exact ⟨s, hs, hbudget⟩
      generalize c.readAndDispatch = out at h
      obtain ⟨res, c₁⟩ := out
      cases res with
      | error e => cases h
      | ok o =>
          change (if o = .done id then _ else Connection.awaitBudget fuel c₁ id) = _ at h
          split at h
          · cases h
          · exact ih h

theorem traces_driveUntilStreamDone (p : Path) (ok : Bool) (fuel : Nat) (c : Connection)
    (id : Nat) : Traces p ok Listens c (Connection.driveUntilStreamDone fuel c id) := by
  have htake : ∀ c : Connection, Traces p ok Listens c (c.takeStream id) := by
    intro c
    unfold Connection.takeStream
    split
    · intro _
      refine ⟨[], .single (.drops ?_), listens_nil⟩
      intro j s hs
      by_cases hj : j = id
      · subst hj
        rw [AList.lookup_erase] at hs
        cases hs
      · rwa [AList.lookup_erase_ne hj] at hs
    · exact .refl _ listens_nil
  induction fuel generalizing c with
  | zero => exact .refl _ listens_nil
  | succ fuel ih =>
      unfold Connection.driveUntilStreamDone
      split
      · exact .refl _ listens_nil
      split
      · exact htake c
      refine (traces_readAndDispatch p ok c).andThen (Q := Listens) (fun o _ => ?_)
        (fun _ h => h) fun _ _ => Listens.append
      split
      · exact htake _
      · exact ih _

/-! ## The body of a request on the wire -/

/-- The bytes of DATA on the stream `id`. -/
def Event.data (id : Nat) : Event → Bytes
  | outbound f => if f.typ = fData ∧ f.streamId = id then f.payload else []
  | _ => []

/-- The DATA payloads on the stream `id`, one after another. -/
def dataOn (id : Nat) (evs : List Event) : Bytes := evs.flatMap (Event.data id)

@[simp] theorem dataOn_nil (id : Nat) : dataOn id [] = [] := rfl

@[simp] theorem dataOn_cons (id : Nat) (e : Event) (evs : List Event) :
    dataOn id (e :: evs) = e.data id ++ dataOn id evs := List.flatMap_cons

@[simp] theorem dataOn_append (id : Nat) (evs evs' : List Event) :
    dataOn id (evs ++ evs') = dataOn id evs ++ dataOn id evs' := List.flatMap_append

/-- The DATA frames on the stream `id` carry `body` from its front on, END_STREAM on the one with
its last byte and on no other. -/
def Carries (id : Nat) : Bytes → List Event → Prop
  | _, [] => True
  | body, .outbound f :: evs =>
      if f.typ = fData ∧ f.streamId = id then
        (f.has flagEndStream = true ↔ f.payload ≠ [] ∧ f.payload = body) ∧ f.payload <+: body ∧
          Carries id (body.drop f.payload.length) evs
      else Carries id body evs
  | body, _ :: evs => Carries id body evs

theorem carries_append (id : Nat) (body : Bytes) (evs evs' : List Event) :
    Carries id body (evs ++ evs') ↔
      Carries id body evs ∧ Carries id (body.drop (dataOn id evs).length) evs' := by
  induction evs generalizing body with
  | nil => simp [Carries]
  | cons e evs ih =>
      cases e with
      | outbound f =>
          rw [List.cons_append, Carries, Carries]
          split
          · next hdata =>
              simp only [dataOn_cons, Event.data, if_pos hdata, List.length_append]
              rw [ih, List.drop_drop, and_assoc, and_assoc]
          · next hdata =>
              simp only [dataOn_cons, Event.data, if_neg hdata, List.nil_append]
              exact ih body
      | _ => exact ih body

/-- Where no DATA goes out on the stream, none of the body is carried. -/
theorem carries_of_no_data {id : Nat} {evs : List Event} (body : Bytes)
    (h : ∀ f, .outbound f ∈ evs → ¬ (f.typ = fData ∧ f.streamId = id)) :
    Carries id body evs ∧ dataOn id evs = [] := by
  induction evs with
  | nil => exact ⟨trivial, rfl⟩
  | cons e evs ih =>
      obtain ⟨hcarries, hdata⟩ := ih fun f hf => h f (List.mem_cons_of_mem _ hf)
      rw [dataOn_cons, hdata, List.append_nil]
      cases e with
      | outbound f =>
          have hno := h f List.mem_cons_self
          rw [Carries, if_neg hno, Event.data, if_neg hno]
          exact ⟨hcarries, rfl⟩
      | _ => exact ⟨hcarries, rfl⟩

theorem Carries.front {id : Nat} {body : Bytes} {evs : List Event} (h : Carries id body evs) :
    dataOn id evs <+: body := by
  induction evs generalizing body with
  | nil => exact List.nil_prefix
  | cons e evs ih =>
      cases e with
      | outbound f =>
          rw [Carries] at h
          split at h
          · next hdata =>
              obtain ⟨-, hfront, hrest⟩ := h
              obtain ⟨rest, rfl⟩ := hfront
              rw [List.drop_left] at hrest
              simp only [dataOn_cons, Event.data, if_pos hdata]
              exact (List.prefix_append_right_inj f.payload).mpr (ih hrest)
          · next hdata =>
              simp only [dataOn_cons, Event.data, if_neg hdata, List.nil_append]
              exact ih h
      | _ => exact ih h

theorem Listens.no_data {evs : List Event} (h : Listens evs) (id : Nat) (f : Frame)
    (hf : .outbound f ∈ evs) : ¬ (f.typ = fData ∧ f.streamId = id) := by
  rintro ⟨htyp, -⟩
  rcases h _ hf with ⟨g, handled, heq⟩ | ⟨g, heq, hne⟩
  · cases heq
  · cases heq
    exact hne.1 htyp

/-- `send_request_on` on its own stream: the body from its front on, and nothing else but what is
taken in and answered. -/
structure SendsBody (id : Nat) (body : Bytes) (evs : List Event) : Prop where
  carries : Carries id body evs
  shape : ∀ e ∈ evs, (∃ f handled, e = .inbound f handled) ∨
    ∃ f, e = .outbound f ∧ (f.Plain ∨ f.typ = fData ∧ f.streamId = id)

theorem Listens.sendsBody {evs : List Event} (h : Listens evs) (id : Nat) (body : Bytes) :
    SendsBody id body evs where
  carries := (carries_of_no_data body (h.no_data id)).1
  shape e he := (h e he).imp_right fun ⟨f, heq, hplain⟩ => ⟨f, heq, .inl hplain⟩

theorem SendsBody.append {id : Nat} {body : Bytes} {evs evs' : List Event}
    (h : SendsBody id body evs) (h' : SendsBody id (body.drop (dataOn id evs).length) evs') :
    SendsBody id body (evs ++ evs') where
  carries := (carries_append id body evs evs').mpr ⟨h.carries, h'.carries⟩
  shape e he := (List.mem_append.mp he).elim (h.shape e) (h'.shape e)

theorem dataFrame_ends (id : Nat) (chunk : Bytes) (isLast : Bool) :
    (dataFrame id chunk isLast).has flagEndStream = isLast := by
  cases isLast with
  | false =>
      show ((0 : UInt8) &&& flagEndStream != 0) = false
      decide
  | true =>
      show (flagEndStream &&& flagEndStream != 0) = true
      decide

/-- A chunk from the front of what is left. -/
theorem sendsBody_chunk (id : Nat) {n : Nat} {remaining : Bytes} (hpos : 0 < n)
    (hrem : remaining ≠ []) :
    SendsBody id remaining
      [.outbound (dataFrame id (remaining.take n) (remaining.drop n).isEmpty)] where
  carries := by
    rw [Carries, if_pos ⟨rfl, rfl⟩]
    refine ⟨?_, List.take_prefix n remaining, trivial⟩
    rw [dataFrame_ends]
    show (remaining.drop n).isEmpty = true ↔ remaining.take n ≠ [] ∧ remaining.take n = remaining
    have hne : remaining.take n ≠ [] := by
      intro h
      rcases List.take_eq_nil_iff.mp h with h | h
      · omega
      · exact hrem h
    rw [List.take_eq_self_iff, ← List.drop_eq_nil_iff, ← List.isEmpty_iff]
    exact ⟨fun h => ⟨hne, h⟩, And.right⟩
  shape e he := by
    rw [List.mem_singleton.mp he]
    exact .inr ⟨_, rfl, .inr ⟨rfl, rfl⟩⟩

theorem traces_sendBody (ok : Bool) (hp : p ≠ .multi) (fuel : Nat) {c : Connection} (id : Nat)
    (remaining : Bytes) (hsane : c.Sane) (hfuel : remaining.length ≤ fuel)
    (hok : Allowed ok (Connection.sendBody fuel c id remaining).1) :
    ∃ evs, Traced p ok c evs (Connection.sendBody fuel c id remaining).2 ∧
      SendsBody id remaining evs ∧
      ((Connection.sendBody fuel c id remaining).1 = .ok () → dataOn id evs = remaining) := by
  induction fuel generalizing c remaining with
  | zero =>
      obtain rfl := List.length_eq_zero_iff.mp (Nat.le_zero.mp hfuel)
      exact ⟨[], .nil, listens_nil.sendsBody id [], fun _ => rfl⟩
  | succ fuel ih =>
      unfold Connection.sendBody at hok ⊢
      split
      · next hempty =>
          rw [List.isEmpty_iff.mp hempty]
          exact ⟨[], .nil, listens_nil.sendsBody id [], fun _ => rfl⟩
      next hrem =>
      rw [if_neg hrem] at hok
      have hrem : remaining ≠ [] := fun h => hrem (List.isEmpty_iff.mpr h)
      have hawait := traces_awaitBudget p ok (c.tls.source.bytes.length + 1) c id
      have hbudget := @awaitBudget_ok (c.tls.source.bytes.length + 1) id c
      generalize Connection.awaitBudget (c.tls.source.bytes.length + 1) c id = out at *
      obtain ⟨res, c₁⟩ := out
      cases res with
      | error e =>
          obtain ⟨evs, htrace, hlistens⟩ := hawait hok
          exact ⟨evs, htrace, hlistens.sendsBody id remaining, fun h => by cases h⟩
      | ok u =>
      obtain ⟨evs₁, htrace₁, hlistens⟩ := hawait fun _ => ⟨u, rfl⟩
      obtain ⟨s, hs, hpos⟩ := hbudget rfl
      have hsane₁ : c₁.Sane := htrace₁.sane hsane
      simp only [Connection.andThen, hs] at hok ⊢
      generalize hn : nextDataChunkSize c₁.peer.maxFrameSize (s.sendBudget c₁.connSendWindow)
        remaining.length = n at hok ⊢
      have hn0 : 0 < n := by
        rw [← hn]
        refine nextDataChunkSize_pos ?_ hpos (List.length_pos_of_ne_nil hrem)
        exact Nat.lt_of_lt_of_le (by decide) hsane₁
      obtain ⟨res, c₂, hsend⟩ : ∃ res c₂, c₁.sendChunk id s (remaining.take n)
        (remaining.drop n).isEmpty = (res, c₂) := ⟨_, _, rfl⟩
      rw [hsend] at hok ⊢
      have hfirst := hlistens.sendsBody id remaining
      have hdata₁ := (carries_of_no_data remaining (hlistens.no_data id)).2
      rcases sendChunk_cases c₁ id s (remaining.take n) (remaining.drop n).isEmpty with
        hwrite | ⟨e, sink, hbreaks, heq⟩
      · have hchunk : SendsBody id remaining (evs₁ ++
            [.outbound (dataFrame id (remaining.take n) (remaining.drop n).isEmpty)]) := by
          refine hfirst.append ?_
          rw [hdata₁]
          exact sendsBody_chunk id hn0 hrem
        cases res with
        | error e =>
            exact ⟨_, htrace₁.snoc (.chunk hp hs hpos hn.symm hwrite hsend hok.error), hchunk,
              fun h => by cases h⟩
        | ok s' =>
            have hact := htrace₁.snoc
              (.chunk hp hs hpos hn.symm hwrite hsend fun _ => ⟨s', rfl⟩)
            have hleft : (remaining.drop n).length ≤ fuel := by
              rw [List.length_drop]
              omega
            obtain ⟨evs₂, htrace₂, hbody, hall⟩ := ih (remaining.drop n)
              (Traced.sane hact hsane) hleft hok
            have hdata : dataOn id (evs₁ ++
                [.outbound (dataFrame id (remaining.take n) (remaining.drop n).isEmpty)]) =
                  remaining.take n := by
              rw [dataOn_append, hdata₁, dataOn_cons, dataOn_nil, List.append_nil,
                List.nil_append, Event.data, if_pos ⟨rfl, rfl⟩]
              rfl
            have hdrop : remaining.drop (remaining.take n).length = remaining.drop n := by
              rw [List.length_take]
              rcases Nat.le_total n remaining.length with hle | hle
              · rw [Nat.min_eq_left hle]
              · rw [Nat.min_eq_right hle, List.drop_length, List.drop_eq_nil_iff.mpr hle]
            refine ⟨_, hact.trans htrace₂, hchunk.append ?_, ?_⟩
            · rw [hdata, hdrop]
              exact hbody
            · intro hres
              rw [dataOn_append, hdata, hall hres, List.take_append_drop]
      · obtain ⟨rfl, rfl⟩ := Prod.mk.inj (heq.symm.trans hsend)
        refine ⟨evs₁ ++ [], htrace₁.snoc (.breaks (Allowed.of_error hok) hbreaks), ?_,
          fun h => by cases h⟩
        rw [List.append_nil]
        exact hfirst

theorem traces_sendRequestOn (ok : Bool) (hp : p ≠ .multi) {c : Connection} (id : Nat) (req : Request)
    (hsane : c.Sane) (hok : Allowed ok (c.sendRequestOn id req).1) :
    ∃ heads rest, Traced p ok c (heads ++ rest) (c.sendRequestOn id req).2 ∧
      Heads id req c heads ∧ SendsBody id req.body rest ∧
      ((c.sendRequestOn id req).1 = .ok () → heads ≠ [] ∧ dataOn id rest = req.body) := by
  unfold Connection.sendRequestOn at hok ⊢
  have hheads := traces_sendHeadersOn ok hp c id req
  obtain ⟨res, c₁, hsent⟩ : ∃ res c₁, c.sendHeadersOn id req = (res, c₁) := ⟨_, _, rfl⟩
  rw [hsent] at hok hheads ⊢
  have hnone : SendsBody id req.body [] := listens_nil.sendsBody id req.body
  cases res with
  | error e =>
      obtain ⟨evs, htrace, hevs⟩ := hheads hok.error
      refine ⟨evs, [], ?_, hevs, hnone, fun h => by cases h⟩
      rw [List.append_nil]
      exact htrace
  | ok s =>
  have hact : Traced p ok c _ c₁ := .single (.heads hp hsent)
  simp only [Connection.andThen] at hok ⊢
  have hbody := traces_sendBody ok hp req.body.length id req.body (Traced.sane hact hsane)
    (Nat.le_refl _)
  generalize Connection.sendBody req.body.length c₁ id req.body = out at *
  obtain ⟨res, c₂⟩ := out
  cases res with
  | error e =>
      obtain ⟨evs, htrace, hevs, -⟩ := hbody hok
      exact ⟨_, evs, hact.trans htrace, .inr rfl, hevs, fun h => by cases h⟩
  | ok u =>
      obtain ⟨evs, htrace, hevs, hall⟩ := hbody fun _ => ⟨u, rfl⟩
      refine ⟨_, evs, ?_, .inr rfl, hevs, fun _ => ⟨List.cons_ne_nil _ _, hall rfl⟩⟩
      show Traced p ok c _ c₂.flush.2
      rw [flush_snd]
      exact hact.trans htrace

/-- What happens while one request is made: a stream is opened for it, it is sent there, and
frames are taken in. -/
inductive OneRequest (c : Connection) (req : Request) : List Event → Prop
  | refused : OneRequest c req []
  | made {id : Nat} {c₁ : Connection} {heads rest : List Event}
      (hopen : c.openStream = (.ok id, c₁)) (hheads : Heads id req c₁ heads)
      (hrest : SendsBody id req.body rest) : OneRequest c req (.opened id :: (heads ++ rest))

theorem drops_prune (c : Connection) : Acts p ok c [] c.pruneCompletedStreams :=
  @Acts.drops p ok c _ c.tls.source fun hs => (pruneCompletedStreams_removes c).stays hs

/-- `run_one_request` is a run of acts. -/
theorem traces_runOneRequest (ok : Bool) (hp : p ≠ .multi) (codec : Codec) {c : Connection} (req : Request)
    (hsane : c.Sane) (hok : Allowed ok (runOneRequest codec c req).1) :
    ∃ evs, Traced p ok c evs (runOneRequest codec c req).2 ∧ OneRequest c req evs := by
  unfold runOneRequest at hok ⊢
  obtain ⟨res, c₁, hopen⟩ : ∃ res c₁, c.openStream = (res, c₁) := ⟨_, _, rfl⟩
  rw [hopen] at hok ⊢
  cases res with
  | error e =>
      obtain rfl := openStream_eq_error hopen
      exact ⟨[], .nil, .refused⟩
  | ok id =>
  have hact : Traced p ok c [.opened id] c₁ := .single (.opens hopen)
  simp only [Connection.andThen] at hok ⊢
  have hsend := traces_sendRequestOn ok hp id req (Traced.sane hact hsane)
  generalize c₁.sendRequestOn id req = out at *
  obtain ⟨res, c₂⟩ := out
  cases res with
  | error e =>
      obtain ⟨heads, rest, htrace, hheads, hrest, -⟩ := hsend hok.error
      exact ⟨.opened id :: (heads ++ rest), hact.trans htrace, .made hopen hheads hrest⟩
  | ok u =>
  obtain ⟨heads, rest, htrace, hheads, hrest, -⟩ := hsend fun _ => ⟨u, rfl⟩
  have hdrive := traces_driveUntilStreamDone p ok (c₂.tls.source.bytes.length + 1) c₂ id
  simp only at hok ⊢
  generalize Connection.driveUntilStreamDone (c₂.tls.source.bytes.length + 1) c₂ id = out at *
  obtain ⟨res, c₃⟩ := out
  cases res with
  | error e =>
      obtain ⟨evs, htrace', hlistens⟩ := hdrive hok.error
      refine ⟨.opened id :: (heads ++ (rest ++ evs)), ?_, .made hopen hheads ?_⟩
      · rw [← List.append_assoc]
        exact hact.trans (htrace.trans htrace')
      · exact hrest.append (hlistens.sendsBody id _)
  | ok s =>
      obtain ⟨evs, htrace', hlistens⟩ := hdrive fun _ => ⟨s, rfl⟩
      refine ⟨.opened id :: (heads ++ (rest ++ evs)), ?_, .made hopen hheads ?_⟩
      · have hall := (hact.trans (htrace.trans htrace')).snoc (drops_prune c₃)
        rw [List.append_nil, List.append_assoc] at hall
        exact hall
      · exact hrest.append (hlistens.sendsBody id _)

end

end Rsurl.H2
