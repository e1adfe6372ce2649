/-
# `Rsurl.H2.Pumping` — when the pump is called

`moments` lists where `run_multiplexed` reads a frame and where it calls
`pump_pending_sends`.  As long as no stream with a body to send has been
answered in full before a frame is read, every such stream can still send when
the pump is called (`orderly_moments`), and the pump fails only for want of a
transport.
-/
import Rsurl.H2.Delivery
import Rsurl.H2.Scope
import Rsurl.H2.Wire

namespace Rsurl.H2

open Http (Request Response)
open Relation (ReflTransGen)

/-! ## Streams with a body to send -/

/-- If the stream has a body to send, its state lets it. -/
def Stream.Ready (s : Stream) : Prop :=
  s.pendingBody.isSome = true → s.state = .open ∨ s.state = .halfClosedRemote

/-- If the stream has a body to send, it has not been answered in full. -/
def Stream.Unanswered (s : Stream) : Prop :=
  s.pendingBody.isSome = true → (s.endStreamRecv && s.responseHeaders.isSome) = false

theorem sendData_of_ready {state : StreamState} (h : state = .open ∨ state = .halfClosedRemote)
    (isLast : Bool) : ∃ state', state.sendData isLast = .ok state' ∧
      (isLast = false → state' = state) := by
  rcases h with rfl | rfl
  · cases isLast with
    | false => exact ⟨_, rfl, fun _ => rfl⟩
    | true => exact ⟨_, rfl, nofun⟩
  · cases isLast with
    | false => exact ⟨_, rfl, fun _ => rfl⟩
    | true => exact ⟨_, rfl, nofun⟩

theorem ready_staged (id : Nat) (w : Int) (req : Request) : (Stream.staged id w req).Ready := by
  intro hpending
  unfold Stream.staged at hpending ⊢
  cases hbody : req.body.isEmpty with
  | true =>
      rw [hbody] at hpending
      cases hpending
  | false => exact .inl rfl

section

variable {c c' : Connection}

theorem Holds.insert {I : Stream → Prop} (h : Holds I c) {id : Nat} {s : Stream} (hs : I s)
    (hstreams : c'.streams = c.streams.insert id s) : Holds I c' := by
  intro j t ht
  rw [hstreams] at ht
  rcases Base.Table.lookup_insert_cases ht with ⟨-, rfl⟩ | ⟨-, ht⟩
  · exact hs
  · exact h ht

/-- A chunk on a stream that can send goes out as a whole, or its write fails. -/
theorem sendChunk_of_ready {id : Nat} {s : Stream} {chunk : Bytes} {isLast : Bool}
    {res : Result Stream} (hstate : s.state = .open ∨ s.state = .halfClosedRemote)
    (h : c.sendChunk id s chunk isLast = (res, c')) :
    (∃ e, (writeFrame c.tls.sink (dataFrame id chunk isLast)).1 = .error e ∧ res = .error e ∧
        c'.streams = c.streams) ∨
      ∃ s', res = .ok s' ∧ c'.streams = c.streams.insert id s' ∧
        (isLast = false → s'.state = s.state) := by
  obtain ⟨written, sink, hwrite⟩ : ∃ written sink,
    writeFrame c.tls.sink (dataFrame id chunk isLast) = (written, sink) := ⟨_, _, rfl⟩
  cases written with
  | error e =>
      unfold Connection.sendChunk at h
      rw [hwrite] at h
      obtain ⟨rfl, rfl⟩ := Prod.mk.inj h
      exact .inl ⟨e, by rw [hwrite], rfl, rfl⟩
  | ok u =>
      obtain ⟨state, sink', -, rfl, hres⟩ := sendChunk_spec (by rw [hwrite]) h
      obtain ⟨state', hsend, hsame⟩ := sendData_of_ready hstate isLast
      rcases hres with ⟨hsend', rfl⟩ | ⟨-, e, hfail, -⟩
      · obtain rfl := Except.ok.inj (hsend'.symm.trans hsend)
        exact .inr ⟨_, rfl, rfl, hsame⟩
      · cases hfail.symm.trans hsend

/-- A turn of the pump leaves streams that can send what they have to. -/
theorem Pumps.ready {ok : Bool} {maxFrameSize : Nat} (h : Pumps ok maxFrameSize c c')
    (hready : Holds Stream.Ready c) : Holds Stream.Ready c' := by
  cases h with
  | @cleared id s => exact hready.insert (s := { s with pendingBody := none }) nofun rfl
  | @advanced id n s s' pb c' hs hpending _ _ _ hsend =>
      have hstate := hready hs (by rw [hpending]; rfl)
      rcases sendChunk_of_ready hstate hsend with ⟨e, -, heq, -⟩ | ⟨s₁, heq, hstreams, hsame⟩
      · cases heq
      obtain rfl := Except.ok.inj heq
      refine hready.insert (s := { s' with pendingBody := some { pb with sent := pb.sent + n } })
        (fun _ => ?_) (by rw [Connection.setStream, hstreams, AList.insert_insert])
      rw [hsame rfl]
      exact hstate
  | @finished id n s s' pb c' _ _ _ _ _ hsend =>
      obtain ⟨-, -, hstreams⟩ := sendChunk_sent hsend
      have hnow : (c'.setStream id { s' with pendingBody := none }).streams =
          c.streams.insert id { s' with pendingBody := none } := by
        rw [Connection.setStream, hstreams, AList.insert_insert]
      exact hready.insert (s := { s' with pendingBody := none }) nofun hnow
  | @failed id n s pb c' e _ hs hpending _ _ hsend =>
      have hstate := hready hs (by rw [hpending]; rfl)
      rcases sendChunk_of_ready hstate hsend with ⟨e', -, -, hstreams⟩ | ⟨s₁, heq, -⟩
      · exact hready.stays fun ht => hstreams ▸ ht
      · cases heq

theorem ready_of_pumps {ok : Bool} {maxFrameSize : Nat}
    (h : ReflTransGen (Pumps ok maxFrameSize) c c') (hready : Holds Stream.Ready c) :
    Holds Stream.Ready c' := by
  induction h with
  | refl => exact hready
  | tail _ hpump ih => exact hpump.ready ih

theorem ready_flushPending (hready : Holds Stream.Ready c) :
    Holds Stream.Ready c.flushPending.2 :=
  ready_of_pumps (flushPending_pumps false c nofun) hready

/-- If the streams can send what they have to, `pump_pending_sends` fails only on a write. -/
theorem pump_fails_on_write (hready : Holds Stream.Ready c) {e : Error}
    (h : c.pumpPendingSends.1 = .error e) :
    ∃ sink f, (writeFrame sink f).1 = .error e := by
  obtain ⟨c₁, hpumps, hout⟩ := pumpPendingSends_pumpsTo c
  have hready₁ := ready_of_pumps hpumps hready
  rcases hout with heq | ⟨e', he, id, n, s, pb, hs, hpending, -, -, hsend⟩
  · rw [heq] at h
    cases h
  · obtain rfl := Except.error.inj (he.symm.trans h)
    rcases sendChunk_of_ready (hready₁ hs (by rw [hpending]; rfl)) hsend with
      ⟨e, hwrite, heq, -⟩ | ⟨s', heq, -⟩
    · obtain rfl := Except.error.inj heq
      exact ⟨_, _, hwrite⟩
    · cases heq

/-- What is received leaves a stream that can send able to. -/
theorem sendable_of_recv {state state' : StreamState} {endStream : Bool}
    (hstate : state = .open ∨ state = .halfClosedRemote)
    (h : state.recvHeaders endStream = .ok state' ∨ state.recvData endStream = .ok state') :
    state' = .open ∨ state' = .halfClosedRemote := by
  rcases hstate with rfl | rfl
  · have hrecv : Except.ok (if endStream then StreamState.halfClosedRemote else .open) =
        (.ok state' : Result StreamState) := h.elim id id
    rw [← Except.ok.inj hrecv]
    cases endStream with
    | true => exact .inr rfl
    | false => exact .inl rfl
  · rcases h with h | h
    · cases h
    · cases h


/-- What a frame does to a stream that can send and has not been answered in full: it can send
still, or it is closed without a complete response. -/
theorem Touch.ready {f : Frame} {res : Result DispatchOutcome} {id : Nat} {s s' : Stream}
    (h : Touch f res id s s') (hpending : s'.pendingBody = s.pendingBody) (hready : s.Ready)
    (hunanswered : s.Unanswered) (hsome : s'.pendingBody.isSome = true) :
    (s'.state = .open ∨ s'.state = .halfClosedRemote) ∨
      s'.state = .closed ∧ (s'.endStreamRecv && s'.responseHeaders.isSome) = false ∧
        ((∃ e, res = .error e) ∨ f.typ = fGoaway ∧ f.streamId = 0 ∧ f.lastStreamId < id) := by
  rw [hpending] at hsome
  have hstate := hready hsome
  have hopen := hunanswered hsome
  cases h with
  | kept same =>
      rw [same.state]
      exact .inl hstate
  | doomed htyp hid _ hlast hclosed hended hheaders =>
      rw [hended, hheaders]
      exact .inr ⟨hclosed, hopen, .inr ⟨htyp, hid, hlast⟩⟩
  | reset _ _ hres _ hclosed hended hheaders =>
      rw [hended, hheaders]
      exact .inr ⟨hclosed, hopen, .inl hres⟩
  | headers _ _ _ hrecv => exact .inl (sendable_of_recv hstate (.inl hrecv))
  | garbled _ _ _ _ hsame =>
      rw [hsame]
      exact .inl hstate
  | continued _ _ _ _ hsame =>
      rw [hsame]
      exact .inl hstate
  | data _ _ hrecv => exact .inl (sendable_of_recv hstate (.inr hrecv))

end

namespace Batch

variable {codec : Codec} {reqs : List Request}

/-! ## Up to the next call -/

theorem ready_startQueued {b : Batch} (hacc : Accounted reqs b)
    (h : Holds Stream.Ready b.conn) : Holds Stream.Ready (b.startQueued reqs).conn := by
  have hinv := startQueued_induct reqs
    (P := fun b => Accounted reqs b ∧ Holds Stream.Ready b.conn) ?_ ⟨hacc, h⟩
  · exact hinv.2
  · rintro b b' hstart ⟨hacc, h⟩
    refine ⟨(hacc.starts hstart).1, fun id s' hs' => ?_⟩
    rcases (hstart.streams hacc).2 hs' with hs | ⟨w, req, rfl, -⟩
    · exact h hs
    · exact ready_staged id w req

/-- A frame is handled, and the streams it dooms are reaped. -/
theorem ready_handled {b : Batch} {conn : Connection} {outcome : DispatchOutcome}
    (hacc : Accounted reqs b) (h : Holds Stream.Ready b.conn)
    (hunanswered : Holds Stream.Unanswered b.conn)
    (hread : b.conn.readAndDispatch = (.ok outcome, conn)) :
    Holds Stream.Ready (finishStream codec reqs (failGoawayDoomed { b with conn }) outcome).conn := by
  have hacc₁ := hacc.readAndDispatch
  rw [hread] at hacc₁
  have hreaped : Holds Stream.Ready (failGoawayDoomed { b with conn }).conn := by
    intro id s' hs' hsome
    obtain ⟨hs₁, hkept⟩ := (failGoawayDoomed_lookup hacc₁).2.mp hs'
    rcases readAndDispatch_cases b.conn with ⟨e, source, hfail, -⟩ | ⟨f, source, -, hframe, -⟩
    · rw [hfail] at hread
      cases hread
    rw [hread] at hframe
    have htouches := processFrame_touch (b.conn.receive source f) f
    rw [← hframe] at htouches
    obtain ⟨s, hs, htouch, hpending⟩ := htouches hs₁
    rcases htouch.ready hpending (h hs) (hunanswered hs) hsome with
      hstate | ⟨-, hincomplete, ⟨e, he⟩ | ⟨htyp, hid, hlast⟩⟩
    · exact hstate
    · cases he
    · have hgoaway := processFrame_goaway (b.conn.receive source f) f
      rw [← hframe, if_pos ⟨admits_of_ok hframe.symm, hid, htyp⟩] at hgoaway
      rw [hkept _ hgoaway hlast] at hincomplete
      cases hincomplete
  have hacc₂ := hacc₁.failGoawayDoomed.1
  generalize failGoawayDoomed { b with conn } = b₂ at *
  unfold finishStream
  split
  · exact hreaped
  next id =>
  split
  · next idx stream hidx _ =>
      have hends := hacc₂.ends hidx (buildResponseFromStream codec stream)
      exact ready_startQueued hends.1 (hreaped.erase id)
  · exact hreaped

/-- A frame is refused, and its error is charged to the one stream that is stalled. -/
theorem ready_charged {b b₂ : Batch} {conn : Connection} {e : Error} {idx : Nat}
    (hacc : Accounted reqs b) (h : Holds Stream.Ready b.conn)
    (hunanswered : Holds Stream.Unanswered b.conn)
    (hread : b.conn.readAndDispatch = (.error e, conn))
    (htake : takeStreamError { b with conn } = some (idx, b₂)) :
    Holds Stream.Ready ((b₂.setResult idx (.error e)).startQueued reqs).conn := by
  have hacc₁ := hacc.readAndDispatch
  rw [hread] at hacc₁
  have hacc₂ := (hacc₁.takeStreamError htake (.error e)).1
  obtain ⟨id, hidx, rfl, honly⟩ := unique_of_takeStreamError htake
  refine ready_startQueued hacc₂ fun j s' hs' hsome => ?_
  have hne : j ≠ id := by
    rintro rfl
    change (conn.streams.erase j).lookup j = some s' at hs'
    rw [AList.lookup_erase] at hs'
    cases hs'
  change (conn.streams.erase id).lookup j = some s' at hs'
  rw [AList.lookup_erase_ne hne] at hs'
  rcases readAndDispatch_cases b.conn with ⟨e', source, hfail, -⟩ | ⟨f, source, -, hframe, -⟩
  · rw [hfail] at hread
    obtain ⟨-, rfl⟩ := Prod.mk.inj hread
    exact h hs' hsome
  rw [hread] at hframe
  have htouches := processFrame_touch (b.conn.receive source f) f
  rw [← hframe] at htouches
  obtain ⟨s, hs, htouch, hpending⟩ := htouches hs'
  rcases htouch.ready hpending (h hs) (hunanswered hs) hsome with hstate | ⟨hclosed, hnot, -⟩
  · exact hstate
  · -- the stream is stalled, so it is the one that was taken
    obtain ⟨i, hi⟩ := (hacc₁.registered j).mp ⟨s', hs'⟩
    refine absurd ((honly j).mp ⟨s', i, hs', hi, hclosed, ?_⟩) hne
    rw [Stream.complete, Bool.and_assoc, hnot, Bool.and_false]

/-! ## The moments of a run -/

/-- A moment of `run_multiplexed`, with the connection as it is then. -/
inductive Moment where
  /-- `read_and_dispatch` is called. -/
  | reads (c : Connection)
  /-- `pump_pending_sends` is called. -/
  | pumps (c : Connection)

def Moment.conn : Moment → Connection
  | reads c => c
  | pumps c => c

/-- `refill`, with its moments. -/
def refillLogged (reqs : List Request) (b : Batch) : List Moment × Batch × Bool :=
  if !b.idToIdx.entries.isEmpty then ([], b, true)
  else if b.queue.isEmpty then ([], b, false)
  else
    let b := b.startQueued reqs
    if b.idToIdx.entries.isEmpty then
      let e := .badResponse [.str "no usable stream to issue request (GOAWAY?)"]
      ([], { b with results := b.queue.foldl (failSlot e) b.results, queue := [] }, false)
    else
      match b.conn.flushPending with
      | (.error _, conn) => ([.pumps b.conn], { b with conn }, false)
      | (.ok (), conn) => ([.pumps b.conn], { b with conn }, true)

/-- `loop`, with its moments. -/
def loopLogged (codec : Codec) (reqs : List Request) : Nat → Batch → List Moment × Batch
  | 0, b => ([], b)
  | fuel + 1, b =>
      if !b.results.any Option.isNone then ([], b)
      else
        match b.refillLogged reqs with
        | (ms, b, false) => (ms, b)
        | (ms, b, true) =>
            match b.conn.readAndDispatch with
            | (.error e, conn) =>
                match takeStreamError { b with conn } with
                | none => (ms ++ [.reads b.conn], failAllOutstanding { b with conn } e)
                | some (idx, b') =>
                    let b' := (b'.setResult idx (.error e)).startQueued reqs
                    match b'.conn.flushPending with
                    | (.error e, conn) =>
                        (ms ++ [.reads b.conn, .pumps b'.conn],
                          failAllOutstanding { b' with conn } e)
                    | (.ok (), conn) =>
                        let out := loopLogged codec reqs fuel { b' with conn }
                        (ms ++ .reads b.conn :: .pumps b'.conn :: out.1, out.2)
            | (.ok outcome, conn) =>
                let b' := finishStream codec reqs (failGoawayDoomed { b with conn }) outcome
                match b'.conn.flushPending with
                | (.error _, conn) =>
                    (ms ++ [.reads b.conn, .pumps b'.conn],
                      failAllOutstanding { b' with conn }
                        (.badResponse [.str "write error pumping multiplexed sends"]))
                | (.ok (), conn) =>
                    let out := loopLogged codec reqs fuel { b' with conn }
                    (ms ++ .reads b.conn :: .pumps b'.conn :: out.1, out.2)

/-- `run_multiplexed` up to its results, with its moments. -/
def finalLogged (codec : Codec) (c : Connection) (reqs : List Request) : List Moment × Batch :=
  let b := (init c reqs).startQueued reqs
  match b.conn.flushPending with
  | (.error e, conn) => ([.pumps b.conn], failAllOutstanding { b with conn } e)
  | (.ok (), conn) =>
      let out := loopLogged codec reqs (conn.tls.source.bytes.length + 1) { b with conn }
      (.pumps b.conn :: out.1, out.2)

/-- The moments of `run_multiplexed`. -/
def moments (codec : Codec) (c : Connection) (reqs : List Request) : List Moment :=
  (finalLogged codec c reqs).1

theorem refillLogged_snd (reqs : List Request) (b : Batch) :
    (b.refillLogged reqs).2 = b.refill reqs := by
  unfold refillLogged refill
  split
  · rfl
  split
  · rfl
  simp only
  split
  · rfl
  generalize (startQueued reqs b).conn.flushPending = out
  obtain ⟨_ | _, conn⟩ := out
  · rfl
  · rfl

theorem loopLogged_snd (codec : Codec) (reqs : List Request) (fuel : Nat) (b : Batch) :
    (loopLogged codec reqs fuel b).2 = loop codec reqs fuel b := by
  induction fuel generalizing b with
  | zero => rfl
  | succ fuel ih =>
      rw [loopLogged, loop, ← refillLogged_snd]
      split
      · rfl
      obtain ⟨ms, b₁, goes⟩ := b.refillLogged reqs
      cases goes with
      | false => rfl
      | true =>
      dsimp only
      obtain ⟨res, conn⟩ := b₁.conn.readAndDispatch
      cases res with
      | error e =>
          dsimp only
          cases takeStreamError { b₁ with conn } with
          | none => rfl
          | some taken =>
              obtain ⟨idx, b₂⟩ := taken
              dsimp only
              generalize ((b₂.setResult idx (.error e)).startQueued reqs).conn.flushPending = out
              obtain ⟨_ | _, conn'⟩ := out
              · rfl
              · exact ih _
      | ok outcome =>
          dsimp only
          generalize (finishStream codec reqs (failGoawayDoomed { b₁ with conn })
            outcome).conn.flushPending = out
          obtain ⟨_ | _, conn'⟩ := out
          · rfl
          · exact ih _

/-- The moments are those of the run that gives the results. -/
theorem finalLogged_snd (codec : Codec) (c : Connection) (reqs : List Request) :
    (finalLogged codec c reqs).2 = final codec c reqs := by
  unfold finalLogged final
  simp only
  generalize (startQueued reqs (init c reqs)).conn.flushPending = out
  obtain ⟨_ | _, conn⟩ := out
  · rfl
  · exact loopLogged_snd codec reqs _ _

/-- Up to the first frame that is read while a stream with a body to send is answered in full,
streams with a body to send can send when the pump is called. -/
def Orderly : List Moment → Prop
  | [] => True
  | .reads c :: ms => Holds Stream.Unanswered c → Orderly ms
  | .pumps c :: ms => Holds Stream.Ready c ∧ Orderly ms

theorem orderly_refill {b b₁ : Batch} {goes : Bool} {ms rest : List Moment}
    (hready : Holds Stream.Ready b.conn) (hacc : Accounted reqs b)
    (hrefill : b.refillLogged reqs = (ms, b₁, goes))
    (hrest : (goes = true → Holds Stream.Ready b₁.conn) → Orderly rest) :
    Orderly (ms ++ rest) := by
  have hstart := ready_startQueued hacc hready
  unfold refillLogged at hrefill
  split at hrefill
  · cases hrefill
    exact hrest fun _ => hready
  split at hrefill
  · cases hrefill
    exact hrest fun _ => hready
  simp only at hrefill
  split at hrefill
  · cases hrefill
    exact hrest nofun
  have hflush := ready_flushPending hstart
  split at hrefill
  · cases hrefill
    exact ⟨hstart, hrest nofun⟩
  · next hres =>
      cases hrefill
      rw [hres] at hflush
      exact ⟨hstart, hrest fun _ => hflush⟩

theorem orderly_loop (codec : Codec) (reqs : List Request) (fuel : Nat) {b : Batch}
    (h : Sound reqs b) (hready : Holds Stream.Ready b.conn) :
    Orderly (loopLogged codec reqs fuel b).1 := by
  induction fuel generalizing b with
  | zero => trivial
  | succ fuel ih =>
      unfold loopLogged
      split
      · trivial
      next hwaits =>
      rw [Bool.not_eq_true', Bool.not_eq_false] at hwaits
      obtain ⟨ms, b₁, goes, hlogged⟩ : ∃ ms b₁ goes, b.refillLogged reqs = (ms, b₁, goes) :=
        ⟨_, _, _, rfl⟩
      have hrefill := refillLogged_snd reqs b
      rw [hlogged] at hrefill ⊢
      have hbehind {rest} := @orderly_refill reqs b b₁ goes ms rest hready h.accounted hlogged
      cases goes with
      | false =>
          have hall := @hbehind [] fun _ => trivial
          rwa [List.append_nil] at hall
      | true =>
      obtain ⟨hafter, -⟩ := refill_true h hrefill.symm
      obtain ⟨res, conn, hread⟩ : ∃ res conn, b₁.conn.readAndDispatch = (res, conn) :=
        ⟨_, _, rfl⟩
      dsimp only
      rw [hread]
      cases res with
      | error e =>
          dsimp only
          split
          · exact hbehind fun _ _ => trivial
          next idx b₂ htake =>
          have hpump : Holds Stream.Ready b₁.conn → Holds Stream.Unanswered b₁.conn → _ :=
            fun hready₁ hunanswered => ready_charged hafter.advances.1 hready₁ hunanswered hread htake
          split
          · exact hbehind fun hready₁ hunanswered => ⟨hpump (hready₁ rfl) hunanswered, trivial⟩
          next conn' hflush =>
          refine hbehind fun hready₁ hunanswered => ⟨hpump (hready₁ rfl) hunanswered, ?_⟩
          have hready' := ready_flushPending (hpump (hready₁ rfl) hunanswered)
          rw [hflush] at hready'
          have hagain : Again codec reqs b _ := .charged hwaits hrefill.symm hread htake hflush
          exact ih (hagain.spec h).1 hready'
      | ok outcome =>
          have hpump : Holds Stream.Ready b₁.conn → Holds Stream.Unanswered b₁.conn →
              Holds Stream.Ready
                (finishStream codec reqs (failGoawayDoomed { b₁ with conn }) outcome).conn :=
            fun hready₁ hunanswered => ready_handled hafter.advances.1 hready₁ hunanswered hread
          dsimp only
          split
          · exact hbehind fun hready₁ hunanswered => ⟨hpump (hready₁ rfl) hunanswered, trivial⟩
          next conn' hflush =>
          refine hbehind fun hready₁ hunanswered => ⟨hpump (hready₁ rfl) hunanswered, ?_⟩
          have hready' := ready_flushPending (hpump (hready₁ rfl) hunanswered)
          rw [hflush] at hready'
          exact ih ((Again.handled hwaits hrefill.symm hread hflush).spec h).1 hready'

/-- The moments of a batch on a connection without streams. -/
theorem orderly_moments (codec : Codec) {c : Connection} (reqs : List Request)
    (hempty : c.streams.entries = []) : Orderly (moments codec c reqs) := by
  have hnone : Holds Stream.Ready (init c reqs).conn := by
    intro id s hs
    change c.streams.lookup id = some s at hs
    rw [AList.lookup, hempty] at hs
    cases hs
  have hstart := ready_startQueued (accounted_init hempty) hnone
  unfold moments finalLogged
  simp only
  split
  · exact ⟨hstart, trivial⟩
  next conn hflush =>
  have hready := ready_flushPending hstart
  rw [hflush] at hready
  exact ⟨hstart, orderly_loop codec reqs _ (sound_first hempty hflush).1 hready⟩

theorem runs_refillLogged {b b₁ : Batch} {goes : Bool} {ms : List Moment}
    (h : b.refillLogged reqs = (ms, b₁, goes)) : ∀ m ∈ ms, Runs b.conn m.conn := by
  have hstart := runs_startQueued reqs b
  unfold refillLogged at h
  split at h
  · cases h
    exact List.forall_mem_nil _
  split at h
  · cases h
    exact List.forall_mem_nil _
  simp only at h
  split at h
  · cases h
    exact List.forall_mem_nil _
  split at h
  · cases h
    exact List.forall_mem_singleton.mpr hstart
  · cases h
    exact List.forall_mem_singleton.mpr hstart

theorem runs_loopLogged (codec : Codec) (reqs : List Request) (fuel : Nat) (b : Batch) :
    ∀ m ∈ (loopLogged codec reqs fuel b).1, Runs b.conn m.conn := by
  induction fuel generalizing b with
  | zero => exact List.forall_mem_nil _
  | succ fuel ih =>
      unfold loopLogged
      split
      · exact List.forall_mem_nil _
      next hwaits =>
      rw [Bool.not_eq_true', Bool.not_eq_false] at hwaits
      obtain ⟨ms, b₁, goes, hlogged⟩ : ∃ ms b₁ goes, b.refillLogged reqs = (ms, b₁, goes) :=
        ⟨_, _, _, rfl⟩
      have hms := runs_refillLogged hlogged
      have hrefill := refillLogged_snd reqs b
      rw [hlogged] at hrefill ⊢
      cases goes with
      | false => exact hms
      | true =>
      have hreads := (ends_refill hrefill.symm).2 rfl
      obtain ⟨res, conn, hread⟩ : ∃ res conn, b₁.conn.readAndDispatch = (res, conn) :=
        ⟨_, _, rfl⟩
      dsimp only
      rw [hread]
      cases res with
      | error e =>
          dsimp only
          split
          · exact List.forall_mem_append.mpr ⟨hms, List.forall_mem_singleton.mpr hreads⟩
          next idx b₂ htake =>
          have hpumps := runs_charged hrefill.symm hread htake
          split
          · exact List.forall_mem_append.mpr ⟨hms, List.forall_mem_cons.mpr
            ⟨hreads, List.forall_mem_singleton.mpr hpumps⟩⟩
          next conn' hflush =>
          refine List.forall_mem_append.mpr ⟨hms, List.forall_mem_cons.mpr
            ⟨hreads, List.forall_mem_cons.mpr ⟨hpumps, fun m hm => ?_⟩⟩⟩
          exact (hpumps.trans (runs_flushPending hflush)).trans (ih _ m hm)
      | ok outcome =>
          have hpumps := runs_handled codec hrefill.symm hread
          dsimp only
          split
          · exact List.forall_mem_append.mpr ⟨hms, List.forall_mem_cons.mpr
            ⟨hreads, List.forall_mem_singleton.mpr hpumps⟩⟩
          next conn' hflush =>
          refine List.forall_mem_append.mpr ⟨hms, List.forall_mem_cons.mpr
            ⟨hreads, List.forall_mem_cons.mpr ⟨hpumps, fun m hm => ?_⟩⟩⟩
          exact (hpumps.trans (runs_flushPending hflush)).trans (ih _ m hm)

/-- Every moment of a batch is come to by its acts. -/
theorem runs_moments (codec : Codec) (c : Connection) (reqs : List Request) :
    ∀ m ∈ moments codec c reqs, Runs c m.conn := by
  have hstart := runs_startQueued reqs (init c reqs)
  unfold moments finalLogged
  simp only
  split
  · exact List.forall_mem_singleton.mpr hstart
  next conn hflush =>
  refine List.forall_mem_cons.mpr ⟨hstart, fun m hm => ?_⟩
  exact (hstart.trans (runs_flushPending hflush)).trans (runs_loopLogged codec reqs _ _ m hm)

/-- What is orderly, in terms of what comes before a call of the pump. -/
theorem Orderly.pumps {pre post : List Moment} {c : Connection}
    (h : Orderly (pre ++ .pumps c :: post))
    (hreads : ∀ c, .reads c ∈ pre → Holds Stream.Unanswered c) : Holds Stream.Ready c := by
  induction pre with
  | nil => exact h.1
  | cons m pre ih =>
      have hrest : ∀ c, .reads c ∈ pre → Holds Stream.Unanswered c :=
        fun c hc => hreads c (List.mem_cons_of_mem _ hc)
      cases m with
      | reads c => exact ih (h (hreads c List.mem_cons_self)) hrest
      | pumps c => exact ih h.2 hrest

end Batch

/-! ## Body delivery -/

/-- The bodies that `run_multiplexed` delivers, and how its events come onto the wire. -/
theorem delivers_runMultiplexed (codec : Codec) {c : Connection} (hempty : c.streams.entries = [])
    (reqs : List Request) : ∃ evs, Traced .multi false c evs (runMultiplexed codec c reqs).2 ∧
      BodiesDelivered evs := by
  obtain ⟨c', ⟨c₁, ⟨evs, htrace⟩, hlast⟩, heq⟩ := Batch.ends_runMultiplexed codec c reqs
  obtain ⟨hdelivered, -, hfails⟩ := delivers_batch hempty htrace
  have hmulti : Path.multi ≠ .single := by decide
  obtain ⟨new, hends, hbodies⟩ : ∃ new, Traced .multi false c (evs ++ new) c' ∧
      BodiesDelivered (evs ++ new) := by
    have hruns : Traced .multi false c evs c₁ := htrace.mono fun hlive => hlive.widen hmulti
    rcases hlast with rfl | ⟨new, hact⟩
    · rw [← List.append_nil evs] at hruns hdelivered
      exact ⟨[], hruns, hdelivered⟩
    · exact ⟨new, hruns.snoc hact, hfails new c' hact⟩
  rcases heq with heq | heq
  · rw [heq]
    exact ⟨_, hends, hbodies⟩
  · rw [heq]
    refine ⟨_, hends.snoc (drops_prune c'), ?_⟩
    rw [List.append_nil]
    exact hbodies

/-- On a usable connection: `send_request_on` and a batch deliver the bodies of their requests,
the DATA of their events being the DATA on the wire, and as long as no stream with a body to send
was answered in full when a frame was read, the pump finds all of them able to send and fails on
nothing but a write. -/
theorem bodyDelivery (codec : Codec) {tls : Tls} {c₀ c : Connection}
    (hnew : Connection.new tls = .ok c₀) (hused : Used codec c₀ c) (husable : c.isUsable = true) :
    (∀ ok id req c₁, c.openStream = (.ok id, c₁) → Allowed ok (c₁.sendRequestOn id req).1 →
      ∃ evs, Traced .single ok c₁ evs (c₁.sendRequestOn id req).2 ∧
        Transmitted c₁.tls.sink evs (c₁.sendRequestOn id req).2.tls.sink ∧
        Delivers id req.body evs ∧
        ((c₁.sendRequestOn id req).1 = .ok () → dataOn id evs = req.body)) ∧
    (∀ reqs, ∃ evs, Traced .multi false c evs (runMultiplexed codec c reqs).2 ∧
      Transmitted c.tls.sink evs (runMultiplexed codec c reqs).2.tls.sink ∧
      BodiesDelivered evs) ∧
    (∀ evs c', Base.Trace Live c evs c' → Transmitted c.tls.sink evs c'.tls.sink ∧
      BodiesDelivered evs ∧
      (∀ pre id req post s, evs = pre ++ .request id req :: post →
        c'.streams.lookup id = some s → s.pendingBody = none → dataOn id post = req.body) ∧
      ∀ new c'', Acts .multi false c' new c'' → Transmitted c.tls.sink (evs ++ new) c''.tls.sink ∧
        BodiesDelivered (evs ++ new)) ∧
    ∀ reqs pre c' post, Batch.moments codec c reqs = pre ++ .pumps c' :: post →
      (∀ c₁, .reads c₁ ∈ pre → Holds Stream.Unanswered c₁) →
      Batch.Runs c c' ∧ Holds Stream.Ready c' ∧ ∀ e, c'.pumpPendingSends.1 = .error e →
        ∃ sink f, (writeFrame sink f).1 = .error e := by
  have hempty := streams_of_usable husable
  have hsane := hused.sane (sane_of_new hnew)
  refine ⟨fun ok id req c₁ hopen hok => ?_, fun reqs => ?_, fun evs c' hlive => ?_,
    fun reqs pre c' post heq hreads => ?_⟩
  · have hopens : Traced .single true c _ c₁ := .single (.opens hopen)
    obtain ⟨evs, htrace, hdelivers, hall⟩ :=
      delivers_sendRequestOn ok id req (Traced.sane hopens hsane) hok
    exact ⟨evs, htrace, Traced.transmitted htrace, hdelivers, hall⟩
  · obtain ⟨evs, htrace, hdelivered⟩ := delivers_runMultiplexed codec hempty reqs
    exact ⟨evs, htrace, Traced.transmitted htrace, hdelivered⟩
  · have htrace : Traced .multi false c evs c' := hlive.mono fun hact => hact.widen (by decide)
    obtain ⟨hdelivered, hall, hfails⟩ := delivers_batch hempty hlive
    exact ⟨Traced.transmitted htrace, hdelivered, hall, fun new c'' hact =>
      ⟨Traced.transmitted (htrace.snoc hact), hfails new c'' hact⟩⟩
  · have horderly := Batch.orderly_moments codec reqs hempty
    have hruns := Batch.runs_moments codec c reqs
    rw [heq] at horderly hruns
    have hready := horderly.pumps hreads
    exact ⟨hruns _ (List.mem_append_right _ List.mem_cons_self), hready,
      fun e => pump_fails_on_write hready⟩

/-- All of a POST goes out, by itself and in a batch. -/
theorem bodyDelivery_post :
    (∃ evs, Transmitted (Connection.dial ⟨[], none⟩).tls.sink evs
        ((Connection.dial ⟨[], none⟩).openStream.2.sendRequestOn 1 samplePost).2.tls.sink ∧
      Delivers 1 [0x78] evs ∧ dataOn 1 evs = [0x78]) ∧
    (∃ evs, Transmitted (Connection.dial ⟨[], none⟩).tls.sink evs
        (runMultiplexed (fun _ _ _ => .error []) (.dial ⟨[], none⟩) [samplePost]).2.tls.sink ∧
      BodiesDelivered evs) ∧
    (dataFrame 1 [0x78] true).bytes <:+
      (runMultiplexed (fun _ _ _ => .error []) (.dial ⟨[], none⟩) [samplePost]).2.tls.sink.written := by
  have hres : ((Connection.dial ⟨[], none⟩).openStream.2.sendRequestOn 1 samplePost).1 = .ok () := by
    decide +kernel
  obtain ⟨hsingle, hbatch, -⟩ := bodyDelivery (fun _ _ _ => .error []) (new_dial ⟨[], none⟩) .fresh
    (by decide +kernel)
  obtain ⟨evs, -, hwire, hdelivers, hall⟩ := hsingle true 1 samplePost _ rfl fun _ => ⟨(), hres⟩
  obtain ⟨evs', -, hwire', hdelivered⟩ := hbatch [samplePost]
  exact ⟨⟨evs, hwire, hdelivers, hall hres⟩, ⟨evs', hwire', hdelivered⟩, by decide +kernel⟩

/-- SETTINGS that close the stream windows, and the answer to a first request.  Then, for a GET and
a POST in one batch: the end of the GET's stream before any headers; the headers of an answer to
the POST; a block on its stream that ends it and cannot be decoded; and a GOAWAY between the two. -/
def misplaced : Bytes :=
  [0, 0, 6, 4, 0, 0, 0, 0, 0, 0, 4, 0, 0, 0, 0] ++ [0, 0, 1, 1, 5, 0, 0, 0, 1, 0x88] ++
    [0, 0, 0, 0, 1, 0, 0, 0, 3] ++ [0, 0, 1, 1, 4, 0, 0, 0, 5, 0x88] ++
    [0, 0, 1, 1, 5, 0, 0, 0, 5, 0x80] ++ [0, 0, 8, 7, 0, 0, 0, 0, 0, 0, 0, 0, 3, 0, 0, 0, 0]

/-- The connection after the first request. -/
def afterClosing : Connection :=
  (runOneRequest (fun _ _ _ => .error []) (.dial ⟨misplaced, none⟩) sampleGet).2

theorem afterClosing_facts : afterClosing.isUsable = true ∧
    (Batch.moments (fun _ _ _ => .error []) afterClosing [sampleGet, samplePost]).any (fun
      | .pumps c => (c.streams.lookup 5).any fun s => s.pendingBody.isSome && s.state = .closed
      | .reads _ => false) = true := by
  decide +kernel

/-- The GET pays for the block that answers the POST in full; the GOAWAY then closes the stream of
the POST, which stays, and is pumped. -/
theorem pumped_when_closed :
    ¬ ∀ (codec : Codec) (tls : Tls) (c₀ c c' : Connection) (reqs : List Request),
      Connection.new tls = .ok c₀ → Used codec c₀ c → c.isUsable = true →
        .pumps c' ∈ Batch.moments codec c reqs → Holds Stream.Ready c' := by
  intro hclaim
  obtain ⟨husable, hany⟩ := afterClosing_facts
  obtain ⟨m, hm, hfound⟩ := List.any_eq_true.mp hany
  cases m with
  | reads c => cases hfound
  | pumps c =>
      have hready := hclaim _ _ _ _ c _ (new_dial ⟨misplaced, none⟩)
        (.single .fresh sampleGet) husable hm
      obtain ⟨s, hs, hbad⟩ := (Option.any_eq_true _ _).mp hfound
      rw [Bool.and_eq_true, decide_eq_true_iff] at hbad
      rcases hready hs hbad.1 with hopen | hhalf
      · cases hbad.2.symm.trans hopen
      · cases hbad.2.symm.trans hhalf

end Rsurl.H2
