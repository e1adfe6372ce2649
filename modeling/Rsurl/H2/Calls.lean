/-
# `Rsurl.H2.Calls` — what every call stays within

The two drivers are made of a few things that happen to a connection: streams
come and go, HEADERS or a chunk of DATA are sent, a frame is handled.  A
relation that is closed under these (`Closed`) relates a connection to what
becomes of it whatever is run on it (`Closed.used`).
-/
import Rsurl.H2.TraceBatch

namespace Rsurl.H2

open Http (Request)
open Relation (ReflTransGen)

/-- A relation between connections that the drivers do not leave. -/
structure Closed (R : Connection → Connection → Prop) : Prop where
  refl : ∀ c, R c c
  trans : ∀ {c c' c''}, R c c' → R c' c'' → R c c''
  streams : ∀ c streams nextStreamId, R c { c with streams, nextStreamId }
  source : ∀ c source, R c { c with tls := { c.tls with source } }
  heads : ∀ c id req, R c (c.sendHeadersOn id req).2
  chunk : ∀ c id s chunk isLast, R c (c.sendChunk id s chunk isLast).2
  frame : ∀ c source f, R c ((c.receive source f).processFrame f).2

namespace Closed

variable {R : Connection → Connection → Prop}

/-! ## One request -/

section

variable {α β : Type} {c : Connection}

theorem andThen (hR : Closed R) {x : Result α × Connection}
    {k : α → Connection → Result β × Connection} (hx : R c x.2)
    (hk : ∀ a c', R c' (k a c').2) : R c (Connection.andThen x k).2 := by
  obtain ⟨res, c₁⟩ := x
  cases res with
  | error e => exact hx
  | ok a => exact hR.trans hx (hk a c₁)

theorem setStream (hR : Closed R) (c : Connection) (id : Nat) (s : Stream) :
    R c (c.setStream id s) := hR.streams c _ c.nextStreamId

theorem erase (hR : Closed R) (c : Connection) (id : Nat) :
    R c { c with streams := c.streams.erase id } := hR.streams c _ c.nextStreamId

theorem openStream (hR : Closed R) (c : Connection) : R c c.openStream.2 := by
  rcases openStream_cases c with ⟨e, heq⟩ | heq
  · rw [heq]
    exact hR.refl c
  · rw [heq]
    exact hR.streams c _ _

theorem readAndDispatch (hR : Closed R) (c : Connection) : R c c.readAndDispatch.2 := by
  rcases readAndDispatch_cases c with ⟨e, source, heq, -⟩ | ⟨f, source, -, heq, -⟩
  · rw [heq]
    exact hR.source c source
  · rw [heq]
    exact hR.frame c source f

theorem awaitBudget (hR : Closed R) (fuel : Nat) (c : Connection) (id : Nat) :
    R c (Connection.awaitBudget fuel c id).2 := by
  induction fuel generalizing c with
  | zero => exact hR.refl c
  | succ fuel ih =>
      unfold Connection.awaitBudget
      split
      · exact hR.refl c
      split
      · exact hR.refl c
      refine hR.andThen (hR.readAndDispatch c) fun o c' => ?_
      split
      · exact hR.refl c'
      · exact ih c'

theorem sendBody (hR : Closed R) (fuel : Nat) (c : Connection) (id : Nat) (remaining : Bytes) :
    R c (Connection.sendBody fuel c id remaining).2 := by
  induction fuel generalizing c remaining with
  | zero => exact hR.refl c
  | succ fuel ih =>
      unfold Connection.sendBody
      split
      · exact hR.refl c
      refine hR.andThen (hR.awaitBudget _ c id) fun _ c₁ => ?_
      split
      · exact hR.refl c₁
      · exact hR.andThen (hR.chunk c₁ id _ _ _) fun _ c₂ => ih c₂ _

theorem sendRequestOn (hR : Closed R) (c : Connection) (id : Nat) (req : Request) :
    R c (c.sendRequestOn id req).2 := by
  refine hR.andThen (hR.heads c id req) fun _ c₁ =>
    hR.andThen (hR.sendBody req.body.length c₁ id req.body) fun _ c₂ => ?_
  rw [flush_snd]
  exact hR.refl c₂

theorem takeStream (hR : Closed R) (c : Connection) (id : Nat) : R c (c.takeStream id).2 := by
  unfold Connection.takeStream
  split
  · exact hR.erase c id
  · exact hR.refl c

theorem driveUntilStreamDone (hR : Closed R) (fuel : Nat) (c : Connection) (id : Nat) :
    R c (Connection.driveUntilStreamDone fuel c id).2 := by
  induction fuel generalizing c with
  | zero => exact hR.refl c
  | succ fuel ih =>
      unfold Connection.driveUntilStreamDone
      split
      · exact hR.refl c
      split
      · exact hR.takeStream c id
      refine hR.andThen (hR.readAndDispatch c) fun o c' => ?_
      split
      · exact hR.takeStream c' id
      · exact ih c'

theorem prune (hR : Closed R) (c : Connection) : R c c.pruneCompletedStreams :=
  hR.streams c _ c.nextStreamId

theorem runOneRequest (hR : Closed R) (codec : Codec) (c : Connection) (req : Request) :
    R c (runOneRequest codec c req).2 :=
  hR.andThen (hR.openStream c) fun id c₁ =>
    hR.andThen (hR.sendRequestOn c₁ id req) fun _ c₂ =>
      hR.andThen (hR.driveUntilStreamDone _ c₂ id) fun _ c₃ => hR.prune c₃

end

/-! ## Many requests -/

theorem stageRequestOn (hR : Closed R) (c : Connection) (id : Nat) (req : Request) :
    R c (c.stageRequestOn id req).2 := by
  refine hR.andThen (hR.heads c id req) fun s c₁ => ?_
  split
  · exact hR.refl c₁
  · exact hR.setStream c₁ id _

theorem pumps (hR : Closed R) {ok : Bool} {maxFrameSize : Nat} {c c' : Connection}
    (h : Pumps ok maxFrameSize c c') : R c c' := by
  have hchunk := hR.chunk c
  cases h with
  | cleared => exact hR.setStream c _ _
  | @advanced id n s _ pb _ _ _ _ _ _ hsend =>
      have hsent := hchunk id s ((pb.bytes.drop pb.sent).take n) false
      rw [hsend] at hsent
      exact hR.trans hsent (hR.setStream _ _ _)
  | @finished id n s _ pb _ _ _ _ _ _ hsend =>
      have hsent := hchunk id s ((pb.bytes.drop pb.sent).take n) true
      rw [hsend] at hsent
      exact hR.trans hsent (hR.setStream _ _ _)
  | @failed id n s pb _ _ _ _ _ _ _ hsend =>
      have hsent := hchunk id s ((pb.bytes.drop pb.sent).take n)
        (decide (n = pb.bytes.length - pb.sent))
      rwa [hsend] at hsent

theorem flushPending (hR : Closed R) (c : Connection) : R c c.flushPending.2 := by
  have hpumps := flushPending_pumps false c nofun
  generalize c.flushPending.2 = c' at hpumps
  induction hpumps with
  | refl => exact hR.refl c
  | tail _ hpump ih => exact hR.trans ih (hR.pumps hpump)

theorem flushed (hR : Closed R) {c c' : Connection} {res : Result Unit}
    (h : c.flushPending = (res, c')) : R c c' := by
  have hflush := hR.flushPending c
  rwa [h] at hflush

section

variable {reqs : List Request} {codec : Codec} {b b' : Batch}

theorem starts (hR : Closed R) (h : Batch.Starts reqs b b') : R b.conn b'.conn := by
  have hopens := hR.openStream b.conn
  cases h with
  | refused => exact hopens
  | lost _ hopen =>
      rw [hopen] at hopens
      exact hopens
  | @failed idx id queue conn conn' req e _ hopen _ hstage =>
      have hstaged := hR.stageRequestOn conn id req
      rw [hopen] at hopens
      rw [hstage] at hstaged
      exact hR.trans hopens (hR.trans hstaged (hR.erase conn' id))
  | @started idx id queue conn conn' req _ hopen _ hstage =>
      have hstaged := hR.stageRequestOn conn id req
      rw [hopen] at hopens
      rw [hstage] at hstaged
      exact hR.trans hopens hstaged

theorem startQueued (hR : Closed R) (reqs : List Request) (b : Batch) :
    R b.conn (b.startQueued reqs).conn :=
  Batch.startQueued_induct reqs (P := fun b' => R b.conn b'.conn)
    (fun hstart hb => hR.trans hb (hR.starts hstart)) (hR.refl _)

theorem refill (hR : Closed R) (reqs : List Request) (b : Batch) :
    R b.conn (b.refill reqs).1.conn := by
  unfold Batch.refill
  have hstart := hR.startQueued reqs b
  split
  · exact hR.refl _
  split
  · exact hR.refl _
  simp only
  split
  · exact hstart
  split
  · next hflush => exact hR.trans hstart (hR.flushed hflush)
  · next hflush => exact hR.trans hstart (hR.flushed hflush)

theorem refilled (hR : Closed R) {goes : Bool} (h : b.refill reqs = (b', goes)) :
    R b.conn b'.conn := by
  have hrefill := hR.refill reqs b
  rwa [h] at hrefill

theorem takeStreamError (hR : Closed R) {idx : Nat} (h : b.takeStreamError = some (idx, b')) :
    R b.conn b'.conn := by
  obtain ⟨id, s, -, -, rfl⟩ := Batch.takeStreamError_eq_some h
  exact hR.erase b.conn id

theorem failGoawayDoomed (hR : Closed R) (b : Batch) : R b.conn b.failGoawayDoomed.conn := by
  have hone : ∀ (last : Nat) (b : Batch) (id : Nat), R b.conn (Batch.failDoomed last b id).conn := by
    intro last b id
    unfold Batch.failDoomed
    split
    · exact hR.refl _
    · exact hR.erase b.conn id
  have hall : ∀ (last : Nat) (doomed : List Nat) (b : Batch),
      R b.conn (doomed.foldl (Batch.failDoomed last) b).conn := by
    intro last doomed
    induction doomed with
    | nil => exact fun b => hR.refl b.conn
    | cons id doomed ih => exact fun b => hR.trans (hone last b id) (ih _)
  unfold Batch.failGoawayDoomed
  split
  · exact hR.refl _
  · exact hall _ _ b

theorem finishStream (hR : Closed R) (codec : Codec) (reqs : List Request) (b : Batch)
    (outcome : DispatchOutcome) : R b.conn (b.finishStream codec reqs outcome).conn := by
  unfold Batch.finishStream
  split
  · exact hR.refl _
  next id =>
  split
  · next idx stream _ _ =>
      have hstart := hR.startQueued reqs
        ({ b with
          conn := { b.conn with streams := b.conn.streams.erase id }
          idToIdx := b.idToIdx.erase id }.setResult idx (buildResponseFromStream codec stream))
      exact hR.trans (hR.erase b.conn id) hstart
  · exact hR.refl _

/-- From a turn's first state to what the frame makes of it. -/
theorem reads (hR : Closed R) {b₁ : Batch} {goes : Bool} {conn : Connection}
    {res : Result DispatchOutcome} (hrefill : b.refill reqs = (b₁, goes))
    (hread : b₁.conn.readAndDispatch = (res, conn)) : R b.conn conn := by
  have hdispatch := hR.readAndDispatch b₁.conn
  rw [hread] at hdispatch
  exact hR.trans (hR.refilled hrefill) hdispatch

theorem charged (hR : Closed R) {b₁ b₂ : Batch} {goes : Bool} {conn conn' : Connection}
    {e : Error} {idx : Nat} {res : Result Unit} (hrefill : b.refill reqs = (b₁, goes))
    (hread : b₁.conn.readAndDispatch = (.error e, conn))
    (htake : Batch.takeStreamError { b₁ with conn } = some (idx, b₂))
    (hflush : ((b₂.setResult idx (.error e)).startQueued reqs).conn.flushPending =
      (res, conn')) : R b.conn conn' :=
  hR.trans (hR.reads hrefill hread) <| hR.trans (hR.takeStreamError htake) <|
    hR.trans (hR.startQueued reqs (b₂.setResult idx (.error e))) (hR.flushed hflush)

theorem handled (hR : Closed R) {b₁ : Batch} {goes : Bool} {conn conn' : Connection}
    {outcome : DispatchOutcome} {res : Result Unit} (hrefill : b.refill reqs = (b₁, goes))
    (hread : b₁.conn.readAndDispatch = (.ok outcome, conn))
    (hflush : (Batch.finishStream codec reqs (Batch.failGoawayDoomed { b₁ with conn })
      outcome).conn.flushPending = (res, conn')) : R b.conn conn' :=
  hR.trans (hR.reads hrefill hread) <| hR.trans (hR.failGoawayDoomed { b₁ with conn }) <|
    hR.trans (hR.finishStream codec reqs _ outcome) (hR.flushed hflush)

theorem loop (hR : Closed R) (codec : Codec) (reqs : List Request) (fuel : Nat) (b : Batch) :
    R b.conn (Batch.loop codec reqs fuel b).conn := by
  have hpasses : ∀ {b'}, ReflTransGen (Batch.Again codec reqs) b b' → R b.conn b'.conn := by
    intro b' h
    induction h with
    | refl => exact hR.refl _
    | tail _ hagain ih =>
        cases hagain with
        | charged _ hrefill hread htake hflush =>
            exact hR.trans ih (hR.charged hrefill hread htake hflush)
        | handled _ hrefill hread hflush =>
            exact hR.trans ih (hR.handled hrefill hread hflush)
  obtain ⟨b', hruns, hout⟩ := Batch.loop_leaves codec reqs fuel b
  rcases hout with hleaves | heq
  · generalize Batch.loop codec reqs fuel b = out at hleaves
    refine hR.trans (hpasses hruns) ?_
    cases hleaves with
    | full => exact hR.refl _
    | stuck _ hrefill => exact hR.refilled hrefill
    | fatal _ hrefill hread => exact hR.reads hrefill hread
    | chargedBroken _ hrefill hread htake hflush => exact hR.charged hrefill hread htake hflush
    | handledBroken _ hrefill hread hflush => exact hR.handled hrefill hread hflush
  · rw [heq]
    exact hpasses hruns

theorem runMultiplexed (hR : Closed R) (codec : Codec) (c : Connection) (reqs : List Request) :
    R c (runMultiplexed codec c reqs).2 := by
  have hstart : R c ((Batch.init c reqs).startQueued reqs).conn :=
    hR.startQueued reqs (Batch.init c reqs)
  obtain ⟨res, conn, hflush⟩ : ∃ res conn,
    ((Batch.init c reqs).startQueued reqs).conn.flushPending = (res, conn) := ⟨_, _, rfl⟩
  cases res with
  | error e =>
      rw [Batch.runMultiplexed_conn_of_error codec hflush]
      exact hR.trans hstart (hR.flushed hflush)
  | ok u =>
      have hloop := hR.loop codec reqs (conn.tls.source.bytes.length + 1)
        { (Batch.init c reqs).startQueued reqs with conn }
      rw [Batch.runMultiplexed_conn codec hflush]
      exact hR.trans hstart (hR.trans (hR.flushed hflush) (hR.trans hloop (hR.prune _)))

end

/-- What is kept by the things that happen is kept over the life of a connection. -/
theorem used (hR : Closed R) {codec : Codec} {c₀ c : Connection} (h : Used codec c₀ c) :
    R c₀ c := by
  induction h with
  | fresh => exact hR.refl c₀
  | single _ req ih => exact hR.trans ih (hR.runOneRequest codec _ req)
  | multi _ reqs ih => exact hR.trans ih (hR.runMultiplexed codec _ reqs)

end Closed

end Rsurl.H2
