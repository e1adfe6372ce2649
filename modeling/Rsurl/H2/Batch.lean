/-
# `Rsurl.H2.Batch` — the multiplexing loop, in steps

`run_multiplexed` taken apart: `Starts` is one turn of `start_queued`, `Again`
one pass of the frame loop that goes on, `Leaves` the ways out of it.  The
inductions over the queue and over the fuel are made here, once
(`startQueued_starts`, `loop_leaves`); what is said of every pass elsewhere is
a statement about these three relations.
-/
import Mathlib.Logic.Relation
import Rsurl.H2.Driver

namespace Rsurl.H2

open Http (Request Response)
open Relation (ReflTransGen)

namespace Batch

/-! ## Starting requests -/

/-- One turn of `start_queued`: the request at the head of the queue is started, or fails. -/
inductive Starts (reqs : List Request) (b : Batch) : Batch → Prop
  | refused {idx : Nat} {queue : List Nat} {e : Error} (hqueue : b.queue = idx :: queue)
      (hopen : b.conn.openStream.1 = .error e) :
      Starts reqs b ({ b with conn := b.conn.openStream.2, queue }.setResult idx (.error e))
  | lost {idx id : Nat} {queue : List Nat} {conn : Connection} (hqueue : b.queue = idx :: queue)
      (hopen : b.conn.openStream = (.ok id, conn)) (hreq : reqs[idx]? = none) :
      Starts reqs b { b with conn, queue }
  | failed {idx id : Nat} {queue : List Nat} {conn conn' : Connection} {req : Request} {e : Error}
      (hqueue : b.queue = idx :: queue) (hopen : b.conn.openStream = (.ok id, conn))
      (hreq : reqs[idx]? = some req) (hstage : conn.stageRequestOn id req = (.error e, conn')) :
      Starts reqs b ({ b with
        conn := { conn' with streams := conn'.streams.erase id }, queue }.setResult idx (.error e))
  | started {idx id : Nat} {queue : List Nat} {conn conn' : Connection} {req : Request}
      (hqueue : b.queue = idx :: queue) (hopen : b.conn.openStream = (.ok id, conn))
      (hreq : reqs[idx]? = some req) (hstage : conn.stageRequestOn id req = (.ok (), conn')) :
      Starts reqs b { b with conn := conn', idToIdx := b.idToIdx.insert id idx, queue }

theorem startFrom_starts (reqs : List Request) (queue : List Nat) (b : Batch) :
    ReflTransGen (Starts reqs) { b with queue } (b.startFrom reqs queue) := by
  induction queue generalizing b with
  | nil => exact .refl
  | cons idx queue ih =>
      unfold startFrom
      split
      · exact .refl
      obtain ⟨res, conn, hopen⟩ : ∃ res conn, b.conn.openStream = (res, conn) := ⟨_, _, rfl⟩
      simp only [hopen]
      cases res with
      | error e =>
          have hstep := @Starts.refused reqs { b with queue := idx :: queue } idx queue e rfl
            (by rw [hopen])
          rw [hopen] at hstep
          exact .head hstep (ih ({ b with conn }.setResult idx (.error e)))
      | ok id =>
          simp only
          split
          · next hreq => exact .head (.lost rfl hopen hreq) (ih { b with conn })
          next req hreq =>
          split
          · next e conn' hstage =>
              let conn' := { conn' with streams := conn'.streams.erase id }
              exact .head (.failed rfl hopen hreq hstage)
                (ih ({ b with conn := conn' }.setResult idx (.error e)))
          · next conn' hstage =>
              exact .head (.started rfl hopen hreq hstage)
                (ih { b with conn := conn', idToIdx := b.idToIdx.insert id idx })

/-- `start_queued` is a sequence of starts. -/
theorem startQueued_starts (reqs : List Request) (b : Batch) :
    ReflTransGen (Starts reqs) b (b.startQueued reqs) :=
  startFrom_starts reqs b.queue b

/-- What every start keeps, `start_queued` keeps. -/
theorem startQueued_induct {P : Batch → Prop} (reqs : List Request) {b : Batch}
    (hstep : ∀ {b b'}, Starts reqs b b' → P b → P b') (h : P b) : P (b.startQueued reqs) := by
  have hruns := startQueued_starts reqs b
  generalize b.startQueued reqs = b' at hruns
  induction hruns with
  | refl => exact h
  | tail _ hstart ih => exact hstep hstart ih

theorem startFrom_full (reqs : List Request) (queue : List Nat) (b : Batch) :
    (b.startFrom reqs queue).queue = [] ∨
      (b.startFrom reqs queue).conn.peer.maxConcurrentStreams ≤
        (b.startFrom reqs queue).conn.streams.entries.length := by
  induction queue generalizing b with
  | nil => exact .inl rfl
  | cons idx queue ih =>
      unfold startFrom
      split
      · next hfull => exact .inr hfull
      obtain ⟨res, conn, hopen⟩ : ∃ res conn, b.conn.openStream = (res, conn) := ⟨_, _, rfl⟩
      simp only [hopen]
      cases res with
      | error e => exact ih _
      | ok id =>
          simp only
          split
          · exact ih _
          split
          · exact ih _
          · exact ih _

/-- `start_queued` stops only when nothing is queued or the peer's limit is reached. -/
theorem startQueued_full (reqs : List Request) (b : Batch) :
    (b.startQueued reqs).queue = [] ∨
      (b.startQueued reqs).conn.peer.maxConcurrentStreams ≤
        (b.startQueued reqs).conn.streams.entries.length :=
  startFrom_full reqs b.queue b

/-! ## Passes of the loop -/

/-- A pass of the loop that goes on. -/
inductive Again (codec : Codec) (reqs : List Request) (b : Batch) : Batch → Prop
  | charged {b₁ b₂ : Batch} {conn conn' : Connection} {e : Error} {idx : Nat}
      (hwaits : b.results.any Option.isNone = true) (hrefill : b.refill reqs = (b₁, true))
      (hread : b₁.conn.readAndDispatch = (.error e, conn))
      (htake : takeStreamError { b₁ with conn } = some (idx, b₂))
      (hflush : ((b₂.setResult idx (.error e)).startQueued reqs).conn.flushPending =
        (.ok (), conn')) :
      Again codec reqs b { (b₂.setResult idx (.error e)).startQueued reqs with conn := conn' }
  | handled {b₁ : Batch} {conn conn' : Connection} {outcome : DispatchOutcome}
      (hwaits : b.results.any Option.isNone = true) (hrefill : b.refill reqs = (b₁, true))
      (hread : b₁.conn.readAndDispatch = (.ok outcome, conn))
      (hflush : (finishStream codec reqs (failGoawayDoomed { b₁ with conn })
        outcome).conn.flushPending = (.ok (), conn')) :
      Again codec reqs b { finishStream codec reqs (failGoawayDoomed { b₁ with conn }) outcome with
        conn := conn' }

/-- A way out of the loop. -/
inductive Leaves (codec : Codec) (reqs : List Request) (b : Batch) : Batch → Prop
  | full (hfull : b.results.any Option.isNone = false) : Leaves codec reqs b b
  | stuck {b' : Batch} (hwaits : b.results.any Option.isNone = true)
      (hrefill : b.refill reqs = (b', false)) : Leaves codec reqs b b'
  | fatal {b₁ : Batch} {conn : Connection} {e : Error}
      (hwaits : b.results.any Option.isNone = true) (hrefill : b.refill reqs = (b₁, true))
      (hread : b₁.conn.readAndDispatch = (.error e, conn))
      (htake : takeStreamError { b₁ with conn } = none) :
      Leaves codec reqs b (failAllOutstanding { b₁ with conn } e)
  | chargedBroken {b₁ b₂ : Batch} {conn conn' : Connection} {e e' : Error} {idx : Nat}
      (hwaits : b.results.any Option.isNone = true) (hrefill : b.refill reqs = (b₁, true))
      (hread : b₁.conn.readAndDispatch = (.error e, conn))
      (htake : takeStreamError { b₁ with conn } = some (idx, b₂))
      (hflush : ((b₂.setResult idx (.error e)).startQueued reqs).conn.flushPending =
        (.error e', conn')) :
      Leaves codec reqs b (failAllOutstanding
        { (b₂.setResult idx (.error e)).startQueued reqs with conn := conn' } e')
  | handledBroken {b₁ : Batch} {conn conn' : Connection} {outcome : DispatchOutcome} {e' : Error}
      (hwaits : b.results.any Option.isNone = true) (hrefill : b.refill reqs = (b₁, true))
      (hread : b₁.conn.readAndDispatch = (.ok outcome, conn))
      (hflush : (finishStream codec reqs (failGoawayDoomed { b₁ with conn })
        outcome).conn.flushPending = (.error e', conn')) :
      Leaves codec reqs b (failAllOutstanding
        { finishStream codec reqs (failGoawayDoomed { b₁ with conn }) outcome with conn := conn' }
        (.badResponse [.str "write error pumping multiplexed sends"]))

/-- With fuel, a pass of the loop is taken or the loop is left. -/
theorem loop_succ (codec : Codec) (reqs : List Request) (fuel : Nat) (b : Batch) :
    Leaves codec reqs b (loop codec reqs (fuel + 1) b) ∨
      ∃ b', Again codec reqs b b' ∧ loop codec reqs (fuel + 1) b = loop codec reqs fuel b' := by
  rw [loop]
  cases hwaits : b.results.any Option.isNone with
  | false => exact .inl (.full hwaits)
  | true =>
  obtain ⟨b₁, goes, hrefill⟩ : ∃ b₁ goes, b.refill reqs = (b₁, goes) := ⟨_, _, rfl⟩
  simp only [hrefill, Bool.not_true, Bool.false_eq_true, if_false]
  cases goes with
  | false => exact .inl (.stuck hwaits hrefill)
  | true =>
  obtain ⟨res, conn, hread⟩ : ∃ res conn, b₁.conn.readAndDispatch = (res, conn) := ⟨_, _, rfl⟩
  simp only [hread]
  cases res with
  | error e =>
      simp only
      cases htake : takeStreamError { b₁ with conn } with
      | none => exact .inl (.fatal hwaits hrefill hread htake)
      | some taken =>
          obtain ⟨idx, b₂⟩ := taken
          simp only
          obtain ⟨flushed, conn', hflush⟩ : ∃ res conn',
            ((b₂.setResult idx (.error e)).startQueued reqs).conn.flushPending = (res, conn') :=
              ⟨_, _, rfl⟩
          rw [hflush]
          cases flushed with
          | error e' => exact .inl (.chargedBroken hwaits hrefill hread htake hflush)
          | ok u => exact .inr ⟨_, .charged hwaits hrefill hread htake hflush, rfl⟩
  | ok outcome =>
      simp only
      obtain ⟨flushed, conn', hflush⟩ : ∃ res conn', (finishStream codec reqs
        (failGoawayDoomed { b₁ with conn }) outcome).conn.flushPending = (res, conn') :=
          ⟨_, _, rfl⟩
      rw [hflush]
      cases flushed with
      | error e' => exact .inl (.handledBroken hwaits hrefill hread hflush)
      | ok u => exact .inr ⟨_, .handled hwaits hrefill hread hflush, rfl⟩

theorem loop_of_again {codec : Codec} {reqs : List Request} {b b' : Batch}
    (h : Again codec reqs b b') (fuel : Nat) :
    loop codec reqs (fuel + 1) b = loop codec reqs fuel b' := by
  rw [loop]
  cases h with
  | charged hwaits hrefill hread htake hflush =>
      simp only [hwaits, Bool.not_true, Bool.false_eq_true, if_false, hrefill, hread, htake,
        hflush]
  | handled hwaits hrefill hread hflush =>
      simp only [hwaits, Bool.not_true, Bool.false_eq_true, if_false, hrefill, hread, hflush]

theorem loop_of_leaves {codec : Codec} {reqs : List Request} {b b' : Batch}
    (h : Leaves codec reqs b b') (fuel : Nat) : loop codec reqs (fuel + 1) b = b' := by
  rw [loop]
  cases h with
  | full hfull => simp only [hfull, Bool.not_false, if_true]
  | stuck hwaits hrefill =>
      simp only [hwaits, Bool.not_true, Bool.false_eq_true, if_false, hrefill]
  | fatal hwaits hrefill hread htake =>
      simp only [hwaits, Bool.not_true, Bool.false_eq_true, if_false, hrefill, hread, htake]
  | chargedBroken hwaits hrefill hread htake hflush =>
      simp only [hwaits, Bool.not_true, Bool.false_eq_true, if_false, hrefill, hread, htake,
        hflush]
  | handledBroken hwaits hrefill hread hflush =>
      simp only [hwaits, Bool.not_true, Bool.false_eq_true, if_false, hrefill, hread, hflush]

/-- The loop makes passes and is left, or its fuel gives out. -/
theorem loop_leaves (codec : Codec) (reqs : List Request) (fuel : Nat) (b : Batch) :
    ∃ b', ReflTransGen (Again codec reqs) b b' ∧
      (Leaves codec reqs b' (loop codec reqs fuel b) ∨ loop codec reqs fuel b = b') := by
  induction fuel generalizing b with
  | zero => exact ⟨b, .refl, .inr rfl⟩
  | succ fuel ih =>
      rcases loop_succ codec reqs fuel b with hleaves | ⟨b', hagain, heq⟩
      · exact ⟨b, .refl, .inl hleaves⟩
      · obtain ⟨b'', hruns, hout⟩ := ih b'
        rw [heq]
        exact ⟨b'', .head hagain hruns, hout⟩

/-- With a measure that every pass lowers, the fuel does not give out. -/
theorem loop_leaves_of_measure (codec : Codec) (reqs : List Request) {P : Batch → Prop}
    (μ : Batch → Nat) (hpass : ∀ {b b'}, P b → Again codec reqs b b' → P b' ∧ μ b' < μ b)
    {fuel : Nat} {b : Batch} (hb : P b) (hfuel : μ b < fuel) :
    ∃ b', ReflTransGen (Again codec reqs) b b' ∧ P b' ∧
      Leaves codec reqs b' (loop codec reqs fuel b) := by
  induction fuel generalizing b with
  | zero => exact absurd hfuel (Nat.not_lt_zero _)
  | succ fuel ih =>
      rcases loop_succ codec reqs fuel b with hleaves | ⟨b', hagain, heq⟩
      · exact ⟨b, .refl, hb, hleaves⟩
      · obtain ⟨hb', hlt⟩ := hpass hb hagain
        obtain ⟨b'', hruns, hout⟩ := ih hb' (by omega)
        rw [heq]
        exact ⟨b'', .head hagain hruns, hout⟩

/-! ## The whole batch -/

/-- The state of `run_multiplexed` before its first request is started. -/
def init (c : Connection) (reqs : List Request) : Batch where
  conn := c
  results := reqs.map fun _ => none
  idToIdx := ∅
  queue := List.range reqs.length

/-- The state in which `run_multiplexed` collects its results. -/
def final (codec : Codec) (c : Connection) (reqs : List Request) : Batch :=
  let b := (init c reqs).startQueued reqs
  match b.conn.flushPending with
  | (.error e, conn) => failAllOutstanding { b with conn } e
  | (.ok (), conn) => loop codec reqs (conn.tls.source.bytes.length + 1) { b with conn }

/-- The first state of the loop, and every later one in which it looks for results. -/
def Head (codec : Codec) (c : Connection) (reqs : List Request) (b : Batch) : Prop :=
  ∃ conn, ((init c reqs).startQueued reqs).conn.flushPending = (.ok (), conn) ∧
    ReflTransGen (Again codec reqs) { (init c reqs).startQueued reqs with conn } b

theorem runMultiplexed_results (codec : Codec) (c : Connection) (reqs : List Request) :
    (runMultiplexed codec c reqs).1 = collectResults (final codec c reqs).results := by
  unfold runMultiplexed final
  change (match ((init c reqs).startQueued reqs).conn.flushPending with
    | (.error e, conn) => _
    | (.ok (), conn) => _ : List (Result Response) × Connection).1 = _
  simp only
  split <;> rfl

end Batch
end Rsurl.H2
