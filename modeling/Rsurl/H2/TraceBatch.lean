/-
# `Rsurl.H2.TraceBatch` — a batch, event by event

`run_multiplexed` is a run of acts: every start, every turn of the pump, every
frame, and every stream handed out or dropped.  As long as it goes on no turn
of the pump has failed (`Live`, `Runs`); one that does is its last (`Ends`).
-/
import Rsurl.H2.Batch
import Rsurl.H2.Progress
import Rsurl.H2.Trace

namespace Rsurl.H2

open Http (Request Response)
open Relation (ReflTransGen)

section

variable {p : Path} {ok : Bool}

/-! ## The pump -/

/-- A turn of the pump is an act that puts DATA on the wire, or nothing. -/
theorem Pumps.acts (hp : p ≠ .single) {c c' : Connection}
    (h : Pumps ok c.peer.maxFrameSize c c') :
    ∃ new, Acts p ok c new c' ∧ ∀ e ∈ new, ∃ f, e = .outbound f ∧ f.typ = fData := by
  have hdata : ∀ {id chunk isLast}, ∀ e ∈ [Event.outbound (dataFrame id chunk isLast)],
      ∃ f, e = .outbound f ∧ f.typ = fData := by
    intro id chunk isLast e he
    exact ⟨_, List.mem_singleton.mp he, rfl⟩
  have hnone : ∀ e ∈ ([] : List Event), ∃ f, e = .outbound f ∧ f.typ = fData := by
    intro e he
    cases he
  cases h with
  | cleared hs hpending hsent => exact ⟨[], .cleared hp hs hpending hsent, hnone⟩
  | @advanced id n s s' pb c' hs hpending hsize hpos hmore hsend =>
      have hlast : false = decide (n = pb.bytes.length - pb.sent) := (decide_eq_false hmore).symm
      rcases sendChunk_cases c id s ((pb.bytes.drop pb.sent).take n) false with
        hwrite | ⟨e, sink, -, heq⟩
      · exact ⟨_, .pump hp hs hpending hsize hpos hlast hwrite hsend fun _ => ⟨s', rfl⟩, hdata⟩
      · cases heq.symm.trans hsend
  | @finished id n s s' pb c' hs hpending hsize hpos hmore hsend =>
      have hlast : true = decide (n = pb.bytes.length - pb.sent) := (decide_eq_true hmore).symm
      rcases sendChunk_cases c id s ((pb.bytes.drop pb.sent).take n) true with
        hwrite | ⟨e, sink, -, heq⟩
      · exact ⟨_, .pump hp hs hpending hsize hpos hlast hwrite hsend fun _ => ⟨s', rfl⟩, hdata⟩
      · cases heq.symm.trans hsend
  | @failed id n s pb c' e hok hs hpending hsize hpos hsend =>
      rcases sendChunk_cases c id s ((pb.bytes.drop pb.sent).take n)
        (decide (n = pb.bytes.length - pb.sent)) with hwrite | ⟨e', sink, hbreaks, heq⟩
      · refine ⟨_, .pump hp hs hpending hsize hpos rfl hwrite hsend ?_, hdata⟩
        rw [hok]
        exact nofun
      · obtain ⟨-, rfl⟩ := Prod.mk.inj (heq.symm.trans hsend)
        exact ⟨[], .breaks hok hbreaks, hnone⟩

theorem traced_of_pumps (hp : p ≠ .single) {maxFrameSize : Nat} {c c' : Connection}
    (h : ReflTransGen (Pumps ok maxFrameSize) c c') (hmax : maxFrameSize = c.peer.maxFrameSize) :
    ∃ evs, Traced p ok c evs c' := by
  induction h with
  | refl => exact ⟨[], .nil⟩
  | @tail c₁ c₂ hpumps hpump ih =>
      obtain ⟨evs, htrace⟩ := ih
      rw [hmax, ← (keepsPeer_of_pumps hpumps).peer] at hpump
      obtain ⟨new, hact, -⟩ := hpump.acts hp
      exact ⟨_, htrace.snoc hact⟩

end

/-! ## The batch -/

/-- The acts of a batch that goes on: frames may be refused and writes may break, but no turn of
the pump fails. -/
inductive Live (c : Connection) : List Event → Connection → Prop
  | acts {new : List Event} {c' : Connection} (h : Acts .multi true c new c') : Live c new c'
  | refused {source : Source} {f : Frame} {e : Error} {c' : Connection}
      (h : (c.receive source f).processFrame f = (.error e, c')) : Live c [.inbound f false] c'
  | breaks {encoder : Encoder} {sink : Sink} (h : Breaks c encoder sink) :
      Live c [] { c with encoder, tls := { c.tls with sink } }

theorem Acts.widen {p : Path} {ok ok' : Bool} {c c' : Connection} {new : List Event}
    (h : Acts .multi ok c new c') (hp : p ≠ .single) (hle : ok' = true → ok = true) :
    Acts p ok' c new c' := by
  have hfalse : ok = false → ok' = false := by
    intro hok
    exact Bool.eq_false_iff.mpr fun hok' => absurd (hle hok') (by rw [hok]; decide)
  cases h with
  | opens h => exact .opens h
  | heads hmulti => exact absurd rfl hmulti
  | starts _ hopen h => exact .starts hp hopen h
  | chunk hmulti => exact absurd rfl hmulti
  | pump _ hs hpending hsize hpos hlast hwrite h hok =>
      exact .pump hp hs hpending hsize hpos hlast hwrite h fun hok' => hok (hle hok')
  | cleared _ hs hpending hsent => exact .cleared hp hs hpending hsent
  | handled h => exact .handled h
  | refused hok h => exact .refused (hfalse hok) h
  | drops h => exact .drops h
  | breaks hok h => exact .breaks (hfalse hok) h

theorem Live.widen {p : Path} {c c' : Connection} {new : List Event} (h : Live c new c')
    (hp : p ≠ .single) : Acts p false c new c' := by
  cases h with
  | acts h => exact h.widen hp nofun
  | refused h => exact .refused rfl h
  | breaks h => exact .breaks rfl h

namespace Batch

variable {reqs : List Request}

/-- `c'` comes out of `c` by acts of a batch that goes on. -/
def Runs (c c' : Connection) : Prop := ∃ evs, Base.Trace Live c evs c'

theorem Runs.refl (c : Connection) : Runs c c := ⟨[], .nil⟩

theorem Runs.single {c c' : Connection} {new : List Event} (h : Live c new c') : Runs c c' :=
  ⟨new, .single h⟩

theorem Runs.trans {c c' c'' : Connection} (h : Runs c c') (h' : Runs c' c'') : Runs c c'' := by
  obtain ⟨evs, htrace⟩ := h
  obtain ⟨evs', htrace'⟩ := h'
  exact ⟨_, htrace.trans htrace'⟩

theorem Runs.of_traced {c c' : Connection} {evs : List Event} (h : Traced .multi true c evs c') :
    Runs c c' := ⟨evs, h.mono .acts⟩

theorem Runs.traced {p : Path} {c c' : Connection} (h : Runs c c') (hp : p ≠ .single) :
    ∃ evs, Traced p false c evs c' := by
  obtain ⟨evs, htrace⟩ := h
  exact ⟨evs, htrace.mono fun hlive => hlive.widen hp⟩

/-- `c'` comes out of `c` by such acts and, if that is where they end, a turn of the pump that
fails. -/
def Ends (c c' : Connection) : Prop :=
  ∃ c₁, Runs c c₁ ∧ (c' = c₁ ∨ ∃ new, Acts .multi false c₁ new c')

theorem Runs.ends {c c' : Connection} (h : Runs c c') : Ends c c' := ⟨c', h, .inl rfl⟩

theorem Runs.trans_ends {c c' c'' : Connection} (h : Runs c c') (h' : Ends c' c'') : Ends c c'' := by
  obtain ⟨c₁, hruns, hlast⟩ := h'
  exact ⟨c₁, h.trans hruns, hlast⟩

theorem Ends.traced {p : Path} {c c' : Connection} (h : Ends c c') (hp : p ≠ .single) :
    ∃ evs, Traced p false c evs c' := by
  obtain ⟨c₁, hruns, hlast⟩ := h
  obtain ⟨evs, htrace⟩ := hruns.traced hp
  rcases hlast with rfl | ⟨new, hact⟩
  · exact ⟨evs, htrace⟩
  · exact ⟨_, htrace.snoc (hact.widen hp nofun)⟩

theorem runs_of_streams {c : Connection} {streams : Streams}
    (h : ∀ {id s}, streams.lookup id = some s → c.streams.lookup id = some s) :
    Runs c { c with streams } :=
  .single (.acts (@Acts.drops _ _ c _ c.tls.source h))

theorem runs_erase (c : Connection) (id : Nat) :
    Runs c { c with streams := c.streams.erase id } :=
  runs_of_streams (removes_erase (p := fun _ => True) c id fun _ _ => trivial).stays

theorem flush_eq {c c' : Connection} {res : Result Unit} (h : c.flush = (res, c')) : c' = c := by
  have hsnd := flush_snd c
  rw [h] at hsnd
  exact hsnd

/-- `flush_pending` pumps, and either all is sent that can be or a turn of the pump fails. -/
theorem ends_flushPending (c : Connection) :
    Ends c c.flushPending.2 ∧ (c.flushPending.1 = .ok () → Runs c c.flushPending.2) := by
  have hmulti : Path.multi ≠ .single := by decide
  obtain ⟨c₁, hpumps, hout⟩ := pumpPendingSends_pumpsTo c
  obtain ⟨evs, htrace⟩ := traced_of_pumps hmulti hpumps rfl
  have hruns : Runs c c₁ := .of_traced htrace
  unfold Connection.flushPending
  obtain ⟨res, c', hres⟩ : ∃ res c', c.pumpPendingSends = (res, c') := ⟨_, _, rfl⟩
  rw [hres] at hout ⊢
  cases res with
  | ok u =>
      obtain rfl : c' = c₁ := by
        rcases hout with heq | ⟨e, heq, -⟩
        · exact (Prod.mk.inj heq).2
        · cases heq
      have hall : Runs c c'.flush.2 := by
        rw [flush_snd]
        exact hruns
      exact ⟨hall.ends, fun _ => hall⟩
  | error e =>
      rcases hout with heq | ⟨e', -, hfails⟩
      · cases heq
      rw [← (keepsPeer_of_pumps hpumps).peer] at hfails
      refine ⟨⟨c₁, hruns, ?_⟩, nofun⟩
      obtain ⟨id, n, s, pb, hs, hpending, hsize, hpos, hsend⟩ := hfails
      rcases sendChunk_cases c₁ id s ((pb.bytes.drop pb.sent).take n)
        (decide (n = pb.bytes.length - pb.sent)) with hwrite | ⟨e', sink, hbreaks, heq⟩
      · exact .inr ⟨_, .pump hmulti hs hpending hsize hpos rfl hwrite hsend nofun⟩
      · obtain ⟨-, rfl⟩ := Prod.mk.inj (heq.symm.trans hsend)
        exact .inr ⟨[], .breaks rfl hbreaks⟩

theorem runs_flushPending {c c' : Connection} (h : c.flushPending = (.ok (), c')) : Runs c c' := by
  have hflush := (ends_flushPending c).2
  rw [h] at hflush
  exact hflush rfl

theorem runs_readAndDispatch (c : Connection) : Runs c c.readAndDispatch.2 := by
  rcases readAndDispatch_cases c with ⟨e, source, hfail, -⟩ | ⟨f, source, -, hframe, -⟩
  · rw [hfail]
    exact .single (.acts (.drops id))
  · rw [hframe]
    obtain ⟨res, c', h⟩ : ∃ res c', (c.receive source f).processFrame f = (res, c') := ⟨_, _, rfl⟩
    rw [h]
    cases res with
    | ok o => exact .single (.acts (.handled h))
    | error e => exact .single (.refused h)

theorem stageRequestOn_error {c c' : Connection} {id : Nat} {req : Request} {e : Error}
    (h : c.stageRequestOn id req = (.error e, c')) :
    ∃ encoder sink, Breaks c encoder sink ∧
      c' = { c with encoder, tls := { c.tls with sink } } := by
  unfold Connection.stageRequestOn at h
  obtain ⟨res, c₁, hsent⟩ : ∃ res c₁, c.sendHeadersOn id req = (res, c₁) := ⟨_, _, rfl⟩
  rw [hsent] at h
  cases res with
  | error e' =>
      obtain ⟨-, rfl⟩ := Prod.mk.inj h
      exact sendHeadersOn_error hsent
  | ok s =>
      change (if req.body.isEmpty then _ else _ : Result Unit × Connection) = _ at h
      split at h <;> cases h

theorem Starts.runs {b b' : Batch} (h : Starts reqs b b') : Runs b.conn b'.conn := by
  cases h with
  | refused _ hopen =>
      obtain ⟨res, c', heq⟩ : ∃ res c', b.conn.openStream = (res, c') := ⟨_, _, rfl⟩
      rw [heq] at hopen ⊢
      obtain rfl : res = .error _ := hopen
      obtain rfl := openStream_eq_error heq
      exact .refl _
  | lost _ hopen => exact .single (.acts (.opens hopen))
  | @failed idx id queue conn conn' req e _ hopen _ hstage =>
      obtain ⟨encoder, sink, hspoilt, rfl⟩ := stageRequestOn_error hstage
      have hopens : Runs b.conn conn := .single (.acts (.opens hopen))
      have hbreaks : Runs conn { conn with encoder, tls := { conn.tls with sink } } :=
        .single (.breaks hspoilt)
      exact (hopens.trans hbreaks).trans (runs_erase _ id)
  | started _ hopen _ hstage => exact .single (.acts (.starts (by decide) hopen hstage))

theorem runs_startQueued (reqs : List Request) (b : Batch) :
    Runs b.conn (b.startQueued reqs).conn :=
  startQueued_induct reqs (P := fun b' => Runs b.conn b'.conn)
    (fun hstart hb => hb.trans hstart.runs) (.refl _)

theorem ends_refill {b b₁ : Batch} {goes : Bool} (h : b.refill reqs = (b₁, goes)) :
    Ends b.conn b₁.conn ∧ (goes = true → Runs b.conn b₁.conn) := by
  have hruns : ∀ {c}, Runs b.conn c → Ends b.conn c ∧ (goes = true → Runs b.conn c) :=
    fun hc => ⟨hc.ends, fun _ => hc⟩
  unfold refill at h
  split at h
  · obtain ⟨rfl, -⟩ := Prod.mk.inj h
    exact hruns (.refl _)
  split at h
  · obtain ⟨rfl, -⟩ := Prod.mk.inj h
    exact hruns (.refl _)
  have hstart := runs_startQueued reqs b
  simp only at h
  split at h
  · obtain ⟨rfl, -⟩ := Prod.mk.inj h
    exact hruns hstart
  split at h
  · next hres =>
      have hflush := (ends_flushPending (b.startQueued reqs).conn).1
      obtain ⟨rfl, rfl⟩ := Prod.mk.inj h
      rw [hres] at hflush
      exact ⟨hstart.trans_ends hflush, nofun⟩
  · next hres =>
      obtain ⟨rfl, -⟩ := Prod.mk.inj h
      exact hruns (hstart.trans (runs_flushPending hres))

theorem runs_takeStreamError {b b' : Batch} {idx : Nat} (h : takeStreamError b = some (idx, b')) :
    Runs b.conn b'.conn := by
  obtain ⟨id, s, -, -, rfl⟩ := takeStreamError_eq_some h
  exact runs_erase b.conn id

theorem runs_failDoomed (last : Nat) (b : Batch) (id : Nat) :
    Runs b.conn (failDoomed last b id).conn := by
  unfold failDoomed
  split
  · exact .refl _
  · exact runs_erase b.conn id

theorem runs_foldl_failDoomed (last : Nat) (doomed : List Nat) (b : Batch) :
    Runs b.conn (doomed.foldl (failDoomed last) b).conn := by
  induction doomed generalizing b with
  | nil => exact .refl _
  | cons id doomed ih => exact (runs_failDoomed last b id).trans (ih (failDoomed last b id))

theorem runs_failGoawayDoomed (b : Batch) : Runs b.conn (failGoawayDoomed b).conn := by
  unfold failGoawayDoomed
  split
  · exact .refl _
  · exact runs_foldl_failDoomed _ _ b

theorem runs_finishStream (reqs : List Request) (codec : Codec) (b : Batch)
    (outcome : DispatchOutcome) : Runs b.conn (b.finishStream codec reqs outcome).conn := by
  unfold finishStream
  split
  · exact .refl _
  next id =>
  split
  · next idx stream _ _ =>
      have hstart := runs_startQueued reqs
        ({ b with
          conn := { b.conn with streams := b.conn.streams.erase id }
          idToIdx := b.idToIdx.erase id }.setResult idx (buildResponseFromStream codec stream))
      exact (runs_erase b.conn id).trans hstart
  · exact .refl _

/-- Up to the pump after a frame that is refused and charged to one request. -/
theorem runs_charged {b b₁ b₂ : Batch} {conn : Connection} {e : Error} {idx : Nat}
    (hrefill : b.refill reqs = (b₁, true)) (hread : b₁.conn.readAndDispatch = (.error e, conn))
    (htake : takeStreamError { b₁ with conn } = some (idx, b₂)) :
    Runs b.conn ((b₂.setResult idx (.error e)).startQueued reqs).conn := by
  have hreads := runs_readAndDispatch b₁.conn
  rw [hread] at hreads
  exact ((ends_refill hrefill).2 rfl).trans (hreads.trans ((runs_takeStreamError htake).trans
    (runs_startQueued reqs (b₂.setResult idx (.error e)))))

/-- Up to the pump after a frame that is handled. -/
theorem runs_handled (codec : Codec) {b b₁ : Batch} {conn : Connection} {outcome : DispatchOutcome}
    (hrefill : b.refill reqs = (b₁, true)) (hread : b₁.conn.readAndDispatch = (.ok outcome, conn)) :
    Runs b.conn (finishStream codec reqs (failGoawayDoomed { b₁ with conn }) outcome).conn := by
  have hreads := runs_readAndDispatch b₁.conn
  rw [hread] at hreads
  exact ((ends_refill hrefill).2 rfl).trans (hreads.trans
    ((runs_failGoawayDoomed { b₁ with conn }).trans (runs_finishStream reqs codec _ outcome)))

theorem Again.runs {codec : Codec} {b b' : Batch} (h : Again codec reqs b b') :
    Runs b.conn b'.conn := by
  cases h with
  | charged _ hrefill hread htake hflush =>
      exact (runs_charged hrefill hread htake).trans (runs_flushPending hflush)
  | handled _ hrefill hread hflush =>
      exact (runs_handled codec hrefill hread).trans (runs_flushPending hflush)

theorem Leaves.ends {codec : Codec} {b b' : Batch} (h : Leaves codec reqs b b') :
    Ends b.conn b'.conn := by
  cases h with
  | full => exact (Runs.refl _).ends
  | stuck _ hrefill => exact (ends_refill hrefill).1
  | @fatal b₁ conn e _ hrefill hread _ =>
      have hreads := runs_readAndDispatch b₁.conn
      rw [hread] at hreads
      exact (((ends_refill hrefill).2 rfl).trans hreads).ends
  | @chargedBroken b₁ b₂ conn conn' e e' idx _ hrefill hread htake hflush =>
      have hflushes := (ends_flushPending ((b₂.setResult idx (.error e)).startQueued reqs).conn).1
      rw [hflush] at hflushes
      exact (runs_charged hrefill hread htake).trans_ends hflushes
  | @handledBroken b₁ conn conn' outcome e' _ hrefill hread hflush =>
      have hflushes := (ends_flushPending
        (finishStream codec reqs (failGoawayDoomed { b₁ with conn }) outcome).conn).1
      rw [hflush] at hflushes
      exact (runs_handled codec hrefill hread).trans_ends hflushes

theorem runs_passes {codec : Codec} {b b' : Batch}
    (h : ReflTransGen (Again codec reqs) b b') : Runs b.conn b'.conn := by
  induction h with
  | refl => exact .refl _
  | tail _ hagain ih => exact ih.trans hagain.runs

theorem ends_loop (codec : Codec) (reqs : List Request) (fuel : Nat) (b : Batch) :
    Ends b.conn (loop codec reqs fuel b).conn := by
  obtain ⟨b', hpasses, hleaves | heq⟩ := loop_leaves codec reqs fuel b
  · exact (runs_passes hpasses).trans_ends hleaves.ends
  · rw [heq]
    exact (runs_passes hpasses).ends

/-- What is left of the loop once a frame is handled. -/
theorem ends_loop_handled (codec : Codec) (reqs : List Request) {b b₁ : Batch} {conn : Connection}
    {outcome : DispatchOutcome} (hwaits : b.results.any Option.isNone = true)
    (hrefill : b.refill reqs = (b₁, true)) (hread : b₁.conn.readAndDispatch = (.ok outcome, conn))
    (fuel : Nat) : Ends conn (loop codec reqs (fuel + 1) b).conn := by
  have hruns := (runs_failGoawayDoomed { b₁ with conn }).trans
    (runs_finishStream reqs codec (failGoawayDoomed { b₁ with conn }) outcome)
  have hflush := (ends_flushPending
    (finishStream codec reqs (failGoawayDoomed { b₁ with conn }) outcome).conn).1
  rw [loop]
  simp only [hwaits, Bool.not_true, Bool.false_eq_true, if_false, hrefill, hread]
  split
  · next hres =>
      rw [hres] at hflush
      exact hruns.trans_ends hflush
  · next conn' hres =>
      have hloop := ends_loop codec reqs fuel
        { finishStream codec reqs (failGoawayDoomed { b₁ with conn }) outcome with conn := conn' }
      exact (hruns.trans (runs_flushPending hres)).trans_ends hloop

/-- The connection that `run_multiplexed` leaves behind its loop. -/
theorem runMultiplexed_conn (codec : Codec) {c conn : Connection} {reqs : List Request}
    (hflush : ((init c reqs).startQueued reqs).conn.flushPending = (.ok (), conn)) :
    (runMultiplexed codec c reqs).2 = (loop codec reqs (conn.tls.source.bytes.length + 1)
      { (init c reqs).startQueued reqs with conn }).conn.pruneCompletedStreams := by
  unfold init at hflush ⊢
  unfold runMultiplexed
  simp only [hflush]

/-- A batch whose first write fails leaves what the write leaves. -/
theorem runMultiplexed_conn_of_error (codec : Codec) {c conn : Connection} {reqs : List Request}
    {e : Error} (hflush : ((init c reqs).startQueued reqs).conn.flushPending = (.error e, conn)) :
    (runMultiplexed codec c reqs).2 = conn := by
  unfold init at hflush
  unfold runMultiplexed
  simp only [hflush]
  rfl

/-- `run_multiplexed` comes to an end, and drops streams behind it or not. -/
theorem ends_runMultiplexed (codec : Codec) (c : Connection) (reqs : List Request) :
    ∃ c', Ends c c' ∧ ((runMultiplexed codec c reqs).2 = c' ∨
      (runMultiplexed codec c reqs).2 = c'.pruneCompletedStreams) := by
  have hstart : Runs c ((init c reqs).startQueued reqs).conn :=
    runs_startQueued reqs (init c reqs)
  obtain ⟨res, conn, hflush⟩ : ∃ res conn,
    ((init c reqs).startQueued reqs).conn.flushPending = (res, conn) := ⟨_, _, rfl⟩
  cases res with
  | error e =>
      have hends := (ends_flushPending ((init c reqs).startQueued reqs).conn).1
      rw [hflush] at hends
      exact ⟨conn, hstart.trans_ends hends, .inl (runMultiplexed_conn_of_error codec hflush)⟩
  | ok u =>
      have hloop := ends_loop codec reqs (conn.tls.source.bytes.length + 1)
        { (init c reqs).startQueued reqs with conn }
      exact ⟨_, (hstart.trans (runs_flushPending hflush)).trans_ends hloop,
        .inr (runMultiplexed_conn codec hflush)⟩

/-- `run_multiplexed` is a run of acts. -/
theorem traced_runMultiplexed (codec : Codec) {p : Path} (hp : p ≠ .single) (c : Connection)
    (reqs : List Request) : ∃ evs, Traced p false c evs (runMultiplexed codec c reqs).2 := by
  obtain ⟨c', hends, hlast⟩ := ends_runMultiplexed codec c reqs
  obtain ⟨evs, htrace⟩ := hends.traced hp
  rcases hlast with heq | heq
  · rw [heq]
    exact ⟨evs, htrace⟩
  · rw [heq]
    exact ⟨_, htrace.snoc (drops_prune c')⟩

end Batch

/-! ## The life of a connection -/

/-- What becomes of a connection while requests and batches are run on it. -/
inductive Used (codec : Codec) (c₀ : Connection) : Connection → Prop
  | fresh : Used codec c₀ c₀
  | single {c : Connection} (h : Used codec c₀ c) (req : Request) :
      Used codec c₀ (runOneRequest codec c req).2
  | multi {c : Connection} (h : Used codec c₀ c) (reqs : List Request) :
      Used codec c₀ (runMultiplexed codec c reqs).2

/-- A connection on which nothing has happened but the preface. -/
structure Connection.Fresh (tls : Tls) (c : Connection) : Prop where
  peer : c.peer = .default
  send : c.connSendWindow = .new
  recv : c.connRecvWindow = .new
  streams : c.streams = ∅
  next : c.nextStreamId = 1
  goaway : c.goawayReceived = none
  received : c.tls.received = tls.received

theorem fresh_of_new {tls : Tls} {c : Connection} (h : Connection.new tls = .ok c) :
    c.Fresh tls := by
  unfold Connection.new at h
  split at h
  · cases h
  · obtain rfl := Except.ok.inj h
    exact ⟨rfl, rfl, rfl, rfl, rfl, rfl, rfl⟩

theorem sane_of_new {tls : Tls} {c : Connection} (h : Connection.new tls = .ok c) : c.Sane := by
  rw [Connection.Sane, (fresh_of_new h).peer]
  exact Nat.le_refl _

theorem received_of_new {tls : Tls} {c : Connection} (h : Connection.new tls = .ok c) :
    c.tls.received = tls.received := (fresh_of_new h).received

/-- The whole life of a connection is a run of acts. -/
theorem Used.traced {codec : Codec} {c₀ c : Connection} (h : Used codec c₀ c) (hsane : c₀.Sane) :
    ∃ evs, Traced .both false c₀ evs c := by
  have hboth : Path.both ≠ .single ∧ Path.both ≠ .multi := by decide
  induction h with
  | fresh => exact ⟨[], .nil⟩
  | single _ req ih =>
      obtain ⟨evs, htrace⟩ := ih
      obtain ⟨evs', htrace', -⟩ := traces_runOneRequest false hboth.2 codec req
        (Traced.sane htrace hsane) nofun
      exact ⟨_, htrace.trans htrace'⟩
  | @multi c _ reqs ih =>
      obtain ⟨evs, htrace⟩ := ih
      obtain ⟨evs', htrace'⟩ := Batch.traced_runMultiplexed codec hboth.1 c reqs
      exact ⟨_, htrace.trans htrace'⟩

theorem Used.sane {codec : Codec} {c₀ c : Connection} (h : Used codec c₀ c) (hsane : c₀.Sane) :
    c.Sane := by
  obtain ⟨evs, htrace⟩ := h.traced hsane
  exact Traced.sane htrace hsane

end Rsurl.H2
