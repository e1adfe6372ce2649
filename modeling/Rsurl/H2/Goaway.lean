/-
# `Rsurl.H2.Goaway` — what a GOAWAY rules out

Once a GOAWAY is processed, no stream is opened beyond the last stream it
names.  Streams up to that one may still be opened: with the last stream
2³¹ - 1 of a graceful shutdown, queued requests go out as if nothing had been
said (`opens_after_goaway`).
-/
import Rsurl.H2.TraceBatch

namespace Rsurl.H2

open Http (Request Response)

/-! ## What was noted -/

/-- A GOAWAY for the connection. -/
def Frame.isGoaway (f : Frame) : Prop := f.streamId = 0 ∧ f.typ = fGoaway

instance (f : Frame) : Decidable f.isGoaway := inferInstanceAs (Decidable (_ ∧ _))

/-- The last stream of the latest GOAWAY. -/
def noted (last : Option Nat) : Event → Option Nat
  | .inbound f true => if f.isGoaway then some f.lastStreamId else last
  | _ => last

theorem noted_of_outbound (last : Option Nat) (fs : List Frame) :
    (fs.map Event.outbound).foldl noted last = last := by
  induction fs with
  | nil => rfl
  | cons f fs ih => exact ih

theorem processFrame_goaway_of_ok {c c' : Connection} {f : Frame} {o : DispatchOutcome}
    (h : c.processFrame f = (.ok o, c')) :
    c'.goawayReceived = if f.isGoaway then some f.lastStreamId else c.goawayReceived := by
  have hgoaway := processFrame_goaway c f
  rw [h] at hgoaway
  have hiff : c.seesGoaway f ↔ f.isGoaway := and_iff_right (admits_of_ok h)
  simp only [hiff] at hgoaway
  exact hgoaway

theorem processFrame_goaway_of_error {c c' : Connection} {f : Frame} {e : Error}
    (h : c.processFrame f = (.error e, c')) : c'.goawayReceived = c.goawayReceived := by
  have hgoaway := processFrame_goaway c f
  rw [h] at hgoaway
  refine hgoaway.trans (if_neg fun hsees => ?_)
  rw [processFrame_of_goaway c f hsees] at h
  cases h

theorem Acts.noted {p : Path} {ok : Bool} {c c' : Connection} {new : List Event}
    (h : Acts p ok c new c') : c'.goawayReceived = new.foldl noted c.goawayReceived := by
  by_cases hno : ∀ f handled, .inbound f handled ∉ new
  · rw [(h.keepsPeer hno).2]
    clear h
    induction new with
    | nil => rfl
    | cons e new ih =>
        have hsame : H2.noted c.goawayReceived e = c.goawayReceived := by
          cases e with
          | inbound f handled => exact absurd List.mem_cons_self (hno f handled)
          | _ => rfl
        rw [List.foldl_cons, hsame]
        exact ih fun f handled hmem => hno f handled (List.mem_cons_of_mem _ hmem)
  cases h with
  | @handled source f o c' h =>
      rw [List.foldl_cons, noted_of_outbound]
      have hnoted := processFrame_goaway_of_ok h
      exact hnoted
  | refused _ h =>
      have hnoted := processFrame_goaway_of_error h
      exact hnoted
  | _ => exact absurd (by simp) hno

/-- A stream is opened only up to the last stream of a GOAWAY. -/
theorem openStream_within {c c' : Connection} {id last : Nat} (h : c.openStream = (.ok id, c'))
    (hlast : c.goawayReceived = some last) : id ≤ last := by
  unfold Connection.openStream at h
  split at h
  · cases h
  split at h
  · cases h
  split at h
  · cases h
  next hany =>
  obtain ⟨hid, -⟩ := Prod.mk.inj h
  obtain rfl := Except.ok.inj hid
  rw [hlast] at hany
  simpa using hany

theorem Acts.opened {p : Path} {ok : Bool} {c c' : Connection} {new pre post : List Event}
    {id : Nat} (h : Acts p ok c new c') (hsplit : new = pre ++ .opened id :: post) :
    pre = [] ∧ ∃ c₁, c.openStream = (.ok id, c₁) := by
  have hnone : ∀ fs : List Frame, .opened id ∉ fs.map Event.outbound := by
    intro fs hmem
    obtain ⟨f, -, heq⟩ := List.mem_map.mp hmem
    cases heq
  have hmem : .opened id ∈ new := by
    rw [hsplit]
    exact List.mem_append_right _ List.mem_cons_self
  cases h with
  | opens h =>
      cases pre with
      | nil =>
          obtain ⟨heq, -⟩ := List.cons.inj hsplit
          cases heq
          exact ⟨rfl, _, h⟩
      | cons e pre => cases pre <;> cases (List.cons.inj hsplit).2
  | starts _ hopen _ =>
      cases pre with
      | nil =>
          obtain ⟨heq, -⟩ := List.cons.inj hsplit
          cases heq
          exact ⟨rfl, _, hopen⟩
      | cons e pre =>
          -- only its first event opens a stream
          have hlater : _ = pre ++ .opened id :: post := (List.cons.inj hsplit).2
          have hmem : .opened id ∈ pre ++ .opened id :: post :=
            List.mem_append_right _ List.mem_cons_self
          rw [← hlater] at hmem
          rcases List.mem_cons.mp hmem with heq | hmem
          · cases heq
          · exact absurd hmem (hnone _)
  | heads | handled =>
      rcases List.mem_cons.mp hmem with heq | hmem
      · cases heq
      · exact absurd hmem (hnone _)
  | chunk | pump | refused => cases List.mem_singleton.mp hmem
  | cleared | drops | breaks => cases hmem

/-- At every opening, the stream is within the GOAWAY noted so far. -/
theorem Traced.opened_within {p : Path} {ok : Bool} {c₀ c : Connection} {evs : List Event}
    (h : Traced p ok c₀ evs c) :
    c.goawayReceived = evs.foldl noted c₀.goawayReceived ∧
      ∀ pre id post, evs = pre ++ .opened id :: post →
        ∀ last, pre.foldl noted c₀.goawayReceived = some last → id ≤ last := by
  refine Base.Trace.invariant (I := fun evs c =>
    c.goawayReceived = evs.foldl noted c₀.goawayReceived ∧
      ∀ pre id post, evs = pre ++ .opened id :: post →
        ∀ last, pre.foldl noted c₀.goawayReceived = some last → id ≤ last) ?_ ?_ h
  · exact ⟨rfl, fun pre id post hsplit => absurd hsplit.symm (by simp)⟩
  · rintro evs new c₁ c₂ ⟨hnoted, hwithin⟩ hact
    refine ⟨by rw [hact.noted, hnoted, List.foldl_append], ?_⟩
    intro pre id post hsplit last hlast
    rcases Base.append_eq_split hsplit with ⟨post', hevs, -⟩ | ⟨pre', rfl, hnew⟩
    · exact hwithin pre id post' hevs last hlast
    · obtain ⟨rfl, c', hopen⟩ := hact.opened hnew
      rw [List.append_nil] at hlast
      exact openStream_within hopen (hnoted.trans hlast)

/-! ## The law -/

/-- After a GOAWAY no stream is opened. -/
def NothingNew (evs : List Event) : Prop :=
  ∀ pre f post, evs = pre ++ .inbound f true :: post → f.isGoaway → ∀ id, .opened id ∉ post

/-- After a GOAWAY no stream is opened beyond its last one, until the next GOAWAY. -/
def NothingBeyond (evs : List Event) : Prop :=
  ∀ pre f mid id post, evs = pre ++ .inbound f true :: (mid ++ .opened id :: post) →
    f.isGoaway → (∀ g, .inbound g true ∈ mid → ¬ g.isGoaway) → id ≤ f.lastStreamId

theorem noted_of_no_goaway (last : Option Nat) {evs : List Event}
    (h : ∀ g, .inbound g true ∈ evs → ¬ g.isGoaway) : evs.foldl noted last = last := by
  induction evs with
  | nil => rfl
  | cons e evs ih =>
      have hsame : noted last e = last := by
        cases e with
        | inbound f handled =>
            cases handled with
            | false => rfl
            | true => exact if_neg (h f List.mem_cons_self)
        | _ => rfl
      rw [List.foldl_cons, hsame]
      exact ih fun g hg => h g (List.mem_cons_of_mem _ hg)

theorem noted_isSome {last : Option Nat} (evs : List Event) (h : last.isSome) :
    (evs.foldl noted last).isSome := by
  induction evs generalizing last with
  | nil => exact h
  | cons e evs ih =>
      refine ih ?_
      unfold noted
      split
      · split
        · rfl
        · exact h
      · exact h

theorem nothingBeyond_of_traced {p : Path} {ok : Bool} {c₀ c : Connection} {evs : List Event}
    (h : Traced p ok c₀ evs c) : NothingBeyond evs := by
  intro pre f mid id post hsplit hgoaway hmid
  have hwithin := (Traced.opened_within h).2 (pre ++ .inbound f true :: mid) id post
    (by rw [hsplit, List.append_assoc, List.cons_append])
  refine hwithin f.lastStreamId ?_
  rw [List.foldl_append, List.foldl_cons, noted_of_no_goaway _ hmid]
  exact if_pos hgoaway

/-- A connection that has seen a GOAWAY is not handed out again. -/
theorem not_usable_of_goaway {p : Path} {ok : Bool} {c₀ c : Connection} {evs : List Event}
    (h : Traced p ok c₀ evs c) {f : Frame} (hmem : .inbound f true ∈ evs) (hf : f.isGoaway) :
    c.isUsable = false := by
  obtain ⟨pre, post, rfl⟩ := List.append_of_mem hmem
  have hsome : c.goawayReceived.isSome := by
    rw [(Traced.opened_within h).1, List.foldl_append, List.foldl_cons]
    refine noted_isSome post ?_
    show (if f.isGoaway then _ else _ : Option Nat).isSome
    rw [if_pos hf]
    rfl
  obtain ⟨last, hlast⟩ := Option.isSome_iff_exists.mp hsome
  rw [Connection.isUsable, hlast]
  rfl

/-- Over the whole life of a connection, every run of either driver on it included: no stream is
opened beyond the last stream of a GOAWAY processed before, and with a GOAWAY processed the
connection does not pass for usable. -/
theorem goaway_bounds_streams {codec : Codec} {tls : Tls} {c₀ c : Connection}
    (hnew : Connection.new tls = .ok c₀) (h : Used codec c₀ c) :
    (∃ evs, Traced .both false c₀ evs c ∧
      c.tls.received = tls.received ++ evs.filterMap Event.came) ∧
    ∀ evs, Traced .both false c₀ evs c → NothingBeyond evs ∧
      ∀ f, .inbound f true ∈ evs → f.isGoaway → c.isUsable = false := by
  constructor
  · obtain ⟨evs, htrace⟩ := h.traced (sane_of_new hnew)
    refine ⟨evs, htrace, ?_⟩
    rw [Traced.received htrace, received_of_new hnew]
  · intro evs htrace
    exact ⟨nothingBeyond_of_traced htrace, fun f hmem hf => not_usable_of_goaway htrace hmem hf⟩

/-! ### A batch and its first frame -/

/-- A batch on a connection, when its loop starts. -/
def Batch.started (c : Connection) (reqs : List Request) : Batch :=
  let b := (Batch.init c reqs).startQueued reqs
  { b with conn := b.conn.flushPending.2 }

/-- A run of a batch whose first frame is handled and ends no stream, cut at that frame. -/
theorem traced_around_first (codec : Codec) {c : Connection} {reqs : List Request} {f : Frame}
    (hflush : ((Batch.init c reqs).startQueued reqs).conn.flushPending.1 = .ok ())
    (hwaits : (Batch.started c reqs).results.any Option.isNone = true)
    (hflight : (Batch.started c reqs).idToIdx.entries.isEmpty = false)
    (hframe : (readFrame (Batch.started c reqs).conn.tls.source).1 = .ok f)
    (hread : (Batch.started c reqs).conn.readAndDispatch.1 = .ok .cont) :
    ∃ evs answers evs', Traced .both false c evs (Batch.started c reqs).conn ∧
      Acts .both false (Batch.started c reqs).conn (.inbound f true :: answers)
        (Batch.started c reqs).conn.readAndDispatch.2 ∧
      Traced .both false (Batch.started c reqs).conn.readAndDispatch.2 evs'
        (runMultiplexed codec c reqs).2 := by
  have hboth : Path.both ≠ .single := by decide
  generalize hb : Batch.started c reqs = b at *
  -- up to the frame
  have hstart := (Batch.runs_startQueued reqs (Batch.init c reqs)).trans
    (Batch.runs_flushPending (Prod.ext hflush rfl))
  obtain ⟨evs, htrace⟩ : ∃ evs, Traced .both false c evs b.conn := hb ▸ hstart.traced hboth
  -- the frame
  obtain ⟨source, hsource⟩ : ∃ source, readFrame b.conn.tls.source = (.ok f, source) :=
    ⟨_, Prod.ext hframe rfl⟩
  have hdispatch : b.conn.readAndDispatch = (.ok .cont, b.conn.readAndDispatch.2) :=
    Prod.ext hread rfl
  have hprocess : (b.conn.receive source f).processFrame f =
      (.ok .cont, b.conn.readAndDispatch.2) := by
    rw [← hdispatch, Connection.readAndDispatch, hsource]
  -- the rest of the batch
  have hrefill : b.refill reqs = (b, true) := by
    simp only [Batch.refill, hflight, Bool.not_false, if_true]
  obtain ⟨evs', hloop⟩ := (Batch.ends_loop_handled codec reqs hwaits hrefill hdispatch
    b.conn.tls.source.bytes.length).traced hboth
  refine ⟨evs, _, evs', htrace, .handled hprocess, ?_⟩
  rw [Batch.runMultiplexed_conn _ (Prod.ext hflush rfl), ← List.append_nil evs']
  subst hb
  exact hloop.snoc (drops_prune _)

/-! ### A graceful shutdown -/

/-- A GOAWAY that names the last stream there can be. -/
def goodbye : Frame where
  typ := fGoaway
  flags := 0
  streamId := 0
  payload := [0x7f, 0xff, 0xff, 0xff, 0, 0, 0, 0]

/-- A peer that takes one stream at a time, answers the first request, says goodbye, and answers
the second. -/
def graceful : Bytes :=
  ([{ typ := fSettings, flags := 0, streamId := 0, payload := [0, 3, 0, 0, 0, 1] },
    { typ := fHeaders, flags := 0x5, streamId := 1, payload := [0x88] }, goodbye,
    { typ := fHeaders, flags := 0x5, streamId := 3, payload := [0x88] }] : List Frame).flatMap
      Frame.bytes

/-- The connection after its first request. -/
def afterFirst : Connection :=
  (runOneRequest (fun _ _ _ => .error []) (.dial ⟨graceful, none⟩) sampleGet).2

/-- A batch of two requests on it, when its loop starts. -/
def ofTwo : Batch :=
  let b := (Batch.init afterFirst [sampleGet, sampleGet]).startQueued [sampleGet, sampleGet]
  { b with conn := b.conn.flushPending.2 }

theorem ofTwo_facts :
    ((Batch.init afterFirst [sampleGet, sampleGet]).startQueued
        [sampleGet, sampleGet]).conn.flushPending.1 = .ok () ∧
      ofTwo.results.any Option.isNone = true ∧ ofTwo.idToIdx.entries.isEmpty = false ∧
      (readFrame ofTwo.conn.tls.source).1 = .ok goodbye ∧
      ofTwo.conn.readAndDispatch.1 = .ok .cont ∧
      ofTwo.conn.readAndDispatch.2.nextStreamId = 5 ∧ afterFirst.isUsable = true ∧
      (runMultiplexed (fun _ _ _ => .error []) afterFirst
        [sampleGet, sampleGet]).2.nextStreamId = 7 := by
  decide +kernel

/-- Through the goodbye too, nothing is opened beyond it. -/
theorem goaway_bounds_graceful :
    ∃ evs, Traced .both false (.dial ⟨graceful, none⟩) evs
        (runMultiplexed (fun _ _ _ => .error []) afterFirst [sampleGet, sampleGet]).2 ∧
      NothingBeyond evs := by
  have hused : Used (fun _ _ _ => .error []) (.dial ⟨graceful, none⟩) afterFirst :=
    .single .fresh sampleGet
  obtain ⟨⟨evs, htrace, -⟩, hall⟩ := goaway_bounds_streams (new_dial ⟨graceful, none⟩)
    (hused.multi [sampleGet, sampleGet])
  exact ⟨evs, htrace, (hall evs htrace).1⟩

/-- After the GOAWAY a stream is opened for the second request of the batch. -/
theorem opens_after_goaway :
    ¬ ∀ (codec : Codec) (tls : Tls) (c₀ c : Connection) (evs : List Event),
      Connection.new tls = .ok c₀ → Used codec c₀ c → Traced .both false c₀ evs c →
        NothingNew evs := by
  intro hclaim
  obtain ⟨hflush, hwaits, hflight, hframe, hread, hfive, -, hseven⟩ := ofTwo_facts
  have hused : Used (fun _ _ _ => .error []) (.dial ⟨graceful, none⟩) afterFirst :=
    .single .fresh sampleGet
  obtain ⟨evs₀, htrace₀⟩ := hused.traced (sane_of_new (new_dial _))
  obtain ⟨evs₁, answers, evs₂, htrace₁, hact, htrace₂⟩ :=
    traced_around_first (fun _ _ _ => .error []) hflush hwaits hflight hframe hread
  obtain ⟨id, hid⟩ := Traced.exists_opened htrace₂ (by
    show ¬ _ = ofTwo.conn.readAndDispatch.2.nextStreamId
    rw [hfive, hseven]
    decide)
  have hnew := hclaim _ _ _ _ _ (new_dial ⟨graceful, none⟩) (hused.multi [sampleGet, sampleGet])
    (((htrace₀.trans htrace₁).snoc hact).trans htrace₂)
  refine hnew (evs₀ ++ evs₁) goodbye (answers ++ evs₂) ?_ (by decide) id
    (List.mem_append_right _ hid)
  rw [List.append_assoc, List.cons_append]

end Rsurl.H2
