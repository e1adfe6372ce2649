/-
# `Rsurl.H2.StreamIds` — the streams a connection opens

Whatever is called on a connection and in whatever order, its stream ids are
odd, grow, stay below 2³¹ and above every stream that is registered.  A GOAWAY
bounds them only until the next one: the latest is noted in place of the ones
before, so a peer that raises its last stream gets streams beyond the first.
-/
import Rsurl.H2.Goaway

namespace Rsurl.H2

open Http (Request)

/-! ## The ids of a run -/

/-- The stream that is opened. -/
def Event.openedId : Event → Option Nat
  | opened id => some id
  | _ => none

/-- The streams opened, in order. -/
def openedIds (evs : List Event) : List Nat := evs.filterMap Event.openedId

theorem openedIds_append (evs evs' : List Event) :
    openedIds (evs ++ evs') = openedIds evs ++ openedIds evs' := List.filterMap_append

theorem openedIds_of_outbound (fs : List Frame) : openedIds (fs.map .outbound) = [] := by
  rw [openedIds, List.filterMap_map]
  exact List.filterMap_eq_nil_iff.mpr fun f _ => rfl

theorem mem_openedIds {evs : List Event} {id : Nat} : id ∈ openedIds evs ↔ .opened id ∈ evs := by
  rw [openedIds, List.mem_filterMap]
  constructor
  · rintro ⟨e, he, heq⟩
    cases e with
    | opened i => rwa [← Option.some.inj heq]
    | request | inbound | outbound => cases heq
  · exact fun h => ⟨_, h, rfl⟩

/-- What holds of the ids after a run. -/
structure Ids (evs : List Event) (c : Connection) : Prop where
  odd : ∀ id ∈ openedIds evs, id % 2 = 1
  fits : ∀ id ∈ openedIds evs, id < 2 ^ 31
  increasing : (openedIds evs).Pairwise (· < ·)
  below : ∀ id ∈ openedIds evs, id < c.nextStreamId
  keys : ∀ ⦃id s⦄, c.streams.lookup id = some s → id < c.nextStreamId
  next_odd : c.nextStreamId % 2 = 1
  next_le : c.nextStreamId ≤ 2 ^ 31 + 1

/-! ## One act -/

section

variable {p : Path} {ok : Bool} {c c' : Connection} {new : List Event}

/-- What `open_stream` gives out is the next id, and small enough. -/
theorem openStream_lt {id : Nat} (h : c.openStream = (.ok id, c')) :
    id = c.nextStreamId ∧ c.nextStreamId < 2 ^ 31 := by
  refine ⟨(openStream_eq_ok h).1, ?_⟩
  unfold Connection.openStream at h
  split at h
  · cases h
  split at h
  · cases h
  next hspace => exact Nat.not_le.mp hspace

/-- With no id left, it is refused. -/
theorem openStream_exhausted (h : 2 ^ 31 ≤ c.nextStreamId) :
    ∃ e, c.openStream = (.error e, c) := by
  unfold Connection.openStream
  split
  · exact ⟨_, rfl⟩
  · exact ⟨_, if_pos h⟩

theorem openings_eq (evs : List Event) : openings evs = (openedIds evs).length := by
  induction evs with
  | nil => rfl
  | cons e evs ih =>
      rw [openings, Base.total_cons, ← openings, ih]
      cases e with
      | opened id => exact Nat.add_comm _ _
      | request | inbound | outbound => exact Nat.zero_add _

/-- An act opens no stream, or the next one. -/
theorem Acts.openedIds (h : Acts p ok c new c') :
    (H2.openedIds new = [] ∧ c'.nextStreamId = c.nextStreamId) ∨
      H2.openedIds new = [c.nextStreamId] ∧ c'.nextStreamId = c.nextStreamId + 2 ∧
        c.nextStreamId < 2 ^ 31 := by
  have hids : H2.openedIds new = [] ∨
      H2.openedIds new = [c.nextStreamId] ∧ c.nextStreamId < 2 ^ 31 := by
    cases h with
    | opens hopen =>
        obtain ⟨rfl, hlt⟩ := openStream_lt hopen
        exact .inr ⟨rfl, hlt⟩
    | @starts id req c₁ c' _ hopen =>
        obtain ⟨rfl, hlt⟩ := openStream_lt hopen
        exact .inr ⟨congrArg _ (openedIds_of_outbound (c₁.headerFrames _ req)), hlt⟩
    | heads | handled => exact .inl (openedIds_of_outbound _)
    | chunk | pump | cleared | refused | drops | breaks => exact .inl rfl
  have hnext := h.next
  rw [openings_eq] at hnext
  rcases hids with hnone | ⟨hone, hlt⟩
  · rw [hnone] at hnext
    exact .inl ⟨hnone, hnext⟩
  · rw [hone] at hnext
    exact .inr ⟨hone, hnext, hlt⟩

/-- A stream that is registered was so before, or has been opened. -/
theorem Acts.keys (h : Acts p ok c new c') {id : Nat} {s' : Stream}
    (hs : c'.streams.lookup id = some s') :
    (∃ s, c.streams.lookup id = some s) ∨ id = c.nextStreamId ∧ H2.openedIds new ≠ [] := by
  have hmoves : Moves c c' → ∃ s, c.streams.lookup id = some s :=
    fun hmoves => (hmoves.came hs).imp fun _ => And.left
  cases h with
  | opens hopen =>
      obtain ⟨rfl, rfl⟩ := openStream_eq_ok hopen
      rcases Base.Table.lookup_insert_cases hs with ⟨rfl, -⟩ | ⟨-, hs⟩
      · exact .inr ⟨rfl, List.cons_ne_nil _ _⟩
      · exact .inl ⟨s', hs⟩
  | @heads id req s c' _ h =>
      have hsent := (sendHeadersOn_moves c id req).1
      rw [h] at hsent
      exact .inl (hmoves hsent)
  | @starts id req c₁ c' _ hopen h =>
      obtain ⟨rfl, hc₁⟩ := openStream_eq_ok hopen
      have hstaged := stageRequestOn_moves c₁ c.nextStreamId req
      rw [h] at hstaged
      obtain ⟨s, hs, -⟩ := hstaged.came hs
      rw [hc₁] at hs
      rcases Base.Table.lookup_insert_cases hs with ⟨rfl, -⟩ | ⟨-, hs⟩
      · exact .inr ⟨rfl, List.cons_ne_nil _ _⟩
      · exact .inl ⟨s, hs⟩
  | chunk _ hlookup _ _ _ h => exact .inl (hmoves (moves_of_sendChunk hlookup h))
  | @pump j n s pb isLast res c' _ hlookup _ _ _ _ _ h =>
      have hsent := moves_of_sendChunk hlookup h
      cases res with
      | error e => exact .inl ((hsent.came hs).imp fun _ => And.left)
      | ok sent =>
          rcases Base.Table.lookup_insert_cases hs with ⟨rfl, -⟩ | ⟨-, hs⟩
          · exact .inl ⟨s, hlookup⟩
          · exact .inl ((hsent.came hs).imp fun _ => And.left)
  | cleared _ hlookup =>
      rcases Base.Table.lookup_insert_cases hs with ⟨rfl, -⟩ | ⟨-, hs⟩
      · exact .inl ⟨_, hlookup⟩
      · exact .inl ⟨s', hs⟩
  | @handled source f o c' h | @refused source f e c' _ h =>
      have htouch := processFrame_touch (c.receive source f) f
      rw [h] at htouch
      obtain ⟨s, hs, -⟩ := htouch hs
      exact .inl ⟨s, hs⟩
  | drops hstays => exact .inl ⟨s', hstays hs⟩
  | breaks => exact .inl ⟨s', hs⟩

theorem Ids.step {evs : List Event} (h : Ids evs c) (hact : Acts p ok c new c') :
    Ids (evs ++ new) c' := by
  have hkeys : ∀ ⦃id s⦄, c'.streams.lookup id = some s →
      id < c.nextStreamId ∨ id = c.nextStreamId ∧ openedIds new ≠ [] := by
    intro id s hs
    rcases hact.keys hs with ⟨s, hs⟩ | hnew
    · exact .inl (h.keys hs)
    · exact .inr hnew
  rcases hact.openedIds with ⟨hnone, hnext⟩ | ⟨hone, hnext, hlt⟩
  · have hids : openedIds (evs ++ new) = openedIds evs := by
      rw [openedIds_append, hnone, List.append_nil]
    refine ⟨hids ▸ h.odd, hids ▸ h.fits, hids ▸ h.increasing, ?_, ?_, ?_, ?_⟩
    · rw [hids, hnext]
      exact h.below
    · intro id s hs
      rw [hnext]
      rcases hkeys hs with hlt | ⟨-, hsome⟩
      · exact hlt
      · exact absurd hnone hsome
    · rw [hnext]
      exact h.next_odd
    · rw [hnext]
      exact h.next_le
  · have hids : openedIds (evs ++ new) = openedIds evs ++ [c.nextStreamId] := by
      rw [openedIds_append, hone]
    have hodd := h.next_odd
    refine ⟨?_, ?_, ?_, ?_, ?_, ?_, ?_⟩
    · rw [hids]
      exact List.forall_mem_append.mpr ⟨h.odd, List.forall_mem_singleton.mpr hodd⟩
    · rw [hids]
      exact List.forall_mem_append.mpr ⟨h.fits, List.forall_mem_singleton.mpr hlt⟩
    · rw [hids]
      refine List.pairwise_append.mpr ⟨h.increasing, List.pairwise_singleton _ _, ?_⟩
      intro id hid next hmem
      rw [List.mem_singleton.mp hmem]
      exact h.below id hid
    · intro id hid
      rw [hids] at hid
      rcases List.mem_append.mp hid with hid | hid
      · have hbelow := h.below id hid
        omega
      · rw [List.mem_singleton.mp hid]
        omega
    · intro id s hs
      rcases hkeys hs with hlt | ⟨rfl, -⟩
      · omega
      · omega
    · omega
    · omega

end

/-! ## A run -/

/-- No stream is opened beyond the last stream of any GOAWAY that was taken in before. -/
def NeverBeyond (evs : List Event) : Prop :=
  ∀ pre f mid id post, evs = pre ++ .inbound f true :: (mid ++ .opened id :: post) →
    f.isGoaway → id ≤ f.lastStreamId

/-- No GOAWAY raises the last stream of one before it. -/
def Falling (evs : List Event) : Prop :=
  ∀ pre f mid g post, evs = pre ++ .inbound f true :: (mid ++ .inbound g true :: post) →
    f.isGoaway → g.isGoaway → g.lastStreamId ≤ f.lastStreamId

/-- While no GOAWAY goes over a bound, what is noted stays within it. -/
theorem noted_le {bound last : Nat} {evs : List Event} (hlast : last ≤ bound)
    (h : ∀ g, .inbound g true ∈ evs → g.isGoaway → g.lastStreamId ≤ bound) :
    ∃ last' ≤ bound, evs.foldl noted (some last) = some last' := by
  induction evs generalizing last with
  | nil => exact ⟨last, hlast, rfl⟩
  | cons e evs ih =>
      obtain ⟨last', hlast', hnoted⟩ : ∃ last' ≤ bound, noted (some last) e = some last' := by
        unfold noted
        split
        · next g =>
            split
            · next hgoaway => exact ⟨_, h g List.mem_cons_self hgoaway, rfl⟩
            · exact ⟨last, hlast, rfl⟩
        · exact ⟨last, hlast, rfl⟩
      rw [List.foldl_cons, hnoted]
      exact ih hlast' fun g hg => h g (List.mem_cons_of_mem _ hg)

theorem neverBeyond_of_falling {p : Path} {ok : Bool} {c₀ c : Connection} {evs : List Event}
    (h : Traced p ok c₀ evs c) (hfalling : Falling evs) : NeverBeyond evs := by
  intro pre f mid id post hsplit hgoaway
  have hmid : ∀ g, .inbound g true ∈ mid → g.isGoaway → g.lastStreamId ≤ f.lastStreamId := by
    intro g hg hgoaway'
    obtain ⟨mid₁, mid₂, rfl⟩ := List.append_of_mem hg
    refine hfalling pre f mid₁ g (mid₂ ++ .opened id :: post) ?_ hgoaway hgoaway'
    rw [hsplit, List.append_assoc, List.cons_append]
  obtain ⟨last, hle, hnoted⟩ := noted_le (Nat.le_refl f.lastStreamId) hmid
  have hwithin := (Traced.opened_within h).2 (pre ++ .inbound f true :: mid) id post
    (by rw [hsplit, List.append_assoc, List.cons_append]) last
  refine Nat.le_trans (hwithin ?_) hle
  rw [List.foldl_append, List.foldl_cons]
  have hfirst : noted (pre.foldl noted c₀.goawayReceived) (.inbound f true) =
      some f.lastStreamId := if_pos hgoaway
  rw [hfirst, hnoted]

theorem Ids.new {tls : Tls} {c₀ : Connection} (h : Connection.new tls = .ok c₀) : Ids [] c₀ := by
  have hfresh := fresh_of_new h
  refine ⟨nofun, nofun, .nil, nofun, ?_, ?_, ?_⟩
  · intro id s hs
    rw [hfresh.streams] at hs
    cases hs
  · rw [hfresh.next]
  · rw [hfresh.next]
    decide

/-- Whatever is called on a connection, and in whatever order: the streams it opens have odd ids
below 2³¹ that grow, those registered are below the next id, and with none left opening fails.
In a run where no GOAWAY raises the last stream of one before it, none is opened beyond any. -/
theorem stream_ids {tls : Tls} {c₀ : Connection} (hnew : Connection.new tls = .ok c₀) :
    (∀ codec c, Used codec c₀ c → ∃ evs, Traced .both false c₀ evs c) ∧
    ∀ evs c, Traced .both false c₀ evs c → Ids evs c ∧
      (2 ^ 31 ≤ c.nextStreamId → ∃ e, c.openStream = (.error e, c)) ∧
      (Falling evs → NeverBeyond evs) := by
  refine ⟨fun codec c hused => hused.traced (sane_of_new hnew), fun evs c htrace => ?_⟩
  refine ⟨?_, openStream_exhausted, neverBeyond_of_falling htrace⟩
  exact Base.Trace.invariant (I := Ids) (.new hnew) Ids.step htrace

/-- A peer that says goodbye to a connection on which one stream is open. -/
def parting : Connection := .dial ⟨goodbye.bytes, none⟩

theorem parting_facts : parting.openStream.1 = .ok 1 ∧
    parting.openStream.2.readAndDispatch.1 = .ok .cont ∧
    (readFrame parting.openStream.2.tls.source).1 = .ok goodbye ∧
    parting.openStream.2.readAndDispatch.2.openStream.1 = .ok 3 := by
  decide +kernel

/-- A frame that is read and handled. -/
theorem handles_of_read {c : Connection} {f : Frame} {o : DispatchOutcome}
    (hframe : (readFrame c.tls.source).1 = .ok f) (hread : c.readAndDispatch.1 = .ok o) :
    Acts .both false c (.inbound f true :: (c.answers f).map .outbound) c.readAndDispatch.2 := by
  obtain ⟨source, hsource⟩ : ∃ source, readFrame c.tls.source = (.ok f, source) :=
    ⟨_, Prod.ext hframe rfl⟩
  refine @Acts.handled _ _ _ source f o _ ?_
  have hdispatch : c.readAndDispatch = (.ok o, c.readAndDispatch.2) := Prod.ext hread rfl
  rw [← hdispatch, Connection.readAndDispatch, hsource]

/-- The streams opened around the goodbye are within it. -/
theorem stream_ids_parting : ∃ evs c, Traced .both false parting evs c ∧
    openedIds evs = [1, 3] ∧ .inbound goodbye true ∈ evs ∧ Ids evs c ∧
      (2 ^ 31 ≤ c.nextStreamId → ∃ e, c.openStream = (.error e, c)) ∧ NeverBeyond evs := by
  obtain ⟨hfirst, hread, hframe, hsecond⟩ := parting_facts
  have htrace : Traced .both false parting _ _ :=
    ((Base.Trace.single (.opens (Prod.ext hfirst rfl))).snoc (handles_of_read hframe hread)).snoc
      (.opens (Prod.ext hsecond rfl))
  have hanswers : parting.openStream.2.answers goodbye = [] := by decide
  rw [hanswers] at htrace
  obtain ⟨hids, hexhausted, hwithin⟩ := (stream_ids (new_dial ⟨goodbye.bytes, none⟩)).2 _ _ htrace
  refine ⟨_, _, htrace, rfl, by simp, hids, hexhausted, hwithin ?_⟩
  -- there is no second GOAWAY
  intro pre f mid g post hsplit
  have hrest : (mid ++ .inbound g true :: post).filterMap Event.came =
      mid.filterMap Event.came ++ g :: post.filterMap Event.came := List.filterMap_append
  have hcame : [goodbye] = pre.filterMap Event.came ++ f :: _ :=
    (congrArg (List.filterMap Event.came) hsplit).trans List.filterMap_append
  rw [hrest] at hcame
  have hlen := congrArg List.length hcame
  simp only [List.length_append, List.length_cons, List.length_nil] at hlen
  omega

/-! ### A GOAWAY taken back -/

/-- A run opens no stream it has gone past. -/
theorem Traced.openedIds_ge {p : Path} {ok : Bool} {c₀ c : Connection} {evs : List Event}
    (h : Traced p ok c₀ evs c) :
    c₀.nextStreamId ≤ c.nextStreamId ∧ ∀ id ∈ openedIds evs, c₀.nextStreamId ≤ id := by
  refine Base.Trace.invariant (I := fun evs c =>
    c₀.nextStreamId ≤ c.nextStreamId ∧ ∀ id ∈ openedIds evs, c₀.nextStreamId ≤ id) ?_ ?_ h
  · exact ⟨Nat.le_refl _, nofun⟩
  · rintro evs new c₁ c₂ ⟨hle, hids⟩ hact
    rw [openedIds_append]
    rcases hact.openedIds with ⟨hnone, hnext⟩ | ⟨hone, hnext, -⟩
    · rw [hnone, hnext, List.append_nil]
      exact ⟨hle, hids⟩
    · rw [hone, hnext]
      exact ⟨by omega, List.forall_mem_append.mpr ⟨hids, List.forall_mem_singleton.mpr hle⟩⟩

/-- A GOAWAY that names stream 3. -/
def stopAtThree : Frame where
  typ := fGoaway
  flags := 0
  streamId := 0
  payload := [0, 0, 0, 3, 0, 0, 0, 0]

/-- A peer that takes one stream at a time, says that stream 3 is the last, then that 2³¹ - 1 is,
and answers what comes. -/
def wavering : Bytes :=
  ([{ typ := fSettings, flags := 0, streamId := 0, payload := [0, 3, 0, 0, 0, 1] },
    { typ := fHeaders, flags := 0x5, streamId := 1, payload := [0x88] }, stopAtThree, goodbye,
    { typ := fHeaders, flags := 0x5, streamId := 3, payload := [0x88] },
    { typ := fHeaders, flags := 0x5, streamId := 5, payload := [0x88] }] : List Frame).flatMap
      Frame.bytes

/-- A connection to it after its first request. -/
def afterOne : Connection :=
  (runOneRequest (fun _ _ _ => .error []) (.dial ⟨wavering, none⟩) sampleGet).2

theorem wavering_facts :
    ((Batch.init afterOne [sampleGet, sampleGet]).startQueued
        [sampleGet, sampleGet]).conn.flushPending.1 = .ok () ∧
      (Batch.started afterOne [sampleGet, sampleGet]).results.any Option.isNone = true ∧
      (Batch.started afterOne [sampleGet, sampleGet]).idToIdx.entries.isEmpty = false ∧
      (readFrame (Batch.started afterOne [sampleGet, sampleGet]).conn.tls.source).1 =
        .ok stopAtThree ∧
      (Batch.started afterOne [sampleGet, sampleGet]).conn.readAndDispatch.1 = .ok .cont ∧
      (Batch.started afterOne [sampleGet, sampleGet]).conn.readAndDispatch.2.nextStreamId = 5 ∧
      (runMultiplexed (fun _ _ _ => .error []) afterOne
        [sampleGet, sampleGet]).2.nextStreamId = 7 := by
  decide +kernel

/-- Both requests of a batch are sent, the second beyond the last stream of the first GOAWAY. -/
theorem opens_beyond_goaway :
    ¬ ∀ (codec : Codec) (tls : Tls) (c₀ c : Connection) (evs : List Event),
      Connection.new tls = .ok c₀ → Used codec c₀ c → Traced .both false c₀ evs c →
        NeverBeyond evs := by
  intro hclaim
  obtain ⟨hflush, hwaits, hflight, hframe, hread, hfive, hseven⟩ := wavering_facts
  have hused : Used (fun _ _ _ => .error []) (.dial ⟨wavering, none⟩) afterOne :=
    .single .fresh sampleGet
  obtain ⟨evs₀, htrace₀⟩ := hused.traced (sane_of_new (new_dial _))
  obtain ⟨evs₁, answers, evs₂, htrace₁, hact, htrace₂⟩ :=
    traced_around_first (fun _ _ _ => .error []) hflush hwaits hflight hframe hread
  obtain ⟨id, hid⟩ := Traced.exists_opened htrace₂ (by
    rw [hfive, hseven]
    decide)
  have hge : 5 ≤ id := hfive ▸ (Traced.openedIds_ge htrace₂).2 id (mem_openedIds.mpr hid)
  obtain ⟨mid, post, rfl⟩ := List.append_of_mem hid
  have hbeyond := hclaim _ _ _ _ _ (new_dial ⟨wavering, none⟩) (hused.multi [sampleGet, sampleGet])
    (((htrace₀.trans htrace₁).snoc hact).trans htrace₂)
  have hle : id ≤ stopAtThree.lastStreamId := by
    refine hbeyond (evs₀ ++ evs₁) stopAtThree (answers ++ mid) id post ?_ (by decide)
    simp only [List.append_assoc, List.cons_append]
  have hthree : stopAtThree.lastStreamId = 3 := by decide
  omega

end Rsurl.H2
