/-
# `Rsurl.H2.HeardBatch` — what a batch hears on its streams

Every request of `run_multiplexed` has its stream, and every stream its
history (`Attends`), which are the frames on it since the request went out.
An error of `process_frame` may be charged to another stream than that of the
frame; the history of a stream with a refused frame is not followed further.
-/
import Rsurl.H2.Heard

namespace Rsurl.H2

open Http (Header Request Response)

namespace Batch

/-! ## Requests, streams and responses -/

/-- The next request in the queue, that of slot `idx`, goes out on the stream `id`. -/
def Asks (reqs : List Request) (idx id : Nat) (b b' : Batch) : Prop :=
  ∃ queue conn conn' req, b.queue = idx :: queue ∧ b.conn.openStream = (.ok id, conn) ∧
    reqs[idx]? = some req ∧ conn.stageRequestOn id req = (.ok (), conn') ∧
    b' = { b with conn := conn', idToIdx := b.idToIdx.insert id idx, queue }

/-- On the run `evs` of a batch to `b`, the request of slot `idx` went out on the stream `id` in
`b₀`, and `since` is what has happened after that. -/
def Since (codec : Codec) (reqs : List Request) (c : Connection) (evs : List Event) (b : Batch)
    (idx id : Nat) (b₀ : Batch) (since : List Event) : Prop :=
  ∃ before b₁, evs = before ++ (b₀.startEvents reqs ++ since) ∧
    Base.Trace (Does codec reqs) (init c reqs) before b₀ ∧ Asks reqs idx id b₀ b₁ ∧
    Base.Trace (Does codec reqs) b₁ since b

/-- A frame on the stream was refused. -/
def RefusedOn (evs : List Event) (id : Nat) : Prop := ∃ f, f.streamId = id ∧ .inbound f false ∈ evs

/-- The request of slot `idx` was answered in `b₁`, and `Made` holds of the stream that it went out
on, the frames that came there since then, and the connection; or one of these was refused. -/
def Answered (codec : Codec) (reqs : List Request) (c : Connection) (evs : List Event) (b : Batch)
    (idx : Nat) (Made : Nat → Connection → List Heard → Connection → Prop) : Prop :=
  ∃ id b₀ since b₁ front rest, evs = front ++ rest ∧
    Since codec reqs c front b₁ idx id b₀ since ∧ Base.Trace (Does codec reqs) b₁ rest b ∧
    (RefusedOn since id ∨ ∃ heard c', Made id b₀.conn heard c' ∧ c'.tls = b₁.conn.tls ∧
      heard.map Heard.frame = (since.filterMap Event.came).filter fun f => f.streamId = id)

/-- How far the history of a stream in flight is known when the last frame had the outcome `o`. -/
inductive Follows (since : List Event) (o : DispatchOutcome) (c₀ c : Connection) (id : Nat) : Prop
  | refused (h : RefusedOn since id)
  | hearing {heard : List Heard} (h : Hearing .multi false id c₀ heard c)
  | brought {heard : List Heard} {c₁ : Connection} (ho : o = .done id) (htls : c₁.tls = c.tls)
      (h : ∀ s, c.streams.lookup id = some s → Brought .multi false id c₀ heard c₁ s)

/-- Every stream in flight is followed from where `From` says that its request went out, and every
response is one of `Built`. -/
structure Attends (From : Nat → Nat → Batch → List Event → Prop) (Built : Nat → Response → Prop)
    (o : DispatchOutcome) (b : Batch) : Prop where
  next : b.conn.nextStreamId ≠ 0
  ids : ∀ {id idx}, b.idToIdx.lookup id = some idx →
    id < b.conn.nextStreamId ∧ (∃ s, b.conn.streams.lookup id = some s) ∧
    ∃ b₀ since, From idx id b₀ since ∧ Follows since o b₀.conn b.conn id
  results : ∀ {idx : Nat} {r : Response}, b.results[idx]? = some (some (.ok r)) → Built idx r

/-- Streams leave together with their slots, and no response comes. -/
structure Sheds (b b' : Batch) : Prop where
  conn : ∃ streams : Streams, b'.conn = { b.conn with streams } ∧
    ∀ {id s}, streams.lookup id = some s → b.conn.streams.lookup id = some s
  ids : ∀ {id idx}, b'.idToIdx.lookup id = some idx → b.idToIdx.lookup id = some idx ∧
    b'.conn.streams.lookup id = b.conn.streams.lookup id
  results : ∀ {idx : Nat} {r : Response}, b'.results[idx]? = some (some (.ok r)) →
    b.results[idx]? = some (some (.ok r))

section

variable {codec : Codec} {reqs : List Request} {b b' b'' : Batch} {evs new since : List Event}
  {o : DispatchOutcome} {c₀ c c' : Connection} {id idx : Nat} {s s' : Stream} {r : Response}

theorem RefusedOn.append (h : RefusedOn evs id) : RefusedOn (evs ++ new) id := by
  obtain ⟨f, hid, hmem⟩ := h
  exact ⟨f, hid, List.mem_append_left _ hmem⟩

theorem Since.snoc {b₀ : Batch} (h : Since codec reqs c evs b idx id b₀ since)
    (hdoes : Does codec reqs b new b') :
    Since codec reqs c (evs ++ new) b' idx id b₀ (since ++ new) := by
  obtain ⟨before, b₁, rfl, hbefore, hasks, htrace⟩ := h
  exact ⟨before, b₁, by rw [List.append_assoc, List.append_assoc], hbefore, hasks,
    htrace.snoc hdoes⟩

theorem Answered.mono {Made Made' : Nat → Connection → List Heard → Connection → Prop}
    (h : Answered codec reqs c evs b idx Made)
    (hmade : ∀ {id c₀ heard c'}, Made id c₀ heard c' → Made' id c₀ heard c') :
    Answered codec reqs c evs b idx Made' := by
  obtain ⟨id, b₀, since, b₁, front, rest, hevs, hsince, hrest, hbuilt⟩ := h
  refine ⟨id, b₀, since, b₁, front, rest, hevs, hsince, hrest, hbuilt.imp_right ?_⟩
  rintro ⟨heard, c', hheard, htold⟩
  exact ⟨heard, c', hmade hheard, htold⟩

theorem Answered.snoc {Made : Nat → Connection → List Heard → Connection → Prop}
    (h : Answered codec reqs c evs b idx Made) (hdoes : Does codec reqs b new b') :
    Answered codec reqs c (evs ++ new) b' idx Made := by
  obtain ⟨id, b₀, since, b₁, front, rest, rfl, hsince, hrest, hbuilt⟩ := h
  exact ⟨id, b₀, since, b₁, front, rest ++ new, List.append_assoc _ _ _, hsince,
    hrest.snoc hdoes, hbuilt⟩

/-- A stream that is spared is followed as before. -/
theorem Follows.acts (h : Follows since .cont c₀ c id) (htrace : Traced .multi false c evs c')
    (hothers : ∀ f ∈ evs.filterMap Event.came, f.streamId ≠ id) :
    Follows (since ++ new) o c₀ c' id := by
  cases h with
  | refused h => exact .refused h.append
  | hearing h => exact .hearing (h.acts htrace hothers)
  | brought ho => cases ho

/-- The frames that came are those that the transport handed over. -/
theorem quiet_of_received (htrace : Traced .multi false c evs c')
    (h : c'.tls.received = c.tls.received) : evs.filterMap Event.came = [] :=
  List.append_cancel_left
    ((Traced.received htrace).symm.trans (h.trans (List.append_nil _).symm))

/-! ## What comes in -/

theorem came_startEvents (reqs : List Request) (b : Batch) :
    (b.startEvents reqs).filterMap Event.came = [] := by
  unfold startEvents
  split
  · split
    · rfl
    · split
      · rfl
      · exact came_of_outbound _
  · rfl

theorem Starts.received (h : Starts reqs b b') : b'.conn.tls.received = b.conn.tls.received := by
  cases h with
  | @refused idx queue e hqueue hopen =>
      obtain ⟨res, conn, heq⟩ : ∃ res conn, b.conn.openStream = (res, conn) := ⟨_, _, rfl⟩
      rw [heq] at hopen
      obtain rfl : res = .error e := hopen
      obtain rfl := openStream_eq_error heq
      rw [heq]
      rfl
  | lost _ hopen =>
      obtain ⟨-, rfl⟩ := openStream_eq_ok hopen
      rfl
  | failed _ hopen _ hstage =>
      obtain ⟨encoder, sink, -, rfl⟩ := stageRequestOn_error hstage
      obtain ⟨-, rfl⟩ := openStream_eq_ok hopen
      rfl
  | @started idx id queue conn conn' req _ hopen _ hstage =>
      have hmoves := stageRequestOn_moves conn id req
      rw [hstage] at hmoves
      obtain ⟨-, rfl⟩ := openStream_eq_ok hopen
      exact hmoves.received

/-- The slot of the stream that is done is filled; the transport is left alone. -/
theorem deliver_tls (codec : Codec) (b : Batch) (o : DispatchOutcome) :
    (b.deliver codec o).conn.tls = b.conn.tls := by
  unfold deliver
  split
  · rfl
  · split <;> rfl

/-! ## Shedding -/

theorem Sheds.refl (b : Batch) : Sheds b b :=
  ⟨⟨b.conn.streams, rfl, fun hs => hs⟩, fun h => ⟨h, rfl⟩, id⟩

theorem Sheds.trans (h : Sheds b b') (h' : Sheds b' b'') : Sheds b b'' where
  conn := by
    obtain ⟨streams, hconn, hstays⟩ := h.conn
    obtain ⟨streams', hconn', hstays'⟩ := h'.conn
    refine ⟨streams', by rw [hconn', hconn], fun {i t} ht => hstays ?_⟩
    have hwas := hstays' ht
    rwa [hconn] at hwas
  ids hid := by
    obtain ⟨hid', hsame'⟩ := h'.ids hid
    obtain ⟨hid, hsame⟩ := h.ids hid'
    exact ⟨hid, hsame'.trans hsame⟩
  results hr := h.results (h'.results hr)

/-- A stream is dropped with its slot, which is failed. -/
theorem sheds_drop (b : Batch) (id idx : Nat) (e : Error) :
    Sheds b ((b.dropStream id).setResult idx (.error e)) where
  conn := ⟨b.conn.streams.erase id, rfl, fun hs => (Base.Table.lookup_of_erase hs).2⟩
  ids {j idx} hj := by
    change (b.idToIdx.erase id).lookup j = some idx at hj
    have hne : j ≠ id := by
      rintro rfl
      rw [AList.lookup_erase] at hj
      cases hj
    rw [AList.lookup_erase_ne hne] at hj
    exact ⟨hj, AList.lookup_erase_ne hne⟩
  results hr := ok_of_setError hr

theorem sheds_failDoomed (last : Nat) (b : Batch) (id : Nat) : Sheds b (failDoomed last b id) := by
  unfold failDoomed
  split
  · exact .refl b
  · exact sheds_drop b id _ _

theorem sheds_failGoawayDoomed (b : Batch) : Sheds b b.failGoawayDoomed := by
  unfold failGoawayDoomed
  split
  · exact .refl b
  next last hlast =>
  simp only
  generalize List.filter _ b.idToIdx.keys = doomed
  clear hlast
  induction doomed generalizing b with
  | nil => exact .refl b
  | cons id doomed ih => exact (sheds_failDoomed last b id).trans (ih _)

theorem Sheds.tls (h : Sheds b b') : b'.conn.tls = b.conn.tls := by
  obtain ⟨streams, hconn, -⟩ := h.conn
  rw [hconn]

theorem Sheds.stays (h : Sheds b b') (hs : b'.conn.streams.lookup id = some s) :
    b.conn.streams.lookup id = some s := by
  obtain ⟨streams, hconn, hstays⟩ := h.conn
  rw [hconn] at hs
  exact hstays hs

theorem Sheds.acts (h : Sheds b b') : Traced .multi false b.conn [] b'.conn := by
  obtain ⟨streams, hconn, hstays⟩ := h.conn
  rw [hconn]
  exact .single (@Acts.drops _ _ b.conn _ b.conn.tls.source hstays)

/-! ## One thing after the other -/

variable {From From' : Nat → Nat → Batch → List Event → Prop} {Built Built' : Nat → Response → Prop}

/-- A response that is built at the end of a history, or behind a refused frame. -/
def Comes (codec : Codec) (b₀ : Batch) (since : List Event) (tls : Tls) (id : Nat) (r : Response) :
    Prop :=
  RefusedOn since id ∨ ∃ heard c', BuiltOn codec .multi false id b₀.conn heard c' r ∧ c'.tls = tls

theorem Attends.sheds (h : Attends From Built o b) (hsheds : Sheds b b') :
    Attends From Built o b' := by
  obtain ⟨streams, hconn, -⟩ := hsheds.conn
  have hnext : b'.conn.nextStreamId = b.conn.nextStreamId := by rw [hconn]
  refine ⟨hnext ▸ h.next, fun {id idx} hid => ?_, fun hr => h.results (hsheds.results hr)⟩
  obtain ⟨hwas, hsame⟩ := hsheds.ids hid
  obtain ⟨hlt, hkept, b₀, since, hfrom, hfollows⟩ := h.ids hwas
  refine ⟨hnext ▸ hlt, hsame ▸ hkept, b₀, since, hfrom, ?_⟩
  cases hfollows with
  | refused h => exact .refused h
  | hearing h => exact .hearing (h.acts hsheds.acts (List.forall_mem_nil _))
  | brought ho htls hbrought =>
      exact .brought ho (htls.trans hsheds.tls.symm) fun s hs => hbrought s (by rwa [hsame] at hs)

/-- The streams in flight are spared, and no response comes. -/
theorem Attends.acts (h : Attends From Built .cont b)
    (hgrow : ∀ {idx id b₀ since}, From idx id b₀ since → From' idx id b₀ (since ++ new))
    (htrace : Traced .multi false b.conn evs b'.conn)
    (hquiet : evs.filterMap Event.came = [])
    (hids : ∀ {id idx}, b'.idToIdx.lookup id = some idx → b.idToIdx.lookup id = some idx)
    (hstreams : ∀ {id s}, id < b.conn.nextStreamId → b.conn.streams.lookup id = some s →
      ∃ s', b'.conn.streams.lookup id = some s')
    (hresults : ∀ {idx : Nat} {r : Response}, b'.results[idx]? = some (some (.ok r)) →
      b.results[idx]? = some (some (.ok r))) : Attends From' Built .cont b' := by
  have hnext : b.conn.nextStreamId ≤ b'.conn.nextStreamId := by
    rw [Traced.next htrace]
    exact Nat.le_add_right _ _
  refine ⟨?_, fun {id idx} hid => ?_, fun hr => h.results (hresults hr)⟩
  · exact Nat.pos_iff_ne_zero.mp (Nat.lt_of_lt_of_le (Nat.pos_of_ne_zero h.next) hnext)
  · obtain ⟨hlt, ⟨s, hs⟩, b₀, since, hfrom, hfollows⟩ := h.ids (hids hid)
    refine ⟨Nat.lt_of_lt_of_le hlt hnext, hstreams hlt hs, b₀, _, hgrow hfrom, ?_⟩
    exact hfollows.acts htrace (by rw [hquiet]; exact List.forall_mem_nil _)

theorem openStream_lookup (hopen : c.openStream = (.ok id, c')) {j : Nat}
    (hj : j < c.nextStreamId) : c'.streams.lookup j = c.streams.lookup j := by
  obtain ⟨-, rfl⟩ := openStream_eq_ok hopen
  exact AList.lookup_insert_ne (Nat.ne_of_lt hj)

theorem Attends.starts (h : Attends From Built .cont b) (hstart : Starts reqs b b')
    (hgrow : ∀ {idx id b₀ since}, From idx id b₀ since →
      From' idx id b₀ (since ++ b.startEvents reqs))
    (hasks : ∀ {idx id}, Asks reqs idx id b b' → From' idx id b []) :
    Attends From' Built .cont b' := by
  obtain ⟨evs, htrace⟩ := hstart.runs.traced (p := .multi) (by decide)
  have hquiet := quiet_of_received htrace hstart.received
  cases hstart with
  | @refused idx queue e hqueue hopen =>
      obtain ⟨res, conn, heq⟩ : ∃ res conn, b.conn.openStream = (res, conn) := ⟨_, _, rfl⟩
      rw [heq] at hopen htrace ⊢
      obtain rfl : res = .error e := hopen
      obtain rfl := openStream_eq_error heq
      exact h.acts hgrow htrace hquiet (fun hid => hid) (fun _ hs => ⟨_, hs⟩) ok_of_setError
  | @lost idx id queue conn hqueue hopen hreq =>
      refine h.acts hgrow htrace hquiet (fun hid => hid) (fun {j s} hlt hs => ⟨s, ?_⟩) fun hr => hr
      exact (openStream_lookup hopen hlt).trans hs
  | @failed idx id queue conn conn' req e hqueue hopen hreq hstage =>
      refine h.acts hgrow htrace hquiet (fun hid => hid) (fun {j s} hlt hs => ⟨s, ?_⟩)
        ok_of_setError
      have hne : j ≠ id := by
        rw [(openStream_eq_ok hopen).1]
        exact Nat.ne_of_lt hlt
      obtain ⟨encoder, sink, -, rfl⟩ := stageRequestOn_error hstage
      exact ((AList.lookup_erase_ne hne).trans (openStream_lookup hopen hlt)).trans hs
  | @started idx id queue conn conn' req hqueue hopen hreq hstage =>
      have hact : Acts .multi false b.conn _ conn' := .starts (by decide) hopen hstage
      have hhear : Hearing .multi false id b.conn [] conn' :=
        hearing_open h.next ⟨_, hact, List.mem_cons_self⟩
      have hfresh : Opens.Fresh id b.conn conn' := Opens.fresh ⟨_, hact, List.mem_cons_self⟩
      obtain ⟨t, ht, -⟩ := hfresh.stream
      have hlook : ∀ {j : Nat}, j < b.conn.nextStreamId →
          conn'.streams.lookup j = b.conn.streams.lookup j := by
        intro j hj
        obtain ⟨hid, hconn⟩ := openStream_eq_ok hopen
        have hstreams := stageRequestOn_ok (w := b.conn.peer.initialWindowSize)
          (by rw [hconn, hid]; exact AList.lookup_insert _) hstage
        rw [hstreams, AList.lookup_insert_ne (hid ▸ Nat.ne_of_lt hj), openStream_lookup hopen hj]
      have hothers : Attends From' Built .cont { b with conn := conn', queue } :=
        h.acts hgrow htrace hquiet (fun hid => hid) (fun hlt hs => ⟨_, (hlook hlt).trans hs⟩)
          fun hr => hr
      refine ⟨hothers.next, fun {j i} hj => ?_, hothers.results⟩
      change (b.idToIdx.insert id idx).lookup j = some i at hj
      by_cases hne : j = id
      · subst hne
        rw [AList.lookup_insert] at hj
        obtain rfl := Option.some.inj hj
        exact ⟨hhear.below, ⟨t, ht⟩, b, [],
          hasks ⟨queue, conn, conn', req, hqueue, hopen, hreq, hstage, rfl⟩, .hearing hhear⟩
      · rw [AList.lookup_insert_ne hne] at hj
        exact hothers.ids hj

theorem Attends.sends (h : Attends From Built .cont b) {conn : Connection}
    (hgrow : ∀ {idx id b₀ since}, From idx id b₀ since → From' idx id b₀ (since ++ new))
    (hact : Acts .multi false b.conn new conn) (hids : SameIds b.conn conn)
    (hdata : ∀ e ∈ new, ∃ f, e = .outbound f ∧ f.typ = fData) :
    Attends From' Built .cont { b with conn } := by
  refine h.acts hgrow (.single hact) (List.filterMap_eq_nil_iff.mpr fun e he => ?_)
    (fun hid => hid) (fun _ hs => (hids.ids _).mpr ⟨_, hs⟩) fun hr => hr
  obtain ⟨f, rfl, -⟩ := hdata e he
  rfl

/-- A frame that is processed, when it is known what it does to the history of a stream. -/
theorem Attends.frame (h : Attends From Built .cont b) {source : Source} {f : Frame}
    {res : Result DispatchOutcome} {conn : Connection}
    (hgrow : ∀ {idx id b₀ since}, From idx id b₀ since → From' idx id b₀ (since ++ new))
    (hframe : (b.conn.receive source f).processFrame f = (res, conn))
    (hfollows : ∀ {id since s} {c₀ : Connection}, b.conn.streams.lookup id = some s →
      Follows since .cont c₀ b.conn id → Follows (since ++ new) o c₀ conn id) :
    Attends From' Built o { b with conn } := by
  have heff := processFrame_effect (b.conn.receive source f) f
  rw [hframe] at heff
  refine ⟨fun hzero => h.next (heff.next_eq.symm.trans hzero), fun {id idx} hid => ?_, h.results⟩
  obtain ⟨hlt, ⟨s, hs⟩, b₀, since, hfrom, hbefore⟩ := h.ids hid
  have hlt : id < conn.nextStreamId := by
    rw [heff.next_eq]
    exact hlt
  exact ⟨hlt, heff.kept hs, b₀, _, hgrow hfrom, hfollows hs hbefore⟩

/-- A frame that is refused ends the history of its stream, as far as it is known. -/
theorem Attends.refuses (h : Attends From Built .cont b) {source : Source} {f : Frame}
    {e : Error} {conn : Connection}
    (hgrow : ∀ {idx id b₀ since}, From idx id b₀ since →
      From' idx id b₀ (since ++ [.inbound f false]))
    (hframe : (b.conn.receive source f).processFrame f = (.error e, conn)) :
    Attends From' Built .cont { b with conn } := by
  refine h.frame hgrow hframe fun {id since s c₀} hs hbefore => ?_
  by_cases hon : f.streamId = id
  · exact .refused ⟨f, hon, List.mem_append_right _ (List.mem_singleton_self _)⟩
  · refine hbefore.acts (.single (.refused rfl hframe)) fun g hg => ?_
    rwa [List.mem_singleton.mp hg]

/-- A frame that is handled goes into the history of its stream. -/
theorem Attends.handles (h : Attends From Built .cont b) {source : Source} {f : Frame}
    {conn : Connection}
    (hgrow : ∀ {idx id b₀ since}, From idx id b₀ since → From' idx id b₀ (since ++ new))
    (hframe : (b.conn.receive source f).processFrame f = (.ok o, conn)) :
    Attends From' Built o { b with conn } := by
  refine h.frame hgrow hframe fun {id since s c₀} hs hbefore => ?_
  cases hbefore with
  | refused h => exact .refused h.append
  | hearing h =>
      by_cases hon : f.streamId = id
      · obtain ⟨heard, hgoes, hdone⟩ := h.frame hon hs hframe
        by_cases ho : o = .done id
        · exact .brought ho rfl (hdone ho)
        · exact .hearing (hgoes ho)
      · exact .hearing (h.other hon hframe)
  | brought ho => cases ho

/-- Once the stream that is done is handed out, the others are followed as before. -/
theorem Follows.rest {i : Nat} (h : Follows since (.done i) c₀ c id) (hne : id ≠ i)
    (htrace : Traced .multi false c [] c') : Follows since .cont c₀ c' id := by
  cases h with
  | refused h => exact .refused h
  | hearing h => exact .hearing (h.acts htrace (List.forall_mem_nil _))
  | brought ho => exact absurd (DispatchOutcome.done.inj ho).symm hne

/-- The stream that is done is handed out with its history. -/
theorem Attends.delivers (h : Attends From Built o b)
    (hdone : ∀ id s, o = .done id → b.conn.streams.lookup id = some s → s.complete = true)
    (hold : ∀ {idx r}, Built idx r → Built' idx r)
    (hnew : ∀ {idx id b₀ since r}, From idx id b₀ since →
      Comes codec b₀ since b.conn.tls id r → Built' idx r) :
    Attends From Built' .cont (b.deliver codec o) := by
  cases o with
  | cont => exact ⟨h.next, h.ids, fun hr => hold (h.results hr)⟩
  | done i =>
  simp only [deliver]
  split
  · next idx s hidx hs =>
      obtain ⟨-, -, b₀, since, hfrom, hfollows⟩ := h.ids hidx
      refine ⟨h.next, fun {id j} hid => ?_, fun {j r} hr => ?_⟩
      · change (b.idToIdx.erase i).lookup id = some j at hid
        have hne : id ≠ i := by
          rintro rfl
          rw [AList.lookup_erase] at hid
          cases hid
        rw [AList.lookup_erase_ne hne] at hid
        obtain ⟨hlt, ⟨t, ht⟩, b₁, since', hfrom', hfollows'⟩ := h.ids hid
        refine ⟨hlt, ⟨t, (AList.lookup_erase_ne hne).trans ht⟩, b₁, since', hfrom', ?_⟩
        refine hfollows'.rest hne (.single ?_)
        exact @Acts.drops _ _ b.conn _ b.conn.tls.source fun hs =>
          (Base.Table.lookup_of_erase hs).2
      · change (b.results.set idx (some (buildResponseFromStream codec s)))[j]? = _ at hr
        by_cases hj : idx = j
        · subst hj
          rw [List.getElem?_set_self'] at hr
          obtain ⟨_, -, hbuilt⟩ := Option.map_eq_some_iff.mp hr
          have hbuilt := Option.some.inj hbuilt
          refine hnew hfrom ?_
          cases hfollows with
          | refused h => exact .inl h
          | hearing h =>
              have hlive := h.live hs
              rw [hdone i s rfl hs] at hlive
              cases hlive
          | brought _ htls hbrought => exact .inr ⟨_, _, ⟨s, hbrought s hs, hbuilt⟩, htls⟩
        · rw [List.getElem?_set_ne hj] at hr
          exact hold (h.results hr)
  · next hnone =>
      refine ⟨h.next, fun {id j} hid => ?_, fun hr => hold (h.results hr)⟩
      obtain ⟨hlt, ⟨t, ht⟩, b₀, since, hfrom, hfollows⟩ := h.ids hid
      refine ⟨hlt, ⟨t, ht⟩, b₀, since, hfrom, hfollows.rest ?_ .nil⟩
      rintro rfl
      exact hnone j t hid ht

/-- What a batch does keeps everything followed. -/
theorem attends_does (h : Attends From Built .cont b) (hdoes : Does codec reqs b new b')
    (hgrow : ∀ {idx id b₀ since}, From idx id b₀ since → From' idx id b₀ (since ++ new))
    (hasks : ∀ {idx id}, new = b.startEvents reqs → Asks reqs idx id b b' → From' idx id b [])
    (hold : ∀ {idx r}, Built idx r → Built' idx r)
    (hnew : ∀ {idx id b₀ since r}, From' idx id b₀ since →
      Comes codec b₀ since b'.conn.tls id r → Built' idx r) :
    Attends From' Built' .cont b' := by
  have hmono : ∀ {b' : Batch}, Attends From' Built .cont b' → Attends From' Built' .cont b' :=
    fun h => ⟨h.next, h.ids, fun hr => hold (h.results hr)⟩
  cases hdoes with
  | starts hstart => exact hmono (h.starts hstart hgrow (hasks rfl))
  | sends hact hids hdata => exact hmono (h.sends hgrow hact hids hdata)
  | refused hframe => exact hmono (h.refuses hgrow hframe)
  | @charged idx b' e htake =>
      obtain ⟨id, s, -, -, rfl⟩ := takeStreamError_eq_some htake
      have hsame : Attends From' Built .cont b :=
        h.acts hgrow .nil rfl (fun hid => hid) (fun _ hs => ⟨_, hs⟩) fun hr => hr
      exact hmono (hsame.sheds (sheds_drop b id idx e))
  | @handled source f o conn hframe =>
      have hsheds := sheds_failGoawayDoomed { b with conn }
      refine ((h.handles hgrow hframe).sheds hsheds).delivers (fun id s ho hs => ?_)
        hold fun hfrom hcomes => hnew hfrom ?_
      · subst ho
        have heff := processFrame_effect (b.conn.receive source f) f
        rw [hframe] at heff
        obtain ⟨-, t, ht, hcomplete⟩ := heff.of_done
        obtain rfl := Option.some.inj ((hsheds.stays hs).symm.trans ht)
        exact hcomplete
      · rwa [deliver_tls]
  | notes hresults =>
      exact hmono (h.acts hgrow .nil rfl (fun hid => hid) (fun _ hs => ⟨_, hs⟩)
        fun hr => hresults _ _ hr)

/-! ## A whole batch -/

/-- What a batch does puts the frames that come into the record of the transport. -/
theorem does_received (hdoes : Does codec reqs b new b') :
    b'.conn.tls.received = b.conn.tls.received ++ new.filterMap Event.came := by
  have hnone : ∀ {c : Connection}, c.tls.received = b.conn.tls.received →
      c.tls.received = b.conn.tls.received ++ ([] : List Event).filterMap Event.came :=
    fun h => h.trans (List.append_nil _).symm
  cases hdoes with
  | starts hstart =>
      rw [came_startEvents, List.append_nil]
      exact hstart.received
  | sends hact => exact hact.received
  | @refused source f e conn hframe =>
      have heff := processFrame_effect (b.conn.receive source f) f
      rw [hframe] at heff
      exact heff.received_eq
  | charged htake =>
      obtain ⟨id, s, -, -, rfl⟩ := takeStreamError_eq_some htake
      exact hnone rfl
  | @handled source f o conn hframe =>
      have hact : Acts .multi true b.conn _ conn := .handled hframe
      rw [deliver_tls, (sheds_failGoawayDoomed _).tls]
      exact hact.received
  | notes => exact hnone rfl

theorem does_received_all (h : Base.Trace (Does codec reqs) b evs b') :
    b'.conn.tls.received = b.conn.tls.received ++ evs.filterMap Event.came :=
  Base.Trace.invariant
    (I := fun evs b' => b'.conn.tls.received = b.conn.tls.received ++ evs.filterMap Event.came)
    (List.append_nil _).symm (fun {evs new b₁ b₂} h hdoes => by
      rw [does_received hdoes, h, List.filterMap_append, List.append_assoc]) h

/-- What was heard on a stream are the frames on it that have come since its request. -/
theorem frames_of_since {b₀ : Batch} {heard : List Heard}
    (h : Since codec reqs c evs b idx id b₀ since)
    (hbuilt : BuiltOn codec .multi false id b₀.conn heard c' r) (htls : c'.tls = b.conn.tls) :
    heard.map Heard.frame = (since.filterMap Event.came).filter fun f => f.streamId = id := by
  obtain ⟨before, b₁, -, -, ⟨queue, conn, conn', req, -, hopen, -, hstage, rfl⟩, htrace⟩ := h
  obtain ⟨fs, hreceived, hheard⟩ := hbuilt.frames
  have hact : Acts .multi false b₀.conn _ conn' := .starts (by decide) hopen hstage
  have hsame : conn'.tls.received = b₀.conn.tls.received :=
    (Opens.fresh (⟨_, hact, List.mem_cons_self⟩ : Opens .multi false id b₀.conn conn')).received
  have hcame := does_received_all htrace
  rw [← htls, hreceived] at hcame
  change _ = conn'.tls.received ++ _ at hcame
  rw [hsame] at hcame
  rw [hheard, List.append_cancel_left hcame]

/-- No slot has a response at the start. -/
theorem no_response (c : Connection) : (init c reqs).results[idx]? ≠ some (some (.ok r)) := by
  intro hr
  change (reqs.map fun _ => none)[idx]? = _ at hr
  rw [List.getElem?_map] at hr
  obtain ⟨_, -, heq⟩ := Option.map_eq_some_iff.mp hr
  cases heq

theorem attends_init (hzero : c.nextStreamId ≠ 0) : Attends From Built .cont (init c reqs) := by
  refine ⟨hzero, fun {id idx} hid => ?_, fun hr => absurd hr (no_response c)⟩
  change (∅ : Base.Table Nat Nat).lookup id = some idx at hid
  rw [AList.lookup_empty] at hid
  cases hid

theorem runMultiplexed_tls (codec : Codec) (c : Connection) (reqs : List Request) :
    (runMultiplexed codec c reqs).2.tls = (final codec c reqs).conn.tls := by
  obtain ⟨res, conn, hflush⟩ : ∃ res conn,
    ((init c reqs).startQueued reqs).conn.flushPending = (res, conn) := ⟨_, _, rfl⟩
  cases res with
  | error e =>
      rw [runMultiplexed_conn_of_error codec hflush]
      simp only [final, hflush]
      rfl
  | ok u =>
      rw [runMultiplexed_conn codec hflush]
      simp only [final, hflush]
      rfl

/-- A response in a batch was built from the stream that its request went out on, and from what
came on that since then. -/
theorem answered_runMultiplexed (codec : Codec) (hzero : c.nextStreamId ≠ 0) :
    ∃ evs, Base.Trace (Does codec reqs) (init c reqs) evs (final codec c reqs) ∧
      (runMultiplexed codec c reqs).2.tls.received =
        c.tls.received ++ evs.filterMap Event.came ∧
      ∀ idx r, (runMultiplexed codec c reqs).1[idx]? = some (.ok r) →
        Answered codec reqs c evs (final codec c reqs) idx fun id c₀ heard c' =>
          BuiltOn codec .multi false id c₀ heard c' r := by
  obtain ⟨evs, htrace⟩ := reaches_final codec c reqs
  have hall := Base.Trace.invariant (I := fun evs b =>
    Base.Trace (Does codec reqs) (init c reqs) evs b ∧
      Attends (Since codec reqs c evs b) (fun idx r => Answered codec reqs c evs b idx
        fun id c₀ heard c' => BuiltOn codec .multi false id c₀ heard c' r) .cont b)
    ⟨.nil, attends_init hzero⟩ (fun {evs new b b'} h hdoes => ?_) htrace
  · refine ⟨evs, htrace, ?_, fun idx r hr => ?_⟩
    · rw [runMultiplexed_tls]
      exact does_received_all htrace
    rw [runMultiplexed_results, collectResults, List.getElem?_map] at hr
    obtain ⟨slot, hslot, hget⟩ := Option.map_eq_some_iff.mp hr
    cases slot with
    | none => cases hget
    | some res =>
        obtain rfl : res = .ok r := hget
        exact hall.2.results hslot
  obtain ⟨hruns, hattends⟩ := h
  refine ⟨hruns.snoc hdoes, attends_does hattends hdoes (fun hsince => hsince.snoc hdoes)
    (fun {idx id} hnew hasks => ?_) (fun hanswered => hanswered.snoc hdoes)
    fun {idx id b₀ since r} hsince hcomes => ?_⟩
  · exact ⟨evs, b', by rw [hnew, List.append_nil], hruns, hasks, .nil⟩
  · refine ⟨id, b₀, since, b', evs ++ new, [], (List.append_nil _).symm, hsince, .nil, ?_⟩
    rcases hcomes with hrefused | ⟨heard, c', hbuilt, htls⟩
    · exact .inl hrefused
    · exact .inr ⟨heard, c', hbuilt, htls, frames_of_since hsince hbuilt htls⟩

end

end Batch
end Rsurl.H2
