/-
# `Rsurl.H2.Loop` — every pass of the multiplexing loop

What holds whenever the loop looks for results (`Sound`), that a pass keeps it
and uses up inbound bytes or a finished stream, and so that the call ends with
every slot filled (`settles_runMultiplexed`).
-/
import Rsurl.H2.Progress

namespace Rsurl.H2

open Http (Request Response)
open Relation (ReflTransGen)
open Base (Keeps)

namespace Batch

variable {codec : Codec} {reqs : List Request}

/-- No stream can be opened: the peer allows none, or has gone away. -/
def Barred (c : Connection) : Prop :=
  c.peer.maxConcurrentStreams = 0 ∨ ∃ last, c.goawayReceived = some last ∧ last < c.nextStreamId

theorem Barred.openStream {c : Connection} (h : Barred c) : ∃ e, c.openStream = (.error e, c) := by
  unfold Connection.openStream
  split
  · exact ⟨_, rfl⟩
  next hroom =>
  split
  · exact ⟨_, rfl⟩
  rcases h with hzero | ⟨last, hlast, hlt⟩
  · rw [hzero] at hroom
    exact absurd (Nat.zero_le _) hroom
  · rw [if_pos (by rw [hlast]; simpa using hlt)]
    exact ⟨_, rfl⟩

/-- With nothing in flight, what is queued cannot be started. -/
def Idle (b : Batch) : Prop := b.idToIdx.entries = [] → b.queue = [] ∨ Barred b.conn

/-- What holds whenever the loop looks for results. -/
structure Sound (reqs : List Request) (b : Batch) : Prop where
  accounted : Accounted reqs b
  marked : Marked b.conn
  idle : Idle b

/-! ## Starting -/

/-- A batch, with the streams the peer has ended and no inbound bytes more than another. -/
structure After (reqs : List Request) (b b' : Batch) : Prop where
  advances : Advances reqs b b'
  marked : Marked b'.conn
  source : b'.conn.tls.source = b.conn.tls.source
  goaway : b'.conn.goawayReceived = b.conn.goawayReceived
  ended : ∀ ⦃id s'⦄, b'.conn.streams.lookup id = some s' → s'.endStreamRecv = true →
    ∃ s, b.conn.streams.lookup id = some s ∧ s.endStreamRecv = true

theorem After.trans {b b' b'' : Batch} (h : After reqs b b') (h' : After reqs b' b'') :
    After reqs b b'' where
  advances := h.advances.trans h'.advances
  marked := h'.marked
  source := h'.source.trans h.source
  goaway := h'.goaway.trans h.goaway
  ended _ _ hs hend := by
    obtain ⟨t, ht, htend⟩ := h'.ended hs hend
    exact h.ended ht htend

theorem after_startQueued {b : Batch} (hacc : Accounted reqs b) (hmark : Marked b.conn) :
    After reqs b (b.startQueued reqs) := by
  refine startQueued_induct reqs (P := After reqs b) (fun {b₁ b₂} hstart h => h.trans ?_)
    ⟨⟨hacc, .refl _⟩, hmark, rfl, rfl, fun _ s hs hend => ⟨s, hs, hend⟩⟩
  obtain ⟨hkeeps, hstreams⟩ := hstart.streams h.advances.1
  have hstaged : ∀ (id : Nat) (w : Int) (req : Request),
      (Stream.staged id w req).state.remoteDone = false := by
    intro id w req
    unfold Stream.staged
    cases req.body.isEmpty <;> rfl
  refine ⟨h.advances.1.starts hstart, ?_, hkeeps.source, hkeeps.goaway, ?_⟩
  · intro id s hs hdone
    rcases hstreams hs with hs | ⟨w, req, rfl, -⟩
    · exact h.marked hs hdone
    · rw [hstaged] at hdone
      cases hdone
  · intro id s hs hend
    rcases hstreams hs with hs | ⟨w, req, rfl, -⟩
    · exact ⟨s, hs, hend⟩
    · cases hend

theorem pumps_sends {ok : Bool} {maxFrameSize : Nat} {c c' : Connection}
    (h : ReflTransGen (Pumps ok maxFrameSize) c c') (hmark : Marked c) :
    Marked c' ∧ ∀ ⦃id s'⦄, c'.streams.lookup id = some s' → s'.endStreamRecv = true →
      ∃ s, c.streams.lookup id = some s ∧ s.endStreamRecv = true := by
  induction h with
  | refl => exact ⟨hmark, fun _ s hs hend => ⟨s, hs, hend⟩⟩
  | tail _ hpump ih =>
      refine ⟨ih.1.sends hpump.sends, fun id s' hs' hend => ?_⟩
      obtain ⟨s, hs, hsent⟩ := hpump.sends hs'
      exact ih.2 hs (hsent.ended ▸ hend)

theorem after_flushPending {b : Batch} (hacc : Accounted reqs b) (hmark : Marked b.conn) :
    After reqs b { b with conn := b.conn.flushPending.2 } := by
  have hkeeps := flushPending_keepsPeer b.conn
  obtain ⟨hmark', hended⟩ := pumps_sends (flushPending_pumps false b.conn nofun) hmark
  exact ⟨⟨hacc.flushPending, .refl _⟩, hmark', hkeeps.source, hkeeps.goaway, hended⟩

/-- With nothing in flight, `start_queued` has started all it can. -/
theorem idle_startQueued {b : Batch} (hacc : Accounted reqs b) : Idle (b.startQueued reqs) := by
  intro hempty
  rcases startQueued_full reqs b with hqueue | hfull
  · exact .inl hqueue
  · refine .inr (.inl ?_)
    have hacc' := hacc.startQueued.1
    have hnone : (b.startQueued reqs).conn.streams.entries = [] := by
      refine entries_eq_nil fun id s hs => ?_
      obtain ⟨idx, hidx⟩ := (hacc'.registered id).mp ⟨s, hs⟩
      rw [AList.lookup, hempty] at hidx
      cases hidx
    rw [hnone] at hfull
    exact Nat.le_zero.mp hfull

theorem idle_flushPending {b : Batch} (h : Idle b) :
    Idle { b with conn := b.conn.flushPending.2 } := by
  have hkeeps := flushPending_keepsPeer b.conn
  have hnext := (flushPending_moves b.conn).next
  intro hempty
  refine (h hempty).imp_right fun hbarred => ?_
  unfold Barred
  rw [hkeeps.peer, hkeeps.goaway, hnext]
  exact hbarred

/-- From a connection without streams, the first starts lead into the loop. -/
theorem sound_start {b : Batch} (hacc : Accounted reqs b) (hmark : Marked b.conn) :
    Sound reqs { b.startQueued reqs with conn := (b.startQueued reqs).conn.flushPending.2 } := by
  have hstart := after_startQueued hacc hmark
  have hflush := after_flushPending hstart.advances.1 hstart.marked
  exact ⟨hflush.advances.1, hflush.marked, idle_flushPending (idle_startQueued hacc)⟩

/-! ## The measure -/

/-- The streams that the peer has ended. -/
def endedIds (c : Connection) : Finset Nat :=
  c.streams.keys.toFinset.filter fun id => (c.streams.lookup id).any Stream.endStreamRecv

theorem mem_endedIds {c : Connection} {id : Nat} :
    id ∈ endedIds c ↔ ∃ s, c.streams.lookup id = some s ∧ s.endStreamRecv = true := by
  rw [endedIds, Finset.mem_filter, List.mem_toFinset, ← AList.mem_keys, ← AList.lookup_isSome]
  cases c.streams.lookup id with
  | none => simp
  | some s => simp

/-- What is left for the loop to use up: inbound bytes, and streams that the peer has ended. -/
def left (b : Batch) : Nat := b.conn.tls.source.bytes.length + (endedIds b.conn).card

theorem After.left_le {b b' : Batch} (h : After reqs b b') : left b' ≤ left b := by
  have hsub : endedIds b'.conn ⊆ endedIds b.conn := by
    intro id hid
    obtain ⟨s, hs, hend⟩ := mem_endedIds.mp hid
    exact mem_endedIds.mpr (h.ended hs hend)
  have hcard := Finset.card_le_card hsub
  rw [left, left, h.source]
  omega

/-- A frame ends one stream at most. -/
theorem ended_processFrame (c : Connection) (source : Source) (f : Frame) :
    (endedIds ((c.receive source f).processFrame f).2).card ≤ (endedIds c).card + 1 := by
  have hsub : endedIds ((c.receive source f).processFrame f).2 ⊆ insert f.streamId (endedIds c) := by
    intro id hid
    obtain ⟨s', hs', hend⟩ := mem_endedIds.mp hid
    obtain ⟨s, hs, htouch, -⟩ := processFrame_touch (c.receive source f) f hs'
    change c.streams.lookup id = some s at hs
    rw [Finset.mem_insert]
    have hsame : s'.endStreamRecv = s.endStreamRecv → id = f.streamId ∨ id ∈ endedIds c :=
      fun heq => .inr (mem_endedIds.mpr ⟨s, hs, heq ▸ hend⟩)
    cases htouch with
    | kept same => exact hsame same.ended
    | doomed _ _ _ _ _ hended | reset _ _ _ _ _ hended => exact hsame hended
    | headers _ hid' | garbled _ hid' | continued _ hid' | data _ hid' => exact .inl hid'.symm
  exact (Finset.card_le_card hsub).trans (Finset.card_insert_le ..)

theorem After.sound {b b' : Batch} (h : After reqs b b') (hidle : Idle b') : Sound reqs b' :=
  ⟨h.advances.1, h.marked, hidle⟩

/-! ## A frame is handled -/

theorem left_of_stays (c c' : Connection) (hsource : c'.tls.source = c.tls.source)
    (hstays : ∀ {id s}, c'.streams.lookup id = some s → c.streams.lookup id = some s) :
    c'.tls.source.bytes.length + (endedIds c').card ≤
      c.tls.source.bytes.length + (endedIds c).card := by
  have hsub : endedIds c' ⊆ endedIds c := by
    intro id hid
    obtain ⟨s, hs, hend⟩ := mem_endedIds.mp hid
    exact mem_endedIds.mpr ⟨s, hstays hs, hend⟩
  have hcard := Finset.card_le_card hsub
  rw [hsource]
  omega

/-- After a frame and the reaping that follows it. -/
theorem handled_spec {b : Batch} {conn : Connection} {outcome : DispatchOutcome}
    (hacc : Accounted reqs b) (hmark : Marked b.conn)
    (hread : b.conn.readAndDispatch = (.ok outcome, conn)) :
    Advances reqs b (failGoawayDoomed { b with conn }) ∧
      Marked (failGoawayDoomed { b with conn }).conn ∧
      left (failGoawayDoomed { b with conn }) < left b ∧
      ((failGoawayDoomed { b with conn }).idToIdx.entries = [] →
        b.idToIdx.entries = [] ∨ Barred (failGoawayDoomed { b with conn }).conn) := by
  have hacc₁ := hacc.readAndDispatch
  rw [hread] at hacc₁
  have hadv := hacc₁.failGoawayDoomed
  obtain ⟨⟨streams, hconn⟩, hlook⟩ := failGoawayDoomed_lookup hacc₁
  rcases readAndDispatch_cases b.conn with ⟨e, source, hfail, -⟩ | ⟨f, source, -, hframe, hlen⟩
  · rw [hfail] at hread
    cases hread
  rw [hread] at hframe
  have hsource : conn.tls.source = source := by
    have h := processFrame_source (b.conn.receive source f) f
    rw [← hframe] at h
    exact h
  have hended := ended_processFrame b.conn source f
  rw [← hframe] at hended
  refine ⟨hadv, ?_, ?_, ?_⟩
  · -- a stream that is not marked was closed by the GOAWAY just read, and is gone
    intro id s' hs' hdone
    obtain ⟨hs₁, hkept⟩ := hlook.mp hs'
    have htouches := processFrame_touch (b.conn.receive source f) f
    rw [← hframe] at htouches
    obtain ⟨s, hs, htouch, -⟩ := htouches hs₁
    rcases htouch.marked (hmark hs) hdone with h | ⟨htyp, hid, -, hlast⟩ | ⟨-, e, he⟩
    · exact h
    · by_cases hadmits : (b.conn.receive source f).admits f = true
      · have hgoaway := processFrame_goaway (b.conn.receive source f) f
        rw [← hframe, if_pos ⟨hadmits, hid, htyp⟩] at hgoaway
        have hcomplete := hkept _ hgoaway hlast
        exact (Bool.and_eq_true_iff.mp hcomplete).1
      · exact absurd (admits_of_ok hframe.symm) hadmits
    · cases he
  · have hle := left_of_stays conn (failGoawayDoomed { b with conn }).conn
      (by rw [hconn]) fun hs => (hlook.mp hs).1
    rw [left, left]
    simp only at hended
    rw [hsource] at hle
    omega
  · intro hempty
    unfold failGoawayDoomed at hempty hconn ⊢
    cases hgoaway : conn.goawayReceived with
    | none =>
        simp only [hgoaway] at hempty
        exact .inl hempty
    | some last =>
        simp only [hgoaway] at hempty hconn ⊢
        generalize hdoomed : List.filter _ b.idToIdx.keys = doomed at hempty hconn ⊢
        cases doomed with
        | nil => exact .inl hempty
        | cons id doomed =>
            have hmem : id ∈ b.idToIdx.keys ∧ last < id := by
              have hin : id ∈ id :: doomed := List.mem_cons_self
              rw [← hdoomed, List.mem_filter] at hin
              exact ⟨hin.1, by simpa using (Bool.and_eq_true_iff.mp hin.2).1⟩
            have hlt : id < conn.nextStreamId := by
              rw [← AList.mem_keys, ← AList.lookup_isSome, Option.isSome_iff_exists] at hmem
              obtain ⟨s, hs⟩ := (hacc₁.registered id).mpr hmem.1
              exact hacc₁.fresh hs
            rw [hconn]
            exact .inr (.inr ⟨last, rfl, hmem.2.trans hlt⟩)

/-! ## An error is charged -/

/-- After an error that is charged to one request. -/
theorem charged_spec {b b₂ : Batch} {conn : Connection} {e : Error} {idx : Nat}
    (hacc : Accounted reqs b) (hmark : Marked b.conn)
    (hread : b.conn.readAndDispatch = (.error e, conn))
    (htake : takeStreamError { b with conn } = some (idx, b₂)) :
    Advances reqs b (b₂.setResult idx (.error e)) ∧ Marked b₂.conn ∧ left b₂ < left b := by
  have hacc₁ := hacc.readAndDispatch
  rw [hread] at hacc₁
  have hadv := hacc₁.takeStreamError htake (.error e)
  obtain ⟨id, s, hs, hclosed, hothers, rfl⟩ := stalled_of_takeStreamError htake
  -- the stream taken is the only one in flight that is closed without a complete response
  have honly : ∀ ⦃j t⦄, conn.streams.lookup j = some t → t.state = .closed →
      t.endStreamRecv = false → j = id := by
    intro j t ht hclosed hend
    obtain ⟨i, hi⟩ := (hacc₁.registered j).mp ⟨t, ht⟩
    refine hothers j t ht (Option.isSome_iff_exists.mpr ⟨i, hi⟩) hclosed ?_
    rw [Stream.complete, hend, Bool.and_false, Bool.false_and]
  have hremoves := removes_erase (p := fun _ => True) conn id fun _ _ => trivial
  rcases readAndDispatch_cases b.conn with ⟨e', source, hfail, hlen⟩ | ⟨f, source, -, hframe, hlen⟩
  · rw [hfail] at hread
    obtain ⟨-, rfl⟩ := Prod.mk.inj hread
    refine ⟨hadv, hmark.stays hremoves.stays, ?_⟩
    -- the stream taken was ended by the peer, so there is one such stream less
    have hin : id ∈ endedIds b.conn := mem_endedIds.mpr ⟨s, hs, hmark hs (by rw [hclosed]; rfl)⟩
    have hsub : endedIds { b.conn with
        tls := { b.conn.tls with source }
        streams := b.conn.streams.erase id } ⊆ (endedIds b.conn).erase id := by
      intro j hj
      obtain ⟨t, ht, hend⟩ := mem_endedIds.mp hj
      change (b.conn.streams.erase id).lookup j = some t at ht
      have hne : j ≠ id := by
        rintro rfl
        rw [AList.lookup_erase] at ht
        cases ht
      rw [AList.lookup_erase_ne hne] at ht
      exact Finset.mem_erase.mpr ⟨hne, mem_endedIds.mpr ⟨t, ht, hend⟩⟩
    have hcard := Finset.card_le_card hsub
    rw [Finset.card_erase_of_mem hin] at hcard
    have hpos := Finset.card_pos.mpr ⟨id, hin⟩
    have hlt : source.bytes.length + (endedIds { b.conn with
        tls := { b.conn.tls with source }
        streams := b.conn.streams.erase id }).card <
          b.conn.tls.source.bytes.length + (endedIds b.conn).card := by omega
    exact hlt
  · rw [hread] at hframe
    have hsource : conn.tls.source = source := by
      have h := processFrame_source (b.conn.receive source f) f
      rw [← hframe] at h
      exact h
    have hended := ended_processFrame b.conn source f
    rw [← hframe] at hended
    refine ⟨hadv, ?_, ?_⟩
    · intro j t' ht' hdone
      have ht := hremoves.stays ht'
      have htouches := processFrame_touch (b.conn.receive source f) f
      rw [← hframe] at htouches
      obtain ⟨t, hwas, htouch, -⟩ := htouches ht
      rcases htouch.marked (hmark hwas) hdone with h | ⟨-, -, hres, -⟩ | ⟨hcl, -⟩
      · exact h
      · cases hres
      · by_contra hne
        obtain rfl := honly ht hcl (Bool.eq_false_iff.mpr hne)
        change (conn.streams.erase j).lookup j = some t' at ht'
        rw [AList.lookup_erase] at ht'
        cases ht'
    · have hle := left_of_stays conn { conn with streams := conn.streams.erase id }
        rfl hremoves.stays
      have hlt : conn.tls.source.bytes.length +
          (endedIds { conn with streams := conn.streams.erase id }).card <
            b.conn.tls.source.bytes.length + (endedIds b.conn).card := by
        simp only [hsource] at hle hended ⊢
        omega
      exact hlt

/-! ## A pass -/

theorem refill_true {b b₁ : Batch} (h : Sound reqs b) (hrefill : b.refill reqs = (b₁, true)) :
    After reqs b b₁ ∧ b₁.idToIdx.entries ≠ [] := by
  unfold refill at hrefill
  split at hrefill
  · next hne =>
      obtain ⟨rfl, -⟩ := Prod.mk.inj hrefill
      refine ⟨⟨⟨h.accounted, .refl _⟩, h.marked, rfl, rfl, fun _ s hs hend => ⟨s, hs, hend⟩⟩, ?_⟩
      simpa using hne
  split at hrefill
  · cases hrefill
  have hstart := after_startQueued h.accounted h.marked
  simp only at hrefill
  split at hrefill
  · cases hrefill
  next hne =>
  have hflush := after_flushPending hstart.advances.1 hstart.marked
  split at hrefill
  · cases hrefill
  · next hflushed =>
      rw [hflushed] at hflush
      obtain ⟨rfl, -⟩ := Prod.mk.inj hrefill
      refine ⟨hstart.trans hflush, ?_⟩
      simpa using hne

/-- A pass keeps the loop sound, touches no filled slot, and uses something up. -/
theorem Again.spec {b b' : Batch} (hagain : Again codec reqs b b') (h : Sound reqs b) :
    Sound reqs b' ∧ Keeps b.results b'.results ∧ left b' < left b := by
  cases hagain with
  | charged _ hrefill hread htake hflush =>
      obtain ⟨hafter, -⟩ := refill_true h hrefill
      obtain ⟨hadv, hmark, hlt⟩ := charged_spec hafter.advances.1 hafter.marked hread htake
      have hstart := after_startQueued hadv.1 hmark
      have hdone := after_flushPending hstart.advances.1 hstart.marked
      have hidle := idle_flushPending (idle_startQueued hadv.1)
      rw [hflush] at hdone hidle
      have hall := hstart.trans hdone
      refine ⟨hall.sound hidle, ?_, ?_⟩
      · exact (hafter.advances.2.trans hadv.2).trans hall.advances.2
      · exact (hall.left_le.trans_lt hlt).trans_le hafter.left_le
  | @handled b₁ conn conn' outcome _ hrefill hread hflush =>
      obtain ⟨hafter, hflight⟩ := refill_true h hrefill
      obtain ⟨hadv, hmark, hlt, hidle⟩ := handled_spec hafter.advances.1 hafter.marked hread
      generalize hreaped : failGoawayDoomed { b₁ with conn } = b₂ at *
      -- the response of a completed stream, and the requests started after it
      have hfinish : Advances reqs b₂ (b₂.finishStream codec reqs outcome) ∧
          Marked (b₂.finishStream codec reqs outcome).conn ∧
          left (b₂.finishStream codec reqs outcome) ≤ left b₂ ∧
          Idle (b₂.finishStream codec reqs outcome) := by
        have hsame : Idle b₂ := fun hempty => .inr ((hidle hempty).resolve_left hflight)
        refine ⟨hadv.1.finishStream codec outcome, ?_⟩
        unfold finishStream
        split
        · exact ⟨hmark, Nat.le_refl _, hsame⟩
        next id =>
        split
        · next idx stream hidx _ =>
            have hends := hadv.1.ends hidx (buildResponseFromStream codec stream)
            have hremoves := removes_erase (p := fun _ => True) b₂.conn id
              fun _ _ => trivial
            have hstart := after_startQueued hends.1 (hmark.stays hremoves.stays)
            have hle := left_of_stays b₂.conn
              { b₂.conn with streams := b₂.conn.streams.erase id } rfl hremoves.stays
            exact ⟨hstart.marked, hstart.left_le.trans hle, idle_startQueued hends.1⟩
        · exact ⟨hmark, Nat.le_refl _, hsame⟩
      obtain ⟨hadv', hmark', hle, hidle'⟩ := hfinish
      have hdone := after_flushPending hadv'.1 hmark'
      have hidle'' := idle_flushPending hidle'
      rw [hflush] at hdone hidle''
      refine ⟨hdone.sound hidle'', ?_, ?_⟩
      · exact ((hafter.advances.2.trans hadv.2).trans hadv'.2).trans hdone.advances.2
      · exact ((hdone.left_le.trans hle).trans_lt hlt).trans_le hafter.left_le

/-! ## The ways out -/

/-- Failing the slots of a list fills those of them that were not, and touches no other. -/
theorem foldl_failSlot (e : Error) (idxs : List Nat) (results : List (Option (Result Response))) :
    (idxs.foldl (failSlot e) results).length = results.length ∧
      Keeps results (idxs.foldl (failSlot e) results) ∧
      ∀ i, (idxs.foldl (failSlot e) results)[i]? = some none →
        results[i]? = some none ∧ i ∉ idxs := by
  induction idxs generalizing results with
  | nil => exact ⟨rfl, .refl _, fun i hi => ⟨hi, List.not_mem_nil⟩⟩
  | cons idx idxs ih =>
      obtain ⟨hlen, hkeeps, hnone⟩ := ih (failSlot e results idx)
      have hone : (failSlot e results idx).length = results.length ∧
          Keeps results (failSlot e results idx) ∧
          ∀ i, (failSlot e results idx)[i]? = some none → results[i]? = some none ∧ i ≠ idx := by
        unfold failSlot
        split
        · next hidx =>
            have hlt := (List.getElem?_eq_some_iff.mp hidx).1
            refine ⟨List.length_set .., fun i a hi => ?_, fun i hi => ?_⟩
            · rw [List.getElem?_set_ne]
              · exact hi
              · rintro rfl
                rw [hidx] at hi
                cases hi
            · by_cases hne : i = idx
              · subst hne
                rw [List.getElem?_set_self hlt] at hi
                cases hi
              · rw [List.getElem?_set_ne (Ne.symm hne)] at hi
                exact ⟨hi, hne⟩
        · next hfilled =>
            refine ⟨rfl, .refl _, fun i hi => ⟨hi, ?_⟩⟩
            rintro rfl
            exact hfilled hi
      refine ⟨hlen.trans hone.1, hone.2.1.trans hkeeps, fun i hi => ?_⟩
      obtain ⟨hi, hnot⟩ := hnone i hi
      obtain ⟨hi, hne⟩ := hone.2.2 i hi
      exact ⟨hi, by simp [hne, hnot]⟩

/-- Every slot is filled, with what was in it before. -/
structure Filled (reqs : List Request) (b b' : Batch) : Prop where
  size : b'.results.length = reqs.length
  keeps : Keeps b.results b'.results
  filled : b'.results.any Option.isNone = false

/-- Failing everything that is out fills every slot. -/
theorem filled_of_fail {b : Batch} (h : Accounted reqs b) {idxs : List Nat} (e : Error)
    (hall : ∀ i ∈ b.out, i ∈ idxs) {b' : Batch}
    (hresults : b'.results = idxs.foldl (failSlot e) b.results) : Filled reqs b b' := by
  obtain ⟨hlen, hkeeps, hnone⟩ := foldl_failSlot e idxs b.results
  refine ⟨by rw [hresults, hlen, h.size], hresults ▸ hkeeps, ?_⟩
  rw [hresults, List.any_eq_false]
  intro slot hslot hisNone
  obtain ⟨i, hi⟩ := List.mem_iff_getElem?.mp hslot
  rw [Option.isNone_iff_eq_none] at hisNone
  subst hisNone
  obtain ⟨hout, hnot⟩ := hnone i hi
  exact hnot (hall i ((h.slots.mem_iff i).mpr hout))

theorem filled_failAll {b : Batch} (h : Accounted reqs b) (e : Error) :
    Filled reqs b (failAllOutstanding b e) := by
  refine filled_of_fail h e (fun i hi => ?_) rfl
  rw [out, List.mem_append] at hi
  rw [List.mem_append]
  exact hi.symm

theorem Filled.of_keeps {b b' b'' : Batch} (h : Filled reqs b' b'')
    (hkeeps : Keeps b.results b'.results) : Filled reqs b b'' :=
  ⟨h.size, hkeeps.trans h.keeps, h.filled⟩

/-- Where no stream can be opened, `start_queued` starts nothing. -/
theorem barred_startQueued (reqs : List Request) {b : Batch} (hempty : b.idToIdx.entries = [])
    (hbarred : Barred b.conn) :
    (b.startQueued reqs).idToIdx.entries = [] := by
  have hinv := startQueued_induct reqs
    (P := fun b => b.idToIdx.entries = [] ∧ Barred b.conn) ?_ ⟨hempty, hbarred⟩
  · exact hinv.1
  · rintro b b' hstart ⟨hempty, hbarred⟩
    obtain ⟨e, he⟩ := hbarred.openStream
    cases hstart with
    | refused => rw [he]; exact ⟨hempty, hbarred⟩
    | lost _ hopen | failed _ hopen | started _ hopen => rw [he] at hopen; cases hopen

/-- With nothing in flight and nothing to start, the rest of the queue is failed. -/
theorem refill_false {b b' : Batch} (h : Sound reqs b)
    (hwaits : b.results.any Option.isNone = true) (hrefill : b.refill reqs = (b', false)) :
    Filled reqs b b' := by
  unfold refill at hrefill
  split at hrefill
  · cases hrefill
  next hflight =>
  have hempty : b.idToIdx.entries = [] := by simpa using hflight
  split at hrefill
  · next hqueue =>
      -- nothing is out, so no slot waits
      have hout : b.out = [] := by
        rw [out, hempty, List.isEmpty_iff.mp hqueue]
        rfl
      rw [(h.accounted.slots.eq_nil_iff).mp hout] at hwaits
      cases hwaits
  next hqueue =>
  have hadv := h.accounted.startQueued
  have hbarred : Barred b.conn := (h.idle hempty).resolve_left (by simpa using hqueue)
  have hnone := barred_startQueued reqs hempty hbarred
  simp only [hnone, List.isEmpty_nil, if_true] at hrefill
  obtain ⟨rfl, -⟩ := Prod.mk.inj hrefill
  refine Filled.of_keeps (filled_of_fail hadv.1 _ (fun i hi => ?_) rfl) hadv.2
  rw [out, hnone] at hi
  simpa using hi

/-- However the loop is left, every slot is filled. -/
theorem Leaves.filled {b b' : Batch} (hleaves : Leaves codec reqs b b') (h : Sound reqs b) :
    Filled reqs b b' := by
  cases hleaves with
  | full hfull => exact ⟨h.accounted.size, .refl _, hfull⟩
  | stuck hwaits hrefill => exact refill_false h hwaits hrefill
  | fatal _ hrefill hread =>
      obtain ⟨hafter, -⟩ := refill_true h hrefill
      have hacc := hafter.advances.1.readAndDispatch
      rw [hread] at hacc
      exact (filled_failAll hacc _).of_keeps hafter.advances.2
  | chargedBroken _ hrefill hread htake hflush =>
      obtain ⟨hafter, -⟩ := refill_true h hrefill
      obtain ⟨hadv, hmark, -⟩ := charged_spec hafter.advances.1 hafter.marked hread htake
      have hstart := hadv.1.startQueued
      have hacc := hstart.1.flushPending
      rw [hflush] at hacc
      exact (filled_failAll hacc _).of_keeps ((hafter.advances.2.trans hadv.2).trans hstart.2)
  | handledBroken _ hrefill hread hflush =>
      obtain ⟨hafter, -⟩ := refill_true h hrefill
      obtain ⟨hadv, hmark, -⟩ := handled_spec hafter.advances.1 hafter.marked hread
      have hfinish := hadv.1.finishStream codec ‹DispatchOutcome›
      have hacc := hfinish.1.flushPending
      rw [hflush] at hacc
      exact (filled_failAll hacc _).of_keeps ((hafter.advances.2.trans hadv.2).trans hfinish.2)

/-! ## The whole batch -/

/-- With fuel for what is left, the loop fills every slot. -/
theorem loop_filled {b : Batch} (h : Sound reqs b) {fuel : Nat} (hfuel : left b < fuel) :
    Filled reqs b (loop codec reqs fuel b) := by
  obtain ⟨b', -, ⟨hsound, hkeeps⟩, hleaves⟩ := loop_leaves_of_measure codec reqs left
    (P := fun b' => Sound reqs b' ∧ Keeps b.results b'.results)
    (fun hb hagain => by
      obtain ⟨hsound, hkeeps, hlt⟩ := hagain.spec hb.1
      exact ⟨⟨hsound, hb.2.trans hkeeps⟩, hlt⟩) ⟨h, .refl _⟩ hfuel
  exact (hleaves.filled hsound).of_keeps hkeeps

/-- More fuel than what is left makes no difference. -/
theorem loop_stable {b : Batch} (h : Sound reqs b) {fuel fuel' : Nat} (hfuel : left b < fuel)
    (hfuel' : left b < fuel') : loop codec reqs fuel b = loop codec reqs fuel' b := by
  induction fuel generalizing b fuel' with
  | zero => exact absurd hfuel (Nat.not_lt_zero _)
  | succ fuel ih =>
      cases fuel' with
      | zero => exact absurd hfuel' (Nat.not_lt_zero _)
      | succ fuel' =>
          rcases loop_succ codec reqs fuel b with hleaves | ⟨b', hagain, heq⟩
          · exact (loop_of_leaves hleaves fuel').symm
          · obtain ⟨hsound, -, hlt⟩ := hagain.spec h
            rw [heq, loop_of_again hagain fuel']
            exact ih hsound (by omega) (by omega)

/-! ### The steps of a pass -/

/-- A pass of the loop from `b` writes no slot twice: whichever way it takes, none of its steps
touches a slot that is filled by then. -/
structure WritesOnce (codec : Codec) (reqs : List Request) (b : Batch) : Prop where
  refilled : Keeps b.results (b.refill reqs).1.results
  charged : ∀ b₁ conn e idx b₂, b.refill reqs = (b₁, true) →
    b₁.conn.readAndDispatch = (.error e, conn) →
    takeStreamError { b₁ with conn } = some (idx, b₂) →
    Keeps b₁.results (b₂.setResult idx (.error e)).results ∧
      Keeps (b₂.setResult idx (.error e)).results
        ((b₂.setResult idx (.error e)).startQueued reqs).results
  reaped : ∀ b₁ conn outcome, b.refill reqs = (b₁, true) →
    b₁.conn.readAndDispatch = (.ok outcome, conn) →
    Keeps b₁.results (failGoawayDoomed { b₁ with conn }).results ∧
      Keeps (failGoawayDoomed { b₁ with conn }).results
        (finishStream codec reqs (failGoawayDoomed { b₁ with conn }) outcome).results
  answered : ∀ b₁ conn id idx s b₂, b.refill reqs = (b₁, true) →
    b₁.conn.readAndDispatch = (.ok (.done id), conn) → failGoawayDoomed { b₁ with conn } = b₂ →
    b₂.idToIdx.lookup id = some idx → b₂.conn.streams.lookup id = some s →
    Keeps b₂.results (b₂.results.set idx (some (buildResponseFromStream codec s))) ∧
      Keeps (b₂.results.set idx (some (buildResponseFromStream codec s)))
        (finishStream codec reqs b₂ (.done id)).results
  failed : ∀ (b' : Batch) e, Keeps b'.results (b'.failAllOutstanding e).results

theorem keeps_refill {b : Batch} (h : Accounted reqs b) :
    Keeps b.results (b.refill reqs).1.results := by
  have hstart := h.startQueued.2
  unfold refill
  split
  · exact .refl _
  split
  · exact .refl _
  simp only
  split
  · exact hstart.trans (foldl_failSlot _ _ _).2.1
  · split <;> exact hstart

theorem Sound.writesOnce {b : Batch} (h : Sound reqs b) (codec : Codec) :
    WritesOnce codec reqs b where
  refilled := keeps_refill h.accounted
  charged b₁ conn e idx b₂ hrefill hread htake := by
    obtain ⟨hafter, -⟩ := refill_true h hrefill
    obtain ⟨hadv, -⟩ := charged_spec hafter.advances.1 hafter.marked hread htake
    exact ⟨hadv.2, hadv.1.startQueued.2⟩
  reaped b₁ conn outcome hrefill hread := by
    obtain ⟨hafter, -⟩ := refill_true h hrefill
    obtain ⟨hadv, -⟩ := handled_spec hafter.advances.1 hafter.marked hread
    exact ⟨hadv.2, (hadv.1.finishStream codec outcome).2⟩
  answered b₁ conn id idx s b₂ hrefill hread hreaped hidx hs := by
    obtain ⟨hafter, -⟩ := refill_true h hrefill
    obtain ⟨hadv, -⟩ := handled_spec hafter.advances.1 hafter.marked hread
    rw [hreaped] at hadv
    obtain ⟨hends, hkeeps⟩ := hadv.1.ends hidx (buildResponseFromStream codec s)
    refine ⟨hkeeps, ?_⟩
    rw [finishStream]
    simp only [hidx, hs]
    exact hends.startQueued.2
  failed b' e := (foldl_failSlot e _ b'.results).2.1

/-- The account of a call of `run_multiplexed`. -/
structure Settles (codec : Codec) (c : Connection) (reqs : List Request) : Prop where
  results : (runMultiplexed codec c reqs).1 = collectResults (final codec c reqs).results
  size : (final codec c reqs).results.length = reqs.length
  filled : (final codec c reqs).results.any Option.isNone = false
  heads : ∀ b, Head codec c reqs b →
    Accounted reqs b ∧ WritesOnce codec reqs b ∧ Keeps b.results (final codec c reqs).results
  registered : ∀ b b₁ conn id idx, Head codec c reqs b → b.refill reqs = (b₁, true) →
    b₁.conn.readAndDispatch = (.ok (.done id), conn) →
    (failGoawayDoomed { b₁ with conn }).idToIdx.lookup id = some idx →
    ∃ s, (failGoawayDoomed { b₁ with conn }).conn.streams.lookup id = some s
  terminates : ∀ conn fuel, ((init c reqs).startQueued reqs).conn.flushPending = (.ok (), conn) →
    conn.tls.source.bytes.length < fuel →
    loop codec reqs fuel { (init c reqs).startQueued reqs with conn } = final codec c reqs

theorem marked_of_empty {c : Connection} (h : c.streams.entries = []) : Marked c := by
  intro id s hs
  rw [AList.lookup, h] at hs
  cases hs

/-- Before the loop: everything is accounted for, and the peer has ended no stream. -/
theorem sound_first {c conn : Connection} (hempty : c.streams.entries = [])
    (hflush : ((init c reqs).startQueued reqs).conn.flushPending = (.ok (), conn)) :
    Sound reqs { (init c reqs).startQueued reqs with conn } ∧
      left { (init c reqs).startQueued reqs with conn } = conn.tls.source.bytes.length := by
  have hacc : Accounted reqs (init c reqs) := accounted_init hempty
  have hmark : Marked (init c reqs).conn := marked_of_empty hempty
  have hsound := sound_start hacc hmark
  have hstart := after_startQueued hacc hmark
  have hall := hstart.trans (after_flushPending hstart.advances.1 hstart.marked)
  rw [hflush] at hsound hall
  refine ⟨hsound, ?_⟩
  have hnone : endedIds conn = ∅ := by
    refine Finset.eq_empty_of_forall_notMem fun id hid => ?_
    obtain ⟨s, hs, hend⟩ := mem_endedIds.mp hid
    obtain ⟨t, ht, -⟩ := hall.ended hs hend
    change c.streams.lookup id = some t at ht
    rw [AList.lookup, hempty] at ht
    cases ht
  change _ + (endedIds conn).card = _
  rw [hnone, Finset.card_empty]
  rfl

/-- Every call of `run_multiplexed` on a usable connection fills every slot exactly once. -/
theorem settles_runMultiplexed (codec : Codec) (c : Connection) (reqs : List Request)
    (husable : c.isUsable = true) : Settles codec c reqs := by
  have hempty := streams_of_usable husable
  have hhead : ∀ b, Head codec c reqs b → Sound reqs b ∧ ∃ fuel, left b < fuel ∧
      loop codec reqs fuel b = final codec c reqs := by
    rintro b ⟨conn, hflush, hruns⟩
    obtain ⟨hsound, hleft⟩ := sound_first hempty hflush
    induction hruns with
    | refl =>
        refine ⟨hsound, conn.tls.source.bytes.length + 1, by omega, ?_⟩
        simp only [final, hflush]
    | tail _ hagain ih =>
        obtain ⟨hb, fuel, hfuel, hloop⟩ := ih
        obtain ⟨hsound', -, hlt⟩ := hagain.spec hb
        cases fuel with
        | zero => exact absurd hfuel (Nat.not_lt_zero _)
        | succ fuel =>
            rw [loop_of_again hagain] at hloop
            exact ⟨hsound', fuel, by omega, hloop⟩
  have hfilled : Filled reqs (init c reqs) (final codec c reqs) := by
    have hacc : Accounted reqs (init c reqs) := accounted_init hempty
    have hstart := hacc.startQueued
    have hflushed := hstart.1.flushPending
    obtain ⟨res, conn, hflush⟩ : ∃ res conn,
      ((init c reqs).startQueued reqs).conn.flushPending = (res, conn) := ⟨_, _, rfl⟩
    rw [hflush] at hflushed
    cases res with
    | error e =>
        simp only [final, hflush]
        exact (filled_failAll hflushed e).of_keeps hstart.2
    | ok u =>
        obtain ⟨hsound, hleft⟩ := sound_first hempty hflush
        simp only [final, hflush]
        exact (loop_filled hsound (by omega)).of_keeps hstart.2
  refine ⟨runMultiplexed_results codec c reqs, hfilled.size, hfilled.filled, ?_, ?_, ?_⟩
  · intro b hb
    obtain ⟨hsound, fuel, hfuel, hloop⟩ := hhead b hb
    exact ⟨hsound.accounted, hsound.writesOnce codec, hloop ▸ (loop_filled hsound hfuel).keeps⟩
  · intro b b₁ conn id idx hb hrefill hread hidx
    obtain ⟨hsound, -⟩ := hhead b hb
    obtain ⟨hafter, -⟩ := refill_true hsound hrefill
    exact ((handled_spec hafter.advances.1 hafter.marked hread).1.1.registered id).mpr ⟨idx, hidx⟩
  · intro conn fuel hflush hfuel
    obtain ⟨hsound, hleft⟩ := sound_first hempty hflush
    rw [loop_stable hsound (by omega : _ < fuel)
      (by omega : left _ < conn.tls.source.bytes.length + 1)]
    simp only [final, hflush]

/-- The answer on stream 1, and a reset of stream 3. -/
def answerAndReset : Bytes :=
  ([{ typ := fHeaders, flags := 0x5, streamId := 1, payload := [0x88] },
    { typ := fRstStream, flags := 0, streamId := 3, payload := [0, 0, 0, 8] }] : List Frame).flatMap
      Frame.bytes

/-- Two requests: one is answered, and the stream of the other one is reset. -/
theorem settles_two_requests :
    (runMultiplexed (fun _ _ _ => .error []) (.dial ⟨answerAndReset, none⟩)
        [sampleGet, sampleGet]).1.map Except.isOk = [true, false] ∧
      Settles (fun _ _ _ => .error []) (.dial ⟨answerAndReset, none⟩) [sampleGet, sampleGet] :=
  ⟨by decide +kernel, settles_runMultiplexed (fun _ _ _ => .error [])
    (.dial ⟨answerAndReset, none⟩) [sampleGet, sampleGet] (by decide +kernel)⟩

end Batch
end Rsurl.H2
