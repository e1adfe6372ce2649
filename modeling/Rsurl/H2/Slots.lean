/-
# `Rsurl.H2.Slots` — where every request is

Every slot of `run_multiplexed` is filled, in flight under one stream id, or in
the queue (`Accounted`).  Each function of the loop moves slots without losing
or doubling one, and every way out fills those that are left
(`slots_accounted`).
-/
import Rsurl.Base.Slots
import Rsurl.H2.Batch
import Rsurl.H2.Run
import Rsurl.H2.Sending

namespace Rsurl.H2

open Http (Request Response)
open Relation (ReflTransGen)
open Base (Slots Keeps)

/-! ## Registered streams -/

/-- The same stream ids are registered, and no id was given out. -/
structure SameIds (c c' : Connection) : Prop where
  ids : ∀ id, (∃ s, c'.streams.lookup id = some s) ↔ ∃ s, c.streams.lookup id = some s
  next : c'.nextStreamId = c.nextStreamId

theorem SameIds.refl (c : Connection) : SameIds c c := ⟨fun _ => Iff.rfl, rfl⟩

theorem SameIds.trans {c c' c'' : Connection} (h : SameIds c c') (h' : SameIds c' c'') :
    SameIds c c'' :=
  ⟨fun id => (h'.ids id).trans (h.ids id), h'.next.trans h.next⟩

theorem Moves.sameIds {c c' : Connection} (h : Moves c c') : SameIds c c' where
  ids _ := ⟨fun ⟨_, hs⟩ => (h.came hs).imp fun _ h => h.1, fun ⟨_, hs⟩ => h.kept hs⟩
  next := h.next

theorem readAndDispatch_sameIds (c : Connection) : SameIds c c.readAndDispatch.2 := by
  unfold Connection.readAndDispatch
  split
  · exact ⟨fun _ => Iff.rfl, rfl⟩
  · exact ⟨fun _ => Iff.rfl, rfl⟩
  · next f source _ =>
      have heff := processFrame_effect (c.receive source f) f
      exact ⟨fun _ => ⟨fun ⟨_, hs⟩ => heff.registered hs, fun ⟨_, hs⟩ => heff.kept hs⟩,
        heff.next_eq⟩

namespace Batch

/-- The slots that are not filled: queued, or in flight. -/
def out (b : Batch) : List Nat := b.queue ++ b.idToIdx.entries.map fun x => x.2

/-- Every slot is filled, queued or in flight, and a stream is registered exactly for the slots
in flight. -/
structure Accounted (reqs : List Request) (b : Batch) : Prop where
  size : b.results.length = reqs.length
  slots : Slots b.out b.results
  registered : ∀ id, (∃ s, b.conn.streams.lookup id = some s) ↔
    ∃ idx, b.idToIdx.lookup id = some idx
  fresh : ∀ {id s}, b.conn.streams.lookup id = some s → id < b.conn.nextStreamId

theorem not_exists_none {α : Type} : ¬∃ a : α, none = some a := by
  rintro ⟨a, h⟩
  cases h

section

variable {reqs : List Request} {b : Batch}

theorem accounted_init {c : Connection} (hempty : c.streams.entries = []) :
    Accounted reqs (init c reqs) where
  size := List.length_map ..
  slots := by
    have hout : (init c reqs).out = List.range reqs.length := List.append_nil _
    rw [hout]
    exact .init reqs
  registered id := by
    have hnone : c.streams.lookup id = none := by
      rw [AList.lookup, hempty]
      rfl
    change (∃ s, c.streams.lookup id = some s) ↔ ∃ idx, (∅ : Base.Table Nat Nat).lookup id = some idx
    rw [hnone, AList.lookup_empty]
    exact iff_of_false not_exists_none not_exists_none
  fresh {id s} hs := by
    change c.streams.lookup id = some s at hs
    rw [AList.lookup, hempty] at hs
    cases hs

/-- Only the connection changes, and its streams' ids stay. -/
theorem Accounted.conn (h : Accounted reqs b) {conn : Connection}
    (hids : SameIds b.conn conn) : Accounted reqs { b with conn } where
  size := h.size
  slots := h.slots
  registered id := (hids.ids id).trans (h.registered id)
  fresh hs := by
    obtain ⟨t, ht⟩ := (hids.ids _).mp ⟨_, hs⟩
    change _ < conn.nextStreamId
    rw [hids.next]
    exact h.fresh ht

theorem Accounted.lt_length (h : Accounted reqs b) {idx : Nat} (hidx : idx ∈ b.out) :
    idx < reqs.length := by
  rw [← h.size]
  exact h.slots.lt_length hidx

/-- A stream and its slot are taken out together. -/
theorem out_perm_erase {id idx : Nat} (hidx : b.idToIdx.lookup id = some idx) :
    List.Perm b.out (idx :: { b with idToIdx := b.idToIdx.erase id }.out) := by
  have hperm := (Base.Table.perm_cons_erase hidx).map fun x => x.2
  exact (hperm.append_left b.queue).trans List.perm_middle

/-- A request in flight ends: its stream goes and its slot is filled. -/
theorem Accounted.ends (h : Accounted reqs b) {id idx : Nat}
    (hidx : b.idToIdx.lookup id = some idx) (res : Result Response) :
    Accounted reqs ({ b with
        conn := { b.conn with streams := b.conn.streams.erase id }
        idToIdx := b.idToIdx.erase id }.setResult idx res) ∧
      Keeps b.results (b.results.set idx (some res)) := by
  have hperm := out_perm_erase hidx
  refine ⟨⟨?_, ?_, ?_, ?_⟩, ?_⟩
  · rw [← h.size]
    exact List.length_set ..
  · exact (h.slots.perm hperm).fill res
  · intro j
    change (∃ s, (b.conn.streams.erase id).lookup j = some s) ↔
      ∃ i, (b.idToIdx.erase id).lookup j = some i
    by_cases hj : j = id
    · rw [hj, AList.lookup_erase, AList.lookup_erase]
      exact iff_of_false not_exists_none not_exists_none
    · rw [AList.lookup_erase_ne hj, AList.lookup_erase_ne hj]
      exact h.registered j
  · intro j s hs
    have hremoves := removes_erase (p := fun _ => True) b.conn id fun _ _ => trivial
    exact h.fresh (hremoves.stays hs)
  · exact h.slots.keeps_fill (hperm.mem_iff.mpr List.mem_cons_self) res

/-! ## Starting -/

/-- After a stream was opened and its request staged, its id is registered besides the others. -/
theorem staged_ids {c conn conn' : Connection} {id : Nat} {req : Request} {res : Result Unit}
    (hopen : c.openStream = (.ok id, conn)) (hstage : conn.stageRequestOn id req = (res, conn')) :
    id = c.nextStreamId ∧ conn'.nextStreamId = c.nextStreamId + 2 ∧
      (∃ s, conn'.streams.lookup id = some s) ∧
      ∀ j, j ≠ id →
        ((∃ s, conn'.streams.lookup j = some s) ↔ ∃ s, c.streams.lookup j = some s) := by
  have hids := (stageRequestOn_moves conn id req).sameIds
  rw [hstage] at hids
  rcases openStream_cases c with ⟨e', heq⟩ | heq
  · rw [heq] at hopen
    cases hopen
  rw [heq] at hopen
  obtain ⟨hid, rfl⟩ := Prod.mk.inj hopen
  obtain rfl := Except.ok.inj hid
  refine ⟨rfl, hids.next, (hids.ids _).mpr ⟨_, AList.lookup_insert _⟩, fun j hj => ?_⟩
  rw [hids.ids j]
  change (∃ s, (AList.insert _ _ c.streams).lookup j = some s) ↔ _
  rw [AList.lookup_insert_ne hj]

theorem Accounted.starts {b' : Batch} (h : Accounted reqs b) (hstart : Starts reqs b b') :
    Accounted reqs b' ∧ Keeps b.results b'.results := by
  have hqueued : ∀ {idx queue}, b.queue = idx :: queue → b.out = idx :: { b with queue }.out := by
    intro idx queue hqueue
    rw [out, hqueue]
    rfl
  have hfresh : ∀ {s}, b.conn.streams.lookup b.conn.nextStreamId ≠ some s :=
    fun hs => absurd (h.fresh hs) (Nat.lt_irrefl _)
  cases hstart with
  | @refused idx queue e hqueue hopen =>
      have hsame : b.conn.openStream.2 = b.conn := by
        rcases openStream_cases b.conn with ⟨e', heq⟩ | heq
        · rw [heq]
        · rw [heq] at hopen
          cases hopen
      rw [hsame]
      have hslots := hqueued hqueue ▸ h.slots
      exact ⟨⟨(List.length_set ..).trans h.size, hslots.fill _, h.registered, h.fresh⟩,
        hslots.keeps_fill List.mem_cons_self _⟩
  | @lost idx id queue conn hqueue hopen hreq =>
      have hlt : idx < reqs.length := h.lt_length (by rw [hqueued hqueue]; exact List.mem_cons_self)
      exact absurd hreq (by rw [List.getElem?_eq_getElem hlt]; nofun)
  | @failed idx id queue conn conn' req e hqueue hopen hreq hstage =>
      have hslots := hqueued hqueue ▸ h.slots
      obtain ⟨rfl, hnext, -, hids⟩ := staged_ids hopen hstage
      have hids' : ∀ j, (∃ s, (conn'.streams.erase b.conn.nextStreamId).lookup j = some s) ↔
          ∃ s, b.conn.streams.lookup j = some s := by
        intro j
        by_cases hj : j = b.conn.nextStreamId
        · rw [hj, AList.lookup_erase]
          exact iff_of_false not_exists_none fun ⟨_, hs⟩ => hfresh hs
        · rw [AList.lookup_erase_ne hj]
          exact hids j hj
      refine ⟨⟨(List.length_set ..).trans h.size, hslots.fill _,
        fun j => (hids' j).trans (h.registered j), ?_⟩, hslots.keeps_fill List.mem_cons_self _⟩
      intro j s hs
      change j < conn'.nextStreamId
      obtain ⟨t, ht⟩ := (hids' j).mp ⟨s, hs⟩
      rw [hnext]
      exact Nat.lt_add_right 2 (h.fresh ht)
  | @started idx id queue conn conn' req hqueue hopen hreq hstage =>
      obtain ⟨rfl, hnext, hown, hids⟩ := staged_ids hopen hstage
      have hnew : b.conn.nextStreamId ∉ b.idToIdx := by
        rw [← AList.lookup_isSome, Option.isSome_iff_exists, ← h.registered]
        exact fun ⟨_, hs⟩ => hfresh hs
      have hperm : List.Perm b.out { b with
          conn := conn', idToIdx := b.idToIdx.insert b.conn.nextStreamId idx, queue }.out := by
        rw [hqueued hqueue, out, out, AList.entries_insert_of_notMem hnew]
        exact List.perm_middle.symm
      refine ⟨⟨h.size, h.slots.perm hperm, ?_, ?_⟩, .refl _⟩
      · intro j
        change (∃ s, conn'.streams.lookup j = some s) ↔
          ∃ i, (b.idToIdx.insert b.conn.nextStreamId idx).lookup j = some i
        by_cases hj : j = b.conn.nextStreamId
        · subst hj
          rw [AList.lookup_insert]
          exact ⟨fun _ => ⟨idx, rfl⟩, fun _ => hown⟩
        · rw [AList.lookup_insert_ne hj, hids j hj]
          exact h.registered j
      · intro j s hs
        change j < conn'.nextStreamId
        rw [hnext]
        by_cases hj : j = b.conn.nextStreamId
        · rw [hj]
          exact Nat.lt_add_of_pos_right (by decide)
        · obtain ⟨t, ht⟩ := (hids j hj).mp ⟨s, hs⟩
          exact Nat.lt_add_right 2 (h.fresh ht)

/-- The batch keeps its account, and no filled slot is touched. -/
def Advances (reqs : List Request) (b b' : Batch) : Prop :=
  Accounted reqs b' ∧ Keeps b.results b'.results

theorem Advances.trans {b' b'' : Batch} (h : Advances reqs b b') (h' : Advances reqs b' b'') :
    Advances reqs b b'' :=
  ⟨h'.1, h.2.trans h'.2⟩

theorem Accounted.startQueued (h : Accounted reqs b) : Advances reqs b (b.startQueued reqs) :=
  startQueued_induct reqs (P := Advances reqs b) (fun hstart hb => hb.trans (hb.1.starts hstart))
    ⟨h, .refl _⟩

theorem Accounted.flushPending (h : Accounted reqs b) :
    Accounted reqs { b with conn := b.conn.flushPending.2 } :=
  h.conn (flushPending_moves b.conn).sameIds

theorem Accounted.readAndDispatch (h : Accounted reqs b) :
    Accounted reqs { b with conn := b.conn.readAndDispatch.2 } :=
  h.conn (readAndDispatch_sameIds b.conn)

/-! ## Ending -/

/-- The stream that `take_stream_error` picks, and what it takes away. -/
theorem takeStreamError_eq_some {idx : Nat} {b' : Batch}
    (h : b.takeStreamError = some (idx, b')) :
    ∃ id s, b.conn.streams.entries.filter (fun x =>
        (b.idToIdx.lookup x.1).isSome && x.2.state = .closed && !x.2.complete) = [⟨id, s⟩] ∧
      b.idToIdx.lookup id = some idx ∧
      b' = { b with
        conn := { b.conn with streams := b.conn.streams.erase id }
        idToIdx := b.idToIdx.erase id } := by
  unfold takeStreamError at h
  split at h
  · next x hfilter =>
      split at h
      · cases h
      · next idx' hidx =>
          obtain ⟨rfl, rfl⟩ := Prod.mk.inj (Option.some.inj h)
          exact ⟨x.1, x.2, hfilter, hidx, rfl⟩
  · cases h

/-- It is closed without a complete response, and no other stream in flight is. -/
theorem stalled_of_takeStreamError {idx : Nat} {b' : Batch}
    (h : b.takeStreamError = some (idx, b')) :
    ∃ id s, b.conn.streams.lookup id = some s ∧ s.state = .closed ∧
      (∀ j t, b.conn.streams.lookup j = some t → (b.idToIdx.lookup j).isSome = true →
        t.state = .closed → t.complete = false → j = id) ∧
      b' = { b with
        conn := { b.conn with streams := b.conn.streams.erase id }
        idToIdx := b.idToIdx.erase id } := by
  obtain ⟨id, s, hfilter, -, rfl⟩ := takeStreamError_eq_some h
  have hmem : (⟨id, s⟩ : Σ _ : Nat, Stream) ∈ b.conn.streams.entries.filter fun x =>
      (b.idToIdx.lookup x.1).isSome && x.2.state = .closed && !x.2.complete := by
    rw [hfilter]
    exact List.mem_cons_self
  obtain ⟨hs, hstalled⟩ := List.mem_filter.mp hmem
  rw [Bool.and_eq_true, Bool.and_eq_true, decide_eq_true_eq] at hstalled
  refine ⟨id, s, AList.mem_lookup_iff.mpr hs, hstalled.1.2, fun j t ht hj hclosed hnot => ?_, rfl⟩
  have hin : (⟨j, t⟩ : Σ _ : Nat, Stream) ∈ b.conn.streams.entries.filter fun x =>
      (b.idToIdx.lookup x.1).isSome && x.2.state = .closed && !x.2.complete := by
    rw [List.mem_filter, Bool.and_eq_true, Bool.and_eq_true, decide_eq_true_eq]
    exact ⟨AList.mem_lookup_iff.mp ht, ⟨hj, hclosed⟩, by rw [hnot]; rfl⟩
  rw [hfilter] at hin
  exact (Sigma.mk.inj (List.mem_singleton.mp hin)).1

theorem Accounted.takeStreamError (h : Accounted reqs b) {idx : Nat} {b' : Batch}
    (htake : b.takeStreamError = some (idx, b')) (res : Result Response) :
    Advances reqs b (b'.setResult idx res) := by
  obtain ⟨id, s, -, hidx, rfl⟩ := takeStreamError_eq_some htake
  exact h.ends hidx res

theorem Accounted.failDoomed (h : Accounted reqs b) (last id : Nat) :
    Advances reqs b (failDoomed last b id) := by
  unfold Batch.failDoomed
  split
  · exact ⟨h, .refl _⟩
  · next hidx => exact h.ends hidx _

theorem Accounted.foldl_failDoomed (h : Accounted reqs b) (last : Nat) (doomed : List Nat) :
    Advances reqs b (doomed.foldl (Batch.failDoomed last) b) := by
  induction doomed generalizing b with
  | nil => exact ⟨h, .refl _⟩
  | cons id doomed ih =>
      have hstep := h.failDoomed last id
      exact hstep.trans (ih hstep.1)

theorem Accounted.failGoawayDoomed (h : Accounted reqs b) :
    Advances reqs b b.failGoawayDoomed := by
  unfold Batch.failGoawayDoomed
  split
  · exact ⟨h, .refl _⟩
  · exact h.foldl_failDoomed _ _

theorem Accounted.finishStream (h : Accounted reqs b) (codec : Codec)
    (outcome : DispatchOutcome) : Advances reqs b (b.finishStream codec reqs outcome) := by
  unfold Batch.finishStream
  split
  · exact ⟨h, .refl _⟩
  · split
    · next idx stream hidx _ =>
        have hends := h.ends hidx (buildResponseFromStream codec stream)
        exact Advances.trans hends hends.1.startQueued
    · exact ⟨h, .refl _⟩

end

end Batch
end Rsurl.H2
