/-
# `Rsurl.H2.Inbox` — whose bytes a response is made of

Streams share one connection, and their frames come in any order.  The body of
a stream is what the DATA frames in its history brought, all of it and in
order, whatever comes on other streams in between; so a response is built from
the bytes of its own stream alone, on either path.
-/
import Rsurl.H2.HeardBatch

namespace Rsurl.H2

open Http (Header Request Response)

/-! ## Bodies -/

/-- The application bytes that a frame brings on the stream; 0 is none. -/
def Frame.brings (f : Frame) (id : Nat) : Bytes :=
  if f.typ = fData ∧ f.streamId = id ∧ id ≠ 0 then (Connection.dataPayload f).toOption.getD [] else []

/-- No body changes. -/
def KeepsBodies (c c' : Connection) : Prop :=
  ∀ ⦃id s'⦄, c'.streams.lookup id = some s' → ∃ s, c.streams.lookup id = some s ∧ s'.body = s.body

section

variable {c c' c'' : Connection} {f : Frame} {id : Nat} {s s' : Stream}

theorem keepsBodies_of_eq (h : c'.streams = c.streams) : KeepsBodies c c' := by
  intro id s' hs'
  exact ⟨s', h ▸ hs', rfl⟩

theorem keepsBodies_of_insert (hs : c.streams.lookup id = some s)
    (h : c'.streams = c.streams.insert id s') (hbody : s'.body = s.body) : KeepsBodies c c' := by
  intro j t' ht'
  rw [h] at ht'
  by_cases hj : j = id
  · subst hj
    rw [AList.lookup_insert] at ht'
    obtain rfl := Option.some.inj ht'
    exact ⟨s, hs, hbody⟩
  · rw [AList.lookup_insert_ne hj] at ht'
    exact ⟨t', ht', rfl⟩

theorem brings_of_typ (h : f.typ ≠ fData) : f.brings id = [] := if_neg fun hall => h hall.1

end

section

variable (c : Connection) (f : Frame)

theorem processSettings_bodies : KeepsBodies c (c.processSettings f).2 := by
  have hshift : ∀ newInitial {c' : Connection},
      c'.streams = (c.shiftSendWindows newInitial).2 → KeepsBodies c c' := by
    intro newInitial c' hstreams id s' hs'
    rw [hstreams] at hs'
    unfold Connection.shiftSendWindows at hs'
    split at hs'
    · rcases Base.Table.lookup_mapUntil (fun _ (s : Stream) => (do
          let sendWindow ← s.sendWindow.applyInitialWindowChange newInitial
          .ok { s with sendWindow } : Result Stream)) c.streams id
        with heq | ⟨v, v', hwas, hupd, hnow⟩
      · exact ⟨s', heq.symm.trans hs', rfl⟩
      · obtain rfl := Option.some.inj (hnow.symm.trans hs')
        obtain ⟨w, -, hv⟩ := Result.bind_eq_ok.mp hupd
        cases hv
        exact ⟨v, hwas, rfl⟩
    · exact ⟨s', hs', rfl⟩
  revert hshift
  unfold Connection.processSettings
  split
  · exact fun _ => keepsBodies_of_eq rfl
  · next peer _ =>
      split
      · next streams ht => exact fun hshift => hshift peer.initialWindowSize (by rw [ht])
      · next streams ht => exact fun hshift => hshift peer.initialWindowSize (by rw [ht]; rfl)

theorem processConnFrame_bodies : KeepsBodies c (c.processConnFrame f).2 := by
  unfold Connection.processConnFrame
  split
  · split
    · exact keepsBodies_of_eq rfl
    · exact processSettings_bodies c f
  split
  · split <;> exact keepsBodies_of_eq rfl
  split
  · split <;> exact keepsBodies_of_eq rfl
  split
  · intro id s' hs'
    rw [Connection.processGoaway, Base.Table.lookup_mapValues] at hs'
    obtain ⟨s, hs, rfl⟩ := Option.map_eq_some_iff.mp hs'
    refine ⟨s, hs, ?_⟩
    show (if f.lastStreamId < id then { s with state := .closed } else s).body = s.body
    split <;> rfl
  · exact keepsBodies_of_eq rfl

theorem processHeaders_bodies : KeepsBodies c (c.processHeaders f).2 := by
  unfold Connection.processHeaders
  split
  · exact keepsBodies_of_eq rfl
  simp only
  split
  · exact keepsBodies_of_eq rfl
  next s hs =>
  split
  · unfold Connection.headersOnClosed
    split
    · split <;> exact keepsBodies_of_eq rfl
    · split
      · exact keepsBodies_of_eq rfl
      · next s' hpush =>
          obtain rfl := pushHeaderFragment_eq_ok hpush
          exact keepsBodies_of_insert hs rfl rfl
  split
  · exact keepsBodies_of_eq rfl
  split
  · exact keepsBodies_of_eq rfl
  next s' hpush =>
  obtain rfl := pushHeaderFragment_eq_ok hpush
  split
  · split
    · exact keepsBodies_of_insert hs rfl (by dsimp only; split <;> rfl)
    · exact keepsBodies_of_insert hs rfl (by dsimp only; split <;> rfl)
  · exact keepsBodies_of_insert hs rfl (by dsimp only; split <;> rfl)

theorem processContinuation_bodies : KeepsBodies c (c.processContinuation f).2 := by
  unfold Connection.processContinuation
  simp only
  split
  · exact keepsBodies_of_eq rfl
  split
  · exact keepsBodies_of_eq rfl
  next s hs =>
  split
  · exact keepsBodies_of_eq rfl
  next s' hpush =>
  obtain rfl := pushHeaderFragment_eq_ok hpush
  split
  · split
    · exact keepsBodies_of_insert hs rfl rfl
    · exact keepsBodies_of_insert hs rfl (by dsimp only; split <;> rfl)
  · exact keepsBodies_of_insert hs rfl rfl

theorem processRst_bodies : KeepsBodies c (c.processRst f).2 := by
  unfold Connection.processRst
  simp only
  split
  · exact keepsBodies_of_eq rfl
  next s hs =>
  split
  · exact keepsBodies_of_eq rfl
  split
  · exact keepsBodies_of_eq rfl
  · exact keepsBodies_of_insert hs rfl rfl

theorem processStreamWindowUpdate_bodies : KeepsBodies c (c.processStreamWindowUpdate f).2 := by
  unfold Connection.processStreamWindowUpdate
  split
  · exact keepsBodies_of_eq rfl
  split
  · exact keepsBodies_of_eq rfl
  next s hs =>
  split
  · exact keepsBodies_of_eq rfl
  · exact keepsBodies_of_insert hs rfl rfl

/-- The updates at the end of DATA leave the body. -/
theorem replenishBoth_body (id : Nat) (s : Stream) :
    ∃ s', s'.body = s.body ∧ (c.replenishBoth id s).2.streams = c.streams.insert id s' := by
  unfold Connection.replenishBoth
  simp only
  split
  · exact ⟨s, rfl, rfl⟩
  · exact ⟨{ s with recvWindow := (s.recvWindow.replenish id).2 }, rfl, rfl⟩

/-- What every stream has after a frame: what it had and, if the frame was handled, what that
brought; a stream of another frame has what it had in any case. -/
def Collects (f : Frame) (ok : Bool) (c c' : Connection) : Prop :=
  ∀ ⦃id s'⦄, c'.streams.lookup id = some s' → ∃ s, c.streams.lookup id = some s ∧
    (f.streamId = id → ok = true → s'.body = s.body ++ f.brings id) ∧
    (f.streamId ≠ id → s'.body = s.body)

variable {c f}

theorem collects_of_keeps {ok : Bool} {c' : Connection} (htyp : f.typ ≠ fData)
    (h : KeepsBodies c c') : Collects f ok c c' := by
  intro id s' hs'
  obtain ⟨s, hs, hbody⟩ := h hs'
  refine ⟨s, hs, fun _ _ => ?_, fun _ => hbody⟩
  rw [brings_of_typ htyp, List.append_nil, hbody]

/-- A refused frame may have left anything on its own stream. -/
theorem collects_of_insert {c' : Connection} {s s' : Stream}
    (hs : c.streams.lookup f.streamId = some s)
    (h : c'.streams = c.streams.insert f.streamId s') : Collects f false c c' := by
  intro id t' ht'
  rw [h] at ht'
  by_cases hid : id = f.streamId
  · subst hid
    rw [AList.lookup_insert] at ht'
    refine ⟨s, hs, ?_, fun hne => absurd rfl hne⟩
    intro _ hok
    cases hok
  · rw [AList.lookup_insert_ne hid] at ht'
    exact ⟨t', ht', fun heq => absurd heq.symm hid, fun _ => rfl⟩

theorem collects_of_eq {c' : Connection} (h : c'.streams = c.streams) : Collects f false c c' := by
  intro id s' hs'
  refine ⟨s', h ▸ hs', ?_, fun _ => rfl⟩
  intro _ hok
  cases hok

theorem processData_collects (htyp : f.typ = fData) (hzero : f.streamId ≠ 0) :
    Collects f (c.processData f).1.isOk c (c.processData f).2 := by
  unfold Connection.processData
  simp only
  split
  · exact collects_of_eq rfl
  split
  · -- nobody is on the stream
    next hnone =>
    have hempty : ∀ {ok : Bool} {c' : Connection}, c'.streams = c.streams → Collects f ok c c' := by
      intro ok c' h id s' hs'
      rw [h] at hs'
      refine ⟨s', hs', ?_, fun _ => rfl⟩
      rintro rfl
      cases hnone.symm.trans hs'
    split <;> exact hempty rfl
  next s hs =>
  split
  · exact collects_of_eq rfl
  split
  · exact collects_of_eq rfl
  next newState hstate =>
  split
  · exact collects_of_insert hs rfl
  split
  · exact collects_of_insert hs rfl
  next payload hpayload =>
  split
  · exact collects_of_insert hs rfl
  · obtain ⟨s', hbody, hstreams⟩ := replenishBoth_body
      { c with connRecvWindow := c.connRecvWindow.consume f.payload.length } f.streamId
      { s with
        recvWindow := s.recvWindow.consume f.payload.length
        body := s.body ++ payload
        endStreamRecv := s.endStreamRecv || f.has flagEndStream
        state := newState }
    intro id t' ht'
    rw [hstreams] at ht'
    by_cases hid : id = f.streamId
    · subst hid
      rw [AList.lookup_insert] at ht'
      obtain rfl := Option.some.inj ht'
      refine ⟨s, hs, fun _ _ => ?_, fun hne => absurd rfl hne⟩
      rw [hbody, Frame.brings, if_pos ⟨htyp, rfl, hzero⟩, hpayload]
      rfl
    · rw [AList.lookup_insert_ne hid] at ht'
      exact ⟨t', ht', fun heq => absurd heq.symm hid, fun _ => rfl⟩

theorem processFrame_collects (c : Connection) (f : Frame) :
    Collects f (c.processFrame f).1.isOk c (c.processFrame f).2 := by
  unfold Connection.processFrame
  split
  · split
    · next hzero =>
        intro id s' hs'
        obtain ⟨s, hs, hbody⟩ := processConnFrame_bodies c f hs'
        refine ⟨s, hs, ?_, fun _ => hbody⟩
        rintro hid -
        have hnone : f.brings id = [] := if_neg fun hall => hall.2.2 (hid.symm.trans hzero)
        rw [hnone, List.append_nil, hbody]
    · next hzero =>
      unfold Connection.processStreamFrame
      split
      · next htyp => exact collects_of_keeps (by rw [htyp]; decide) (processHeaders_bodies c f)
      split
      · next htyp => exact collects_of_keeps (by rw [htyp]; decide) (processContinuation_bodies c f)
      split
      · next htyp => exact processData_collects htyp hzero
      next hdata =>
      split
      · exact collects_of_keeps hdata (processRst_bodies c f)
      split
      · exact collects_of_keeps hdata (processStreamWindowUpdate_bodies c f)
      split
      · exact collects_of_eq rfl
      · exact collects_of_keeps hdata (keepsBodies_of_eq rfl)
  · exact collects_of_eq rfl

end

/-! ## What came on a stream -/

section

variable {p : Path} {ok : Bool} {c₀ c₁ c c' : Connection} {new : List Event} {id : Nat}
  {heard : List Heard} {s s' : Stream}

theorem sendChunk_bodies {chunk : Bytes} {isLast : Bool} {res : Result Stream}
    (hs : c.streams.lookup id = some s) (h : c.sendChunk id s chunk isLast = (res, c')) :
    KeepsBodies c c' ∧ ∀ t, res = .ok t → t.body = s.body ∧ c'.streams = c.streams.insert id t := by
  unfold Connection.sendChunk at h
  split at h
  · obtain ⟨rfl, rfl⟩ := Prod.mk.inj h
    refine ⟨keepsBodies_of_eq rfl, fun t ht => ?_⟩
    cases ht
  simp only at h
  split at h
  · obtain ⟨rfl, rfl⟩ := Prod.mk.inj h
    refine ⟨keepsBodies_of_insert hs rfl rfl, fun t ht => ?_⟩
    cases ht
  · obtain ⟨rfl, rfl⟩ := Prod.mk.inj h
    refine ⟨keepsBodies_of_insert hs rfl rfl, fun t ht => ?_⟩
    obtain rfl := Except.ok.inj ht
    exact ⟨rfl, rfl⟩

/-- An act in which no frame comes on a stream leaves its body. -/
theorem Acts.keepsBody (h : Acts p ok c new c') (hlt : id < c.nextStreamId)
    (hothers : ∀ f ∈ new.filterMap Event.came, f.streamId ≠ id)
    (hs' : c'.streams.lookup id = some s') :
    ∃ s, c.streams.lookup id = some s ∧ s'.body = s.body := by
  have hkeeps : KeepsBodies c c' → ∃ s, c.streams.lookup id = some s ∧ s'.body = s.body :=
    fun hkeeps => hkeeps hs'
  have hne : id ≠ c.nextStreamId := Nat.ne_of_lt hlt
  cases h with
  | opens hopen =>
      obtain ⟨rfl, rfl⟩ := openStream_eq_ok hopen
      exact ⟨s', (AList.lookup_insert_ne hne).symm.trans hs', rfl⟩
  | @heads i req t _ _ hsent =>
      obtain ⟨t, state, sink, ht, -, rfl, -, rfl⟩ := sendHeadersOn_eq_ok hsent
      exact hkeeps (keepsBodies_of_insert ht rfl rfl)
  | @starts i req c₁ _ _ hopen hstage =>
      obtain ⟨rfl, rfl⟩ := openStream_eq_ok hopen
      have hstreams := stageRequestOn_ok (AList.lookup_insert _) hstage
      rw [hstreams, AList.lookup_insert_ne hne, AList.lookup_insert_ne hne] at hs'
      exact ⟨s', hs', rfl⟩
  | chunk _ ht _ _ _ hsend => exact hkeeps (sendChunk_bodies ht hsend).1
  | @pump i n t pb isLast res c₁ _ ht _ _ _ _ _ hsend =>
      obtain ⟨hpumped, hsent⟩ := sendChunk_bodies ht hsend
      cases res with
      | error e => exact hkeeps hpumped
      | ok t' =>
          obtain ⟨hbody, hstreams⟩ := hsent t' rfl
          have hkept : ({ t' with
              pendingBody := if isLast then none else some { pb with sent := pb.sent + n } } :
              Stream).body = t.body := hbody
          refine hkeeps (keepsBodies_of_insert ht ?_ hkept)
          rw [Connection.afterPump, Connection.setStream, hstreams, AList.insert_insert]
  | cleared _ hs => exact hkeeps (keepsBodies_of_insert hs rfl rfl)
  | @handled source f o _ hframe | @refused source f e _ _ hframe =>
      have hcollects := processFrame_collects (c.receive source f) f
      rw [hframe] at hcollects
      obtain ⟨s, hs, -, hother⟩ := hcollects hs'
      exact ⟨s, hs, hother (hothers f List.mem_cons_self)⟩
  | drops hstays => exact ⟨s', hstays hs', rfl⟩
  | breaks => exact ⟨s', hs', rfl⟩

/-- The body of a stream is what the frames of its history brought. -/
theorem body_of_trace (hopen : Opens p ok id c₀ c₁) (h : Base.Trace (Hears p ok id) c₁ heard c)
    (hs : c.streams.lookup id = some s) :
    s.body = heard.flatMap fun x => x.frame.brings id := by
  have hfresh := hopen.fresh
  have hlt : id < c₁.nextStreamId := by
    rw [hfresh.next, ← hfresh.id_eq]
    exact Nat.lt_add_of_pos_right (by decide)
  refine (Base.Trace.invariant (I := fun heard c => id < c.nextStreamId ∧
    ∀ s, c.streams.lookup id = some s → s.body = heard.flatMap fun x => x.frame.brings id)
    ⟨hlt, fun s hs => ?_⟩ ?_ h).2 s hs
  · obtain ⟨t, ht, -, hbody⟩ := hfresh.stream
    obtain rfl := Option.some.inj (ht.symm.trans hs)
    exact hbody
  rintro heard new c c' ⟨hlt, hall⟩ hstep
  refine ⟨Nat.lt_of_lt_of_le hlt hstep.next, fun s' hs' => ?_⟩
  rw [List.flatMap_append]
  cases hstep with
  | @frame source f _ _ _ hid _ _ hframe =>
      have hcollects := processFrame_collects (c.receive source f) f
      rw [hframe] at hcollects
      obtain ⟨s, hs, hown, -⟩ := hcollects hs'
      rw [hown hid rfl, hall s hs, List.flatMap_singleton]
  | aside hact hothers =>
      obtain ⟨s, hs, hbody⟩ := hact.keepsBody hlt hothers hs'
      rw [hbody, hall s hs, List.flatMap_nil, List.append_nil]

end

/-- The response was built from a stream whose body is what the frames of its history brought, and
that one of these, and only one, has ended. -/
def MadeOf (codec : Codec) (p : Path) (ok : Bool) (id : Nat) (c₀ : Connection)
    (heard : List Heard) (c : Connection) (r : Response) : Prop :=
  ∃ s, Brought p ok id c₀ heard c s ∧ EndsOnce id heard ∧
    s.body = (heard.flatMap fun x => x.frame.brings id) ∧ buildResponseFromStream codec s = .ok r

theorem BuiltOn.madeOf {codec : Codec} {p : Path} {ok : Bool} {id : Nat} {c₀ c : Connection}
    {heard : List Heard} {r : Response} (h : BuiltOn codec p ok id c₀ heard c r) :
    MadeOf codec p ok id c₀ heard c r := by
  obtain ⟨s, hbrought, hbuild⟩ := h
  obtain ⟨c₁, hopen, htrace⟩ := hbrought.opened
  have htold := told_of_trace hopen hbrought.nonzero htrace hbrought.stream
  exact ⟨s, hbrought, (htold.of_complete hbrought.complete).1,
    body_of_trace hopen htrace hbrought.stream, hbuild⟩

/-! ## One request -/

/-- **A response is made of its own stream.**  What `run_one_request` builds a response from is
the DATA that came on the stream it opened, up to the end of that stream, whatever else came. -/
theorem madeOf_runOneRequest {codec : Codec} {c : Connection} {req : Request} {r : Response}
    (hzero : c.nextStreamId ≠ 0) (hout : (runOneRequest codec c req).1 = .ok r) :
    ∃ heard c' frames, MadeOf codec .single true c.nextStreamId c heard c' r ∧
      (runOneRequest codec c req).2 = Connection.pruneCompletedStreams
        { c' with streams := c'.streams.erase c.nextStreamId } ∧
      (runOneRequest codec c req).2.tls.received = c.tls.received ++ frames ∧
      heard.map Heard.frame = frames.filter fun f => f.streamId = c.nextStreamId := by
  obtain ⟨heard, c', hbuilt, hends⟩ := builtOn_runOneRequest hzero hout
  obtain ⟨frames, hreceived, hheard⟩ := hbuilt.frames
  exact ⟨heard, c', frames, hbuilt.madeOf, hends, by rw [hends]; exact hreceived, hheard⟩

/-- An answer in two pieces, and a PING between them. -/
def inPieces : Bytes :=
  ([{ typ := fHeaders, flags := 0x4, streamId := 1, payload := [0x88] },
    { typ := fData, flags := 0, streamId := 1, payload := [1, 2] },
    { typ := fPing, flags := 0, streamId := 0, payload := [0, 0, 0, 0, 0, 0, 0, 0] },
    { typ := fData, flags := 0x1, streamId := 1, payload := [3] }] : List Frame).flatMap Frame.bytes

theorem madeOf_inPieces :
    ∃ r heard c' frames, r.body = [1, 2, 3] ∧
      MadeOf (fun _ _ _ => .error []) .single true 1 (.dial ⟨inPieces, none⟩) heard c' r ∧
      (runOneRequest (fun _ _ _ => .error []) (.dial ⟨inPieces, none⟩) sampleGet).2.tls.received =
        frames ∧
      heard.map Heard.frame = frames.filter fun f => f.streamId = 1 := by
  have hr : (runOneRequest (fun _ _ _ => .error []) (.dial ⟨inPieces, none⟩) sampleGet).1 =
      .ok ⟨200, [], "HTTP/2".toList, [], [1, 2, 3]⟩ := by
    decide +kernel
  obtain ⟨heard, c', frames, hmade, -, hreceived, hheard⟩ :=
    madeOf_runOneRequest (c := .dial ⟨inPieces, none⟩) (by decide) hr
  exact ⟨_, heard, c', frames, rfl, hmade, hreceived, hheard⟩

/-! ## A batch -/

namespace Batch

/-- **A batch does not mix its responses.**  However the frames of its streams interleave, the
body every response is built from is what came in DATA on the stream of its request since that
went out, up to the end of that stream. -/
theorem madeOf_runMultiplexed {c : Connection} {reqs : List Request} (codec : Codec)
    (hzero : c.nextStreamId ≠ 0) :
    ∃ evs, Base.Trace (Does codec reqs) (init c reqs) evs (final codec c reqs) ∧
      (runMultiplexed codec c reqs).2.tls.received =
        c.tls.received ++ evs.filterMap Event.came ∧
      ∀ idx r, (runMultiplexed codec c reqs).1[idx]? = some (.ok r) →
        Answered codec reqs c evs (final codec c reqs) idx fun id c₀ heard c' =>
          MadeOf codec .multi false id c₀ heard c' r := by
  obtain ⟨evs, htrace, hreceived, hall⟩ := answered_runMultiplexed codec hzero
  exact ⟨evs, htrace, hreceived, fun idx r hr => (hall idx r hr).mono BuiltOn.madeOf⟩

/-- Two answers whose frames come in turns. -/
def interleaved : Bytes :=
  ([{ typ := fHeaders, flags := 0x4, streamId := 1, payload := [0x88] },
    { typ := fHeaders, flags := 0x4, streamId := 3, payload := [0x88] },
    { typ := fData, flags := 0, streamId := 3, payload := [1] },
    { typ := fData, flags := 0x1, streamId := 1, payload := [2] },
    { typ := fData, flags := 0x1, streamId := 3, payload := [3] }] : List Frame).flatMap Frame.bytes

/-- Each request gets the bytes of its own answer. -/
theorem madeOf_interleaved :
    (runMultiplexed (fun _ _ _ => .error []) (.dial ⟨interleaved, none⟩)
        [sampleGet, sampleGet]).1.map (fun res => res.toOption.map Response.body) =
      [some [2], some [1, 3]] ∧
    ∃ evs, ∀ idx r, (runMultiplexed (fun _ _ _ => .error []) (.dial ⟨interleaved, none⟩)
        [sampleGet, sampleGet]).1[idx]? = some (.ok r) →
      Answered (fun _ _ _ => .error []) [sampleGet, sampleGet] (.dial ⟨interleaved, none⟩) evs
        (final (fun _ _ _ => .error []) (.dial ⟨interleaved, none⟩) [sampleGet, sampleGet]) idx
        fun id c₀ heard c' => MadeOf (fun _ _ _ => .error []) .multi false id c₀ heard c' r := by
  refine ⟨by decide +kernel, ?_⟩
  obtain ⟨evs, -, -, hall⟩ := @madeOf_runMultiplexed (.dial ⟨interleaved, none⟩)
    [sampleGet, sampleGet] (fun _ _ _ => .error []) (by decide)
  exact ⟨evs, hall⟩

end Batch
end Rsurl.H2
