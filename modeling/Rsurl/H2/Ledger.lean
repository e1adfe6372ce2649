/-
# `Rsurl.H2.Ledger` — flow control over a whole run

The windows of a connection are what its events say they are.  `Shifts` lists
what one act does to windows; from it, every run in which nothing goes wrong
keeps both ledgers (`sendLedger`, `recvLedger`): what may still be sent, and
what the peer may still send.
-/
import Rsurl.H2.TraceBatch
import Rsurl.H2.Windows

namespace Rsurl.H2

open Http (Header Request)

/-! ## What one act does to windows -/

/-- What a request event or a frame of a header block is to a ledger: nothing. -/
def Weightless (e : Event) : Prop :=
  (∃ id req, e = .request id req) ∨
    ∃ f, e = .outbound f ∧ (f.typ = fHeaders ∨ f.typ = fContinuation)

/-- The changes of windows that acts are made of. -/
inductive Shifts (c : Connection) : List Event → Connection → Prop
  | keeps {new : List Event} {c' : Connection} (h : KeepsWindows c c')
      (hnew : ∀ e ∈ new, Weightless e) : Shifts c new c'
  | opens {c' : Connection} (hid : c.nextStreamId ≠ 0) (hpeer : c'.peer = c.peer)
      (hsend : c'.connSendWindow = c.connSendWindow) (hrecv : c'.connRecvWindow = c.connRecvWindow)
      (hstreams : c'.streams = c.streams.insert c.nextStreamId
        (.new c.nextStreamId c.peer.initialWindowSize)) : Shifts c [.opened c.nextStreamId] c'
  | sends {id : Nat} {chunk : Bytes} {isLast : Bool} {s s' : Stream} {c' : Connection}
      (hs : c.streams.lookup id = some s) (hfits : chunk.length ≤ s.sendBudget c.connSendWindow)
      (hpeer : c'.peer = c.peer) (hrecv : c'.connRecvWindow = c.connRecvWindow)
      (hsend : c'.connSendWindow = c.connSendWindow.consume chunk.length)
      (hstreams : c'.streams = c.streams.insert id s')
      (hwindow : s'.sendWindow = s.sendWindow.consume chunk.length)
      (hwindow' : s'.recvWindow = s.recvWindow) :
      Shifts c [.outbound (dataFrame id chunk isLast)] c'
  | handled {f : Frame} {c' : Connection} (h : Flows c f c')
      (hregistered : ∀ {id s'}, c'.streams.lookup id = some s' → ∃ s, c.streams.lookup id = some s)
      (hpeer : c'.peer = if f.setsPeer then (c.peer.applySettingsPayload f.payload).2 else c.peer) :
      Shifts c (.inbound f true :: (c.answers f).map .outbound) c'

theorem weightless_headerFrames {c : Connection} {id : Nat} {req : Request} {e : Event}
    (h : e ∈ (c.headerFrames id req).map .outbound) : Weightless e := by
  obtain ⟨f, hf, rfl⟩ := List.mem_map.mp h
  obtain ⟨-, hshape⟩ := fragmentHeaderBlock_shape hf
  exact .inr ⟨f, rfl, hshape.imp And.left And.left⟩

theorem chunk_fits {max remaining n : Nat} {budget : Int} {chunk : Bytes} (hpos : n ≠ 0)
    (hsize : n = nextDataChunkSize max budget remaining) (hle : chunk.length ≤ n) :
    chunk.length ≤ budget := by
  have hbudget := nextDataChunkSize_le_budget (hsize ▸ hpos)
  rw [← hsize] at hbudget
  omega

/-- A chunk within the budget, and what the pump notes of it. -/
theorem shifts_sendChunk {c c' : Connection} {id : Nat} {s : Stream} {chunk : Bytes}
    {isLast : Bool} {res : Result Stream} (hs : c.streams.lookup id = some s)
    (hfits : chunk.length ≤ s.sendBudget c.connSendWindow)
    (hwrite : (writeFrame c.tls.sink (dataFrame id chunk isLast)).1 = .ok ())
    (h : c.sendChunk id s chunk isLast = (res, c')) :
    Shifts c [.outbound (dataFrame id chunk isLast)] c' ∧ ∀ pb n,
      Shifts c [.outbound (dataFrame id chunk isLast)]
        (Connection.afterPump id pb n isLast (res, c')) := by
  obtain ⟨state, sink, -, rfl, hres⟩ := sendChunk_spec hwrite h
  refine ⟨.sends hs hfits rfl rfl rfl rfl rfl rfl, fun pb n => ?_⟩
  rcases hres with ⟨-, rfl⟩ | ⟨-, e, -, rfl⟩
  · exact .sends hs hfits rfl rfl rfl (AList.insert_insert ..) rfl rfl
  · exact .sends hs hfits rfl rfl rfl rfl rfl rfl

/-- Taking a frame off the source changes no window. -/
theorem Flows.of_receive {c c' : Connection} {source : Source} {f : Frame}
    (h : Flows (c.receive source f) f c') : Flows c f c' where
  written := h.written
  send := h.send
  sendMax := h.sendMax
  recv := h.recv
  updates := h.updates
  streams id s' hid hs' := by
    obtain ⟨s, hs, hflow⟩ := h.streams hid hs'
    exact ⟨s, hs, hflow.send, hflow.sendMax, hflow.recv⟩

theorem keepsWindows_of_drops {c : Connection} {streams : Streams} {source : Source}
    (h : ∀ {id s}, streams.lookup id = some s → c.streams.lookup id = some s) :
    KeepsWindows c { c with streams, tls := { c.tls with source } } where
  peer := rfl
  send := rfl
  recv := rfl
  streams _ s hs := ⟨s, h hs, rfl, rfl⟩

theorem Acts.shifts {p : Path} {c c' : Connection} {new : List Event} (h : Acts p true c new c')
    (hid : c.nextStreamId ≠ 0) : Base.Trace Shifts c new c' := by
  have hopens : ∀ {id c'}, c.openStream = (.ok id, c') → Shifts c [.opened id] c' := by
    intro id c' h
    obtain ⟨rfl, rfl⟩ := openStream_eq_ok h
    exact .opens hid rfl rfl rfl rfl
  have hrequest : ∀ (c : Connection) id req e,
      e ∈ Event.request id req :: (c.headerFrames id req).map .outbound → Weightless e := by
    intro c id req e he
    rcases List.mem_cons.mp he with rfl | he
    · exact .inl ⟨id, req, rfl⟩
    · exact weightless_headerFrames he
  cases h with
  | opens h => exact .single (hopens h)
  | @heads id req _ _ _ h =>
      obtain ⟨s, state, sink, hs, -, rfl, -, rfl⟩ := sendHeadersOn_eq_ok h
      exact .single (.keeps (keepsWindows_of_insert hs rfl rfl rfl rfl rfl rfl) (hrequest c id req))
  | @starts id req c₁ _ _ hopen h =>
      obtain ⟨s, state, sink, pending, hs, -, -, -, rfl⟩ := stageRequestOn_eq_ok h
      exact (Base.Trace.single (hopens hopen)).trans (.single (.keeps
        (keepsWindows_of_insert hs rfl rfl rfl rfl rfl rfl) (hrequest c₁ id req)))
  | @chunk id n s remaining res c' _ hs hbudget hsize hwrite h _ =>
      have hfits : (remaining.take n).length ≤ s.sendBudget c.connSendWindow := by
        by_cases hpos : n = 0
        · rw [hpos, List.take_zero]
          exact Int.le_of_lt hbudget
        · exact chunk_fits hpos hsize (List.length_take_le n remaining)
      exact .single (shifts_sendChunk hs hfits hwrite h).1
  | @pump id n s pb isLast res c' _ hs _ hsize hpos _ hwrite h =>
      have hfits := chunk_fits hpos hsize (List.length_take_le n (pb.bytes.drop pb.sent))
      exact .single ((shifts_sendChunk hs hfits hwrite h).2 _ _)
  | cleared _ hs => exact .single (.keeps (keepsWindows_of_insert hs rfl rfl rfl rfl rfl rfl)
      (List.forall_mem_nil _))
  | @handled source f o c' h =>
      have hpeer := processFrame_peer (c.receive source f) f
      rw [h] at hpeer
      have hiff : (c.receive source f).seesSettings f ↔ f.setsPeer := and_iff_right (admits_of_ok h)
      simp only [hiff] at hpeer
      have heff := processFrame_effect (c.receive source f) f
      rw [h] at heff
      exact .single (.handled (processFrame_flows h).of_receive heff.registered hpeer)
  | refused hok => cases hok
  | drops h => exact .single (.keeps (keepsWindows_of_drops h) (List.forall_mem_nil _))
  | breaks hok => cases hok

theorem Traced.shifts {p : Path} {c c' : Connection} {evs : List Event}
    (h : Traced p true c evs c') (hid : c.nextStreamId ≠ 0) : Base.Trace Shifts c evs c' := by
  induction h with
  | nil => exact .nil
  | snoc htrace hact ih =>
      refine ih.trans (hact.shifts ?_)
      rw [Traced.next htrace]
      exact Nat.ne_of_gt (Nat.lt_of_lt_of_le (Nat.pos_of_ne_zero hid) (Nat.le_add_right _ _))

/-! ## Sums over the frames of a run -/

/-- What the frames that were handled weigh. -/
def taken (w : Frame → Nat) (evs : List Event) : Nat :=
  Base.total (fun | .inbound f true => w f | _ => 0) evs

/-- What the frames that were written weigh. -/
def sent (w : Frame → Nat) (evs : List Event) : Nat :=
  Base.total (fun | .outbound f => w f | _ => 0) evs

/-- The events since the stream `id` was opened. -/
def own (id : Nat) (evs : List Event) : List Event := Base.since (Event.opens id) evs

@[simp] theorem taken_append (w : Frame → Nat) (evs new : List Event) :
    taken w (evs ++ new) = taken w evs + taken w new := Base.total_append _ evs new

@[simp] theorem sent_append (w : Frame → Nat) (evs new : List Event) :
    sent w (evs ++ new) = sent w evs + sent w new := Base.total_append _ evs new

theorem taken_outbound (w : Frame → Nat) (fs : List Frame) : taken w (fs.map .outbound) = 0 := by
  refine Base.total_eq_zero fun e he => ?_
  obtain ⟨f, -, rfl⟩ := List.mem_map.mp he
  rfl

theorem sent_outbound (w : Frame → Nat) (fs : List Frame) :
    sent w (fs.map .outbound) = Base.total w fs := by
  induction fs with
  | nil => rfl
  | cons f fs ih =>
      rw [Base.total_cons, ← ih]
      exact Base.total_cons _ (Event.outbound f) _

/-- A frame that is handled, and the answers to it. -/
theorem taken_handled (w : Frame → Nat) (f : Frame) (fs : List Frame) :
    taken w (.inbound f true :: fs.map .outbound) = w f := by
  have hcons : taken w (.inbound f true :: fs.map .outbound) = w f + taken w (fs.map .outbound) :=
    Base.total_cons _ (Event.inbound f true) _
  rw [hcons, taken_outbound, Nat.add_zero]

theorem sent_handled (w : Frame → Nat) (f : Frame) (fs : List Frame) :
    sent w (.inbound f true :: fs.map .outbound) = Base.total w fs := by
  have hcons : sent w (.inbound f true :: fs.map .outbound) = 0 + sent w (fs.map .outbound) :=
    Base.total_cons _ (Event.inbound f true) _
  rw [hcons, sent_outbound, Nat.zero_add]

/-- The weights that count in a ledger: none of them counts the frames of a header block. -/
def CountsBodies (w : Frame → Nat) : Prop :=
  ∀ f : Frame, f.typ = fHeaders ∨ f.typ = fContinuation → w f = 0

theorem countsBodies_grants (id : Nat) : CountsBodies (Frame.grants id) := by
  intro f hf
  refine grants_of_typ ?_ id
  rcases hf with htyp | htyp <;> rw [htyp] <;> decide

theorem countsBodies_dataOn (id : Nat) : CountsBodies (Frame.dataOn id) := by
  intro f hf
  refine dataOn_of_typ ?_ id
  rcases hf with htyp | htyp <;> rw [htyp] <;> decide

theorem countsBodies_dataLength : CountsBodies Frame.dataLength := by
  intro f hf
  refine dataLength_of_typ ?_
  rcases hf with htyp | htyp <;> rw [htyp] <;> decide

theorem sent_of_weightless {w : Frame → Nat} (hw : CountsBodies w) {new : List Event}
    (h : ∀ e ∈ new, Weightless e) : sent w new = 0 := by
  refine Base.total_eq_zero fun e he => ?_
  rcases h e he with ⟨id, req, rfl⟩ | ⟨f, rfl, htyp⟩
  · rfl
  · exact hw f htyp

theorem taken_of_weightless {new : List Event} (h : ∀ e ∈ new, Weightless e)
    (w : Frame → Nat) : taken w new = 0 := by
  refine Base.total_eq_zero fun e he => ?_
  rcases h e he with ⟨id, req, rfl⟩ | ⟨f, rfl, -⟩ <;> rfl

/-- Events that open nothing. -/
theorem own_append (id : Nat) {new : List Event} (evs : List Event)
    (h : ∀ j, .opened j ∉ new) : own id (evs ++ new) = own id evs ++ new := by
  refine Base.since_append evs fun e he => ?_
  cases e with
  | opened j => exact absurd he (h j)
  | _ => rfl

theorem own_opened_self (id : Nat) (evs : List Event) : own id (evs ++ [.opened id]) = [] :=
  Base.since_mark evs (decide_eq_true rfl)

theorem own_opened_ne {id j : Nat} (h : j ≠ id) (evs : List Event) :
    own id (evs ++ [.opened j]) = own id evs ++ [.opened j] := by
  refine Base.since_append evs fun e he => ?_
  rw [List.mem_singleton.mp he]
  exact decide_eq_false h

theorem opened_notMem_of_weightless {new : List Event} (h : ∀ e ∈ new, Weightless e) (j : Nat) :
    .opened j ∉ new := by
  intro hmem
  rcases h _ hmem with ⟨id, req, heq⟩ | ⟨f, heq, -⟩ <;> cases heq

theorem opened_notMem_handled (f : Frame) (fs : List Frame) (j : Nat) :
    .opened j ∉ Event.inbound f true :: fs.map .outbound := by
  intro hmem
  rcases List.mem_cons.mp hmem with heq | hmem
  · cases heq
  · obtain ⟨g, -, heq⟩ := List.mem_map.mp hmem
    cases heq

theorem total_answers {c : Connection} {f : Frame} {w : Frame → Nat}
    (hw : ∀ g : Frame, g.typ ≠ fData → w g = 0) : Base.total w (c.answers f) = 0 :=
  Base.total_eq_zero fun g hg => hw g (answers_typ c f hg)

/-! ## What may be sent -/

/-- The settings of the peer after an event. -/
def Event.announced (peer : PeerSettings) : Event → PeerSettings
  | .inbound f true => if f.setsPeer then (peer.applySettingsPayload f.payload).2 else peer
  | _ => peer

theorem foldl_announced {new : List Event} (h : ∀ f, .inbound f true ∉ new) (peer : PeerSettings) :
    new.foldl Event.announced peer = peer := by
  induction new with
  | nil => rfl
  | cons e new ih =>
      have he : Event.announced peer e = peer := by
        cases e with
        | inbound f handled =>
            cases handled with
            | true => exact absurd List.mem_cons_self (h f)
            | false => rfl
        | _ => rfl
      rw [List.foldl_cons, he]
      exact ih fun f hf => h f (List.mem_cons_of_mem _ hf)

/-- The send windows are what the events say. -/
structure SendBalanced (evs : List Event) (c : Connection) : Prop where
  peer : c.peer = evs.foldl Event.announced .default
  conn : c.connSendWindow.available =
    65535 + (taken (Frame.grants 0) evs : Nat) - (sent Frame.dataLength evs : Nat)
  low : 0 ≤ c.connSendWindow.available
  high : c.connSendWindow.available ≤ windowMax
  streams : ∀ ⦃id s⦄, c.streams.lookup id = some s →
    s.sendWindow.available = c.peer.initialWindowSize +
      (taken (Frame.grants id) (own id evs) : Nat) - (sent (Frame.dataOn id) (own id evs) : Nat) ∧
    s.sendWindow.available ≤ windowMax

/-- What the send windows rest on: the basis of each is the size the peer has announced. -/
structure SendBasis (c : Connection) : Prop where
  initial : c.peer.initialWindowSize ≤ 0x7fffffff
  nonzero : ∀ ⦃id s⦄, c.streams.lookup id = some s → id ≠ 0
  basis : ∀ ⦃id s⦄, c.streams.lookup id = some s →
    s.sendWindow.initialPeerWindow = c.peer.initialWindowSize

theorem notMem_inbound_of_weightless {new : List Event} (h : ∀ e ∈ new, Weightless e) (f : Frame) :
    .inbound f true ∉ new := by
  intro hmem
  rcases h _ hmem with ⟨id, req, heq⟩ | ⟨g, heq, -⟩ <;> cases heq

theorem foldl_announced_handled (f : Frame) (fs : List Frame) (peer : PeerSettings) :
    (Event.inbound f true :: fs.map .outbound).foldl Event.announced peer =
      if f.setsPeer then (peer.applySettingsPayload f.payload).2 else peer := by
  rw [List.foldl_cons]
  refine foldl_announced (fun g hg => ?_) _
  obtain ⟨g', -, heq⟩ := List.mem_map.mp hg
  cases heq

section

variable {evs new : List Event} {c c' : Connection}

theorem SendBasis.step (h : SendBasis c) (hstep : Shifts c new c') : SendBasis c' := by
  cases hstep with
  | keeps hkeeps _ =>
      refine ⟨hkeeps.peer ▸ h.initial, fun id s' hs' => ?_, fun id s' hs' => ?_⟩
      · obtain ⟨s, hs, -⟩ := hkeeps.streams hs'
        exact h.nonzero hs
      · obtain ⟨s, hs, hsame, -⟩ := hkeeps.streams hs'
        rw [hsame, hkeeps.peer]
        exact h.basis hs
  | opens hid hpeer hsend hrecv hstreams =>
      refine ⟨hpeer ▸ h.initial, fun id s' hs' => ?_, fun id s' hs' => ?_⟩
      · rw [hstreams] at hs'
        rcases Base.Table.lookup_insert_cases hs' with ⟨rfl, rfl⟩ | ⟨-, hs⟩
        · exact hid
        · exact h.nonzero hs
      · rw [hstreams] at hs'
        rw [hpeer]
        rcases Base.Table.lookup_insert_cases hs' with ⟨rfl, rfl⟩ | ⟨-, hs⟩
        · rfl
        · exact h.basis hs
  | sends hs hfits hpeer hrecv hsend hstreams hwindow hwindow' =>
      refine ⟨hpeer ▸ h.initial, fun id s' hs' => ?_, fun id s' hs' => ?_⟩
      · rw [hstreams] at hs'
        rcases Base.Table.lookup_insert_cases hs' with ⟨rfl, rfl⟩ | ⟨-, hs'⟩
        · exact h.nonzero hs
        · exact h.nonzero hs'
      · rw [hstreams] at hs'
        rw [hpeer]
        rcases Base.Table.lookup_insert_cases hs' with ⟨rfl, rfl⟩ | ⟨-, hs'⟩
        · rw [hwindow]
          exact h.basis hs
        · exact h.basis hs'
  | @handled f _ hflows hregistered hpeer =>
      have hnonzero : ∀ {id s'}, c'.streams.lookup id = some s' → id ≠ 0 := by
        intro id s' hs'
        obtain ⟨s, hs⟩ := hregistered hs'
        exact h.nonzero hs
      refine ⟨?_, fun id s' hs' => hnonzero hs', fun id s' hs' => ?_⟩
      · rw [hpeer]
        split
        · exact applySettingsPayload_induct applySetting_window f.payload h.initial
        · exact h.initial
      · obtain ⟨s, hs, hflow⟩ := hflows.streams (hnonzero hs') hs'
        exact (hflow.send (h.basis hs)).1

theorem SendBalanced.step (h : SendBalanced evs c) (hbasis : SendBasis c)
    (hstep : Shifts c new c') : SendBalanced (evs ++ new) c' := by
  cases hstep with
  | keeps hkeeps hnew =>
      have hown := fun id => own_append id evs (opened_notMem_of_weightless hnew)
      refine ⟨?_, ?_, hkeeps.send ▸ h.low, hkeeps.send ▸ h.high, fun id s' hs' => ?_⟩
      · rw [hkeeps.peer, List.foldl_append, ← h.peer,
          foldl_announced (notMem_inbound_of_weightless hnew)]
      · rw [hkeeps.send, taken_append, sent_append, taken_of_weightless hnew,
          sent_of_weightless countsBodies_dataLength hnew]
        exact h.conn
      · obtain ⟨s, hs, hsame, -⟩ := hkeeps.streams hs'
        rw [hsame, hkeeps.peer, hown, taken_append, sent_append, taken_of_weightless hnew,
          sent_of_weightless (countsBodies_dataOn id) hnew]
        exact h.streams hs
  | opens hid hpeer hsend hrecv hstreams =>
      refine ⟨?_, ?_, hsend ▸ h.low, hsend ▸ h.high, fun id s' hs' => ?_⟩
      · rw [hpeer, List.foldl_append, ← h.peer]
        rfl
      · rw [hsend, taken_append, sent_append]
        exact h.conn
      · rw [hstreams] at hs'
        rw [hpeer]
        rcases Base.Table.lookup_insert_cases hs' with ⟨rfl, rfl⟩ | ⟨hj, hs⟩
        · rw [own_opened_self]
          have hmax := hbasis.initial
          exact ⟨(Int.sub_zero _).symm, by show (c.peer.initialWindowSize : Int) ≤ 0x7fffffff; omega⟩
        · rw [own_opened_ne (Ne.symm hj), taken_append, sent_append]
          exact h.streams hs
  | @sends id chunk isLast s s₂ _ hs hfits hpeer hrecv hsend hstreams hwindow hwindow' =>
      have htaken : ∀ w : Frame → Nat, taken w [.outbound (dataFrame id chunk isLast)] = 0 :=
        fun w => taken_outbound w [_]
      have hsent : ∀ w : Frame → Nat, sent w [.outbound (dataFrame id chunk isLast)] =
          w (dataFrame id chunk isLast) := by
        intro w
        exact (sent_outbound w [_]).trans (Nat.add_zero _)
      have hown : ∀ j, own j (evs ++ [.outbound (dataFrame id chunk isLast)]) = _ :=
        fun j => own_append j evs fun k hk => by cases List.mem_singleton.mp hk
      have hconn : (chunk.length : Int) ≤ c.connSendWindow.available :=
        Int.le_trans hfits (Int.min_le_right _ _)
      have hlength : (dataFrame id chunk isLast).dataLength = chunk.length := if_pos rfl
      have havail : c'.connSendWindow.available = c.connSendWindow.available - chunk.length :=
        congrArg ConnSendWindow.available hsend
      have hbefore := h.conn
      have hhigh := h.high
      refine ⟨?_, ?_, ?_, ?_, fun j s' hs' => ?_⟩
      · rw [hpeer, List.foldl_append, ← h.peer]
        rfl
      · rw [havail, taken_append, sent_append, htaken, hsent, hlength]
        omega
      · omega
      · omega
      · rw [hpeer, hown, taken_append, sent_append, htaken, hsent]
        rw [hstreams] at hs'
        rcases Base.Table.lookup_insert_cases hs' with ⟨rfl, rfl⟩ | ⟨hj, hs'⟩
        · have hon : (dataFrame j chunk isLast).dataOn j = chunk.length := if_pos ⟨rfl, rfl⟩
          have hwin : s'.sendWindow.available = s.sendWindow.available - chunk.length :=
            congrArg StreamSendWindow.available hwindow
          obtain ⟨hstream, hmax⟩ := h.streams hs
          rw [hwin, hon]
          omega
        · have hon : (dataFrame id chunk isLast).dataOn j = 0 :=
            if_neg fun hf => hj hf.2.symm
          rw [hon]
          exact h.streams hs'
  | @handled f _ hflows hregistered hpeer =>
      have hown := fun id => own_append id evs (opened_notMem_handled f (c.answers f))
      have hbefore := h.conn
      have havail := hflows.send
      have hlow := h.low
      have hlength : Base.total Frame.dataLength (c.answers f) = 0 :=
        total_answers fun g hg => dataLength_of_typ hg
      refine ⟨?_, ?_, ?_, hflows.sendMax h.high, fun id s' hs' => ?_⟩
      · rw [hpeer, List.foldl_append, ← h.peer, foldl_announced_handled]
      · rw [havail, taken_append, sent_append, taken_handled, sent_handled, hlength]
        omega
      · omega
      · obtain ⟨s₀, hs₀⟩ := hregistered hs'
        obtain ⟨s, hs, hflow⟩ := hflows.streams (hbasis.nonzero hs₀) hs'
        obtain ⟨-, hwin⟩ := hflow.send (hbasis.basis hs)
        obtain ⟨hstream, hmax⟩ := h.streams hs
        have hon : Base.total (Frame.dataOn id) (c.answers f) = 0 :=
          total_answers fun g hg => dataOn_of_typ hg id
        refine ⟨?_, hflow.sendMax hmax⟩
        rw [hown, hwin, taken_append, sent_append, taken_handled, sent_handled, hon]
        omega

end

/-- DATA goes out only as far as both windows reach. -/
theorem Acts.fits {p : Path} {ok : Bool} {c c' : Connection} {new : List Event} {f : Frame}
    (h : Acts p ok c new c') (hf : .outbound f ∈ new) (htyp : f.typ = fData) :
    f.payload.length ≤ c.connSendWindow.available ∧
      ∃ s, c.streams.lookup f.streamId = some s ∧
        f.payload.length ≤ s.sendWindow.available := by
  have hheads : ∀ {c : Connection} {id req}, .outbound f ∉
      Event.request id req :: (c.headerFrames id req).map .outbound := by
    intro c id req hmem
    rcases List.mem_cons.mp hmem with heq | hmem
    · cases heq
    obtain ⟨g, hg, heq⟩ := List.mem_map.mp hmem
    obtain rfl := Event.outbound.inj heq
    obtain ⟨-, hshape⟩ := fragmentHeaderBlock_shape hg
    rcases hshape with ⟨hheaders, -⟩ | ⟨hcont, -⟩
    · exact absurd (hheaders.symm.trans htyp) (by decide)
    · exact absurd (hcont.symm.trans htyp) (by decide)
  have hbudget : ∀ {id : Nat} {chunk : Bytes} {isLast : Bool} {s : Stream},
      f = dataFrame id chunk isLast → c.streams.lookup id = some s →
      chunk.length ≤ s.sendBudget c.connSendWindow →
      f.payload.length ≤ c.connSendWindow.available ∧
        ∃ s, c.streams.lookup f.streamId = some s ∧
          f.payload.length ≤ s.sendWindow.available := by
    rintro id chunk isLast s rfl hs hle
    exact ⟨Int.le_trans hle (Int.min_le_right _ _), s, hs, Int.le_trans hle (Int.min_le_left _ _)⟩
  cases h with
  | opens => cases List.mem_singleton.mp hf
  | heads => exact absurd hf hheads
  | starts =>
      rcases List.mem_cons.mp hf with heq | hf
      · cases heq
      · exact absurd hf hheads
  | @chunk id n s remaining res c' _ hs hpos hsize =>
      refine hbudget (Event.outbound.inj (List.mem_singleton.mp hf)) hs ?_
      by_cases hzero : n = 0
      · rw [hzero, List.take_zero]
        exact Int.le_of_lt hpos
      · exact chunk_fits hzero hsize (List.length_take_le n remaining)
  | @pump id n s pb isLast res c' _ hs _ hsize hpos =>
      exact hbudget (Event.outbound.inj (List.mem_singleton.mp hf)) hs
        (chunk_fits hpos hsize (List.length_take_le n (pb.bytes.drop pb.sent)))
  | @handled source g =>
      rcases List.mem_cons.mp hf with heq | hf
      · cases heq
      obtain ⟨g', hg', heq⟩ := List.mem_map.mp hf
      obtain rfl := Event.outbound.inj heq
      exact absurd htyp (answers_typ c g hg')
  | refused => cases List.mem_singleton.mp hf
  | cleared | drops | breaks => cases hf

theorem went_of_outbound (fs : List Frame) : (fs.map Event.outbound).filterMap Event.went = fs := by
  rw [List.filterMap_map]
  exact List.filterMap_some

/-- The frames that go out are the bytes that are written. -/
theorem Acts.written {p : Path} {c c' : Connection} {new : List Event} (h : Acts p true c new c') :
    c'.tls.sink.written = c.tls.sink.written ++ (new.filterMap Event.went).flatMap Frame.bytes := by
  have hnone : c.tls.sink.written = c.tls.sink.written ++ [].flatMap Frame.bytes :=
    (List.append_nil _).symm
  have hdata : ∀ {id : Nat} {s : Stream} {chunk : Bytes} {isLast : Bool} {res c'},
      (writeFrame c.tls.sink (dataFrame id chunk isLast)).1 = .ok () →
      c.sendChunk id s chunk isLast = (res, c') → c'.tls.sink.written =
        c.tls.sink.written ++ [dataFrame id chunk isLast].flatMap Frame.bytes := by
    intro id s chunk isLast res c' hwrite h
    obtain ⟨state, sink, hsink, rfl, -⟩ := sendChunk_spec hwrite h
    rw [List.flatMap_singleton]
    exact writeFrame_written hsink
  cases h with
  | opens h =>
      obtain ⟨-, rfl⟩ := openStream_eq_ok h
      exact hnone
  | heads _ h =>
      obtain ⟨s, state, sink, -, -, -, hwrite, rfl⟩ := sendHeadersOn_eq_ok h
      rw [List.filterMap_cons_none rfl, went_of_outbound]
      exact writeFrames_written hwrite
  | starts _ hopen h =>
      obtain ⟨-, rfl⟩ := openStream_eq_ok hopen
      obtain ⟨s, state, sink, pending, -, -, hwrite, -, rfl⟩ := stageRequestOn_eq_ok h
      rw [List.filterMap_cons_none rfl, List.filterMap_cons_none rfl, went_of_outbound]
      exact writeFrames_written hwrite
  | chunk _ _ _ _ hwrite h => exact hdata hwrite h
  | @pump id n s pb isLast res c' _ _ _ _ _ _ hwrite h =>
      refine Eq.trans ?_ (hdata hwrite h)
      unfold Connection.afterPump
      cases res <;> rfl
  | handled h =>
      rw [List.filterMap_cons_none rfl, went_of_outbound]
      exact (processFrame_flows h).written
  | cleared | drops => exact hnone
  | refused hok | breaks hok => cases hok

theorem Traced.written {p : Path} {c c' : Connection} {evs : List Event}
    (h : Traced p true c evs c') :
    c'.tls.sink.written = c.tls.sink.written ++ (evs.filterMap Event.went).flatMap Frame.bytes := by
  refine Base.Trace.invariant (I := fun evs c' => c'.tls.sink.written =
    c.tls.sink.written ++ (evs.filterMap Event.went).flatMap Frame.bytes) ?_ ?_ h
  · exact (List.append_nil _).symm
  · intro evs new c₁ c₂ hevs hact
    rw [hact.written, hevs, List.filterMap_append, List.flatMap_append, List.append_assoc]

/-! ## Operations -/

/-- An operation of a connection. -/
inductive Operation where
  | openStream
  /-- A frame was read, and `source` is what is left to read. -/
  | processFrame (source : Source) (f : Frame)
  | sendRequestOn (streamId : Nat) (req : Request)
  /-- A turn of `start_queued`: `open_stream`, then `stage_request_on`. -/
  | stageRequest (req : Request)
  | pumpPendingSends
  /-- `streams.remove`. -/
  | removeStream (streamId : Nat)

namespace Connection

def call (c : Connection) : Operation → Result Unit × Connection
  | .openStream => andThen c.openStream fun _ c => (.ok (), c)
  | .processFrame source f => andThen ((c.receive source f).processFrame f) fun _ c => (.ok (), c)
  | .sendRequestOn streamId req => c.sendRequestOn streamId req
  | .stageRequest req => andThen c.openStream fun streamId c => c.stageRequestOn streamId req
  | .pumpPendingSends => c.pumpPendingSends
  | .removeStream streamId => (.ok (), { c with streams := c.streams.erase streamId })

/-- Operations in a row, up to the first that fails. -/
def calls (c : Connection) : List Operation → Result Unit × Connection
  | [] => (.ok (), c)
  | call :: rest => andThen (c.call call) fun _ c => c.calls rest

end Connection

theorem traced_call (ok : Bool) {c : Connection} (call : Operation) (hsane : c.Sane)
    (hok : Allowed ok (c.call call).1) : ∃ evs, Traced .both ok c evs (c.call call).2 := by
  have hboth : Path.both ≠ .single ∧ Path.both ≠ .multi := by decide
  cases call with
  | openStream =>
      unfold Connection.call at hok ⊢
      simp only at hok ⊢
      obtain ⟨res, c', hopen⟩ : ∃ res c', c.openStream = (res, c') := ⟨_, _, rfl⟩
      rw [hopen]
      cases res with
      | ok id => exact ⟨_, .single (.opens hopen)⟩
      | error e =>
          obtain rfl := openStream_eq_error hopen
          exact ⟨[], .nil⟩
  | processFrame source f =>
      unfold Connection.call at hok ⊢
      simp only at hok ⊢
      obtain ⟨res, c', h⟩ : ∃ res c', (c.receive source f).processFrame f = (res, c') :=
        ⟨_, _, rfl⟩
      rw [h] at hok ⊢
      cases res with
      | ok o => exact ⟨_, .single (.handled h)⟩
      | error e => exact ⟨_, .single (.refused (Allowed.of_error hok) h)⟩
  | sendRequestOn streamId req =>
      obtain ⟨heads, rest, htrace, -⟩ := traces_sendRequestOn ok hboth.2 streamId req hsane hok
      exact ⟨_, htrace⟩
  | stageRequest req =>
      unfold Connection.call at hok ⊢
      simp only at hok ⊢
      obtain ⟨res, c₁, hopen⟩ : ∃ res c₁, c.openStream = (res, c₁) := ⟨_, _, rfl⟩
      rw [hopen] at hok ⊢
      cases res with
      | error e =>
          obtain rfl := openStream_eq_error hopen
          exact ⟨[], .nil⟩
      | ok id =>
      simp only [Connection.andThen] at hok ⊢
      obtain ⟨res, c₂, hstage⟩ : ∃ res c₂, c₁.stageRequestOn id req = (res, c₂) := ⟨_, _, rfl⟩
      rw [hstage] at hok ⊢
      cases res with
      | ok u => exact ⟨_, .single (.starts hboth.1 hopen hstage)⟩
      | error e =>
          obtain ⟨encoder, sink, hbreaks, rfl⟩ := Batch.stageRequestOn_error hstage
          have hopens : Traced .both ok c _ c₁ := .single (.opens hopen)
          exact ⟨_, hopens.trans (.single (.breaks (Allowed.of_error hok) hbreaks))⟩
  | pumpPendingSends =>
      exact traced_of_pumps hboth.1 (pumpPendingSends_pumps ok c hok) rfl
  | removeStream streamId =>
      exact ⟨[], .single (@Acts.drops _ _ c _ c.tls.source
        (removes_erase (p := fun _ => True) c streamId fun _ _ => trivial).stays)⟩

theorem traced_calls (ok : Bool) {c : Connection} (cs : List Operation) (hsane : c.Sane)
    (hok : Allowed ok (c.calls cs).1) : ∃ evs, Traced .both ok c evs (c.calls cs).2 := by
  induction cs generalizing c with
  | nil => exact ⟨[], .nil⟩
  | cons call rest ih =>
      unfold Connection.calls at hok ⊢
      have hcall := traced_call ok (c := c) call hsane
      generalize c.call call = out at *
      obtain ⟨res, c₁⟩ := out
      cases res with
      | error e => exact hcall fun h => absurd (hok h) nofun
      | ok u =>
          obtain ⟨evs, htrace⟩ := hcall fun _ => ⟨u, rfl⟩
          obtain ⟨evs', htrace'⟩ := ih (Traced.sane htrace hsane) hok
          exact ⟨_, htrace.trans htrace'⟩

/-! ## The send ledger -/

theorem sendBasis_of_fresh {tls : Tls} {c : Connection} (h : c.Fresh tls) : SendBasis c := by
  have hnone : ∀ {id s}, c.streams.lookup id ≠ some s := by
    intro id s hs
    rw [h.streams, AList.lookup_empty] at hs
    cases hs
  refine ⟨?_, fun id s hs => absurd hs hnone, fun id s hs => absurd hs hnone⟩
  rw [h.peer]
  decide

theorem sendBalanced_of_fresh {tls : Tls} {c : Connection} (h : c.Fresh tls) :
    SendBalanced [] c := by
  have hconn : c.connSendWindow.available = 65535 := by
    rw [h.send]
    rfl
  refine ⟨h.peer, hconn, ?_, ?_, fun id s hs => ?_⟩
  · rw [hconn]
    decide
  · rw [hconn]
    decide
  · rw [h.streams, AList.lookup_empty] at hs
    cases hs

theorem Traced.sendBalanced {p : Path} {tls : Tls} {c₀ c : Connection} {evs : List Event}
    (h : Traced p true c₀ evs c) (hfresh : c₀.Fresh tls) : SendBalanced evs c := by
  have hid : c₀.nextStreamId ≠ 0 := by
    rw [hfresh.next]
    decide
  refine (Base.Trace.invariant (I := fun evs c => SendBalanced evs c ∧ SendBasis c)
    ⟨sendBalanced_of_fresh hfresh, sendBasis_of_fresh hfresh⟩ ?_ (Traced.shifts h hid)).1
  intro evs new c c' hinv hstep
  exact ⟨hinv.1.step hinv.2 hstep, hinv.2.step hstep⟩

/-- The ledger of the send side after the events `evs` on the new connection `c₀`. -/
structure SendLedger (c₀ : Connection) (evs : List Event) (c : Connection) : Prop where
  balanced : SendBalanced evs c
  received : c.tls.received = c₀.tls.received ++ evs.filterMap Event.came
  written : c.tls.sink.written =
    c₀.tls.sink.written ++ (evs.filterMap Event.went).flatMap Frame.bytes
  /-- The next act, whether it fails or not, sends no more DATA than either window holds. -/
  fits : ∀ new c' f, Acts .both false c new c' → .outbound f ∈ new → f.typ = fData →
    f.payload.length ≤ c.connSendWindow.available ∧
      ∃ s, c.streams.lookup f.streamId = some s ∧ f.payload.length ≤ s.sendWindow.available

/-- A run is one in which nothing goes wrong, or there is a first act that fails. -/
def UpToFailure (c₀ c : Connection) : Prop :=
  (∃ evs, Traced .both true c₀ evs c) ∨
    ∃ evs c₁ new c₂ rest, Traced .both true c₀ evs c₁ ∧ Acts .both false c₁ new c₂ ∧
      ¬ Acts .both true c₁ new c₂ ∧ Traced .both false c₂ rest c

/-- Whatever calls are made on a new connection, up to the first failure the send windows are
what has been announced and granted less what was sent. -/
theorem sendLedger_calls {tls : Tls} {c₀ : Connection} (hnew : Connection.new tls = .ok c₀)
    (cs : List Operation) :
    ((c₀.calls cs).1 = .ok () → ∃ evs, Traced .both true c₀ evs (c₀.calls cs).2) ∧
      UpToFailure c₀ (c₀.calls cs).2 ∧
      ∀ evs c, Traced .both true c₀ evs c → SendLedger c₀ evs c := by
  have hsane := sane_of_new hnew
  refine ⟨fun hok => traced_calls true cs hsane fun _ => ⟨(), hok⟩, ?_, fun evs c htrace => ?_⟩
  · obtain ⟨evs, htrace⟩ := traced_calls false cs hsane nofun
    rcases Base.Trace.first_failure (Acts .both true) htrace with
      hgood | ⟨before, c₁, new, c₂, rest, -, hbefore, hact, hnot, hrest⟩
    · exact .inl ⟨evs, hgood⟩
    · exact .inr ⟨before, c₁, new, c₂, rest, hbefore, hact, hnot, hrest⟩
  · exact ⟨Traced.sendBalanced htrace (fresh_of_new hnew), Traced.received htrace,
      Traced.written htrace, fun new c' f hact hf htyp => hact.fits hf htyp⟩

/-- A POST with one byte of body, after its headers and after its body. -/
theorem sendLedger_post :
    ∃ evs, SendLedger (.dial ⟨[], none⟩) evs
      ((Connection.dial ⟨[], none⟩).calls [.stageRequest samplePost, .pumpPendingSends]).2 := by
  obtain ⟨hok, -, hall⟩ := sendLedger_calls (new_dial ⟨[], none⟩)
    [.stageRequest samplePost, .pumpPendingSends]
  obtain ⟨evs, htrace⟩ := hok (by decide +kernel)
  exact ⟨evs, hall evs _ htrace⟩

end Rsurl.H2
