/-
# `Rsurl.H2.RecvLedger` — what the peer may still send

The receive side of the ledger in `Rsurl.H2.Ledger`: as long as no DATA
arrives on stream 0, both windows are what was granted less what was taken,
and are at least half open after every frame.
-/
import Rsurl.H2.Ledger

namespace Rsurl.H2

open Http (Header Request)

/-! ## The windows -/

/-- What the receive windows are: DATA on stream 0 is not accounted. -/
structure Accounted (evs : List Event) (c : Connection) : Prop where
  isOpen : c.connRecvWindow.Open
  conn : c.connRecvWindow.available =
    65535 + (sent (Frame.grants 0) evs : Nat) - (taken Frame.accounted evs : Nat)
  streams : ∀ ⦃id s⦄, c.streams.lookup id = some s → s.recvWindow.Open ∧
    s.recvWindow.available = 65535 + (sent (Frame.grants id) (own id evs) : Nat) -
      (taken (Frame.dataOn id) (own id evs) : Nat)

/-- All updates that went out can be applied by the peer. -/
def GoodUpdates (evs : List Event) : Prop :=
  ∀ g, .outbound g ∈ evs → g.typ = fWindowUpdate → ∃ id, g.IsUpdate id

theorem open_new : RecvWindow.new.Open := ⟨rfl, by decide, by decide⟩

section

variable {evs new : List Event} {c c' : Connection}

theorem Accounted.step (h : Accounted evs c) (hbasis : SendBasis c)
    (hstep : Shifts c new c') : Accounted (evs ++ new) c' := by
  cases hstep with
  | keeps hkeeps hnew =>
      have hown := fun id => own_append id evs (opened_notMem_of_weightless hnew)
      refine ⟨hkeeps.recv ▸ h.isOpen, ?_, fun id s' hs' => ?_⟩
      · rw [hkeeps.recv, taken_append, sent_append, taken_of_weightless hnew,
          sent_of_weightless (countsBodies_grants 0) hnew]
        exact h.conn
      · obtain ⟨s, hs, -, hsame⟩ := hkeeps.streams hs'
        rw [hsame, hown, taken_append, sent_append, taken_of_weightless hnew,
          sent_of_weightless (countsBodies_grants id) hnew]
        exact h.streams hs
  | opens hid hpeer hsend hrecv hstreams =>
      refine ⟨hrecv ▸ h.isOpen, ?_, fun id s' hs' => ?_⟩
      · rw [hrecv, taken_append, sent_append]
        exact h.conn
      · rw [hstreams] at hs'
        rcases Base.Table.lookup_insert_cases hs' with ⟨rfl, rfl⟩ | ⟨hj, hs⟩
        · rw [own_opened_self]
          exact ⟨open_new, rfl⟩
        · rw [own_opened_ne (Ne.symm hj), taken_append, sent_append]
          exact h.streams hs
  | @sends id chunk isLast s s₂ _ hs hfits hpeer hrecv hsend hstreams hwindow hwindow' =>
      have htaken : ∀ w : Frame → Nat, taken w [.outbound (dataFrame id chunk isLast)] = 0 :=
        fun w => taken_outbound w [_]
      have hsent : ∀ j, sent (Frame.grants j) [.outbound (dataFrame id chunk isLast)] = 0 := by
        intro j
        refine (sent_outbound _ [_]).trans ?_
        rw [Base.total_cons, grants_of_typ (by show fData ≠ fWindowUpdate; decide)]
        rfl
      have hown : ∀ j, own j (evs ++ [.outbound (dataFrame id chunk isLast)]) = _ :=
        fun j => own_append j evs fun k hk => by cases List.mem_singleton.mp hk
      refine ⟨hrecv ▸ h.isOpen, ?_, fun j s' hs' => ?_⟩
      · rw [hrecv, taken_append, sent_append, htaken, hsent]
        exact h.conn
      · rw [hown, taken_append, sent_append, htaken, hsent]
        rw [hstreams] at hs'
        rcases Base.Table.lookup_insert_cases hs' with ⟨rfl, rfl⟩ | ⟨-, hs'⟩
        · rw [hwindow']
          exact h.streams hs
        · exact h.streams hs'
  | @handled f _ hflows hregistered hpeer =>
      have hown := fun id => own_append id evs (opened_notMem_handled f (c.answers f))
      obtain ⟨-, hopen, havail⟩ := hflows.recv h.isOpen
      have hbefore := h.conn
      refine ⟨hopen, ?_, fun id s' hs' => ?_⟩
      · rw [havail, taken_append, sent_append, taken_handled, sent_handled, ← granted]
        omega
      · obtain ⟨s₀, hs₀⟩ := hregistered hs'
        obtain ⟨s, hs, hflow⟩ := hflows.streams (hbasis.nonzero hs₀) hs'
        obtain ⟨hwas, hstream⟩ := h.streams hs
        obtain ⟨-, hopen', hwin⟩ := hflow.recv hwas
        refine ⟨hopen', ?_⟩
        rw [hown, hwin, taken_append, sent_append, taken_handled, sent_handled, ← granted]
        omega

theorem Accounted.updates (h : Accounted evs c) (hstep : Shifts c new c') :
    GoodUpdates new := by
  intro g hg htyp
  cases hstep with
  | keeps hkeeps hnew =>
      rcases hnew _ hg with ⟨id, req, heq⟩ | ⟨f, heq, hshape⟩
      · cases heq
      · obtain rfl := Event.outbound.inj heq
        rcases hshape with hshape | hshape
        · exact absurd (hshape.symm.trans htyp) (by decide)
        · exact absurd (hshape.symm.trans htyp) (by decide)
  | opens => cases List.mem_singleton.mp hg
  | sends =>
      obtain rfl := Event.outbound.inj (List.mem_singleton.mp hg)
      exact absurd htyp (by show fData ≠ fWindowUpdate; decide)
  | handled hflows =>
      rcases List.mem_cons.mp hg with heq | hg
      · cases heq
      · obtain ⟨g', hg', heq⟩ := List.mem_map.mp hg
        rw [Event.outbound.inj heq] at hg'
        exact hflows.updates h.isOpen (fun s hs => (h.streams hs).1) g hg' htyp

end

theorem accounted_of_fresh {tls : Tls} {c : Connection} (h : c.Fresh tls) : Accounted [] c := by
  refine ⟨?_, ?_, fun id s hs => ?_⟩
  · rw [h.recv]
    exact open_new
  · rw [h.recv]
    rfl
  · rw [h.streams, AList.lookup_empty] at hs
    cases hs

theorem GoodUpdates.append {evs new : List Event} (h : GoodUpdates evs) (h' : GoodUpdates new) :
    GoodUpdates (evs ++ new) := by
  intro g hg htyp
  rcases List.mem_append.mp hg with hg | hg
  · exact h g hg htyp
  · exact h' g hg htyp

theorem Traced.accounted {p : Path} {tls : Tls} {c₀ c : Connection} {evs : List Event}
    (h : Traced p true c₀ evs c) (hfresh : c₀.Fresh tls) : Accounted evs c ∧ GoodUpdates evs := by
  have hid : c₀.nextStreamId ≠ 0 := by
    rw [hfresh.next]
    decide
  have hinv := Base.Trace.invariant
    (I := fun evs c => (Accounted evs c ∧ GoodUpdates evs) ∧ SendBasis c)
    ⟨⟨accounted_of_fresh hfresh, nofun⟩, sendBasis_of_fresh hfresh⟩ ?_ (Traced.shifts h hid)
  · exact hinv.1
  · intro evs new c c' ⟨⟨hacc, hupd⟩, hbasis⟩ hstep
    exact ⟨⟨hacc.step hbasis hstep, hupd.append (hacc.updates hstep)⟩, hbasis.step hstep⟩

/-! ## The receive ledger -/

/-- A window of the connection or of the frame's stream is smaller than the DATA in a frame. -/
def Connection.Exceeds (c : Connection) (f : Frame) : Prop :=
  c.connRecvWindow.available < f.dataLength ∨
    ∃ s, c.streams.lookup f.streamId = some s ∧ s.recvWindow.available < f.dataLength

/-- The ledger of the receive side after the events `evs`. -/
structure RecvLedger (evs : List Event) (c : Connection) : Prop where
  conn : c.connRecvWindow.available =
    65535 + (sent (Frame.grants 0) evs : Nat) - (taken Frame.dataLength evs : Nat)
  connRange : 32767 ≤ c.connRecvWindow.available ∧ c.connRecvWindow.available ≤ 65535
  streams : ∀ ⦃id s⦄, c.streams.lookup id = some s →
    s.recvWindow.available = 65535 + (sent (Frame.grants id) (own id evs) : Nat) -
        (taken (Frame.dataOn id) (own id evs) : Nat) ∧
      32767 ≤ s.recvWindow.available ∧ s.recvWindow.available ≤ 65535
  updates : GoodUpdates evs

/-- No DATA came on stream 0, other than empty. -/
def NoStray (evs : List Event) : Prop :=
  ∀ f, .inbound f true ∈ evs → f.streamId = 0 → f.dataLength = 0

/-- The bytes of DATA that are not accounted. -/
def Frame.stray (f : Frame) : Nat := if f.streamId = 0 then f.dataLength else 0

theorem taken_dataLength (evs : List Event) :
    taken Frame.dataLength evs = taken Frame.accounted evs + taken Frame.stray evs := by
  refine Base.total_add (fun e => ?_) evs
  cases e with
  | inbound f handled =>
      cases handled with
      | false => rfl
      | true =>
          simp only [Frame.accounted, Frame.stray]
          split
          · exact (Nat.zero_add _).symm
          · rfl
  | _ => rfl

theorem taken_stray_eq_zero {evs : List Event} : taken Frame.stray evs = 0 ↔ NoStray evs := by
  refine Base.total_eq_zero_iff.trans ⟨fun h f hf hid => ?_, fun h e he => ?_⟩
  · have hzero := h _ hf
    simp only [Frame.stray, hid, if_true] at hzero
    exact hzero
  · cases e with
    | inbound f handled =>
        cases handled with
        | false => rfl
        | true =>
            simp only [Frame.stray]
            split
            · next hid => exact h f he hid
            · rfl
    | _ => rfl

theorem Accounted.ledger_iff {evs : List Event} {c : Connection} (h : Accounted evs c)
    (hupd : GoodUpdates evs) : RecvLedger evs c ↔ NoStray evs := by
  rw [← taken_stray_eq_zero]
  have hsum := taken_dataLength evs
  have hconn := h.conn
  constructor
  · intro hledger
    have hclaimed := hledger.conn
    omega
  · intro hzero
    refine ⟨by omega, ⟨h.isOpen.low, h.isOpen.high⟩, fun id s hs => ?_, hupd⟩
    obtain ⟨hopen, hstream⟩ := h.streams hs
    exact ⟨hstream, hopen.low, hopen.high⟩

/-- A frame that is handled is within both windows. -/
theorem Accounted.within {evs : List Event} {c c' : Connection} {source : Source} {f : Frame}
    {o : DispatchOutcome} (h : Accounted evs c) (hzero : f.streamId = 0 → f.dataLength = 0)
    (hframe : (c.receive source f).processFrame f = (.ok o, c')) : ¬ c.Exceeds f := by
  have hflows := (processFrame_flows hframe).of_receive
  have heff := processFrame_effect (c.receive source f) f
  rw [hframe] at heff
  have hempty : f.dataLength = 0 → ¬ c.Exceeds f := by
    intro hlen hexceeds
    rcases hexceeds with hconn | ⟨s, hs, hstream⟩
    · have hlow := h.isOpen.low
      omega
    · have hlow := (h.streams hs).1.low
      omega
  by_cases hid : f.streamId = 0
  · exact hempty (hzero hid)
  by_cases htyp : f.typ = fData
  · have hacc : f.accounted = f.dataLength := if_neg hid
    have hon : f.dataOn f.streamId = f.dataLength := by
      rw [Frame.dataOn, if_pos ⟨htyp, rfl⟩, Frame.dataLength, if_pos htyp]
    intro hexceeds
    rcases hexceeds with hconn | ⟨s, hs, hstream⟩
    · have hle := (hflows.recv h.isOpen).1
      omega
    · obtain ⟨s', hs'⟩ := heff.kept hs
      obtain ⟨s₁, hs₁, hflow⟩ := hflows.streams hid hs'
      obtain rfl := Option.some.inj (hs.symm.trans hs₁)
      have hle := (hflow.recv (h.streams hs).1).1
      omega
  · exact hempty (dataLength_of_typ htyp)

/-- The receive windows are what was granted less what came, as long as no DATA came on stream 0;
and what exceeds one of them is refused, unless it comes there. -/
theorem recvLedger_iff {tls : Tls} {c₀ c : Connection} {evs : List Event}
    (hnew : Connection.new tls = .ok c₀) (h : Traced .both true c₀ evs c) :
    (RecvLedger evs c ↔ NoStray evs) ∧
      ∀ source f, (f.streamId = 0 → f.dataLength = 0) → c.Exceeds f →
        ∃ e c', (c.receive source f).processFrame f = (.error e, c') := by
  obtain ⟨hacc, hupd⟩ := Traced.accounted h (fresh_of_new hnew)
  refine ⟨hacc.ledger_iff hupd, fun source f hzero hexceeds => ?_⟩
  obtain ⟨res, c', hframe⟩ : ∃ res c', (c.receive source f).processFrame f = (res, c') :=
    ⟨_, _, rfl⟩
  cases res with
  | error e => exact ⟨e, c', hframe⟩
  | ok o => exact absurd hexceeds (hacc.within hzero hframe)

/-- DATA of one byte on stream 0. -/
def strayByte : Frame where
  typ := fData
  flags := 0
  streamId := 0
  payload := [0]

theorem traced_strayByte :
    Traced .both true (.dial ⟨[], none⟩) [.inbound strayByte true]
      ((Connection.dial ⟨[], none⟩).receive ⟨[], none⟩ strayByte) :=
  .single (.handled (o := .cont) rfl)

/-! ## A download -/

/-- A stream on which a body may come, with what is left of the windows and the size of the body so
far. -/
structure Downloading (c : Connection) (id : Nat) (conn stream : RecvWindow) (size : Nat) : Prop where
  idle : c.expectingContinuation = none
  sink : c.tls.sink.fault = none ∧ c.tls.sink.flushFault = none
  window : c.connRecvWindow = conn
  registered : ∃ s, c.streams.lookup id = some s ∧ s.state = .halfClosedLocal ∧
    s.recvWindow = stream ∧ s.body.length = size

theorem writeUpdate_whole {w : Sink} (h : w.fault = none ∧ w.flushFault = none)
    (window : RecvWindow) (id : Nat) :
    ∃ w', Connection.writeUpdate w (window.replenish id).1 = (.ok (), w') ∧
      w'.fault = none ∧ w'.flushFault = none := by
  obtain ⟨written, fault, flushFault⟩ := w
  obtain ⟨rfl, rfl⟩ : fault = none ∧ flushFault = none := h
  unfold RecvWindow.replenish
  split
  · exact ⟨_, rfl, rfl, rfl⟩
  · exact ⟨_, rfl, rfl, rfl⟩

/-- DATA within both windows is taken. -/
theorem Downloading.takes {c : Connection} {id : Nat} {conn stream : RecvWindow} {size : Nat}
    (h : Downloading c id conn stream size) (payload : Bytes) (hid : id ≠ 0)
    (hconn : payload.length ≤ conn.available) (hstream : payload.length ≤ stream.available)
    (hsize : size + payload.length ≤ maxResponseBytes) :
    ∃ o c', c.processFrame ⟨fData, 0, id, payload⟩ = (.ok o, c') ∧
      Downloading c' id ((conn.consume payload.length).replenish 0).2
        ((stream.consume payload.length).replenish id).2 (size + payload.length) := by
  obtain ⟨hidle, hsink, rfl, s, hs, hstate, rfl, rfl⟩ := h
  have hroom : ¬ (c.connRecvWindow.consume payload.length).available < 0 := by
    simp only [RecvWindow.consume]
    omega
  have hroom' : ¬ (s.recvWindow.consume payload.length).available < 0 := by
    simp only [RecvWindow.consume]
    omega
  have hclosed : s.state ≠ .closed := by
    rw [hstate]
    decide
  have hdata : c.processFrame ⟨fData, 0, id, payload⟩ =
      { c with connRecvWindow := c.connRecvWindow.consume payload.length }.replenishBoth id { s with
        recvWindow := s.recvWindow.consume payload.length
        body := s.body ++ payload
        endStreamRecv := s.endStreamRecv || false
        state := .halfClosedLocal } := by
    have hflags : Frame.has ⟨fData, 0, id, payload⟩ flagEndStream = false := by
      show ((0 : UInt8) &&& flagEndStream != 0) = false
      decide
    have hadmits : c.admits ⟨fData, 0, id, payload⟩ = true := by
      rw [Connection.admits, hidle]
    have hrecv : s.state.recvData false = .ok .halfClosedLocal := by
      rw [hstate]
      rfl
    have hpayload : Connection.dataPayload ⟨fData, 0, id, payload⟩ = .ok payload :=
      if_neg (by show ¬ ((0 : UInt8) &&& flagPadded != 0) = true; decide)
    rw [Connection.processFrame, if_pos hadmits, if_neg hid]
    change Connection.processData c _ = _
    simp only [Connection.processData, if_neg hroom, hs, if_neg hclosed, hflags, hrecv,
      if_neg hroom', hpayload, if_neg (Nat.not_lt.mpr hsize)]
  obtain ⟨w₁, hfirst, hw₁⟩ :=
    writeUpdate_whole hsink (c.connRecvWindow.consume payload.length) 0
  obtain ⟨w₂, hsecond, hw₂⟩ := writeUpdate_whole hw₁ (s.recvWindow.consume payload.length) id
  have hflush : w₂.flush = (.ok (), w₂) := by
    rw [Sink.flush, hw₂.2]
  rw [hdata]
  simp only [Connection.replenishBoth, hfirst, hsecond, Sink.andThen, hflush,
    Connection.afterWrite]
  exact ⟨_, _, rfl, hidle, hw₂, rfl, _, AList.lookup_insert _, rfl, rfl, List.length_append⟩

/-- A GET is out, and nothing has come. -/
def requested : Connection := ((Connection.dial ⟨[], none⟩).openStream.2.sendHeadersOn 1 sampleGet).2

theorem traced_requested : ∃ evs, Traced .both true (.dial ⟨[], none⟩) evs requested ∧
    ∀ f handled, .inbound f handled ∉ evs := by
  obtain ⟨s, hs⟩ : ∃ s, (Connection.dial ⟨[], none⟩).openStream.2.sendHeadersOn 1 sampleGet =
    (.ok s, requested) := ⟨_, rfl⟩
  have hopens : Traced .both true (.dial ⟨[], none⟩) [.opened 1]
      (Connection.dial ⟨[], none⟩).openStream.2 := .single (.opens rfl)
  refine ⟨_, hopens.snoc (.heads (by decide) hs), fun f handled hmem => ?_⟩
  rcases List.mem_append.mp hmem with hmem | hmem
  · cases List.mem_singleton.mp hmem
  rcases List.mem_cons.mp hmem with heq | hmem
  · cases heq
  · obtain ⟨g, -, heq⟩ := List.mem_map.mp hmem
    cases heq

/-- The largest DATA frame that may come. -/
def fullFrame : Frame := ⟨fData, 0, 1, List.replicate 16384 0⟩

theorem fullFrame_length : fullFrame.payload.length = 16384 := List.length_replicate

/-- Three full frames on stream 1: both windows fall below half and are opened again. -/
theorem recvLedger_download :
    ∃ evs c, Traced .both true (.dial ⟨[], none⟩) evs c ∧ RecvLedger evs c ∧
      taken Frame.dataLength evs = 3 * 16384 ∧ sent (Frame.grants 0) evs = 3 * 16384 := by
  obtain ⟨evs, htrace, hnone⟩ := traced_requested
  have hstart : Downloading requested 1 .new .new 0 :=
    ⟨rfl, ⟨rfl, rfl⟩, rfl, _, rfl, by decide +kernel, rfl, rfl⟩
  have hmax : 3 * 16384 ≤ maxResponseBytes := by decide
  have htakes : ∀ {c conn stream size}, Downloading c 1 conn stream size →
      16384 ≤ conn.available → 16384 ≤ stream.available → size + 16384 ≤ maxResponseBytes →
      ∃ o c', (c.receive c.tls.source fullFrame).processFrame fullFrame = (.ok o, c') ∧
        Downloading c' 1 ((conn.consume 16384).replenish 0).2
          ((stream.consume 16384).replenish 1).2 (size + 16384) := by
    intro c conn stream size h hconn hstream hsize
    have hreceived : Downloading (c.receive c.tls.source fullFrame) 1 conn stream size :=
      ⟨h.idle, h.sink, h.window, h.registered⟩
    have hframe := hreceived.takes fullFrame.payload (by decide)
    rw [fullFrame_length] at hframe
    exact hframe hconn hstream hsize
  obtain ⟨o₁, c₁, h₁, hdown₁⟩ := htakes hstart (by decide) (by decide) (by omega)
  obtain ⟨o₂, c₂, h₂, hdown₂⟩ := htakes hdown₁ (by decide) (by decide) (by omega)
  obtain ⟨o₃, c₃, h₃, hdown₃⟩ := htakes hdown₂ (by decide) (by decide) (by omega)
  have hrun := ((htrace.snoc (.handled h₁)).snoc (.handled h₂)).snoc (.handled h₃)
  obtain ⟨hledger, -⟩ := recvLedger_iff (new_dial ⟨[], none⟩) hrun
  have hledger := hledger.mpr fun f hmem hzero => by
    obtain rfl : f = fullFrame := by simpa [hnone] using hmem
    cases hzero
  have hlength : Frame.dataLength fullFrame = 16384 := (if_pos rfl).trans fullFrame_length
  have hquiet : taken Frame.dataLength evs = 0 := by
    refine Base.total_eq_zero fun e he => ?_
    cases e with
    | inbound f handled => exact absurd he (hnone f handled)
    | _ => rfl
  have hconn := hledger.conn
  rw [hdown₃.window] at hconn
  refine ⟨_, c₃, hrun, hledger, ?_, ?_⟩
  · simp only [taken_append, taken_handled, hlength, hquiet]
  · simp only [taken_append, taken_handled, hlength, hquiet] at hconn
    change (65535 : Int) = _ at hconn
    omega

/-- The byte on stream 0 is handled and not accounted. -/
theorem strayByte_unaccounted :
    ¬ ∀ (tls : Tls) (c₀ c : Connection) (evs : List Event), Connection.new tls = .ok c₀ →
      Traced .both true c₀ evs c → RecvLedger evs c := by
  intro hclaim
  have hconn := (hclaim _ _ _ _ (new_dial ⟨[], none⟩) traced_strayByte).conn
  exact absurd hconn (by decide)

end Rsurl.H2
