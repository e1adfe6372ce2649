/-
# `Rsurl.H2.Windows` — what a handled frame does to the windows

The numbers in WINDOW_UPDATE and DATA frames, and, for a frame that
`process_frame` handles, the change of both windows of the connection, of both
windows of every stream, and of what is written (`Flows`, `processFrame_flows`).
-/
import Rsurl.H2.Trace

namespace Rsurl.H2

open Http (Header Request)

/-! ## Numbers in frames -/

/-- The increment of a WINDOW_UPDATE. -/
def Frame.increment (f : Frame) : Nat := fromBeBytes f.payload % 2 ^ 31

/-- What a frame adds to the window of `id`. -/
def Frame.grants (id : Nat) (f : Frame) : Nat :=
  if f.typ = fWindowUpdate ∧ f.streamId = id then f.increment else 0

/-- The bytes of DATA a frame carries on the stream `id`, padding included. -/
def Frame.dataOn (id : Nat) (f : Frame) : Nat :=
  if f.typ = fData ∧ f.streamId = id then f.payload.length else 0

/-- The bytes of DATA a frame carries, padding included. -/
def Frame.dataLength (f : Frame) : Nat := if f.typ = fData then f.payload.length else 0

theorem fromBeBytes_toBeBytes {n : Nat} (h : n < 2 ^ 32) : fromBeBytes (toBeBytes n) = n := by
  simp only [toBeBytes, fromBeBytes, List.foldl_cons, List.foldl_nil, UInt8.toNat_ofNat',
    Nat.shiftRight_eq_div_pow]
  omega

theorem grants_of_typ {f : Frame} (h : f.typ ≠ fWindowUpdate) (id : Nat) : f.grants id = 0 :=
  if_neg fun hf => h hf.1

theorem dataOn_of_typ {f : Frame} (h : f.typ ≠ fData) (id : Nat) : f.dataOn id = 0 :=
  if_neg fun hf => h hf.1

/-- The bytes of DATA a frame carries on any stream but 0. -/
def Frame.accounted (f : Frame) : Nat := if f.streamId = 0 then 0 else f.dataLength

theorem dataLength_of_typ {f : Frame} (h : f.typ ≠ fData) : f.dataLength = 0 := if_neg h

theorem accounted_of_typ {f : Frame} (h : f.typ ≠ fData) : f.accounted = 0 := by
  rw [Frame.accounted, dataLength_of_typ h, ite_self]

/-- What frames add to the window of `id`. -/
def granted (id : Nat) (fs : List Frame) : Nat := Base.total (Frame.grants id) fs

theorem granted_of_typ {fs : List Frame} (h : ∀ g ∈ fs, g.typ ≠ fWindowUpdate) (id : Nat) :
    granted id fs = 0 :=
  Base.total_eq_zero fun g hg => grants_of_typ (h g hg) id

theorem granted_append (id : Nat) (fs fs' : List Frame) :
    granted id (fs ++ fs') = granted id fs + granted id fs' := Base.total_append _ fs fs'

/-! ## Receive windows -/

/-- A receive window as it is between frames: at least half of it is open. -/
structure RecvWindow.Open (w : RecvWindow) : Prop where
  initial : w.initial = ourInitialWindow
  low : 32767 ≤ w.available
  high : w.available ≤ 65535

/-- An update that was sent for `id`. -/
def Frame.IsUpdate (id : Nat) (g : Frame) : Prop :=
  g.typ = fWindowUpdate ∧ g.streamId = id ∧ g.payload.length = 4 ∧
    0 < fromBeBytes g.payload ∧ fromBeBytes g.payload < 2 ^ 31

theorem Frame.IsUpdate.grants {id j : Nat} {g : Frame} (h : g.IsUpdate id) :
    g.grants j = if id = j then g.increment else 0 := by
  obtain ⟨htyp, rfl, -⟩ := h
  rw [Frame.grants]
  simp only [htyp, true_and]

/-- `replenish` opens the window again, by an update for what it adds. -/
theorem RecvWindow.replenish_open {w : RecvWindow} (hinit : w.initial = ourInitialWindow)
    (hlow : 0 ≤ w.available) (hhigh : w.available ≤ 65535) (id : Nat) :
    (w.replenish id).2.Open ∧ (∀ g ∈ (w.replenish id).1.toList, g.IsUpdate id) ∧
      (w.replenish id).2.available =
        w.available + (granted id (w.replenish id).1.toList : Nat) := by
  have hour : ourInitialWindow = 65535 := rfl
  unfold RecvWindow.replenish
  split
  · next hless =>
      have hinc : ((w.initial - w.available).toNat % 2 ^ 32) % 2 ^ 31 =
          (w.initial - w.available).toNat := by omega
      have hbytes : fromBeBytes (toBeBytes (w.initial - w.available).toNat) =
          (w.initial - w.available).toNat := fromBeBytes_toBeBytes (by omega)
      have hupdate : (windowUpdateFrame id ((w.initial - w.available).toNat % 2 ^ 32)).IsUpdate
          id := by
        refine ⟨rfl, rfl, rfl, ?_⟩
        simp only [windowUpdateFrame, hinc, hbytes]
        omega
      refine ⟨⟨hinit, by simp only; omega, by simp only; omega⟩, ?_, ?_⟩
      · intro g hg
        rw [Option.toList_some, List.mem_singleton] at hg
        exact hg ▸ hupdate
      · have hgrants : (windowUpdateFrame id ((w.initial - w.available).toNat % 2 ^ 32)).grants id =
            (w.initial - w.available).toNat := by
          rw [hupdate.grants, if_pos rfl, Frame.increment]
          simp only [windowUpdateFrame, hinc, hbytes]
          omega
        simp only [Option.toList_some, granted, Base.total_cons, Base.total_nil, hgrants]
        omega
  · next hmore =>
      refine ⟨⟨hinit, by simp only; omega, hhigh⟩, nofun, ?_⟩
      simp [granted]

/-! ## Writing -/

theorem writeFrame_written {w w' : Sink} {f : Frame} (h : writeFrame w f = (.ok (), w')) :
    w'.written = w.written ++ f.bytes := by
  unfold writeFrame at h
  split at h
  · cases h
  have htakes : Takes w f.bytes (Sink.andThen (w.writeAll (frameHeader f)) fun w =>
      if f.payload.isEmpty then (.ok (), w) else w.writeAll f.payload) := by
    refine (takes_writeAll w (frameHeader f)).andThen fun w' => ?_
    split
    · next hempty =>
        rw [List.isEmpty_iff.mp hempty]
        exact takes_nil w'
    · exact takes_writeAll w' f.payload
  rw [h] at htakes
  rcases htakes with ⟨-, hwritten⟩ | ⟨kind, sent, hres, -⟩
  · exact hwritten
  · cases hres

theorem flush_written {w w' : Sink} {res : Result Unit} (h : w.flush = (res, w')) : w' = w := by
  unfold Sink.flush at h
  split at h
  · exact (Prod.mk.inj h).2.symm
  · exact (Prod.mk.inj h).2.symm

theorem sink_andThen_eq_ok {out : Result Unit × Sink} {next : Sink → Result Unit × Sink}
    {w' : Sink} (h : Sink.andThen out next = (.ok (), w')) :
    ∃ w, out = (.ok (), w) ∧ next w = (.ok (), w') := by
  obtain ⟨res, w⟩ := out
  cases res with
  | error e => cases h
  | ok u => exact ⟨w, rfl, h⟩

theorem writeFrameFlush_written {w w' : Sink} {f : Frame}
    (h : writeFrameFlush w f = (.ok (), w')) : w'.written = w.written ++ f.bytes := by
  obtain ⟨w₁, hwrite, hflush⟩ := sink_andThen_eq_ok h
  rw [flush_written hflush]
  exact writeFrame_written hwrite

theorem writeUpdate_written {w w' : Sink} {upd : Option Frame}
    (h : Connection.writeUpdate w upd = (.ok (), w')) :
    w'.written = w.written ++ upd.toList.flatMap Frame.bytes := by
  cases upd with
  | none =>
      obtain rfl := (Prod.mk.inj h).2
      rw [Option.toList_none, List.flatMap_nil, List.append_nil]
  | some f =>
      rw [Option.toList_some, List.flatMap_singleton]
      exact writeFrame_written h

theorem writeFrames_written {w w' : Sink} {fs : List Frame} (h : writeFrames w fs = (.ok (), w')) :
    w'.written = w.written ++ fs.flatMap Frame.bytes := by
  induction fs generalizing w with
  | nil =>
      obtain rfl := (Prod.mk.inj h).2
      rw [List.flatMap_nil, List.append_nil]
  | cons f fs ih =>
      obtain ⟨w₁, hwrite, hrest⟩ := sink_andThen_eq_ok h
      rw [ih hrest, writeFrame_written hwrite, List.flatMap_cons, List.append_assoc]

theorem afterWrite_eq_ok {c c' : Connection} {out : Result Unit × Sink} {o o' : DispatchOutcome}
    (h : c.afterWrite out o = (.ok o', c')) : out.1 = .ok () ∧ c' = c.setSink out.2 := by
  obtain ⟨hres, hc⟩ := Prod.mk.inj h
  obtain ⟨u, hu, -⟩ := Result.map_eq_ok hres
  exact ⟨hu, hc.symm⟩

/-! ## A handled frame -/

/-- The windows of the stream `id` through the frame `f`. -/
structure StreamFlows (c : Connection) (f : Frame) (c' : Connection) (id : Nat)
    (s s' : Stream) : Prop where
  send : s.sendWindow.initialPeerWindow = c.peer.initialWindowSize →
    s'.sendWindow.initialPeerWindow = c'.peer.initialWindowSize ∧
      s'.sendWindow.available = s.sendWindow.available +
        (c'.peer.initialWindowSize - c.peer.initialWindowSize) + f.grants id
  sendMax : s.sendWindow.available ≤ windowMax → s'.sendWindow.available ≤ windowMax
  recv : s.recvWindow.Open → f.dataOn id ≤ s.recvWindow.available ∧ s'.recvWindow.Open ∧
    s'.recvWindow.available = s.recvWindow.available - f.dataOn id + granted id (c.answers f)

/-- Windows and output through a frame `f` that is handled. -/
structure Flows (c : Connection) (f : Frame) (c' : Connection) : Prop where
  written : c'.tls.sink.written = c.tls.sink.written ++ (c.answers f).flatMap Frame.bytes
  send : c'.connSendWindow.available = c.connSendWindow.available + f.grants 0
  sendMax : c.connSendWindow.available ≤ windowMax → c'.connSendWindow.available ≤ windowMax
  recv : c.connRecvWindow.Open →
    f.accounted ≤ c.connRecvWindow.available ∧ c'.connRecvWindow.Open ∧
      c'.connRecvWindow.available =
        c.connRecvWindow.available - f.accounted + granted 0 (c.answers f)
  updates : c.connRecvWindow.Open →
    (∀ s, c.streams.lookup f.streamId = some s → s.recvWindow.Open) →
      ∀ g ∈ c.answers f, g.typ = fWindowUpdate → ∃ id, g.IsUpdate id
  streams : ∀ ⦃id s'⦄, id ≠ 0 → c'.streams.lookup id = some s' →
    ∃ s, c.streams.lookup id = some s ∧ StreamFlows c f c' id s s'

/-- No window changes. -/
structure KeepsWindows (c c' : Connection) : Prop where
  peer : c'.peer = c.peer
  send : c'.connSendWindow = c.connSendWindow
  recv : c'.connRecvWindow = c.connRecvWindow
  streams : ∀ ⦃id s'⦄, c'.streams.lookup id = some s' →
    ∃ s, c.streams.lookup id = some s ∧ s'.sendWindow = s.sendWindow ∧
      s'.recvWindow = s.recvWindow

theorem KeepsWindows.refl (c : Connection) : KeepsWindows c c :=
  ⟨rfl, rfl, rfl, fun _ s hs => ⟨s, hs, rfl, rfl⟩⟩

/-- Replacing a stream by one with the same windows. -/
theorem keepsWindows_of_insert {c c' : Connection} {id : Nat} {s s' : Stream}
    (hs : c.streams.lookup id = some s) (hstreams : c'.streams = c.streams.insert id s')
    (hsend : s'.sendWindow = s.sendWindow) (hrecv : s'.recvWindow = s.recvWindow)
    (hpeer : c'.peer = c.peer) (hconn : c'.connSendWindow = c.connSendWindow)
    (hconn' : c'.connRecvWindow = c.connRecvWindow) : KeepsWindows c c' where
  peer := hpeer
  send := hconn
  recv := hconn'
  streams j t ht := by
    rw [hstreams] at ht
    by_cases hj : j = id
    · subst hj
      rw [AList.lookup_insert] at ht
      obtain rfl := Option.some.inj ht
      exact ⟨s, hs, hsend, hrecv⟩
    · rw [AList.lookup_insert_ne hj] at ht
      exact ⟨t, ht, rfl, rfl⟩

section

variable {c c' : Connection} {f : Frame}

theorem KeepsWindows.flows (h : KeepsWindows c c')
    (hwritten : c'.tls.sink.written = c.tls.sink.written ++ (c.answers f).flatMap Frame.bytes)
    (hanswers : ∀ g ∈ c.answers f, g.typ ≠ fWindowUpdate) (hgrants : f.grants 0 = 0)
    (hgrants' : ∀ id s, id ≠ 0 → c'.streams.lookup id = some s → f.grants id = 0)
    (hdata : f.accounted = 0) : Flows c f c' where
  written := hwritten
  send := by rw [h.send, hgrants, Nat.cast_zero, Int.add_zero]
  sendMax hmax := by rwa [h.send]
  recv hopen := by
    rw [h.recv, hdata, granted_of_typ hanswers]
    have hlow := hopen.low
    exact ⟨by omega, hopen, by omega⟩
  updates _ _ g hg htyp := absurd htyp (hanswers g hg)
  streams id s' hid hs' := by
    obtain ⟨s, hs, hsend, hrecv⟩ := h.streams hs'
    have hlen : f.dataOn id = 0 := by
      by_cases hf : f.typ = fData ∧ f.streamId = id
      · have hzero := hdata
        rw [Frame.accounted, if_neg (hf.2 ▸ hid), Frame.dataLength, if_pos hf.1] at hzero
        rw [Frame.dataOn, if_pos hf, hzero]
      · exact if_neg hf
    refine ⟨s, hs, ?_, fun hmax => by rwa [hsend], ?_⟩
    · intro hbasis
      rw [hsend, h.peer, hgrants' id s' hid hs']
      exact ⟨hbasis, by omega⟩
    · intro hopen
      rw [hrecv, hlen, granted_of_typ hanswers]
      have hlow := hopen.low
      exact ⟨by omega, hopen, by omega⟩

/-! ### Frames that change no window -/

theorem headers_keepsWindows {res : Result DispatchOutcome} (h : c.processHeaders f = (res, c')) :
    KeepsWindows c c' ∧ c'.tls = c.tls := by
  obtain rfl := congrArg Prod.snd h
  clear h
  unfold Connection.processHeaders
  split
  · exact ⟨.refl c, rfl⟩
  simp only
  split
  · exact ⟨.refl c, rfl⟩
  next s hs =>
  split
  · unfold Connection.headersOnClosed
    split
    · split <;> exact ⟨⟨rfl, rfl, rfl, (KeepsWindows.refl c).streams⟩, rfl⟩
    · split
      · exact ⟨.refl c, rfl⟩
      · next hpush =>
          obtain rfl := pushHeaderFragment_eq_ok hpush
          exact ⟨keepsWindows_of_insert hs rfl rfl rfl rfl rfl rfl, rfl⟩
  split
  · exact ⟨.refl c, rfl⟩
  split
  · exact ⟨.refl c, rfl⟩
  next s' hpush =>
  obtain rfl := pushHeaderFragment_eq_ok hpush
  generalize hnoted : (if f.has flagEndStream then
    ({ s with headersBuf := s.headersBuf ++ _, endStreamRecv := true } : Stream)
    else { s with headersBuf := s.headersBuf ++ _ }) = s₁
  have hsame : s₁.sendWindow = s.sendWindow ∧ s₁.recvWindow = s.recvWindow := by
    rw [← hnoted]
    split <;> exact ⟨rfl, rfl⟩
  split
  · split <;> exact ⟨keepsWindows_of_insert hs rfl hsame.1 hsame.2 rfl rfl rfl, rfl⟩
  · exact ⟨keepsWindows_of_insert hs rfl hsame.1 hsame.2 rfl rfl rfl, rfl⟩

theorem continuation_keepsWindows {res : Result DispatchOutcome}
    (h : c.processContinuation f = (res, c')) : KeepsWindows c c' ∧ c'.tls = c.tls := by
  obtain rfl := congrArg Prod.snd h
  clear h
  unfold Connection.processContinuation
  simp only
  split
  · exact ⟨.refl c, rfl⟩
  split
  · exact ⟨.refl c, rfl⟩
  next s hs =>
  split
  · exact ⟨.refl c, rfl⟩
  next s' hpush =>
  obtain rfl := pushHeaderFragment_eq_ok hpush
  split
  · split
    · exact ⟨keepsWindows_of_insert hs rfl rfl rfl rfl rfl rfl, rfl⟩
    · next decoded _ _ =>
        refine ⟨keepsWindows_of_insert hs rfl ?_ ?_ rfl rfl rfl, rfl⟩
        · split <;> rfl
        · split <;> rfl
  · exact ⟨keepsWindows_of_insert hs rfl rfl rfl rfl rfl rfl, rfl⟩

theorem goaway_keepsWindows (c : Connection) (f : Frame) : KeepsWindows c (c.processGoaway f) where
  peer := rfl
  send := rfl
  recv := rfl
  streams id s' hs' := by
    rw [Connection.processGoaway, Base.Table.lookup_mapValues] at hs'
    obtain ⟨s, hs, rfl⟩ := Option.map_eq_some_iff.mp hs'
    refine ⟨s, hs, ?_⟩
    generalize (if 4 ≤ f.payload.length then _ else 0 : Nat) = last
    split <;> exact ⟨rfl, rfl⟩

/-- RST_STREAM is handled without an error only where nothing is left to reset. -/
theorem processRst_eq_ok {o : DispatchOutcome} (h : c.processRst f = (.ok o, c')) : c' = c := by
  unfold Connection.processRst at h
  simp only at h
  split at h
  · exact (Prod.mk.inj h).2.symm
  split at h
  · exact (Prod.mk.inj h).2.symm
  split at h
  · cases h
  · cases h

/-! ### Frames that change the send windows -/

theorem shiftSendWindows_eq_ok {newInitial : Nat} {streams : Streams}
    (h : c.shiftSendWindows newInitial = (.ok (), streams)) {id : Nat} {s' : Stream}
    (hs' : streams.lookup id = some s') :
    ∃ s, c.streams.lookup id = some s ∧ s'.recvWindow = s.recvWindow ∧
      (s.sendWindow.initialPeerWindow = c.peer.initialWindowSize →
        s'.sendWindow.initialPeerWindow = newInitial ∧
        s'.sendWindow.available =
          s.sendWindow.available + (newInitial - c.peer.initialWindowSize)) ∧
      (s.sendWindow.available ≤ windowMax → s'.sendWindow.available ≤ windowMax) := by
  unfold Connection.shiftSendWindows at h
  split at h
  · obtain ⟨hok, rfl⟩ := Prod.mk.inj h
    obtain ⟨s, hs, hupd⟩ := Base.Table.lookup_mapUntil_of_ok hok hs'
    obtain ⟨w, hw, hv⟩ := Result.bind_eq_ok.mp hupd
    obtain rfl := Except.ok.inj hv
    unfold StreamSendWindow.applyInitialWindowChange at hw
    simp only at hw
    split at hw
    · cases hw
    next hmax =>
    obtain rfl := Except.ok.inj hw
    refine ⟨s, hs, rfl, ?_, fun _ => Int.not_lt.mp hmax⟩
    intro hbasis
    exact ⟨rfl, by rw [hbasis]⟩
  · next hsame =>
      obtain ⟨-, rfl⟩ := Prod.mk.inj h
      refine ⟨s', hs', rfl, ?_, fun hle => hle⟩
      intro hbasis
      rw [hbasis, not_not.mp hsame]
      exact ⟨rfl, by omega⟩

theorem settings_flows {o : DispatchOutcome} (hsets : f.setsPeer)
    (h : c.processSettings f = (.ok o, c')) : Flows c f c' := by
  obtain ⟨hid, htyp, hack⟩ := hsets
  have hanswers : c.answers f =
      [{ typ := fSettings, flags := flagAck, streamId := 0, payload := [] }] := by
    simp only [Connection.answers, hid, htyp, hack, if_true, Bool.false_eq_true, if_false]
  have hne : f.typ ≠ fWindowUpdate ∧ f.typ ≠ fData := by
    rw [htyp]
    decide
  have hnone : ∀ g ∈ c.answers f, g.typ ≠ fWindowUpdate := by
    intro g hg
    rw [hanswers] at hg
    rw [List.mem_singleton.mp hg]
    exact (by decide : fSettings ≠ fWindowUpdate)
  unfold Connection.processSettings at h
  split at h
  · cases h
  next peer _ =>
  split at h
  · cases h
  next streams hshift =>
  obtain ⟨hwrite, rfl⟩ := afterWrite_eq_ok h
  have hwritten := writeFrameFlush_written (Prod.ext hwrite rfl)
  refine ⟨?_, ?_, id, ?_, fun _ _ g hg hgtyp => absurd hgtyp (hnone g hg), ?_⟩
  · rw [hanswers, List.flatMap_singleton]
    exact hwritten
  · rw [grants_of_typ hne.1, Nat.cast_zero, Int.add_zero]
    rfl
  · intro hopen
    rw [accounted_of_typ hne.2, granted_of_typ hnone]
    have hlow := hopen.low
    refine ⟨by omega, hopen, ?_⟩
    show c.connRecvWindow.available = _
    omega
  · intro id s' _ hs'
    obtain ⟨s, hs, hrecv, hsend, hmax⟩ := shiftSendWindows_eq_ok hshift hs'
    refine ⟨s, hs, ?_, hmax, ?_⟩
    · intro hbasis
      obtain ⟨hnow, havail⟩ := hsend hbasis
      refine ⟨hnow, ?_⟩
      rw [grants_of_typ hne.1, havail, Nat.cast_zero, Int.add_zero]
      rfl
    · intro hopen
      rw [hrecv, dataOn_of_typ hne.2, granted_of_typ hnone]
      have hlow := hopen.low
      exact ⟨by omega, hopen, by omega⟩

theorem applyWindowUpdate_eq_ok {available available' : Int} {increment : Nat} {z o : String}
    (h : applyWindowUpdate available increment z o = .ok available') :
    available' = available + increment ∧ available' ≤ windowMax := by
  unfold applyWindowUpdate at h
  split at h
  · cases h
  split at h
  · cases h
  · next hmax =>
      obtain rfl := Except.ok.inj h
      exact ⟨rfl, Int.not_lt.mp hmax⟩

theorem parseWindowUpdate_eq_ok {payload : Bytes} {inc : Nat}
    (h : parseWindowUpdate payload = .ok inc) : inc = fromBeBytes payload % 2 ^ 31 := by
  unfold parseWindowUpdate at h
  split at h
  · cases h
  · exact (Except.ok.inj h).symm

theorem answers_of_typ (h : f.typ ≠ fSettings ∧ f.typ ≠ fPing ∧ f.typ ≠ fData) :
    c.answers f = [] := by
  unfold Connection.answers
  rw [if_neg h.1, if_neg h.2.1, if_neg h.2.2, ite_self]

/-- WINDOW_UPDATE for the connection. -/
theorem connUpdate_flows {w : ConnSendWindow} (hid : f.streamId = 0) (htyp : f.typ = fWindowUpdate)
    (h : (parseWindowUpdate f.payload).bind c.connSendWindow.applyWindowUpdate = .ok w) :
    Flows c f { c with connSendWindow := w } := by
  have hne : f.typ ≠ fSettings ∧ f.typ ≠ fPing ∧ f.typ ≠ fData := by
    rw [htyp]
    decide
  have hanswers := answers_of_typ (c := c) hne
  obtain ⟨inc, hinc, hw⟩ := Result.bind_eq_ok.mp h
  obtain rfl := parseWindowUpdate_eq_ok hinc
  obtain ⟨available, hav, hw'⟩ := Result.bind_eq_ok.mp hw
  obtain rfl := Except.ok.inj hw'
  obtain ⟨hsum, hmax⟩ := applyWindowUpdate_eq_ok hav
  have hgrants : f.grants 0 = f.increment := if_pos ⟨htyp, hid⟩
  have hother : ∀ id, id ≠ 0 → f.grants id = 0 := by
    intro id hne
    exact if_neg fun hf => hne (hf.2.symm.trans hid)
  refine ⟨by rw [hanswers, List.flatMap_nil, List.append_nil], ?_, fun _ => hmax, ?_, ?_, ?_⟩
  · rw [hgrants]
    exact hsum
  · intro hopen
    rw [hanswers, accounted_of_typ hne.2.2]
    have hlow := hopen.low
    refine ⟨by omega, hopen, ?_⟩
    simp [granted]
  · intro _ _ g hg
    rw [hanswers] at hg
    cases hg
  · intro id s' hid' hs'
    refine ⟨s', hs', ?_, fun hle => hle, ?_⟩
    · intro hbasis
      rw [hother id hid']
      exact ⟨hbasis, by simp⟩
    · intro hopen
      rw [hanswers, dataOn_of_typ hne.2.2]
      have hlow := hopen.low
      exact ⟨by omega, hopen, by simp [granted]⟩

/-- WINDOW_UPDATE for a stream. -/
theorem streamUpdate_flows {o : DispatchOutcome} (hid : f.streamId ≠ 0)
    (htyp : f.typ = fWindowUpdate) (h : c.processStreamWindowUpdate f = (.ok o, c')) :
    Flows c f c' := by
  have hne : f.typ ≠ fSettings ∧ f.typ ≠ fPing ∧ f.typ ≠ fData := by
    rw [htyp]
    decide
  have hanswers := answers_of_typ (c := c) hne
  have hnone : ∀ g ∈ c.answers f, g.typ ≠ fWindowUpdate := by
    intro g hg
    rw [hanswers] at hg
    cases hg
  have hzero : f.grants 0 = 0 := if_neg fun hf => hid hf.2
  unfold Connection.processStreamWindowUpdate at h
  split at h
  · cases h
  next inc hinc =>
  obtain rfl := parseWindowUpdate_eq_ok hinc
  split at h
  · next hs =>
      obtain rfl := (Prod.mk.inj h).2
      refine (KeepsWindows.refl c).flows (by rw [hanswers, List.flatMap_nil, List.append_nil])
        hnone hzero ?_ (accounted_of_typ hne.2.2)
      intro id s _ hs'
      refine if_neg fun hf => ?_
      rw [← hf.2, hs] at hs'
      cases hs'
  next s hs =>
  split at h
  · cases h
  next w hw =>
  obtain rfl := (Prod.mk.inj h).2
  obtain ⟨available, hav, hw'⟩ := Result.bind_eq_ok.mp hw
  obtain rfl := Except.ok.inj hw'
  obtain ⟨hsum, hmax⟩ := applyWindowUpdate_eq_ok hav
  have hrecv : ∀ id (t : Stream), t.recvWindow.Open → f.dataOn id ≤ t.recvWindow.available ∧
      t.recvWindow.Open ∧ t.recvWindow.available =
        t.recvWindow.available - f.dataOn id + granted id (c.answers f) := by
    intro id t hopen
    rw [hanswers, dataOn_of_typ hne.2.2]
    have hlow := hopen.low
    exact ⟨by omega, hopen, by simp [granted]⟩
  refine ⟨by rw [hanswers, List.flatMap_nil, List.append_nil]; rfl, ?_, fun hle => hle, ?_, ?_, ?_⟩
  · rw [hzero, Nat.cast_zero, Int.add_zero]
    rfl
  · intro hopen
    rw [hanswers, accounted_of_typ hne.2.2]
    have hlow := hopen.low
    exact ⟨by omega, hopen, by simp [granted, Connection.setStream]⟩
  · intro _ _ g hg hgtyp
    exact absurd hgtyp (hnone g hg)
  · intro id s' _ hs'
    by_cases hj : id = f.streamId
    · subst hj
      rw [Connection.setStream, AList.lookup_insert] at hs'
      obtain rfl := Option.some.inj hs'
      refine ⟨s, hs, ?_, fun _ => hmax, hrecv _ s⟩
      intro hbasis
      refine ⟨hbasis, ?_⟩
      have hgrants : f.grants f.streamId = f.increment := if_pos ⟨htyp, rfl⟩
      rw [hgrants]
      show available = _
      rw [hsum]
      simp [Connection.setStream, Frame.increment]
    · rw [Connection.setStream, AList.lookup_insert_ne hj] at hs'
      refine ⟨s', hs', ?_, fun hle => hle, hrecv _ s'⟩
      intro hbasis
      have hgrants : f.grants id = 0 := if_neg fun hf => hj hf.2.symm
      rw [hgrants]
      exact ⟨hbasis, by simp [Connection.setStream]⟩

/-! ### DATA -/

theorem replenish_stream {w : RecvWindow} {id : Nat} {g : Frame}
    (h : g ∈ (w.replenish id).1.toList) : g.streamId = id := by
  unfold RecvWindow.replenish at h
  split at h
  · rw [Option.toList_some, List.mem_singleton] at h
    rw [h]
    rfl
  · cases h

theorem granted_replenish (w : RecvWindow) {id j : Nat} (hj : id ≠ j) :
    granted j (w.replenish id).1.toList = 0 :=
  Base.total_eq_zero fun _ hg => if_neg fun hf => hj ((replenish_stream hg).symm.trans hf.2)

theorem replenish_none {w w' : RecvWindow} {id : Nat} (h : w.replenish id = (none, w')) :
    w' = w := by
  unfold RecvWindow.replenish at h
  split at h
  · cases h
  · exact (Prod.mk.inj h).2.symm

/-- The stream after DATA with `payload` on it. -/
def Stream.withData (s : Stream) (f : Frame) (payload : Bytes) (state : StreamState) : Stream :=
  { s with
    recvWindow := ((s.recvWindow.consume f.payload.length).replenish f.streamId).2
    body := s.body ++ payload
    endStreamRecv := s.endStreamRecv || f.has flagEndStream
    state }

/-- What DATA that is handled has done: taken from a window, and from that of its stream if it
has one. -/
inductive TakesData (c : Connection) (f : Frame) (o : DispatchOutcome) (c' : Connection) : Prop
  | unknown (hs : c.streams.lookup f.streamId = none) (ho : o = .cont)
      (hstreams : c'.streams = c.streams)
  | known {s : Stream} {payload : Bytes} {state : StreamState}
      (hs : c.streams.lookup f.streamId = some s) (hopen : s.state ≠ .closed)
      (hstate : s.state.recvData (f.has flagEndStream) = .ok state)
      (hroom : 0 ≤ (s.recvWindow.consume f.payload.length).available)
      (hpayload : Connection.dataPayload f = .ok payload)
      (hsize : s.body.length + payload.length ≤ maxResponseBytes)
      (ho : o = (s.withData f payload state).outcome f.streamId)
      (hstreams : c'.streams = c.streams.insert f.streamId (s.withData f payload state))

/-- The rest of a connection through DATA that is handled. -/
structure TakesConn (c : Connection) (f : Frame) (c' : Connection) : Prop where
  room : 0 ≤ (c.connRecvWindow.consume f.payload.length).available
  window : c'.connRecvWindow = ((c.connRecvWindow.consume f.payload.length).replenish 0).2
  written : c'.tls.sink.written = c.tls.sink.written ++
    (((c.connRecvWindow.consume f.payload.length).replenish 0).1.toList ++
      match c.streams.lookup f.streamId with
      | none => []
      | some s => ((s.recvWindow.consume f.payload.length).replenish f.streamId).1.toList).flatMap
        Frame.bytes
  peer : c'.peer = c.peer
  send : c'.connSendWindow = c.connSendWindow

theorem replenishBoth_eq_ok {id : Nat} {s : Stream} {o : DispatchOutcome}
    (h : c.replenishBoth id s = (.ok o, c')) :
    c'.connRecvWindow = (c.connRecvWindow.replenish 0).2 ∧
      c'.tls.sink.written = c.tls.sink.written ++ ((c.connRecvWindow.replenish 0).1.toList ++
        (s.recvWindow.replenish id).1.toList).flatMap Frame.bytes ∧
      c'.peer = c.peer ∧ c'.connSendWindow = c.connSendWindow ∧
      c'.streams = c.streams.insert id { s with recvWindow := (s.recvWindow.replenish id).2 } ∧
      o = ({ s with recvWindow := (s.recvWindow.replenish id).2 } : Stream).outcome id := by
  unfold Connection.replenishBoth at h
  simp only at h
  split at h
  · cases h
  next sink hfirst =>
  have ho := congrArg Prod.fst h
  obtain ⟨hwrite, rfl⟩ := afterWrite_eq_ok h
  obtain ⟨u, -, ho⟩ := Result.map_eq_ok ho
  obtain ⟨sink', hsecond, hflush⟩ := sink_andThen_eq_ok (Prod.ext hwrite rfl)
  refine ⟨rfl, ?_, rfl, rfl, rfl, ho.symm⟩
  rw [List.flatMap_append, ← List.append_assoc, ← writeUpdate_written hfirst,
    ← writeUpdate_written hsecond]
  exact congrArg Sink.written (flush_written hflush)

theorem processData_eq_ok {o : DispatchOutcome} (h : c.processData f = (.ok o, c')) :
    TakesConn c f c' ∧ TakesData c f o c' := by
  unfold Connection.processData at h
  simp only at h
  split at h
  · cases h
  next hroom =>
  have hroom : 0 ≤ (c.connRecvWindow.consume f.payload.length).available := Int.not_lt.mp hroom
  split at h
  · next hs =>
      split at h
      · next upd w hupd =>
          have ho := congrArg Prod.fst h
          obtain ⟨hwrite, rfl⟩ := afterWrite_eq_ok h
          obtain ⟨u, -, ho⟩ := Result.map_eq_ok ho
          have hwritten := writeFrameFlush_written (Prod.ext hwrite rfl)
          refine ⟨⟨hroom, by rw [hupd]; rfl, ?_, rfl, rfl⟩, .unknown hs ho.symm rfl⟩
          rw [hupd, hs, Option.toList_some, List.append_nil, List.flatMap_singleton]
          exact hwritten
      · next w hupd =>
          obtain ⟨ho, rfl⟩ := Prod.mk.inj h
          obtain rfl := replenish_none hupd
          refine ⟨⟨hroom, by rw [hupd], ?_, rfl, rfl⟩, .unknown hs (Except.ok.inj ho).symm rfl⟩
          rw [hupd, hs, Option.toList_none, List.nil_append, List.flatMap_nil, List.append_nil]
  next s hs =>
  split at h
  · cases h
  next hopen =>
  split at h
  · cases h
  next state hstate =>
  split at h
  · cases h
  next hroom' =>
  split at h
  · cases h
  next payload hpayload =>
  split at h
  · cases h
  next hsize =>
  obtain ⟨hwindow, hwritten, hpeer, hsend, hstreams, ho⟩ := replenishBoth_eq_ok h
  refine ⟨⟨hroom, hwindow, ?_, hpeer, hsend⟩, .known hs hopen hstate (Int.not_lt.mp hroom')
    hpayload (Nat.not_lt.mp hsize) ho hstreams⟩
  rw [hs]
  exact hwritten

/-- A receive window that is open takes what it has room for, and is opened again. -/
theorem RecvWindow.Open.consume {w : RecvWindow} (h : w.Open) {n : Nat}
    (hroom : 0 ≤ (w.consume n).available) (id : Nat) :
    n ≤ w.available ∧ ((w.consume n).replenish id).2.Open ∧
      (∀ g ∈ ((w.consume n).replenish id).1.toList, g.IsUpdate id) ∧
      ((w.consume n).replenish id).2.available = w.available - n +
        (granted id ((w.consume n).replenish id).1.toList : Nat) := by
  have hhigh := h.high
  have hle : 0 ≤ w.available - n := hroom
  have hinit : (w.consume n).initial = ourInitialWindow := h.initial
  refine ⟨by omega, RecvWindow.replenish_open hinit hroom ?_ id⟩
  show w.available - n ≤ 65535
  omega

theorem data_flows {o : DispatchOutcome} (hid : f.streamId ≠ 0) (htyp : f.typ = fData)
    (h : c.processData f = (.ok o, c')) : Flows c f c' := by
  have hne : f.typ ≠ fWindowUpdate := by
    rw [htyp]
    decide
  have hset : fData ≠ fSettings ∧ fData ≠ fPing := by decide
  have hlen : f.accounted = f.payload.length := by
    rw [Frame.accounted, if_neg hid, Frame.dataLength, if_pos htyp]
  have hanswers : c.answers f =
      ((c.connRecvWindow.consume f.payload.length).replenish 0).1.toList ++
        match c.streams.lookup f.streamId with
        | none => []
        | some s => ((s.recvWindow.consume f.payload.length).replenish f.streamId).1.toList := by
    unfold Connection.answers
    exact (if_neg hid).trans (if_pos htyp)
  obtain ⟨hconn, hdata⟩ := processData_eq_ok h
  refine ⟨?_, ?_, ?_, ?_, ?_, ?_⟩
  · rw [hanswers]
    exact hconn.written
  · rw [hconn.send, grants_of_typ hne, Nat.cast_zero, Int.add_zero]
  · rw [hconn.send]
    exact fun hle => hle
  · intro hopen
    obtain ⟨hle, hopen', -, havail⟩ := hopen.consume hconn.room 0
    have hzero : granted 0 (match c.streams.lookup f.streamId with
        | none => []
        | some s => ((s.recvWindow.consume f.payload.length).replenish f.streamId).1.toList) =
          0 := by
      split
      · rfl
      · exact granted_replenish _ hid
    rw [hlen, hconn.window, hanswers, granted_append, hzero, Nat.add_zero]
    exact ⟨hle, hopen', havail⟩
  · intro hopen hopens g hg _
    rw [hanswers] at hg
    rcases List.mem_append.mp hg with hg | hg
    · exact ⟨0, (hopen.consume hconn.room 0).2.2.1 g hg⟩
    · cases hdata with
      | unknown hs =>
          rw [hs] at hg
          cases hg
      | known hs _ _ hroom =>
          rw [hs] at hg
          exact ⟨f.streamId, ((hopens _ hs).consume hroom f.streamId).2.2.1 g hg⟩
  · intro id s' hne' hs'
    have hzero := granted_replenish (c.connRecvWindow.consume f.payload.length) hne'.symm
    have hother : ∀ t : Stream, f.streamId ≠ id → StreamFlows c f c' id t t := by
      intro t hj
      have hnone : f.dataOn id = 0 := if_neg fun hf => hj hf.2
      have hupd : granted id (match c.streams.lookup f.streamId with
          | none => []
          | some s => ((s.recvWindow.consume f.payload.length).replenish f.streamId).1.toList) =
            0 := by
        split
        · rfl
        · exact granted_replenish _ hj
      refine ⟨?_, fun hle => hle, ?_⟩
      · intro hbasis
        rw [hconn.peer, grants_of_typ hne]
        exact ⟨hbasis, by omega⟩
      · intro hwin
        have hlow := hwin.low
        rw [hanswers, granted_append, hzero, hupd, hnone]
        exact ⟨by omega, hwin, by omega⟩
    cases hdata with
    | unknown hs _ hstreams =>
        rw [hstreams] at hs'
        refine ⟨s', hs', hother s' ?_⟩
        rintro rfl
        cases hs.symm.trans hs'
    | @known s payload state hs _ _ hroom _ _ _ hstreams =>
        rw [hstreams] at hs'
        by_cases hj : id = f.streamId
        · subst hj
          rw [AList.lookup_insert] at hs'
          obtain rfl := Option.some.inj hs'
          refine ⟨s, hs, ?_, fun hle => hle, ?_⟩
          · intro hbasis
            rw [hconn.peer, grants_of_typ hne]
            refine ⟨hbasis, ?_⟩
            show s.sendWindow.available = _
            omega
          · intro hwin
            have htook := hwin.consume hroom f.streamId
            have hdata : f.dataOn f.streamId = f.payload.length := if_pos ⟨htyp, rfl⟩
            rw [hanswers, granted_append, hzero, hs, Nat.zero_add, hdata]
            exact ⟨htook.1, htook.2.1, htook.2.2.2⟩
        · rw [AList.lookup_insert_ne hj] at hs'
          exact ⟨s', hs', hother s' (Ne.symm hj)⟩

/-! ### All of them -/

theorem conn_flows {o : DispatchOutcome} (hid : f.streamId = 0)
    (h : c.processConnFrame f = (.ok o, c')) : Flows c f c' := by
  have hnodata : f.accounted = 0 := if_pos hid
  have hother : ∀ id s, id ≠ 0 → c'.streams.lookup id = some s → f.grants id = 0 := by
    intro id s hne _
    exact if_neg fun hf => hne (hf.2.symm.trans hid)
  have hquiet : f.typ ≠ fWindowUpdate → c.answers f = [] → ∀ {c'}, KeepsWindows c c' →
      c'.tls = c.tls → Flows c f c' := by
    intro htyp hanswers c' hkeeps htls
    refine hkeeps.flows ?_ ?_ (grants_of_typ htyp 0) (fun id _ _ _ => grants_of_typ htyp id) hnodata
    · rw [hanswers, htls, List.flatMap_nil, List.append_nil]
    · rw [hanswers]
      nofun
  unfold Connection.processConnFrame at h
  split at h
  · next htyp =>
      split at h
      · next hack =>
          obtain rfl := (Prod.mk.inj h).2
          refine hquiet (by rw [htyp]; decide) ?_ (.refl c) rfl
          simp only [Connection.answers, hid, htyp, hack, if_true]
      · next hack => exact settings_flows ⟨hid, htyp, Bool.eq_false_iff.mpr hack⟩ h
  next hsettings =>
  split at h
  · next htyp =>
      split at h
      · next hack =>
          obtain rfl := (Prod.mk.inj h).2
          refine hquiet (by rw [htyp]; decide) ?_ (.refl c) rfl
          simp only [Connection.answers, hid, htyp, hack, if_true]
          rfl
      · next hack =>
          obtain ⟨hwrite, rfl⟩ := afterWrite_eq_ok h
          have hanswers : c.answers f =
              [{ typ := fPing, flags := flagAck, streamId := 0, payload := f.payload }] := by
            simp only [Connection.answers, hid, htyp, hack, if_true, Bool.false_eq_true, if_false]
            rfl
          have hne : f.typ ≠ fWindowUpdate := by
            rw [htyp]
            decide
          have hkeeps : KeepsWindows c (c.setSink (writeFrameFlush c.tls.sink
            { typ := fPing, flags := flagAck, streamId := 0, payload := f.payload }).2) :=
            ⟨rfl, rfl, rfl, (KeepsWindows.refl c).streams⟩
          refine hkeeps.flows ?_ ?_ (grants_of_typ hne 0) (fun id _ _ _ => grants_of_typ hne id)
            hnodata
          · rw [hanswers, List.flatMap_singleton]
            exact writeFrameFlush_written (Prod.ext hwrite rfl)
          · intro g hg
            rw [hanswers] at hg
            rw [List.mem_singleton.mp hg]
            exact (by decide : fPing ≠ fWindowUpdate)
  next hping =>
  have hanswers : c.answers f = [] := by
    simp only [Connection.answers, hid, if_neg hsettings, if_neg hping, if_true]
  split at h
  · next htyp =>
      split at h
      · cases h
      · next w hw =>
          obtain rfl := (Prod.mk.inj h).2
          exact connUpdate_flows hid htyp hw
  next hupdate =>
  split at h
  · obtain rfl := (Prod.mk.inj h).2
    exact hquiet hupdate hanswers (goaway_keepsWindows c f) rfl
  · obtain rfl := (Prod.mk.inj h).2
    exact hquiet hupdate hanswers (.refl c) rfl

theorem stream_flows {o : DispatchOutcome} (hid : f.streamId ≠ 0)
    (h : c.processStreamFrame f = (.ok o, c')) : Flows c f c' := by
  have hquiet : f.typ ≠ fWindowUpdate → f.typ ≠ fData → ∀ {c'}, KeepsWindows c c' →
      c'.tls = c.tls → Flows c f c' := by
    intro hupdate hdata c' hkeeps htls
    have hanswers : c.answers f = [] := by
      simp only [Connection.answers, if_neg hid, if_neg hdata]
    refine hkeeps.flows ?_ ?_ (grants_of_typ hupdate 0) (fun id _ _ _ => grants_of_typ hupdate id)
      (accounted_of_typ hdata)
    · rw [hanswers, htls, List.flatMap_nil, List.append_nil]
    · rw [hanswers]
      nofun
  have hne : fHeaders ≠ fWindowUpdate ∧ fHeaders ≠ fData ∧ fContinuation ≠ fWindowUpdate ∧
      fContinuation ≠ fData ∧ fRstStream ≠ fWindowUpdate ∧ fRstStream ≠ fData := by decide
  unfold Connection.processStreamFrame at h
  split at h
  · next htyp =>
      obtain ⟨hkeeps, htls⟩ := headers_keepsWindows h
      exact hquiet (htyp ▸ hne.1) (htyp ▸ hne.2.1) hkeeps htls
  split at h
  · next htyp =>
      obtain ⟨hkeeps, htls⟩ := continuation_keepsWindows h
      exact hquiet (htyp ▸ hne.2.2.1) (htyp ▸ hne.2.2.2.1) hkeeps htls
  split at h
  · next htyp => exact data_flows hid htyp h
  next hdata =>
  split at h
  · next htyp =>
      obtain rfl := processRst_eq_ok h
      exact hquiet (htyp ▸ hne.2.2.2.2.1) hdata (.refl _) rfl
  split at h
  · next htyp => exact streamUpdate_flows hid htyp h
  next hupdate =>
  split at h
  · cases h
  · obtain rfl := (Prod.mk.inj h).2
    exact hquiet hupdate hdata (.refl c) rfl

/-- Windows and output through a frame that is handled. -/
theorem processFrame_flows {o : DispatchOutcome} (h : c.processFrame f = (.ok o, c')) :
    Flows c f c' := by
  unfold Connection.processFrame at h
  split at h
  · split at h
    · next hid => exact conn_flows hid h
    · next hid => exact stream_flows hid h
  · cases h

end

end Rsurl.H2
