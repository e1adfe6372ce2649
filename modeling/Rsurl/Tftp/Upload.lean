/-
# `Rsurl.Tftp.Upload` — a stored file is the client's file

The upload as a system: the client, a server instance behind each transfer id
that a request has opened, and the datagrams sent so far, which may arrive at
any later time, any number of times or never.  An instance accepts the blocks
in order and may acknowledge what it has accepted as often as it likes.

The instance the client listens to is at most the block it waits for ahead of
the client's own count, every other instance has accepted nothing, and a block
on the wire is the piece of the file its number names.  So the acknowledgement
of the short block says that all of them have arrived.
-/
import Rsurl.Tftp.Safety
import Rsurl.Tftp.Store

namespace Rsurl.Tftp

open Base (Trace)

/-! ## The packets are what they carry -/

theorem parseAck_buildAck (block : UInt16) : parseAck (buildAck block) = .ok block := by
  have hop : parseOpcode (buildAck block) = some opAck := parseOpcode_toBeBytes opAck _
  have hcons : buildAck block =
      UInt8.ofNat (opAck.toNat / 256) :: UInt8.ofNat opAck.toNat ::
        UInt8.ofNat (block.toNat / 256) :: UInt8.ofNat block.toNat :: [] := rfl
  rw [hcons] at hop ⊢
  rw [parseAck, if_neg (not_not_intro hop), fromBeBytes_toBeBytes]

theorem buildData_inj {m n : UInt16} {xs ys : Bytes} (h : buildData m xs = buildData n ys) :
    m = n ∧ xs = ys := by
  have hparse := congrArg parseData h
  rw [parseData_buildData, parseData_buildData] at hparse
  exact DataPacket.mk.inj (Except.ok.inj hparse)

theorem buildWrq_ne_buildData (filename : Text) (n : UInt16) (payload : Bytes) :
    buildWrq filename ≠ buildData n payload := by
  intro h
  have hop := congrArg parseOpcode h
  rw [buildWrq, buildRequest, buildData] at hop
  simp only [List.append_assoc, parseOpcode_toBeBytes] at hop
  exact absurd hop (by decide)

/-! ## What an upload has to bring -/

/-- The first `n` blocks of a file. -/
def firstBlocks (file : Bytes) (n : Nat) : List Bytes :=
  (List.range n).map fun k => fileBlock file (k + 1)

@[simp] theorem length_firstBlocks (file : Bytes) (n : Nat) : (firstBlocks file n).length = n := by
  rw [firstBlocks, List.length_map, List.length_range]

theorem firstBlocks_succ (file : Bytes) (n : Nat) :
    firstBlocks file (n + 1) = firstBlocks file n ++ [fileBlock file (n + 1)] := by
  rw [firstBlocks, List.range_succ, List.map_append]
  rfl

theorem flatten_firstBlocks (file : Bytes) (n : Nat) :
    (firstBlocks file n).flatten = file.take (blockSize * n) := by
  induction n with
  | zero => rw [Nat.mul_zero, List.take_zero]; rfl
  | succ n ih =>
      rw [firstBlocks_succ, List.flatten_append, ih, List.flatten_singleton]
      exact take_append_fileBlock file (Nat.succ_le_succ (Nat.zero_le n))

/-- Blocks that are the whole file: full ones, a short one, nothing else. -/
structure Whole (file : Bytes) (blocks : List Bytes) : Prop where
  flatten : blocks.flatten = file
  cut : ∃ front last, blocks = front ++ [last] ∧ (∀ b ∈ front, b.length = blockSize) ∧
    last.length < blockSize

theorem whole_firstBlocks {file : Bytes} {n : Nat}
    (hfull : ∀ k, 1 ≤ k → k ≤ n → (fileBlock file k).length = blockSize)
    (hshort : (fileBlock file (n + 1)).length < blockSize) :
    Whole file (firstBlocks file (n + 1)) where
  flatten := by
    rw [flatten_firstBlocks]
    exact take_eq_of_short (Nat.succ_le_succ (Nat.zero_le n)) hshort
  cut := by
    refine ⟨firstBlocks file n, fileBlock file (n + 1), firstBlocks_succ file n, ?_, hshort⟩
    intro b hb
    obtain ⟨k, hk, rfl⟩ := List.mem_map.mp hb
    exact hfull (k + 1) (Nat.succ_le_succ (Nat.zero_le k)) (List.mem_range.mp hk)

namespace Store

/-! ## The system -/

/-- The client: in the loop, or returned from a turn taken in a state of it. -/
inductive Client where
  | running (s : Store)
  | returned (s : Store) (res : Result Unit)

/-- The whole system.  `instances a` are the blocks the instance at `a` has accepted. -/
structure World where
  client : Client
  instances : Addr → Option (List Bytes)
  toServer : List Sent
  toClient : List Sent

/-- The client takes a turn. -/
def World.turn (server : Addr) (data : Bytes) (w : World) (s : Store) (e : Event) : World :=
  match receive server data s e with
  | .next s' sent => { w with client := .running s', toServer := w.toServer ++ sent }
  | .done res sent => { w with client := .returned s res, toServer := w.toServer ++ sent }

/-- What may arrive at the client: what was sent to it, anything from another address, and,
once it is latched, anything from another transfer id. -/
def Arrives (server : Addr) (w : World) (s : Store) : Event → Prop
  | .datagram pkt src _ =>
      (src, pkt) ∈ w.toClient ∨ src.ip ≠ server.ip ∨ ∃ p, s.peer = some p ∧ src ≠ p
  | .fault _ _ => True

/-- The steps, with what the client receives in them. -/
inductive Step (server : Addr) (data : Bytes) : World → List Event → World → Prop
  | client {w : World} {s : Store} (hrun : w.client = .running s) (e : Event)
      (harr : Arrives server w s e) : Step server data w [e] (w.turn server data s e)
  /-- A request opens an instance under a fresh transfer id. -/
  | openInstance {w : World} (a : Addr) (filename : Text) (hip : a.ip = server.ip)
      (hfresh : w.instances a = none) (hreq : (server, buildWrq filename) ∈ w.toServer) :
      Step server data w [] { w with instances := Function.update w.instances a (some []) }
  /-- An instance acknowledges the request or a block it has, for the first time or again. -/
  | sendAck {w : World} {a : Addr} {blocks : List Bytes} {j : Nat}
      (hinst : w.instances a = some blocks) (hj : j ≤ blocks.length) :
      Step server data w []
        { w with toClient := w.toClient ++ [(a, buildAck (UInt16.ofNat j))] }
  /-- An instance accepts the next block, until it has had a short one. -/
  | accept {w : World} {a : Addr} {blocks : List Bytes} {payload : Bytes}
      (hinst : w.instances a = some blocks) (hopen : ∀ b ∈ blocks, b.length = blockSize)
      (hdata : (a, buildData (UInt16.ofNat (blocks.length + 1)) payload) ∈ w.toServer) :
      Step server data w []
        { w with instances := Function.update w.instances a (some (blocks ++ [payload])) }
  /-- A server gives up. -/
  | sendError {w : World} (a : Addr) (pkt : Bytes) (herr : parseOpcode pkt = some opError) :
      Step server data w [] { w with toClient := w.toClient ++ [(a, pkt)] }

/-- The client has sent its request. -/
def World.init (server : Addr) (filename : Text) : World where
  client := .running (.init server filename)
  instances := fun _ => none
  toServer := [(server, buildWrq filename)]
  toClient := []

/-! ## The client of a run -/

/-- The client is where its loop has come to. -/
def Follows (server : Addr) (data : Bytes) (s : Store) (evs : List Event) (w : World) : Prop :=
  (∃ s', w.client = .running s' ∧
    ∀ rest, loop server data s (evs ++ rest) = loop server data s' rest) ∨
    ∃ s' res, w.client = .returned s' res ∧ loop server data s evs = some res

theorem follows_turn {server : Addr} {data : Bytes} {s s' : Store} {evs : List Event} {w : World}
    (hloop : ∀ rest, loop server data s (evs ++ rest) = loop server data s' rest) (e : Event) :
    Follows server data s (evs ++ [e]) (w.turn server data s' e) := by
  simp only [World.turn]
  cases hturn : receive server data s' e with
  | next s'' sent =>
      refine .inl ⟨s'', rfl, fun rest => ?_⟩
      rw [List.append_assoc, hloop, List.singleton_append, loop, hturn]
  | done res sent =>
      refine .inr ⟨s', res, rfl, ?_⟩
      rw [hloop, loop, hturn]

theorem follows_of_trace {server : Addr} {data : Bytes} {w w' : World} {evs : List Event} {s : Store}
    (hrun : w.client = .running s) (h : Trace (Step server data) w evs w') :
    Follows server data s evs w' := by
  refine h.invariant (.inl ⟨s, hrun, fun rest => rfl⟩) ?_
  intro evs new w₁ w₂ hfol hstep
  cases hstep with
  | client hrun' e harr =>
      rcases hfol with ⟨s', hs', hloop⟩ | ⟨s', res, hres, -⟩
      · obtain rfl := Client.running.inj (hs'.symm.trans hrun')
        exact follows_turn hloop e
      · rw [hres] at hrun'
        cases hrun'
  | openInstance | sendAck | accept | sendError =>
      rw [List.append_nil]
      exact hfol

/-! ## The invariant -/

/-- How many blocks the instance at `a` can have accepted. -/
def reach (s : Store) (a : Addr) : Nat := if s.peer = some a then s.block.toNat else 0

/-- The client's own variables: which block it has sent last, and that those before were full. -/
structure Counts (data : Bytes) (s : Store) : Prop where
  unlatched : s.peer = none → s.block = 0
  unsent : s.block = 0 → s.sentFinal = false
  offset : s.block ≠ 0 → s.sentOffset = blockSize * (s.block.toNat - 1)
  final : s.block ≠ 0 → s.sentFinal = decide ((fileBlock data s.block.toNat).length < blockSize)
  full : ∀ k, 1 ≤ k → k < s.block.toNat → (fileBlock data k).length = blockSize

/-- The state after the acknowledgement of a block that was not the last. -/
def advance (data : Bytes) (s : Store) (src : Addr) : Store where
  peer := some src
  block := s.block + 1
  sentOffset := blockSize * s.block.toNat
  sentFinal := (fileBlock data (s.block.toNat + 1)).length < blockSize
  lastPacket := buildData (s.block + 1) (fileBlock data (s.block.toNat + 1))
  lastDest := src
  retries := 0

theorem toNat_block_succ {s : Store} (hmax : s.block ≠ 65535) :
    (s.block + 1).toNat = s.block.toNat + 1 := by
  have hne : s.block.toNat ≠ (65535 : UInt16).toNat := fun he => hmax (UInt16.toNat_inj.mp he)
  have h16 : (65535 : UInt16).toNat = 65535 := rfl
  have hlt := s.block.toNat_lt
  rw [UInt16.toNat_add]
  exact Nat.mod_eq_of_lt (by simp; omega)

theorem toNat_block_ne {s : Store} (h : s.block ≠ 0) : s.block.toNat ≠ 0 :=
  fun hz => h (UInt16.toNat_inj.mp hz)

namespace Counts

variable {data : Bytes} {s : Store}

/-- The acknowledgement of a block that was not the last sends the one after it. -/
theorem acceptAck_eq (h : Counts data s) {src : Addr} (hpeer : s.peer.or (some src) = some src)
    (hopen : s.sentFinal ≠ true) (hmax : s.block ≠ 65535) (fault : Option IoKind) :
    acceptAck data s src fault =
      sendTo fault src (buildData (s.block + 1) (fileBlock data (s.block.toNat + 1)))
        fun sent => .next (s.advance data src) sent := by
  have hoffset : (if s.block = 0 then 0 else s.sentOffset + blockSize) =
      blockSize * s.block.toNat := by
    split
    · next h0 =>
        rw [h0]
        rfl
    · next h0 =>
        have hpos := toNat_block_ne h0
        rw [h.offset h0, ← Nat.mul_succ]
        congr 1
        omega
  have hpayload : (data.drop (blockSize * s.block.toNat)).take blockSize =
      fileBlock data (s.block.toNat + 1) := by
    rw [fileBlock, Nat.add_sub_cancel]
  simp only [acceptAck, hpeer, hoffset, hpayload, if_neg hopen, if_neg hmax]
  rfl

theorem advance (h : Counts data s) (src : Addr) (hopen : s.sentFinal ≠ true)
    (hmax : s.block ≠ 65535) : Counts data (s.advance data src) where
  unlatched hnone := by cases hnone
  unsent h0 := by
    have hval := toNat_block_succ hmax
    rw [show s.block + 1 = 0 from h0] at hval
    cases hval
  offset _ := by
    show blockSize * s.block.toNat = blockSize * ((s.block + 1).toNat - 1)
    rw [toNat_block_succ hmax, Nat.add_sub_cancel]
  final _ := by
    show _ = decide ((fileBlock data (s.block + 1).toNat).length < blockSize)
    rw [toNat_block_succ hmax]
    rfl
  full k hk hlt := by
    have hlt' : k < s.block.toNat + 1 := Nat.lt_of_lt_of_eq hlt (toNat_block_succ hmax)
    rcases Nat.lt_succ_iff_lt_or_eq.mp hlt' with hlt | rfl
    · exact h.full k hk hlt
    have h0 : s.block ≠ 0 := by
      intro h0
      rw [h0] at hk
      exact absurd hk (Nat.not_succ_le_zero 0)
    have hfull := h.final h0
    rw [Bool.eq_false_iff.mpr hopen] at hfull
    have hnot := of_decide_eq_false hfull.symm
    have hle : (fileBlock data s.block.toNat).length ≤ blockSize := List.length_take_le _ _
    omega

end Counts

/-- The invariant while the client is in its loop. -/
structure Safe (server : Addr) (data : Bytes) (w : World) (s : Store) : Prop where
  counts : Counts data s
  peer_ip : ∀ p, s.peer = some p → p.ip = server.ip
  last : (s.lastDest, s.lastPacket) ∈ w.toServer
  blocks : ∀ a n payload, (a, buildData n payload) ∈ w.toServer →
    1 ≤ n.toNat ∧ n.toNat ≤ reach s a ∧ payload = fileBlock data n.toNat
  accepted : ∀ a blocks, w.instances a = some blocks →
    blocks.length ≤ reach s a ∧ blocks = firstBlocks data blocks.length
  acks : ∀ a pkt, (a, pkt) ∈ w.toClient → parseOpcode pkt = some opError ∨
    ∃ j blocks, w.instances a = some blocks ∧ j ≤ blocks.length ∧
      pkt = buildAck (UInt16.ofNat j)

theorem safe_init (server : Addr) (data : Bytes) (filename : Text) :
    Safe server data (.init server filename) (.init server filename) where
  counts := ⟨fun _ => rfl, fun _ => rfl, fun h => absurd rfl h, fun h => absurd rfl h,
    fun k _ hk => absurd hk (Nat.not_lt_zero k)⟩
  peer_ip p h := by cases h
  last := List.mem_cons_self
  blocks a n payload h := by
    have heq := (Prod.mk.inj (List.mem_singleton.mp h)).2
    exact absurd heq.symm (buildWrq_ne_buildData filename n payload)
  accepted a blocks h := by cases h
  acks a pkt h := by cases h

theorem reach_le (s : Store) (a : Addr) : reach s a ≤ s.block.toNat := by
  rw [reach]
  split
  · exact Nat.le_refl _
  · exact Nat.zero_le _

namespace Safe

variable {server : Addr} {data : Bytes} {w : World} {s : Store}

/-- A block an instance may have, or may be waiting for, is numbered as it is counted. -/
theorem ofNat_toNat (h : Safe server data w s) {a : Addr} {blocks : List Bytes} {j : Nat}
    (hinst : w.instances a = some blocks) (hj : j ≤ blocks.length) : (UInt16.ofNat j).toNat = j := by
  have hlen := (h.accepted a blocks hinst).1
  have hreach := reach_le s a
  have hlt := s.block.toNat_lt
  rw [UInt16.toNat_ofNat']
  exact Nat.mod_eq_of_lt (by omega)

/-- More on the wire to the client, each error packets or acknowledgements of an instance. -/
theorem extend (h : Safe server data w s) {a : Addr} {pkt : Bytes}
    (hpkt : parseOpcode pkt = some opError ∨ ∃ j blocks, w.instances a = some blocks ∧
      j ≤ blocks.length ∧ pkt = buildAck (UInt16.ofNat j)) :
    Safe server data { w with toClient := w.toClient ++ [(a, pkt)] } s := by
  refine ⟨h.counts, h.peer_ip, h.last, h.blocks, h.accepted, ?_⟩
  intro b q hq
  rcases List.mem_append.mp hq with hq | hq
  · exact h.acks b q hq
  · obtain ⟨rfl, rfl⟩ := Prod.mk.inj (List.mem_singleton.mp hq)
    exact hpkt

/-- An instance opens, or accepts a block, within its reach. -/
theorem move (h : Safe server data w s) {a : Addr} {k : Nat} (hk : k ≤ reach s a)
    (hold : ∀ blocks, w.instances a = some blocks → blocks.length ≤ k) :
    Safe server data
      { w with instances := Function.update w.instances a (some (firstBlocks data k)) } s := by
  refine ⟨h.counts, h.peer_ip, h.last, h.blocks, ?_, ?_⟩
  · intro b blocks hb
    dsimp only at hb
    by_cases hab : b = a
    · subst hab
      rw [Function.update_self] at hb
      obtain rfl := Option.some.inj hb
      rw [length_firstBlocks]
      exact ⟨hk, rfl⟩
    · rw [Function.update_of_ne hab] at hb
      exact h.accepted b blocks hb
  · intro b pkt hpkt
    rcases h.acks b pkt hpkt with herr | ⟨j, blocks, hm, hj, rfl⟩
    · exact .inl herr
    by_cases hab : b = a
    · subst hab
      refine .inr ⟨j, _, Function.update_self .., ?_, rfl⟩
      rw [length_firstBlocks]
      exact hj.trans (hold blocks hm)
    · exact .inr ⟨j, blocks, (Function.update_of_ne hab ..).trans hm, hj, rfl⟩

/-- What is heard comes from a server. -/
theorem mem_of_heard (h : Safe server data w s) {src : Addr} {pkt : Bytes} {fault : Option IoKind}
    (hheard : isHeard server s src = true) (harr : Arrives server w s (.datagram pkt src fault)) :
    (src, pkt) ∈ w.toClient := by
  rw [isHeard] at hheard
  rcases harr with hmem | hip | ⟨p, hpeer, hne⟩
  · exact hmem
  · cases hpeer : s.peer with
    | none =>
        rw [hpeer] at hheard
        exact absurd (by simpa using hheard) hip
    | some p =>
        rw [hpeer] at hheard
        obtain rfl : src = p := by simpa using hheard
        exact absurd (h.peer_ip src hpeer) hip
  · rw [hpeer] at hheard
    exact absurd (by simpa using hheard) hne

/-- Whoever is heard is the latched peer from then on, and can be at the block waited for. -/
theorem latch_of_heard (h : Safe server data w s) {src : Addr} (hheard : isHeard server s src = true) :
    s.peer.or (some src) = some src ∧ src.ip = server.ip ∧ reach s src = s.block.toNat := by
  rw [isHeard] at hheard
  cases hpeer : s.peer with
  | none =>
      rw [hpeer] at hheard
      refine ⟨rfl, by simpa using hheard, ?_⟩
      rw [reach, hpeer, if_neg (by simp), h.counts.unlatched hpeer]
      rfl
  | some p =>
      rw [hpeer] at hheard
      obtain rfl : src = p := by simpa using hheard
      exact ⟨rfl, h.peer_ip src hpeer, by rw [reach, hpeer, if_pos rfl]⟩

end Safe

/-! ## One turn -/

/-- What stands when the client returns `Ok`: the latched instance has the whole file. -/
def Stored (data : Bytes) (w : World) (s : Store) : Prop :=
  ∃ p blocks, s.peer = some p ∧ w.instances p = some blocks ∧ Whole data blocks

/-- What a turn must leave: a state that is safe with the packets sent, or a stored file. -/
def Kept (server : Addr) (data : Bytes) (w : World) (s : Store) : Turn → Prop
  | .next s' sent => Safe server data { w with toServer := w.toServer ++ sent } s'
  | .done res _ => res = .ok () → Stored data w s

section Turn

variable {server : Addr} {data : Bytes} {w : World} {s : Store}

theorem kept_error {e : Error} {sent : List Sent} : Kept server data w s (.done (.error e) sent) :=
  fun h => by cases h

theorem kept_silent (h : Safe server data w s) : Kept server data w s (.next s []) := by
  rw [Kept, List.append_nil]
  exact h

theorem kept_sendTo {fault : Option IoKind} {dest : Addr} {pkt : Bytes} {k : List Sent → Turn}
    (h : Kept server data w s (k [(dest, pkt)])) :
    Kept server data w s (sendTo fault dest pkt k) := by
  cases fault with
  | none => exact h
  | some kind => exact kept_error

theorem kept_onFault (h : Safe server data w s) (kind : IoKind) (fault : Option IoKind) :
    Kept server data w s (onFault s kind fault) := by
  rw [onFault]
  split
  · split
    · exact kept_error
    · refine kept_sendTo ⟨⟨h.counts.unlatched, h.counts.unsent, h.counts.offset, h.counts.final,
        h.counts.full⟩, h.peer_ip, List.mem_append_left _ h.last, ?_, h.accepted, h.acks⟩
      intro a n payload ha
      rcases List.mem_append.mp ha with ha | ha
      · exact h.blocks a n payload ha
      · obtain ⟨rfl, hpkt⟩ := Prod.mk.inj (List.mem_singleton.mp ha)
        exact h.blocks s.lastDest n payload (hpkt ▸ h.last)
  · exact kept_error

/-- The acknowledgement of the short block: everything has been accepted. -/
theorem stored_of_final (h : Safe server data w s) {src : Addr} {blocks : List Bytes}
    (hheard : isHeard server s src = true) (hinst : w.instances src = some blocks)
    (hlen : s.block.toNat ≤ blocks.length) (hfinal : s.sentFinal = true) : Stored data w s := by
  have hne : s.block ≠ 0 := by
    intro h0
    have hunsent := h.counts.unsent h0
    rw [hfinal] at hunsent
    cases hunsent
  have hpos : s.block.toNat ≠ 0 := fun h0 => hne (UInt16.toNat_inj.mp h0)
  obtain ⟨hor, -, hreach⟩ := h.latch_of_heard hheard
  obtain ⟨hle, hblocks⟩ := h.accepted src blocks hinst
  have hpeer : s.peer = some src := by
    cases hp : s.peer with
    | none => exact absurd (h.counts.unlatched hp) hne
    | some p =>
        rw [hp] at hor
        exact hor
  obtain ⟨n, hn⟩ := Nat.exists_eq_succ_of_ne_zero hpos
  have heq : blocks.length = n + 1 := by omega
  have hshort := (h.counts.final hne).symm.trans hfinal
  rw [hn] at hshort
  refine ⟨src, blocks, hpeer, hinst, ?_⟩
  rw [hblocks, heq]
  refine whole_firstBlocks (fun k hk hkn => h.counts.full k hk ?_) (of_decide_eq_true hshort)
  omega

/-- The next block goes out. -/
theorem kept_acceptAck (h : Safe server data w s) {src : Addr} {blocks : List Bytes}
    (hheard : isHeard server s src = true) (hinst : w.instances src = some blocks)
    (hlen : s.block.toNat ≤ blocks.length) (fault : Option IoKind) :
    Kept server data w s (acceptAck data s src fault) := by
  obtain ⟨hor, hip, hreach⟩ := h.latch_of_heard hheard
  by_cases hopen : s.sentFinal = true
  · rw [acceptAck, if_pos hopen]
    exact fun _ => stored_of_final h hheard hinst hlen hopen
  by_cases hmax : s.block = 65535
  · simp only [acceptAck, if_neg hopen, if_pos hmax]
    exact kept_error
  have hsucc := toNat_block_succ hmax
  rw [h.counts.acceptAck_eq hor hopen hmax]
  refine kept_sendTo ?_
  -- the peer's reach grows by one block, nobody else had any
  have hgrow : ∀ a, reach s a ≤ reach (s.advance data src) a := by
    intro a
    rw [reach, reach]
    split
    · next hp =>
        rw [hp] at hor
        have hadv : (s.advance data src).peer = some a := hor.symm
        rw [if_pos hadv]
        exact (Nat.le_succ _).trans_eq hsucc.symm
    · exact Nat.zero_le _
  have hpeer : reach (s.advance data src) src = s.block.toNat + 1 := by
    have hadv : (s.advance data src).peer = some src := rfl
    rw [reach, if_pos hadv]
    exact hsucc
  refine ⟨h.counts.advance src hopen hmax, ?_, List.mem_append_right _ List.mem_cons_self, ?_, ?_,
    h.acks⟩
  · intro p hp
    obtain rfl := Option.some.inj hp
    exact hip
  · intro a n payload ha
    rcases List.mem_append.mp ha with ha | ha
    · obtain ⟨hpos, hle, hpay⟩ := h.blocks a n payload ha
      exact ⟨hpos, hle.trans (hgrow a), hpay⟩
    · obtain ⟨rfl, hpkt⟩ := Prod.mk.inj (List.mem_singleton.mp ha)
      obtain ⟨rfl, rfl⟩ := buildData_inj hpkt
      rw [hpeer, hsucc]
      exact ⟨Nat.succ_le_succ (Nat.zero_le _), Nat.le_refl _, rfl⟩
  · intro a blocks ha
    obtain ⟨hle, hblocks⟩ := h.accepted a blocks ha
    exact ⟨hle.trans (hgrow a), hblocks⟩

/-- One turn of the client, whatever arrives. -/
theorem kept_receive (h : Safe server data w s) {e : Event} (harr : Arrives server w s e) :
    Kept server data w s (receive server data s e) := by
  cases e with
  | fault kind fault => exact kept_onFault h kind fault
  | datagram pkt src fault =>
      simp only [receive]
      by_cases hheard : isHeard server s src = true
      swap
      · rw [if_pos (by simpa using hheard)]
        exact kept_silent h
      rw [if_neg (by simp [hheard])]
      have hop := parseOpcode_take pkt
      rcases h.acks src pkt (h.mem_of_heard hheard harr) with herr | ⟨j, blocks, hinst, hj, rfl⟩
      · rw [hop, herr]
        dsimp only
        rw [if_neg (by decide), if_pos rfl]
        split
        · exact kept_error
        · exact kept_error
      · have hack : parseOpcode (buildAck (UInt16.ofNat j)) = some opAck :=
          parseOpcode_toBeBytes opAck _
        have htake : (buildAck (UInt16.ofNat j)).take bufferSize = buildAck (UInt16.ofNat j) := rfl
        rw [htake, hack]
        dsimp only
        rw [if_pos rfl]
        simp only [onAck, parseAck_buildAck]
        split
        · exact kept_silent h
        · next heq =>
            have hnum := h.ofNat_toNat hinst hj
            rw [not_not.mp heq] at hnum
            exact kept_acceptAck h hheard hinst (hnum ▸ hj) fault

end Turn

/-! ## The whole run -/

/-- The client is in its loop and safe, or has returned `Ok` only for a stored file. -/
def Invariant (server : Addr) (data : Bytes) (w : World) : Prop :=
  match w.client with
  | .running s => Safe server data w s
  | .returned s res => res = .ok () → Stored data w s

theorem Safe.of_eq {server : Addr} {data : Bytes} {w w' : World} {s : Store}
    (h : Safe server data w s) (hi : w'.instances = w.instances) (hs : w'.toServer = w.toServer)
    (hc : w'.toClient = w.toClient) : Safe server data w' s :=
  ⟨h.counts, h.peer_ip, hs ▸ h.last, hs ▸ h.blocks, hi ▸ h.accepted, by rw [hi, hc]; exact h.acks⟩

/-- A step that leaves the client alone. -/
theorem Invariant.of_safe {server : Addr} {data : Bytes} {w w' : World}
    (h : Invariant server data w) (hclient : w'.client = w.client)
    (hsafe : ∀ s, Safe server data w s → Safe server data w' s)
    (hstored : ∀ s, Stored data w s → Stored data w' s) : Invariant server data w' := by
  rw [Invariant] at h ⊢
  rw [hclient]
  cases hc : w.client with
  | running s =>
      rw [hc] at h
      exact hsafe s h
  | returned s res =>
      rw [hc] at h
      exact fun hok => hstored s (h hok)

/-- An instance that has the whole file stays as it is. -/
theorem Stored.move {data : Bytes} {w : World} {s : Store} (h : Stored data w s) {a : Addr}
    {blocks : List Bytes} (hopen : ∀ bs, w.instances a = some bs → ¬ Whole data bs) :
    Stored data { w with instances := Function.update w.instances a (some blocks) } s := by
  obtain ⟨p, bs, hp, hinst, hwhole⟩ := h
  have hpa : p ≠ a := by
    rintro rfl
    exact hopen bs hinst hwhole
  exact ⟨p, bs, hp, (Function.update_of_ne hpa ..).trans hinst, hwhole⟩

theorem invariant_step {server : Addr} {data : Bytes} {w w' : World} {evs : List Event}
    (h : Invariant server data w) (hstep : Step server data w evs w') : Invariant server data w' := by
  cases hstep with
  | @client s hrun e harr =>
      rw [Invariant, hrun] at h
      have hkept := kept_receive h harr
      rw [World.turn]
      cases hturn : receive server data s e with
      | next s' sent =>
          rw [hturn] at hkept
          exact Safe.of_eq hkept rfl rfl rfl
      | done res sent =>
          rw [hturn] at hkept
          exact hkept
  | @openInstance a filename hip hfresh hreq =>
      refine h.of_safe rfl (fun s hs => hs.move (k := 0) (Nat.zero_le _) fun blocks hb => ?_)
        fun s hs => hs.move fun blocks hb => ?_
      · rw [hfresh] at hb
        cases hb
      · rw [hfresh] at hb
        cases hb
  | @sendAck a blocks j hinst hj =>
      exact h.of_safe rfl (fun s hs => hs.extend (.inr ⟨j, blocks, hinst, hj, rfl⟩)) fun s hs => hs
  | @accept a blocks payload hinst hopen hdata =>
      refine h.of_safe rfl (fun s hs => ?_) fun s hs => hs.move fun bs hb hwhole => ?_
      · obtain ⟨hpos, hle, hpay⟩ := hs.blocks a _ payload hdata
        obtain ⟨hlen, hblocks⟩ := hs.accepted a blocks hinst
        have hlt := s.block.toNat_lt
        have hreach := reach_le s a
        have hnum : (UInt16.ofNat (blocks.length + 1)).toNat = blocks.length + 1 := by
          rw [UInt16.toNat_ofNat'] at hpos ⊢
          refine Nat.mod_eq_of_lt ?_
          by_contra hge
          have hfull : blocks.length + 1 = 2 ^ 16 := by omega
          rw [hfull, Nat.mod_self] at hpos
          exact absurd hpos (by decide)
        rw [hnum] at hle hpay
        have hnew : blocks ++ [payload] = firstBlocks data (blocks.length + 1) := by
          rw [firstBlocks_succ, ← hblocks, hpay]
        rw [hnew]
        refine hs.move hle fun bs hb => ?_
        rw [hinst] at hb
        rw [← Option.some.inj hb]
        exact Nat.le_succ _
      · rw [hinst] at hb
        obtain rfl := Option.some.inj hb
        obtain ⟨front, last, hcut, -, hshort⟩ := hwhole.cut
        have hfull := hopen last (by rw [hcut]; simp)
        omega
  | @sendError a pkt herr =>
      exact h.of_safe rfl (fun s hs => hs.extend (.inl herr)) fun s hs => hs

theorem invariant_of_trace {server : Addr} {data : Bytes} {filename : Text} {evs : List Event}
    {w : World} (h : Trace (Step server data) (.init server filename) evs w) :
    Invariant server data w := by
  have hinit : Invariant server data (.init server filename) := safe_init server data filename
  exact h.invariant (I := fun _ w => Invariant server data w) hinit invariant_step

end Store

/-- When `store` has returned `Ok`, the instance it had latched has the whole file, whatever the
network did. -/
theorem store_ok_stored {url : Url} {setup : Setup} {filename : Text} {server : Addr} {data : Bytes}
    {evs : List Event} {w : Store.World} (hname : filenameOf url = .ok filename)
    (hserver : setup.resolved = .ok server)
    (hrun : Trace (Store.Step server data) (.init server filename) evs w)
    (hok : store url data setup evs = some (.ok ())) :
    ∃ s p blocks, w.client = .returned s (.ok ()) ∧ s.peer = some p ∧
      w.instances p = some blocks ∧ Whole data blocks := by
  have hloop : Store.loop server data (.init server filename) evs = some (.ok ()) := by
    simp only [store, hname, hserver] at hok
    split at hok
    · cases hok
    · split at hok <;> simp_all
  rcases Store.follows_of_trace rfl hrun with ⟨s', -, hall⟩ | ⟨s', res, hres, hloop'⟩
  · have hnone := hall []
    rw [List.append_nil, hloop] at hnone
    cases hnone
  · have hinv := Store.invariant_of_trace hrun
    rw [Store.Invariant, hres] at hinv
    rw [hloop] at hloop'
    obtain rfl := Option.some.inj hloop'
    obtain ⟨p, blocks, hp, hinst, hwhole⟩ := hinv rfl
    exact ⟨s', p, blocks, hres, hp, hinst, hwhole⟩

namespace Store

/-- An acknowledgement as it arrives. -/
def sampleAck (k : Nat) : Event := .datagram (buildAck (UInt16.ofNat k)) sampleInstance none

/-- The acknowledgement of the request comes twice. -/
def sampleAcks : List Event := [sampleAck 0, sampleAck 0, sampleAck 1, sampleAck 2]

/-- The full block has gone out. -/
def sampleFirst : Store where
  peer := some sampleInstance
  block := 1
  sentOffset := 0
  sentFinal := false
  lastPacket := buildData 1 (fileBlock sampleFile 1)
  lastDest := sampleInstance
  retries := 0

/-- The short one has. -/
def sampleSecond : Store where
  peer := some sampleInstance
  block := 2
  sentOffset := 512
  sentFinal := true
  lastPacket := buildData 2 (fileBlock sampleFile 2)
  lastDest := sampleInstance
  retries := 0

set_option maxRecDepth 4096 in
theorem sample_turns :
    receive sampleServer sampleFile (.init sampleServer "f".toList) (sampleAck 0) =
        .next sampleFirst [(sampleInstance, buildData 1 (fileBlock sampleFile 1))] ∧
      receive sampleServer sampleFile sampleFirst (sampleAck 0) = .next sampleFirst [] ∧
      receive sampleServer sampleFile sampleFirst (sampleAck 1) =
        .next sampleSecond [(sampleInstance, buildData 2 (fileBlock sampleFile 2))] ∧
      receive sampleServer sampleFile sampleSecond (sampleAck 2) = .done (.ok ()) [] :=
  ⟨rfl, rfl, rfl, rfl⟩

theorem turn_next {server : Addr} {data : Bytes} {w : World} {s s' : Store} {e : Event}
    {sent : List Sent} (h : receive server data s e = .next s' sent) :
    w.turn server data s e =
      { w with client := .running s', toServer := w.toServer ++ sent } := by
  rw [World.turn, h]

/-- The request has opened the instance, which has acknowledged it. -/
def sampleOpened : World :=
  { World.init sampleServer "f".toList with
    instances := Function.update (fun _ => none) sampleInstance (some [])
    toClient := [(sampleInstance, buildAck (UInt16.ofNat 0))] }

/-- The instance has the full block and has said so. -/
def sampleHeld : World where
  client := .running sampleFirst
  instances := Function.update sampleOpened.instances sampleInstance
    (some ([] ++ [fileBlock sampleFile 1]))
  toServer := sampleOpened.toServer ++
    [(sampleInstance, buildData 1 (fileBlock sampleFile 1))] ++ []
  toClient := sampleOpened.toClient ++ [(sampleInstance, buildAck (UInt16.ofNat 1))]

/-- It has the short one and has said so. -/
def sampleFilled : World where
  client := .running sampleSecond
  instances := Function.update sampleHeld.instances sampleInstance
    (some ([] ++ [fileBlock sampleFile 1] ++ [fileBlock sampleFile 2]))
  toServer := sampleHeld.toServer ++ [(sampleInstance, buildData 2 (fileBlock sampleFile 2))]
  toClient := sampleHeld.toClient ++ [(sampleInstance, buildAck (UInt16.ofNat 2))]

def sampleStored : World := sampleFilled.turn sampleServer sampleFile sampleSecond (sampleAck 2)

/-- Up to the first acknowledgement of a block. -/
theorem trace_sampleHeld : Trace (Step sampleServer sampleFile) (.init sampleServer "f".toList)
    [sampleAck 0, sampleAck 0] sampleHeld := by
  obtain ⟨hfirst, hagain, -⟩ := sample_turns
  have hopen : Step sampleServer sampleFile (.init sampleServer "f".toList) []
      { sampleOpened with toClient := [] } :=
    .openInstance sampleInstance "f".toList rfl rfl List.mem_cons_self
  have hinst : sampleOpened.instances sampleInstance = some [] := by simp [sampleOpened]
  have hack : Step sampleServer sampleFile { sampleOpened with toClient := [] } [] sampleOpened :=
    .sendAck hinst (Nat.le_refl 0)
  have hsend : Step sampleServer sampleFile sampleOpened [sampleAck 0] _ :=
    .client rfl (sampleAck 0) (.inl List.mem_cons_self)
  rw [turn_next hfirst] at hsend
  have hdup : Step sampleServer sampleFile { sampleOpened with
      client := .running sampleFirst
      toServer := sampleOpened.toServer ++ [(sampleInstance, buildData 1 (fileBlock sampleFile 1))] }
      [sampleAck 0] _ := .client rfl (sampleAck 0) (.inl List.mem_cons_self)
  rw [turn_next hagain] at hdup
  have haccept : Step sampleServer sampleFile { sampleHeld with
      instances := sampleOpened.instances, toClient := sampleOpened.toClient } []
      { sampleHeld with toClient := sampleOpened.toClient } := by
    refine .accept hinst (fun b hb => by cases hb) ?_
    exact List.mem_append_left _ (List.mem_append_right _ List.mem_cons_self)
  have hinst' : sampleHeld.instances sampleInstance = some [fileBlock sampleFile 1] := by
    simp [sampleHeld]
  have hack' : Step sampleServer sampleFile { sampleHeld with toClient := sampleOpened.toClient } []
      sampleHeld := .sendAck hinst' (Nat.le_refl 1)
  exact (((((Trace.single hopen).trans (.single hack)).trans (.single hsend)).trans
    (.single hdup)).trans (.single haccept)).trans (.single hack')

theorem sample_trace : Trace (Step sampleServer sampleFile) (.init sampleServer "f".toList)
    sampleAcks sampleStored := by
  obtain ⟨-, -, hnext, -⟩ := sample_turns
  have hsend : Step sampleServer sampleFile sampleHeld [sampleAck 1] _ :=
    .client rfl (sampleAck 1) (.inl (List.mem_append_right _ List.mem_cons_self))
  rw [turn_next hnext] at hsend
  have hinst : sampleHeld.instances sampleInstance = some ([] ++ [fileBlock sampleFile 1]) := by
    simp [sampleHeld]
  have haccept : Step sampleServer sampleFile { sampleFilled with
      instances := sampleHeld.instances, toClient := sampleHeld.toClient } []
      { sampleFilled with toClient := sampleHeld.toClient } := by
    refine .accept hinst (fun b hb => ?_) (List.mem_append_right _ List.mem_cons_self)
    rw [List.mem_singleton.mp hb]
    exact length_sampleBlock
  have hinst' : sampleFilled.instances sampleInstance =
      some [fileBlock sampleFile 1, fileBlock sampleFile 2] := by
    simp [sampleFilled]
  have hack : Step sampleServer sampleFile { sampleFilled with toClient := sampleHeld.toClient } []
      sampleFilled := .sendAck hinst' (Nat.le_refl 2)
  have hdone : Step sampleServer sampleFile sampleFilled [sampleAck 2] sampleStored :=
    .client rfl (sampleAck 2) (.inl (List.mem_append_right _ List.mem_cons_self))
  exact (((trace_sampleHeld.trans (.single hsend)).trans (.single haccept)).trans
    (.single hack)).trans (.single hdone)

end Store

/-- An upload of two blocks; the acknowledgement of the request comes twice. -/
theorem store_sample :
    store sampleUrl sampleFile sampleSetup Store.sampleAcks = some (.ok ()) ∧
    ∃ s p blocks, Store.sampleStored.client = .returned s (.ok ()) ∧ s.peer = some p ∧
      Store.sampleStored.instances p = some blocks ∧ Whole sampleFile blocks := by
  obtain ⟨hfirst, hagain, hnext, hlast⟩ := Store.sample_turns
  have hfits : ¬ sampleFile.length > maxTotalBytes := by
    rw [length_sampleFile]
    decide
  have hok : store sampleUrl sampleFile sampleSetup Store.sampleAcks = some (.ok ()) := by
    have hname : filenameOf sampleUrl = .ok "f".toList := rfl
    rw [store, hname]
    dsimp only
    rw [if_neg hfits]
    show Store.loop sampleServer sampleFile (.init sampleServer "f".toList) Store.sampleAcks = _
    rw [Store.sampleAcks, Store.loop, hfirst]
    dsimp only
    rw [Store.loop, hagain]
    dsimp only
    rw [Store.loop, hnext]
    dsimp only
    rw [Store.loop, hlast]
  exact ⟨hok, store_ok_stored rfl rfl Store.sample_trace hok⟩

end Rsurl.Tftp
