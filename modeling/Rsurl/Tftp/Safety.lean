/-
# `Rsurl.Tftp.Safety` — a returned file is the served file

The transfer as a system: the client, one lock-step server instance behind each
transfer id that a request has opened, and the datagrams sent so far.  What has
been sent may arrive at any later time, any number of times or never, so the
wire only grows.  Datagrams from other addresses arrive from nowhere; once the
client is latched, so do datagrams from other transfer ids.

The invariant ties the three together: the client has the first blocks of the
file, the instance it listens to is at most one block ahead of them, every
other instance still waits for its first acknowledgement, and a block on the
wire carries its own piece of the file.  Since the client stops before its
block counter wraps, the counter on the wire is the number of the block.
-/
import Rsurl.Base.Trace
import Rsurl.Tftp

namespace Rsurl.Tftp

open Base (Trace)

/-! ## The packets are what they carry -/

theorem fromBeBytes_toBeBytes (n : UInt16) :
    fromBeBytes (UInt8.ofNat (n.toNat / 256)) (UInt8.ofNat n.toNat) = n := by
  have hn := n.toNat_lt
  have hval : (UInt8.ofNat (n.toNat / 256)).toNat * 256 + (UInt8.ofNat n.toNat).toNat = n.toNat := by
    simp only [UInt8.toNat_ofNat']
    omega
  rw [fromBeBytes, hval, UInt16.ofNat_toNat]

@[simp] theorem parseOpcode_toBeBytes (op : UInt16) (rest : Bytes) :
    parseOpcode (toBeBytes op ++ rest) = some op := by
  show some (fromBeBytes _ _) = some op
  rw [fromBeBytes_toBeBytes]

/-- The opcode is read before the buffer ends. -/
theorem parseOpcode_take (pkt : Bytes) : parseOpcode (pkt.take bufferSize) = parseOpcode pkt := by
  rcases pkt with _ | ⟨a, _ | ⟨b, rest⟩⟩
  · rfl
  · rfl
  · rfl

theorem parseData_buildData (block : UInt16) (payload : Bytes) :
    parseData (buildData block payload) = .ok ⟨block, payload⟩ := by
  have hop : parseOpcode (buildData block payload) = some opData := by
    rw [buildData, List.append_assoc, parseOpcode_toBeBytes]
  have hcons : buildData block payload =
      UInt8.ofNat (opData.toNat / 256) :: UInt8.ofNat opData.toNat ::
        UInt8.ofNat (block.toNat / 256) :: UInt8.ofNat block.toNat :: payload := rfl
  rw [hcons] at hop ⊢
  rw [parseData, if_neg (not_not_intro hop), fromBeBytes_toBeBytes]

theorem buildAck_inj {f g : UInt16} (h : buildAck f = buildAck g) : f = g := by
  have hcons : ∀ f : UInt16, buildAck f =
      UInt8.ofNat (opAck.toNat / 256) :: UInt8.ofNat opAck.toNat ::
        UInt8.ofNat (f.toNat / 256) :: UInt8.ofNat f.toNat :: [] := fun f => rfl
  rw [hcons, hcons] at h
  simp only [List.cons.injEq, and_true, true_and] at h
  rw [← fromBeBytes_toBeBytes f, h.1, h.2, fromBeBytes_toBeBytes]

theorem buildRrq_ne_buildAck (filename : Text) (f : UInt16) : buildRrq filename ≠ buildAck f := by
  intro h
  have hop := congrArg parseOpcode h
  rw [buildRrq, buildRequest, buildAck] at hop
  simp only [List.append_assoc, parseOpcode_toBeBytes] at hop
  exact absurd hop (by decide)

/-! ## The file in blocks -/

/-- Block `k` of a file, from 1. -/
def fileBlock (file : Bytes) (k : Nat) : Bytes := (file.drop (blockSize * (k - 1))).take blockSize

theorem take_append_fileBlock (file : Bytes) {k : Nat} (hk : 1 ≤ k) :
    file.take (blockSize * (k - 1)) ++ fileBlock file k = file.take (blockSize * k) := by
  have hsplit : blockSize * k = blockSize * (k - 1) + blockSize := by
    rw [← Nat.mul_succ]
    congr 1
    omega
  rw [fileBlock, hsplit, List.take_add]

/-- The file ends in a short block. -/
theorem take_eq_of_short {file : Bytes} {k : Nat} (hk : 1 ≤ k)
    (hshort : (fileBlock file k).length < blockSize) : file.take (blockSize * k) = file := by
  have hsplit : blockSize * k = blockSize * (k - 1) + blockSize := by
    rw [← Nat.mul_succ]
    congr 1
    omega
  rw [fileBlock, List.length_take, List.length_drop] at hshort
  exact List.take_of_length_le (by omega)

/-! ## The system -/

/-- The client: in the loop, or returned. -/
inductive Client where
  | running (s : Fetch)
  | returned (res : Result Bytes)

/-- The whole system.  `instances a` is the block the instance at `a` is sending. -/
structure World where
  client : Client
  instances : Addr → Option Nat
  toServer : List Sent
  toClient : List Sent

/-- The client takes a turn. -/
def World.turn (server : Addr) (w : World) (s : Fetch) (e : Event) : World :=
  match receive server s e with
  | .next s' sent => { w with client := .running s', toServer := w.toServer ++ sent }
  | .done res sent => { w with client := .returned res, toServer := w.toServer ++ sent }

/-- What may arrive at the client: what was sent to it, anything from another address, and,
once it is latched, anything from another transfer id. -/
def Arrives (server : Addr) (w : World) (s : Fetch) : Event → Prop
  | .datagram pkt src _ =>
      (src, pkt) ∈ w.toClient ∨ src.ip ≠ server.ip ∨ ∃ p, s.peer = some p ∧ src ≠ p
  | .fault _ _ => True

/-- The steps, with what the client receives in them. -/
inductive Step (server : Addr) (file : Bytes) : World → List Event → World → Prop
  | client {w : World} {s : Fetch} (hrun : w.client = .running s) (e : Event)
      (harr : Arrives server w s e) : Step server file w [e] (w.turn server s e)
  /-- A request opens an instance under a fresh transfer id. -/
  | openInstance {w : World} (a : Addr) (filename : Text) (hip : a.ip = server.ip)
      (hfresh : w.instances a = none) (hreq : (server, buildRrq filename) ∈ w.toServer) :
      Step server file w [] { w with instances := Function.update w.instances a (some 1) }
  /-- An instance sends its block, for the first time or again. -/
  | sendBlock {w : World} {a : Addr} {k : Nat} (hinst : w.instances a = some k) :
      Step server file w []
        { w with toClient := w.toClient ++ [(a, buildData (UInt16.ofNat k) (fileBlock file k))] }
  /-- The acknowledgement of a full block lets an instance go on to the next. -/
  | advance {w : World} {a : Addr} {k : Nat} (hinst : w.instances a = some k)
      (hack : (a, buildAck (UInt16.ofNat k)) ∈ w.toServer)
      (hfull : (fileBlock file k).length = blockSize) :
      Step server file w [] { w with instances := Function.update w.instances a (some (k + 1)) }
  /-- A server gives up. -/
  | sendError {w : World} (a : Addr) (pkt : Bytes) (herr : parseOpcode pkt = some opError) :
      Step server file w [] { w with toClient := w.toClient ++ [(a, pkt)] }

/-- The client has sent its request. -/
def World.init (server : Addr) (filename : Text) : World where
  client := .running (.init server filename)
  instances := fun _ => none
  toServer := [(server, buildRrq filename)]
  toClient := []

/-! ## The client of a run -/

/-- The client is where `fetchLoop` has come to. -/
def Follows (server : Addr) (s : Fetch) (evs : List Event) (w : World) : Prop :=
  (∃ s', w.client = .running s' ∧ ∀ rest, fetchLoop server s (evs ++ rest) = fetchLoop server s' rest) ∨
    ∃ res, w.client = .returned res ∧ fetchLoop server s evs = some res

theorem Follows.turn {server : Addr} {s s' : Fetch} {evs : List Event} {w : World}
    (hloop : ∀ rest, fetchLoop server s (evs ++ rest) = fetchLoop server s' rest) (e : Event) :
    Follows server s (evs ++ [e]) (w.turn server s' e) := by
  simp only [World.turn]
  cases hturn : receive server s' e with
  | next s'' sent =>
      refine .inl ⟨s'', rfl, fun rest => ?_⟩
      rw [List.append_assoc, hloop, List.singleton_append, fetchLoop, hturn]
  | done res sent =>
      refine .inr ⟨res, rfl, ?_⟩
      rw [hloop, fetchLoop, hturn]

theorem follows_of_trace {server : Addr} {file : Bytes} {w w' : World} {evs : List Event} {s : Fetch}
    (hrun : w.client = .running s) (h : Trace (Step server file) w evs w') :
    Follows server s evs w' := by
  refine h.invariant (.inl ⟨s, hrun, fun rest => rfl⟩) ?_
  intro evs new w₁ w₂ hfol hstep
  cases hstep with
  | client hrun' e harr =>
      rcases hfol with ⟨s', hs', hloop⟩ | ⟨res, hres, -⟩
      · obtain rfl := Client.running.inj (hs'.symm.trans hrun')
        exact .turn hloop e
      · rw [hres] at hrun'
        cases hrun'
  | openInstance | sendBlock | advance | sendError =>
      rw [List.append_nil]
      exact hfol

/-! ## The invariant -/

/-- How far the instance at `a` can be: up to the block the client expects when it listens to
it, at the first block otherwise. -/
def reach (s : Fetch) (a : Addr) : Nat := if s.peer = some a then s.expectedBlock.toNat else 1

/-- The invariant while the client is in its loop. -/
structure Safe (server : Addr) (file : Bytes) (w : World) (s : Fetch) : Prop where
  expected_pos : 1 ≤ s.expectedBlock.toNat
  unlatched : s.peer = none → s.expectedBlock.toNat = 1
  peer_ip : ∀ p, s.peer = some p → p.ip = server.ip
  out : s.out = file.take (blockSize * (s.expectedBlock.toNat - 1))
  last : (s.lastDest, s.lastPacket) ∈ w.toServer
  acks : ∀ a f, (a, buildAck f) ∈ w.toServer → f.toNat < reach s a
  blocks : ∀ a k, w.instances a = some k → 1 ≤ k ∧ k ≤ reach s a
  data : ∀ a pkt, (a, pkt) ∈ w.toClient → parseOpcode pkt = some opError ∨
    ∃ j k, w.instances a = some k ∧ 1 ≤ j ∧ j ≤ k ∧
      pkt = buildData (UInt16.ofNat j) (fileBlock file j)

theorem safe_init (server : Addr) (file : Bytes) (filename : Text) :
    Safe server file (.init server filename) (.init server filename) where
  expected_pos := by simp [Fetch.init]
  unlatched _ := rfl
  peer_ip p h := by cases h
  out := by simp [Fetch.init]
  last := List.mem_cons_self
  acks a f h := by
    have heq := (Prod.mk.inj (List.mem_singleton.mp h)).2
    exact absurd heq.symm (buildRrq_ne_buildAck filename f)
  blocks a k h := by cases h
  data a pkt h := by cases h

theorem reach_le (s : Fetch) (a : Addr) (hpos : 1 ≤ s.expectedBlock.toNat) :
    reach s a ≤ s.expectedBlock.toNat := by
  rw [reach]
  split
  · exact Nat.le_refl _
  · exact hpos

namespace Safe

variable {server : Addr} {file : Bytes} {w : World} {s : Fetch}

/-- A block on the wire is numbered as it is counted. -/
theorem ofNat_toNat (h : Safe server file w s) {a : Addr} {j k : Nat} (hinst : w.instances a = some k)
    (hj : j ≤ k) : (UInt16.ofNat j).toNat = j := by
  have hk := (h.blocks a k hinst).2
  have hreach := reach_le s a h.expected_pos
  have hlt := s.expectedBlock.toNat_lt
  rw [UInt16.toNat_ofNat']
  exact Nat.mod_eq_of_lt (by omega)

/-- More on the wire to the client, each error packets or blocks of an instance. -/
theorem extend (h : Safe server file w s) {a : Addr} {pkt : Bytes}
    (hpkt : parseOpcode pkt = some opError ∨ ∃ j k, w.instances a = some k ∧ 1 ≤ j ∧ j ≤ k ∧
      pkt = buildData (UInt16.ofNat j) (fileBlock file j)) :
    Safe server file { w with toClient := w.toClient ++ [(a, pkt)] } s := by
  refine ⟨h.expected_pos, h.unlatched, h.peer_ip, h.out, h.last, h.acks, h.blocks, ?_⟩
  intro b q hq
  rcases List.mem_append.mp hq with hq | hq
  · exact h.data b q hq
  · obtain ⟨rfl, rfl⟩ := Prod.mk.inj (List.mem_singleton.mp hq)
    exact hpkt

/-- An instance moves within its reach. -/
theorem move (h : Safe server file w s) {a : Addr} {k : Nat} (hpos : 1 ≤ k) (hk : k ≤ reach s a)
    (hold : ∀ j, w.instances a = some j → j ≤ k) :
    Safe server file { w with instances := Function.update w.instances a (some k) } s := by
  refine ⟨h.expected_pos, h.unlatched, h.peer_ip, h.out, h.last, h.acks, ?_, ?_⟩
  · intro b j hb
    dsimp only at hb
    by_cases hab : b = a
    · subst hab
      rw [Function.update_self] at hb
      exact Option.some.inj hb ▸ ⟨hpos, hk⟩
    · rw [Function.update_of_ne hab] at hb
      exact h.blocks b j hb
  · intro b pkt hpkt
    rcases h.data b pkt hpkt with herr | ⟨j, m, hm, hj, hjm, rfl⟩
    · exact .inl herr
    by_cases hab : b = a
    · subst hab
      exact .inr ⟨j, k, Function.update_self .., hj, hjm.trans (hold m hm), rfl⟩
    · exact .inr ⟨j, m, (Function.update_of_ne hab ..).trans hm, hj, hjm, rfl⟩

/-- The client sends a packet again, or an acknowledgement within reach of where it goes. -/
theorem send (h : Safe server file w s) {dest : Addr} {pkt : Bytes}
    (hpkt : ∀ f, pkt = buildAck f → f.toNat < reach s dest) :
    Safe server file { w with toServer := w.toServer ++ [(dest, pkt)] } s := by
  refine ⟨h.expected_pos, h.unlatched, h.peer_ip, h.out, List.mem_append_left _ h.last, ?_, h.blocks, h.data⟩
  intro a f ha
  rcases List.mem_append.mp ha with ha | ha
  · exact h.acks a f ha
  · obtain ⟨rfl, hf⟩ := Prod.mk.inj (List.mem_singleton.mp ha)
    exact hpkt f hf.symm

/-- Whoever is heard may be at the block the client expects. -/
theorem reach_of_heard (h : Safe server file w s) {src : Addr} (hheard : isHeard server s src = true) :
    reach s src = s.expectedBlock.toNat ∧ src.ip = server.ip := by
  rw [isHeard] at hheard
  cases hpeer : s.peer with
  | none =>
      rw [hpeer] at hheard
      refine ⟨?_, by simpa using hheard⟩
      rw [reach, hpeer, if_neg (by simp), h.unlatched hpeer]
  | some p =>
      rw [hpeer] at hheard
      obtain rfl : src = p := by simpa using hheard
      exact ⟨by rw [reach, hpeer, if_pos rfl], h.peer_ip src hpeer⟩

/-- What is heard comes from a server. -/
theorem mem_of_heard (h : Safe server file w s) {src : Addr} {pkt : Bytes} {fault : Option IoKind}
    (hheard : isHeard server s src = true) (harr : Arrives server w s (.datagram pkt src fault)) :
    (src, pkt) ∈ w.toClient := by
  rcases harr with hmem | hip | ⟨p, hpeer, hne⟩
  · exact hmem
  · exact absurd (h.reach_of_heard hheard).2 hip
  · rw [isHeard, hpeer] at hheard
    exact absurd (by simpa using hheard) hne

end Safe

/-! ## One turn -/

/-- What a turn must leave: a state that is safe with the packets sent, or no other file. -/
def Kept (server : Addr) (file : Bytes) (w : World) : Turn → Prop
  | .next s sent => Safe server file { w with toServer := w.toServer ++ sent } s
  | .done res _ => ∀ out, res = .ok out → out = file

section Turn

variable {server : Addr} {file : Bytes} {w : World} {s : Fetch}

theorem kept_error {e : Error} {sent : List Sent} : Kept server file w (.done (.error e) sent) :=
  fun _ h => by cases h

theorem kept_silent (h : Safe server file w s) : Kept server file w (.next s []) := by
  rw [Kept, List.append_nil]
  exact h

theorem kept_sendTo {fault : Option IoKind} {dest : Addr} {pkt : Bytes} {k : List Sent → Turn}
    (h : Kept server file w (k [(dest, pkt)])) : Kept server file w (sendTo fault dest pkt k) := by
  cases fault with
  | none => exact h
  | some kind => exact kept_error

theorem kept_onFault (h : Safe server file w s) (kind : IoKind) (fault : Option IoKind) :
    Kept server file w (onFault s kind fault) := by
  rw [onFault]
  split
  · split
    · exact kept_error
    · refine kept_sendTo ?_
      have hsend := h.send fun f hf => h.acks s.lastDest f (hf ▸ h.last)
      exact ⟨hsend.expected_pos, hsend.unlatched, hsend.peer_ip, hsend.out, hsend.last, hsend.acks,
        hsend.blocks, hsend.data⟩
  · exact kept_error

/-- The expected block is taken over. -/
theorem kept_acceptBlock (h : Safe server file w s) {src : Addr}
    (hheard : isHeard server s src = true) (fault : Option IoKind) :
    Kept server file w (acceptBlock s ⟨s.expectedBlock, fileBlock file s.expectedBlock.toNat⟩ src
      fault) := by
  have hout : s.out ++ fileBlock file s.expectedBlock.toNat =
      file.take (blockSize * s.expectedBlock.toNat) := by
    rw [h.out, take_append_fileBlock file h.expected_pos]
  have hpeer : s.peer.or (some src) = some src := by
    rw [isHeard] at hheard
    cases hp : s.peer with
    | none => rfl
    | some p =>
        rw [hp] at hheard
        obtain rfl : src = p := by simpa using hheard
        rfl
  simp only [acceptBlock, hout, hpeer]
  split
  · exact kept_error
  refine kept_sendTo ?_
  split
  · next hshort =>
      intro out hres
      rw [← Except.ok.inj hres]
      exact take_eq_of_short h.expected_pos hshort
  split
  · exact kept_error
  next hmax =>
  have hnext : (s.expectedBlock + 1).toNat = s.expectedBlock.toNat + 1 := by
    have hne : s.expectedBlock.toNat ≠ 65535 := fun he => hmax (UInt16.toNat_inj.mp he)
    have hlt := s.expectedBlock.toNat_lt
    rw [UInt16.toNat_add]
    exact Nat.mod_eq_of_lt (by simp; omega)
  have hgrow : ∀ a, reach s a ≤ if src = a then s.expectedBlock.toNat + 1 else 1 := by
    intro a
    rw [reach]
    split
    · next ha =>
        have hsrc := (h.reach_of_heard hheard)
        rw [ha] at hpeer
        obtain rfl : a = src := Option.some.inj hpeer
        rw [if_pos rfl]
        omega
    · split <;> omega
  have hreach : ∀ a, reach {
      peer := some src
      out := file.take (blockSize * s.expectedBlock.toNat)
      expectedBlock := s.expectedBlock + 1
      lastPacket := buildAck s.expectedBlock
      lastDest := src
      retries := 0 } a = if src = a then s.expectedBlock.toNat + 1 else 1 := by
    intro a
    simp only [reach, Option.some.injEq, hnext]
  refine ⟨?_, ?_, ?_, ?_, ?_, ?_, ?_, h.data⟩
  · rw [hnext]
    omega
  · intro hnone
    cases hnone
  · intro p hp
    obtain rfl := Option.some.inj hp
    exact (h.reach_of_heard hheard).2
  · rw [hnext, Nat.add_sub_cancel]
  · exact List.mem_append_right _ List.mem_cons_self
  · intro a f ha
    rw [hreach]
    rcases List.mem_append.mp ha with ha | ha
    · exact Nat.lt_of_lt_of_le (h.acks a f ha) (hgrow a)
    · obtain ⟨rfl, hf⟩ := Prod.mk.inj (List.mem_singleton.mp ha)
      rw [buildAck_inj hf, if_pos rfl]
      exact Nat.lt_succ_self _
  · intro a k hk
    rw [hreach]
    have hold := h.blocks a k hk
    exact ⟨hold.1, hold.2.trans (hgrow a)⟩

/-- A block from a server, expected or not. -/
theorem kept_onData (h : Safe server file w s) {src : Addr} {j k : Nat}
    (hheard : isHeard server s src = true) (hinst : w.instances src = some k) (hjk : j ≤ k)
    (fault : Option IoKind) :
    Kept server file w (onData s (buildData (UInt16.ofNat j) (fileBlock file j)) src fault) := by
  have hnum := h.ofNat_toNat hinst hjk
  have hle : j ≤ s.expectedBlock.toNat := by
    rw [← (h.reach_of_heard hheard).1]
    exact hjk.trans (h.blocks src k hinst).2
  simp only [onData, parseData_buildData]
  split
  · next hne =>
      split
      · refine kept_sendTo (h.send fun f hf => ?_)
        obtain rfl := buildAck_inj hf
        rw [(h.reach_of_heard hheard).1, hnum]
        have hother : j ≠ s.expectedBlock.toNat := fun he =>
          hne (UInt16.toNat_inj.mp (hnum.trans he))
        omega
      · exact kept_silent h
  · next heq =>
      have hblock : UInt16.ofNat j = s.expectedBlock := not_not.mp heq
      have hj : j = s.expectedBlock.toNat := by rw [← hblock, hnum]
      rw [hblock, hj]
      exact kept_acceptBlock h hheard fault

/-- One turn of the client, whatever arrives. -/
theorem kept_receive (h : Safe server file w s) {e : Event} (harr : Arrives server w s e) :
    Kept server file w (receive server s e) := by
  cases e with
  | fault kind fault => exact kept_onFault h kind fault
  | datagram pkt src fault =>
      simp only [receive]
      by_cases hheard : isHeard server s src = true
      swap
      · rw [if_pos (by simpa using hheard)]
        exact kept_silent h
      rw [if_neg (by simp [hheard])]
      have hop := parseOpcode_take pkt
      rcases h.data src pkt (h.mem_of_heard hheard harr) with herr | ⟨j, k, hinst, -, hjk, rfl⟩
      · rw [hop, herr]
        dsimp only
        rw [if_neg (by decide), if_pos rfl]
        split
        · exact kept_error
        · exact kept_error
      · have hlen : (buildData (UInt16.ofNat j) (fileBlock file j)).length ≤ bufferSize := by
          have hblock : (fileBlock file j).length ≤ blockSize := List.length_take_le _ _
          simp only [buildData, toBeBytes, List.length_append, List.length_cons, List.length_nil,
            bufferSize]
          omega
        have hdata : parseOpcode (buildData (UInt16.ofNat j) (fileBlock file j)) = some opData := by
          rw [buildData, List.append_assoc, parseOpcode_toBeBytes]
        rw [List.take_of_length_le hlen, hdata]
        dsimp only
        rw [if_pos rfl]
        exact kept_onData h hheard hinst hjk fault

end Turn

/-! ## The whole run -/

/-- The client is in its loop and safe, or has returned no other file. -/
def Invariant (server : Addr) (file : Bytes) (w : World) : Prop :=
  match w.client with
  | .running s => Safe server file w s
  | .returned res => ∀ out, res = .ok out → out = file

theorem Safe.of_eq {server : Addr} {file : Bytes} {w w' : World} {s : Fetch}
    (h : Safe server file w s) (hi : w'.instances = w.instances) (hs : w'.toServer = w.toServer)
    (hc : w'.toClient = w.toClient) : Safe server file w' s :=
  ⟨h.expected_pos, h.unlatched, h.peer_ip, h.out, hs ▸ h.last, hs ▸ h.acks, hi ▸ h.blocks,
    by rw [hi, hc]; exact h.data⟩

/-- A step that leaves the client alone. -/
theorem Invariant.of_safe {server : Addr} {file : Bytes} {w w' : World}
    (h : Invariant server file w) (hclient : w'.client = w.client)
    (hsafe : ∀ s, Safe server file w s → Safe server file w' s) : Invariant server file w' := by
  rw [Invariant] at h ⊢
  rw [hclient]
  cases hc : w.client with
  | running s =>
      rw [hc] at h
      exact hsafe s h
  | returned res =>
      rw [hc] at h
      exact h

theorem invariant_step {server : Addr} {file : Bytes} {w w' : World} {evs : List Event}
    (h : Invariant server file w) (hstep : Step server file w evs w') : Invariant server file w' := by
  cases hstep with
  | @client s hrun e harr =>
      rw [Invariant, hrun] at h
      have hkept := kept_receive h harr
      rw [World.turn]
      cases hturn : receive server s e with
      | next s' sent =>
          rw [hturn] at hkept
          exact Safe.of_eq hkept rfl rfl rfl
      | done res sent =>
          rw [hturn] at hkept
          exact hkept
  | @openInstance a filename hip hfresh hreq =>
      refine h.of_safe rfl fun s hs => hs.move (Nat.le_refl 1) ?_ fun j hj => ?_
      · rw [reach]
        split
        · exact hs.expected_pos
        · exact Nat.le_refl 1
      · rw [hfresh] at hj
        cases hj
  | @sendBlock a k hinst =>
      exact h.of_safe rfl fun s hs =>
        hs.extend (.inr ⟨k, k, hinst, (hs.blocks a k hinst).1, Nat.le_refl k, rfl⟩)
  | @advance a k hinst hack hfull =>
      refine h.of_safe rfl fun s hs => ?_
      have hlt := hs.acks a _ hack
      rw [hs.ofNat_toNat hinst (Nat.le_refl k)] at hlt
      refine hs.move (Nat.succ_le_succ (Nat.zero_le k)) hlt fun j hj => ?_
      rw [hinst] at hj
      have hj' := Option.some.inj hj
      omega
  | @sendError a pkt herr =>
      exact h.of_safe rfl fun s hs => hs.extend (.inl herr)

theorem invariant_of_trace {server : Addr} {file : Bytes} {filename : Text} {evs : List Event}
    {w : World} (h : Trace (Step server file) (.init server filename) evs w) :
    Invariant server file w := by
  have hinit : Invariant server file (.init server filename) := safe_init server file filename
  exact h.invariant (I := fun _ w => Invariant server file w) hinit invariant_step

/-- A transfer that returns `Ok` returns the file, whatever the network did. -/
theorem fetch_ok_eq_file {url : Url} {setup : Setup} {filename : Text} {server : Addr} {file : Bytes}
    {evs : List Event} {w : World} {out : Bytes} (hname : filenameOf url = .ok filename)
    (hserver : setup.resolved = .ok server)
    (hrun : Trace (Step server file) (.init server filename) evs w)
    (hok : fetch url setup evs = some (.ok out)) : out = file := by
  have hloop : fetchLoop server (.init server filename) evs = some (.ok out) := by
    simp only [fetch, hname, hserver] at hok
    split at hok <;> simp_all
  rcases follows_of_trace rfl hrun with ⟨s', -, hall⟩ | ⟨res, hres, hloop'⟩
  · have hnone := hall []
    rw [List.append_nil, hloop] at hnone
    cases hnone
  · have hinv := invariant_of_trace hrun
    rw [Invariant, hres] at hinv
    rw [hloop] at hloop'
    exact hinv out (Option.some.inj hloop').symm

def sampleUrl : Url where
  scheme := "tftp".toList
  userinfo := none
  host := "h".toList
  port := 69
  path := "/f".toList

def sampleServer : Addr := ⟨1, 69⟩

/-- The transfer id of the one instance. -/
def sampleInstance : Addr := ⟨1, 2000⟩

def sampleSetup : Setup := ⟨.ok sampleServer, none, none, none⟩

/-- A full block and two bytes. -/
def sampleFile : Bytes := List.replicate 512 0x61 ++ [0x68, 0x69]

theorem length_sampleFile : sampleFile.length = 514 := by
  rw [sampleFile, List.length_append, List.length_replicate]
  rfl

theorem length_sampleBlock : (fileBlock sampleFile 1).length = blockSize := by
  rw [fileBlock, List.length_take, List.length_drop, length_sampleFile]
  rfl

/-- A block of the file as it arrives. -/
def sampleEvent (k : Nat) : Event :=
  .datagram (buildData (UInt16.ofNat k) (fileBlock sampleFile k)) sampleInstance none

/-- The client has the first block. -/
def sampleHalf : Fetch where
  peer := some sampleInstance
  out := List.replicate 512 0x61
  expectedBlock := 2
  lastPacket := buildAck 1
  lastDest := sampleInstance
  retries := 0

-- the block is a list of 512 bytes to the evaluator
set_option maxRecDepth 4096 in
/-- The first block, the first block again, and the short one. -/
theorem sample_turns :
    receive sampleServer (.init sampleServer "f".toList) (sampleEvent 1) =
        .next sampleHalf [(sampleInstance, buildAck 1)] ∧
      receive sampleServer sampleHalf (sampleEvent 1) =
        .next sampleHalf [(sampleInstance, buildAck 1)] ∧
      receive sampleServer sampleHalf (sampleEvent 2) =
        .done (.ok sampleFile) [(sampleInstance, buildAck 2)] := ⟨rfl, rfl, rfl⟩

theorem turn_next {server : Addr} {w : World} {s s' : Fetch} {e : Event} {sent : List Sent}
    (h : receive server s e = .next s' sent) :
    w.turn server s e = { w with client := .running s', toServer := w.toServer ++ sent } := by
  rw [World.turn, h]

/-- The request has opened the instance, which has sent its first block. -/
def sampleOpened : World :=
  { World.init sampleServer "f".toList with
    instances := Function.update (fun _ => none) sampleInstance (some 1)
    toClient := [(sampleInstance, buildData (UInt16.ofNat 1) (fileBlock sampleFile 1))] }

/-- The block has come twice, and the instance has sent the next one. -/
def sampleResent : World :=
  { sampleOpened with
    client := .running sampleHalf
    instances := Function.update sampleOpened.instances sampleInstance (some 2)
    toServer := sampleOpened.toServer ++ [(sampleInstance, buildAck 1)] ++
      [(sampleInstance, buildAck 1)]
    toClient := sampleOpened.toClient ++
      [(sampleInstance, buildData (UInt16.ofNat 2) (fileBlock sampleFile 2))] }

theorem sample_trace : Trace (Step sampleServer sampleFile) (.init sampleServer "f".toList)
    [sampleEvent 1, sampleEvent 1, sampleEvent 2]
    (sampleResent.turn sampleServer sampleHalf (sampleEvent 2)) := by
  obtain ⟨hfirst, hagain, -⟩ := sample_turns
  have hopen : Step sampleServer sampleFile (.init sampleServer "f".toList) []
      { sampleOpened with toClient := [] } :=
    .openInstance sampleInstance "f".toList rfl rfl List.mem_cons_self
  have hinst : sampleOpened.instances sampleInstance = some 1 := by
    simp [sampleOpened]
  have hsend : Step sampleServer sampleFile { sampleOpened with toClient := [] } [] sampleOpened :=
    .sendBlock hinst
  have hcome : Step sampleServer sampleFile sampleOpened [sampleEvent 1] _ :=
    .client rfl (sampleEvent 1) (.inl List.mem_cons_self)
  rw [turn_next hfirst] at hcome
  have hagain' : Step sampleServer sampleFile { sampleOpened with
      client := .running sampleHalf
      toServer := sampleOpened.toServer ++ [(sampleInstance, buildAck 1)] } [sampleEvent 1] _ :=
    .client rfl (sampleEvent 1) (.inl List.mem_cons_self)
  rw [turn_next hagain] at hagain'
  have hadvance : Step sampleServer sampleFile { sampleResent with
      instances := sampleOpened.instances, toClient := sampleOpened.toClient } []
      { sampleResent with toClient := sampleOpened.toClient } :=
    .advance hinst (List.mem_append_right _ List.mem_cons_self) length_sampleBlock
  have hinst' : sampleResent.instances sampleInstance = some 2 := by
    simp [sampleResent]
  have hsend' : Step sampleServer sampleFile { sampleResent with toClient := sampleOpened.toClient }
      [] sampleResent := .sendBlock hinst'
  have hlast : Step sampleServer sampleFile sampleResent [sampleEvent 2] _ :=
    .client rfl (sampleEvent 2) (.inl (List.mem_append_right _ List.mem_cons_self))
  exact ((((((Trace.single hopen).trans (.single hsend)).trans (.single hcome)).trans
    (.single hagain')).trans (.single hadvance)).trans (.single hsend')).trans (.single hlast)

/-- A file of two blocks, the first of which comes twice. -/
theorem fetch_sample :
    ∃ out, fetch sampleUrl sampleSetup [sampleEvent 1, sampleEvent 1, sampleEvent 2] =
      some (.ok out) ∧ out = sampleFile := by
  obtain ⟨hfirst, hagain, hlast⟩ := sample_turns
  have hok : fetch sampleUrl sampleSetup [sampleEvent 1, sampleEvent 1, sampleEvent 2] =
      some (.ok sampleFile) := by
    show fetchLoop sampleServer (.init sampleServer "f".toList) [sampleEvent 1, sampleEvent 1,
      sampleEvent 2] = _
    rw [fetchLoop, hfirst]
    dsimp only
    rw [fetchLoop, hagain]
    dsimp only
    rw [fetchLoop, hlast]
  exact ⟨_, hok, fetch_ok_eq_file rfl rfl sample_trace hok⟩

end Rsurl.Tftp
