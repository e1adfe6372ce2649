/-
# `Rsurl.Tftp.Limits` — which sizes go through

The size guards of both directions count bytes up to 256 MiB; progress is
counted in 16-bit blocks, and both loops refuse to count past 65535.  With a
server that loses nothing, a transfer is a dialogue in lock step, so the block
count alone decides it: a file goes through if its short block has a number.
-/
import Rsurl.Base.Rounds
import Rsurl.Tftp.Upload

namespace Rsurl.Tftp

open Base (Rounds)

/-- The bytes that can be counted: all blocks up to 65535, the last of them short. -/
def countableBytes : Nat := 65535 * blockSize

/-- The number of the short block. -/
def lastBlock (file : Bytes) : Nat := file.length / blockSize + 1

/-- The round in which a transfer ends: at its short block, or where the counter does. -/
def lastRound (file : Bytes) : Nat := min (lastBlock file) 65535

theorem length_fileBlock {file : Bytes} {k : Nat} (hk : 1 ≤ k) :
    (fileBlock file k).length < blockSize ↔ lastBlock file ≤ k := by
  rw [fileBlock, List.length_take, List.length_drop, lastBlock, blockSize]
  obtain ⟨j, rfl⟩ := Nat.exists_eq_add_of_le hk
  omega

theorem length_fileBlock_le (file : Bytes) (k : Nat) : (fileBlock file k).length ≤ blockSize :=
  List.length_take_le _ _

theorem lastBlock_le_iff {file : Bytes} : lastBlock file ≤ 65535 ↔ file.length < countableBytes := by
  rw [lastBlock, countableBytes, blockSize]
  omega

theorem toNat_succ {n : UInt16} {k : Nat} (hn : n.toNat = k) (hk : k < 65535) :
    (n + 1).toNat = k + 1 := by
  rw [UInt16.toNat_add, hn]
  exact Nat.mod_eq_of_lt (by simp; omega)

theorem ofNat_of_toNat {n : UInt16} {k : Nat} (hn : n.toNat = k) : UInt16.ofNat k = n := by
  rw [← hn, UInt16.ofNat_toNat]

/-! ## The read side -/

/-- The block that the instance at `p` sends in round `k`. -/
def sendsBlock (p : Addr) (file : Bytes) (k : Nat) : Event :=
  .datagram (buildData (UInt16.ofNat k) (fileBlock file k)) p none

/-- The client goes on in round `k`, and its acknowledgement lets the instance do so. -/
def FetchNext (server p : Addr) (file : Bytes) (s : Fetch) (k : Nat) (s' : Fetch) : Prop :=
  ∃ sent, receive server s (sendsBlock p file k) = .next s' sent ∧
    (p, buildAck (UInt16.ofNat k)) ∈ sent ∧ (fileBlock file k).length = blockSize

def FetchDone (server p : Addr) (file : Bytes) (s : Fetch) (k : Nat) : Prop :=
  ∃ res sent, receive server s (sendsBlock p file k) = .done res sent

/-- What arrives at a client whose datagrams and whose server's are never lost. -/
def FetchDialogue (server p : Addr) (file : Bytes) : Fetch → Nat → List Event → Prop :=
  Rounds (sendsBlock p file) (FetchNext server p file) (FetchDone server p file)

/-- The client waits for block `k`. -/
structure FetchAt (p : Addr) (file : Bytes) (s : Fetch) (k : Nat) : Prop where
  pos : 1 ≤ k
  bound : k ≤ lastRound file
  expected : s.expectedBlock.toNat = k
  out : s.out = file.take (blockSize * (k - 1))
  peer : s.peer = none ∨ s.peer = some p

/-- A transfer's outcome, by the size alone. -/
def fetchOutcome (file : Bytes) : Result Bytes :=
  if file.length < countableBytes then .ok file else .error Store.wrapped

section Fetch

variable {server p : Addr} {file : Bytes} {s : Fetch} {k : Nat}

/-- Block `k` is the one the client expects. -/
theorem receive_sendsBlock (h : FetchAt p file s k) (hip : p.ip = server.ip) :
    receive server s (sendsBlock p file k) =
      acceptBlock s ⟨s.expectedBlock, fileBlock file k⟩ p none := by
  have hheard : isHeard server s p = true := by
    rw [isHeard]
    rcases h.peer with hp | hp
    · rw [hp]
      simpa using hip
    · rw [hp]
      simp
  have hlen : (buildData (UInt16.ofNat k) (fileBlock file k)).length ≤ bufferSize := by
    have hblock := length_fileBlock_le file k
    simp only [buildData, toBeBytes, List.length_append, List.length_cons, List.length_nil,
      bufferSize]
    omega
  have hdata : parseOpcode (buildData (UInt16.ofNat k) (fileBlock file k)) = some opData := by
    rw [buildData, List.append_assoc, parseOpcode_toBeBytes]
  rw [sendsBlock, receive, hheard, if_neg (by simp), List.take_of_length_le hlen]
  dsimp only
  rw [hdata]
  dsimp only
  rw [if_pos rfl, onData, parseData_buildData]
  dsimp only
  rw [ofNat_of_toNat h.expected, if_neg (not_not_intro rfl)]

/-- The blocks so far and this one. -/
theorem FetchAt.out_append (h : FetchAt p file s k) :
    s.out ++ fileBlock file k = file.take (blockSize * k) := by
  rw [h.out, take_append_fileBlock file h.pos]

/-- The size guard lets every block of an admitted file through. -/
theorem receive_fits (h : FetchAt p file s k) (hip : p.ip = server.ip)
    (hsize : file.length ≤ maxTotalBytes) :
    receive server s (sendsBlock p file k) =
      if (fileBlock file k).length < blockSize then .done (.ok (file.take (blockSize * k)))
        [(p, buildAck s.expectedBlock)]
      else if s.expectedBlock = 65535 then .done (.error Store.wrapped) [(p, buildAck s.expectedBlock)]
      else .next {
        peer := some p
        out := file.take (blockSize * k)
        expectedBlock := s.expectedBlock + 1
        lastPacket := buildAck s.expectedBlock
        lastDest := p
        retries := 0 } [(p, buildAck s.expectedBlock)] := by
  have hfits : ¬ maxTotalBytes < s.out.length + (fileBlock file k).length := by
    rw [← List.length_append, h.out_append, List.length_take]
    omega
  have hpeer : s.peer.or (some p) = some p := by
    rcases h.peer with hp | hp <;> rw [hp] <;> rfl
  rw [receive_sendsBlock h hip]
  simp only [acceptBlock, h.out_append, hpeer, sendTo, Store.wrapped, gt_iff_lt, if_neg hfits]

theorem fetchAt_succ (h : FetchAt p file s k) (hip : p.ip = server.ip)
    (hsize : file.length ≤ maxTotalBytes) (hk : k < lastRound file) :
    ∃ s', FetchNext server p file s k s' ∧ FetchAt p file s' (k + 1) := by
  have hround : lastRound file ≤ lastBlock file ∧ lastRound file ≤ 65535 :=
    ⟨Nat.min_le_left _ _, Nat.min_le_right _ _⟩
  have hfull : ¬ (fileBlock file k).length < blockSize := by
    rw [length_fileBlock h.pos]
    omega
  have hmax : s.expectedBlock ≠ 65535 := by
    intro he
    have hval := h.expected
    rw [he] at hval
    have h16 : (65535 : UInt16).toNat = 65535 := rfl
    omega
  have hturn := receive_fits h hip hsize
  rw [if_neg hfull, if_neg hmax] at hturn
  refine ⟨_, ⟨_, hturn, ?_, ?_⟩, ?_⟩
  · rw [ofNat_of_toNat h.expected]
    exact List.mem_cons_self
  · have hle := length_fileBlock_le file k
    omega
  · exact ⟨by omega, hk, toNat_succ h.expected (by omega), rfl, .inr rfl⟩

theorem fetchAt_last (h : FetchAt p file s (lastRound file)) (hip : p.ip = server.ip)
    (hsize : file.length ≤ maxTotalBytes) :
    ∃ sent, receive server s (sendsBlock p file (lastRound file)) =
      .done (fetchOutcome file) sent := by
  have hturn := receive_fits h hip hsize
  by_cases hlast : lastBlock file ≤ 65535
  · have hround : lastRound file = lastBlock file := Nat.min_eq_left hlast
    have hshort : (fileBlock file (lastRound file)).length < blockSize :=
      (length_fileBlock h.pos).mpr (Nat.le_of_eq hround.symm)
    rw [if_pos hshort, take_eq_of_short h.pos hshort] at hturn
    rw [fetchOutcome, if_pos (lastBlock_le_iff.mp hlast)]
    exact ⟨_, hturn⟩
  · have hround : lastRound file = 65535 := Nat.min_eq_right (Nat.le_of_not_le hlast)
    have hfull : ¬ (fileBlock file (lastRound file)).length < blockSize := by
      rw [length_fileBlock h.pos, hround]
      exact hlast
    have hmax : s.expectedBlock = 65535 := UInt16.toNat_inj.mp (h.expected.trans hround)
    rw [if_neg hfull, if_pos hmax] at hturn
    rw [fetchOutcome, if_neg fun hlt => hlast (lastBlock_le_iff.mpr hlt)]
    exact ⟨_, hturn⟩

theorem fetchAt_init (server p : Addr) (file : Bytes) (filename : Text) :
    FetchAt p file (.init server filename) 1 :=
  ⟨Nat.le_refl 1, Nat.le_min.mpr ⟨Nat.le_add_left 1 _, by decide⟩, rfl, rfl, .inl rfl⟩

theorem fetchDialogue_exists (filename : Text) (hip : p.ip = server.ip)
    (hsize : file.length ≤ maxTotalBytes) :
    ∃ evs, FetchDialogue server p file (.init server filename) 1 evs := by
  have hinit := fetchAt_init server p file filename
  refine Rounds.exists_of_bound (fun s k hk h => fetchAt_succ h hip hsize hk) (fun s h => ?_)
    hinit hinit.bound
  obtain ⟨sent, hturn⟩ := fetchAt_last h hip hsize
  exact ⟨_, sent, hturn⟩

theorem fetchLoop_of_dialogue (h : FetchAt p file s k) (hip : p.ip = server.ip)
    (hsize : file.length ≤ maxTotalBytes) {evs : List Event}
    (hevs : FetchDialogue server p file s k evs) :
    fetchLoop server s evs = some (fetchOutcome file) := by
  refine Rounds.outcome ?_ ?_ h hevs
  · rintro s k s' h ⟨sent, hturn, -, hfull⟩
    have hnot : ¬ lastRound file ≤ k := by
      intro hle
      obtain rfl : k = lastRound file := Nat.le_antisymm h.bound hle
      obtain ⟨sent', hlast⟩ := fetchAt_last h hip hsize
      rw [hlast] at hturn
      cases hturn
    obtain ⟨s'', ⟨sent', hturn', -, -⟩, h''⟩ := fetchAt_succ h hip hsize (Nat.lt_of_not_le hnot)
    rw [hturn'] at hturn
    obtain ⟨rfl, rfl⟩ := Turn.next.inj hturn
    refine ⟨h'', fun evs => ?_⟩
    rw [fetchLoop, hturn']
  · rintro s k h ⟨res, sent, hturn⟩
    have hk : k = lastRound file := by
      by_contra hne
      obtain ⟨s', ⟨sent', hturn', -, -⟩, -⟩ :=
        fetchAt_succ h hip hsize (Nat.lt_of_le_of_ne h.bound hne)
      rw [hturn'] at hturn
      cases hturn
    obtain rfl := hk
    obtain ⟨sent', hlast⟩ := fetchAt_last h hip hsize
    rw [fetchLoop, hlast]

end Fetch

/-! ## The write side -/

namespace Store

/-- The acknowledgement that the instance at `p` sends in round `k`. -/
def sendsAck (p : Addr) (k : Nat) : Event := .datagram (buildAck (UInt16.ofNat k)) p none

/-- The client goes on in round `k`, and its block lets the instance do so. -/
def Next (server p : Addr) (data : Bytes) (s : Store) (k : Nat) (s' : Store) : Prop :=
  ∃ sent, receive server data s (sendsAck p k) = .next s' sent ∧
    (p, buildData (UInt16.ofNat (k + 1)) (fileBlock data (k + 1))) ∈ sent

def Done (server p : Addr) (data : Bytes) (s : Store) (k : Nat) : Prop :=
  ∃ res sent, receive server data s (sendsAck p k) = .done res sent

/-- What arrives at a client whose datagrams and whose server's are never lost. -/
def Dialogue (server p : Addr) (data : Bytes) : Store → Nat → List Event → Prop :=
  Rounds (sendsAck p) (Next server p data) (Done server p data)

/-- The client waits for the acknowledgement of block `k`. -/
structure At (p : Addr) (data : Bytes) (s : Store) (k : Nat) : Prop where
  bound : k ≤ lastRound data
  block : s.block.toNat = k
  counts : Counts data s
  peer : s.peer = none ∨ s.peer = some p

/-- An upload's outcome, by the size alone. -/
def outcome (data : Bytes) : Result Unit :=
  if data.length < countableBytes then .ok () else .error wrapped

variable {server p : Addr} {data : Bytes} {s : Store} {k : Nat}

theorem receive_sendsAck (h : At p data s k) (hip : p.ip = server.ip) :
    receive server data s (sendsAck p k) = acceptAck data s p none := by
  have hheard : isHeard server s p = true := by
    rw [isHeard]
    rcases h.peer with hp | hp
    · rw [hp]
      simpa using hip
    · rw [hp]
      simp
  have htake : (buildAck (UInt16.ofNat k)).take bufferSize = buildAck (UInt16.ofNat k) := rfl
  have hack : parseOpcode (buildAck (UInt16.ofNat k)) = some opAck := parseOpcode_toBeBytes opAck _
  rw [sendsAck, receive, hheard, if_neg (by simp), htake]
  dsimp only
  rw [hack]
  dsimp only
  rw [if_pos rfl, onAck, parseAck_buildAck]
  dsimp only
  rw [ofNat_of_toNat h.block, if_neg (not_not_intro rfl)]

/-- The short block is the one sent last exactly when it has been reached. -/
theorem sentFinal_iff (h : At p data s k) : s.sentFinal = true ↔ lastBlock data ≤ k := by
  by_cases h0 : s.block = 0
  · have hk : k = 0 := by
      rw [← h.block, h0]
      rfl
    rw [h.counts.unsent h0, hk, lastBlock]
    simp
  · have hpos : 1 ≤ k := by
      rw [← h.block]
      exact Nat.one_le_iff_ne_zero.mpr fun hz => h0 (UInt16.toNat_inj.mp hz)
    rw [h.counts.final h0, decide_eq_true_iff, h.block]
    exact length_fileBlock hpos

theorem At.latch (h : At p data s k) : s.peer.or (some p) = some p := by
  rcases h.peer with hp | hp <;> rw [hp] <;> rfl

theorem at_succ (h : At p data s k) (hip : p.ip = server.ip) (hk : k < lastRound data) :
    ∃ s', Next server p data s k s' ∧ At p data s' (k + 1) := by
  have hround : lastRound data ≤ lastBlock data ∧ lastRound data ≤ 65535 :=
    ⟨Nat.min_le_left _ _, Nat.min_le_right _ _⟩
  have hopen : ¬ s.sentFinal = true := by
    rw [sentFinal_iff h]
    omega
  have hmax : s.block ≠ 65535 := by
    intro he
    have hval := h.block
    rw [he] at hval
    have h16 : (65535 : UInt16).toNat = 65535 := rfl
    omega
  have hsucc : (s.block + 1).toNat = k + 1 := toNat_succ h.block (by omega)
  have hturn := receive_sendsAck h hip
  rw [h.counts.acceptAck_eq h.latch hopen hmax, h.block] at hturn
  refine ⟨s.advance data p, ⟨_, hturn, ?_⟩, hk, hsucc, h.counts.advance p hopen hmax, .inr rfl⟩
  rw [ofNat_of_toNat hsucc]
  exact List.mem_cons_self

theorem at_last (h : At p data s (lastRound data)) (hip : p.ip = server.ip) :
    ∃ sent, receive server data s (sendsAck p (lastRound data)) = .done (outcome data) sent := by
  have hturn := receive_sendsAck h hip
  by_cases hlast : lastBlock data ≤ 65535
  · have hround : lastRound data = lastBlock data := Nat.min_eq_left hlast
    have hfinal : s.sentFinal = true := (sentFinal_iff h).mpr (Nat.le_of_eq hround.symm)
    rw [acceptAck, if_pos hfinal] at hturn
    rw [outcome, if_pos (lastBlock_le_iff.mp hlast)]
    exact ⟨_, hturn⟩
  · have hround : lastRound data = 65535 := Nat.min_eq_right (Nat.le_of_not_le hlast)
    have hopen : ¬ s.sentFinal = true := by
      rw [sentFinal_iff h, hround]
      exact hlast
    have hmax : s.block = 65535 := UInt16.toNat_inj.mp (h.block.trans hround)
    simp only [acceptAck, if_neg hopen, if_pos hmax] at hturn
    rw [outcome, if_neg fun hlt => hlast (lastBlock_le_iff.mpr hlt)]
    exact ⟨_, hturn⟩

theorem at_init (server p : Addr) (data : Bytes) (filename : Text) :
    At p data (.init server filename) 0 :=
  ⟨Nat.zero_le _, rfl, ⟨fun _ => rfl, fun _ => rfl, fun h => absurd rfl h, fun h => absurd rfl h,
    fun k _ hk => absurd hk (Nat.not_lt_zero k)⟩, .inl rfl⟩

theorem dialogue_exists (filename : Text) (hip : p.ip = server.ip) :
    ∃ evs, Dialogue server p data (.init server filename) 0 evs := by
  have hinit := at_init server p data filename
  refine Rounds.exists_of_bound (fun s k hk h => at_succ h hip hk) (fun s h => ?_) hinit hinit.bound
  obtain ⟨sent, hturn⟩ := at_last h hip
  exact ⟨_, sent, hturn⟩

theorem loop_of_dialogue (h : At p data s k) (hip : p.ip = server.ip) {evs : List Event}
    (hevs : Dialogue server p data s k evs) : loop server data s evs = some (outcome data) := by
  refine Rounds.outcome ?_ ?_ h hevs
  · rintro s k s' h ⟨sent, hturn, -⟩
    have hnot : ¬ lastRound data ≤ k := by
      intro hle
      obtain rfl : k = lastRound data := Nat.le_antisymm h.bound hle
      obtain ⟨sent', hlast⟩ := at_last h hip
      rw [hlast] at hturn
      cases hturn
    obtain ⟨s'', ⟨sent', hturn', -⟩, h''⟩ := at_succ h hip (Nat.lt_of_not_le hnot)
    rw [hturn'] at hturn
    obtain ⟨rfl, rfl⟩ := Turn.next.inj hturn
    refine ⟨h'', fun evs => ?_⟩
    rw [loop, hturn']
  · rintro s k h ⟨res, sent, hturn⟩
    have hk : k = lastRound data := by
      by_contra hne
      obtain ⟨s', ⟨sent', hturn', -⟩, -⟩ := at_succ h hip (Nat.lt_of_le_of_ne h.bound hne)
      rw [hturn'] at hturn
      cases hturn
    obtain rfl := hk
    obtain ⟨sent', hlast⟩ := at_last h hip
    rw [loop, hlast]

end Store

/-! ## Both directions -/

/-- A socket that never fails. -/
def Setup.sound (server : Addr) : Setup := ⟨.ok server, none, none, none⟩

section

variable {url : Url} {filename : Text} {server p : Addr} {file : Bytes}

theorem fetch_of_dialogue (hname : filenameOf url = .ok filename) (hip : p.ip = server.ip)
    (hsize : file.length ≤ maxTotalBytes) {evs : List Event}
    (hevs : FetchDialogue server p file (.init server filename) 1 evs) :
    fetch url (.sound server) evs = some (fetchOutcome file) := by
  rw [fetch, hname]
  exact fetchLoop_of_dialogue (fetchAt_init server p file filename) hip hsize hevs

theorem store_of_dialogue (hname : filenameOf url = .ok filename) (hip : p.ip = server.ip)
    (hsize : file.length ≤ maxTotalBytes) {evs : List Event}
    (hevs : Store.Dialogue server p file (.init server filename) 0 evs) :
    store url file (.sound server) evs = some (Store.outcome file) := by
  rw [store, hname]
  dsimp only
  rw [if_neg (Nat.not_lt.mpr hsize)]
  exact Store.loop_of_dialogue (Store.at_init server p file filename) hip hevs

/-- A file of an admitted size goes through in either direction exactly when it has fewer than
65535 full blocks, and is refused by the block counter otherwise. -/
theorem outcome_by_size (hname : filenameOf url = .ok filename) (hip : p.ip = server.ip)
    (hsize : file.length ≤ maxTotalBytes) :
    ((∃ evs, FetchDialogue server p file (.init server filename) 1 evs) ∧
      ∀ evs, FetchDialogue server p file (.init server filename) 1 evs →
        fetch url (.sound server) evs = some (if file.length < countableBytes then .ok file
          else .error Store.wrapped)) ∧
    (∃ evs, Store.Dialogue server p file (.init server filename) 0 evs) ∧
      ∀ evs, Store.Dialogue server p file (.init server filename) 0 evs →
        store url file (.sound server) evs = some (if file.length < countableBytes then .ok ()
          else .error Store.wrapped) :=
  ⟨⟨fetchDialogue_exists filename hip hsize, fun _ hevs => fetch_of_dialogue hname hip hsize hevs⟩,
    Store.dialogue_exists filename hip, fun _ hevs => store_of_dialogue hname hip hsize hevs⟩

end

/-- The smallest file that cannot be counted. -/
def uncountedFile : Bytes := List.replicate countableBytes 0

theorem length_uncountedFile : uncountedFile.length = 33553920 := List.length_replicate

theorem uncounted_refused : uncountedFile.length ≤ maxTotalBytes ∧
    (∃ evs, FetchDialogue sampleServer sampleInstance uncountedFile (.init sampleServer "f".toList) 1
        evs ∧ fetch sampleUrl sampleSetup evs = some (.error Store.wrapped)) ∧
    ∃ evs, Store.Dialogue sampleServer sampleInstance uncountedFile
        (.init sampleServer "f".toList) 0 evs ∧
      store sampleUrl uncountedFile sampleSetup evs = some (.error Store.wrapped) := by
  have hlen := length_uncountedFile
  have hsize : uncountedFile.length ≤ maxTotalBytes := by
    rw [hlen]
    decide
  have hlong : ¬ uncountedFile.length < countableBytes := by
    rw [hlen]
    decide
  have hname : filenameOf sampleUrl = .ok "f".toList := rfl
  have hip : sampleInstance.ip = sampleServer.ip := rfl
  obtain ⟨evs, hfetch⟩ := fetchDialogue_exists "f".toList hip hsize
  obtain ⟨acks, hstore⟩ := Store.dialogue_exists "f".toList hip
  have hread := fetch_of_dialogue hname hip hsize hfetch
  have hwrite := store_of_dialogue hname hip hsize hstore
  rw [fetchOutcome, if_neg hlong] at hread
  rw [Store.outcome, if_neg hlong] at hwrite
  exact ⟨hsize, ⟨evs, hfetch, hread⟩, acks, hstore, hwrite⟩

theorem outcome_by_size_sample :
    ((∃ evs, FetchDialogue sampleServer sampleInstance sampleFile
        (.init sampleServer "f".toList) 1 evs) ∧
      ∀ evs, FetchDialogue sampleServer sampleInstance sampleFile (.init sampleServer "f".toList) 1
          evs →
        fetch sampleUrl (.sound sampleServer) evs =
          some (if sampleFile.length < countableBytes then .ok sampleFile
            else .error Store.wrapped)) ∧
    (∃ evs, Store.Dialogue sampleServer sampleInstance sampleFile
        (.init sampleServer "f".toList) 0 evs) ∧
      ∀ evs, Store.Dialogue sampleServer sampleInstance sampleFile (.init sampleServer "f".toList) 0
          evs →
        store sampleUrl sampleFile (.sound sampleServer) evs =
          some (if sampleFile.length < countableBytes then .ok () else .error Store.wrapped) :=
  outcome_by_size rfl rfl (length_sampleFile ▸ by decide)

end Rsurl.Tftp
