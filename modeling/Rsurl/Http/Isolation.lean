/-
# `Rsurl.Http.Isolation` — whose connection a request gets

A parked HTTP/2 connection is filed under scheme, host and port, and only
connections and requests with default TLS options come near the pool; the route
is in neither place.  So a history keeps its requests apart if those that share a
key agree on the route (`isolated_run`), and need not otherwise
(`route_crossed`).
-/
import Rsurl.Http.Effects

namespace Rsurl.Http

open Base (Pool Program)
open Base.Program (Triple)

/-! ## Histories -/

/-- What a caller does: `Request::send` hop by hop, `http2::send`, `send_multiplexed`. -/
inductive Op where
  | once (r : Request)
  | h2 (r : Request)
  | batch (reqs : List Request)

/-- The requests that may be sent over HTTP/2. -/
def Op.h2Requests : Op → List Request
  | .once r => if usesH2 r then [r] else []
  | .h2 r => [r]
  | .batch reqs => reqs

def Op.run (codec : Codec) (w : World) : Op → World
  | .once r => ((dispatch codec r).exec w).2
  | .h2 r => ((H2.send codec r).exec w).2
  | .batch reqs => ((H2.sendMultiplexed codec reqs).exec w).2

/-- One operation after another. -/
def runOps (codec : Codec) (w : World) (ops : List Op) : World := ops.foldl (Op.run codec) w

section

variable {J : Type} {codec : Codec} {env : Env World J}

/-- The hops of a chain as operations. -/
def hopOps (log : List Hop) : List Op := log.map fun hop => .once hop.request

theorem Hands.makeHop_world (h : Hands codec env) (r : Request) (jar : Option J) (w : World) :
    (makeHop env r jar w).2.2 = (Op.once (makeHop env r jar w).1.request).run codec w := by
  cases jar with
  | none => exact congrArg Prod.snd (h.sendOnce_eq r w)
  | some j => exact congrArg Prod.snd (h.sendOnce_eq _ w)

theorem Hands.deadlinePassed_world (h : Hands codec env) (deadline : Option Nat) (w : World) :
    (deadlinePassed env deadline w).2 = w := by
  cases deadline with
  | none => rfl
  | some last => exact h.clock w

theorem Hands.sendLoop_world (h : Hands codec env) (deadline : Option Nat) (hopsLeft : Nat)
    (r : Request) (jar : Option J) (w : World) :
    (sendLoop env deadline hopsLeft r jar w).world =
      runOps codec w (hopOps (sendLoop env deadline hopsLeft r jar w).log) := by
  induction hopsLeft generalizing r jar w with
  | zero =>
      unfold sendLoop
      simp only [h.deadlinePassed_world]
      split
      · rfl
      have hhop := h.makeHop_world r jar w
      split
      · exact hhop
      split
      · exact hhop
      · exact hhop
  | succ hopsLeft ih =>
      unfold sendLoop
      simp only [h.deadlinePassed_world]
      split
      · rfl
      have hhop := h.makeHop_world r jar w
      split
      · exact hhop
      split
      · exact hhop
      split
      · exact hhop
      next next _ =>
      rw [ih next (makeHop env r jar w).2.1 (makeHop env r jar w).2.2, hhop]
      rfl

/-- A redirect chain is a history: its world is what the logged requests leave, sent one after
another. -/
theorem Hands.sendTo_world (h : Hands codec env) (r : Request) (jar : Option J) (w : World) :
    (sendTo env r jar w).world = runOps codec w (hopOps (sendTo env r jar w).log) := by
  unfold sendTo
  split
  · exact h.sendLoop_world none r.maxRedirs r jar w
  · next d _ =>
      have hnow := h.clock w
      have hloop := h.sendLoop_world (some ((env.now w).1 + d)) r.maxRedirs r jar w
      dsimp only
      rw [hnow]
      exact hloop

end

/-- A pooled HTTP/2 connection that is handed to a request is what the request asks for: to the
same host and port, over the same route, under the same TLS options. -/
def Isolated : Event → Prop
  | .handed r true (.h2 c) => c.link = linkFor r
  | .handed r true (.batch c _) => c.link = linkFor r
  | _ => True

/-! ## Histories with one route a key -/

/-- The proxy a request goes through, as a destination. -/
def routeFor (r : Request) : Option Dest := (activeProxy r).map fun p => (p.host, p.port)

/-- The connection that is filed under a key, when `route` says which way its requests go. -/
def linkAt (route : PoolKey → Option Dest) (k : PoolKey) : Link where
  peer := (route k).getD (k.host, k.port)
  tunnel := (route k).map fun _ => (k.host, k.port)
  posture := some ⟨k.host, true, none⟩

/-- A request that comes near the pool goes the way of its key. -/
def Follows (route : PoolKey → Option Dest) (r : Request) : Prop :=
  r.url.scheme = "https".toList → H2.poolEligible r = true →
    routeFor r = route (poolKeyFor r.url)

theorem linkFor_eq_linkAt {route : PoolKey → Option Dest} {r : Request}
    (hroute : routeFor r = route (poolKeyFor r.url)) (helig : H2.poolEligible r = true) :
    linkFor r = linkAt route (poolKeyFor r.url) := by
  obtain ⟨hverify, hbundle⟩ := Bool.and_eq_true_iff.mp helig
  have hposture : postureOf r = ⟨r.url.host, true, none⟩ := by
    rw [postureOf, hverify, Option.isNone_iff_eq_none.mp hbundle]
  rw [linkAt, ← hroute, linkFor, hposture, routeFor, destOf]
  cases activeProxy r <;> rfl

/-- Every parked connection is the one of its key, and nothing was handed over wrongly. -/
structure Apart (route : PoolKey → Option Dest) (w : World) : Prop where
  parked : ∀ {k c}, Pool.Parked w.h2 k c → c.link = linkAt route k
  log : ∀ e ∈ w.log, Isolated e

section

variable {route : PoolKey → Option Dest} {codec : Codec}

theorem stable_apart : Stable (Apart route) Isolated where
  emit h he := ⟨h.parked, fun e hmem => by
    rcases List.mem_append.mp hmem with hmem | hmem
    · exact h.log e hmem
    · exact List.mem_singleton.mp hmem ▸ he⟩
  net _ h := ⟨h.parked, h.log⟩
  quic _ h := ⟨h.parked, h.log⟩
  plain _ h := ⟨h.parked, h.log⟩
  tls _ h := ⟨h.parked, h.log⟩

/-- What is good for a request: nothing, unless it comes near the pool. -/
def Suits (r : Request) (c : H2Wire) : Prop := c.link = linkFor r

theorem h2Rules_apart {r : Request} (hscheme : r.url.scheme = "https".toList)
    (hr : Follows route r) :
    H2Rules (Apart route) (Apart route) Isolated r (Suits r) where
  before := id
  checkout helig := by
    intro w hw
    refine ⟨⟨fun hp => hw.parked (Pool.parked_checkout hp), hw.log⟩, fun c hc _ => ?_⟩
    exact (hw.parked (Pool.parked_of_checkout hc)).trans
      (linkFor_eq_linkAt (hr hscheme helig) helig).symm
  fresh hlink := hlink
  link hlink hc := hlink.trans hc
  release helig {c} hc := by
    refine Triple.modify fun w hw => ⟨fun {k c'} hp => ?_, hw.log⟩
    rcases Pool.parked_release hp with hp | ⟨rfl, rfl⟩
    · exact hw.parked hp
    · exact hc.trans (linkFor_eq_linkAt (hr hscheme helig) helig)

theorem dials_isolated (r : Request) : Dials Isolated r := ⟨trivial, fun _ => trivial⟩

theorem sends11_isolated (r : Request) : Sends11 Isolated r where
  toDials := dials_isolated r
  pooled _ _ _ := trivial
  plain _ _ _ := trivial
  tls _ _ _ := trivial

theorem sends2_isolated (r : Request) : Sends2 Isolated r (Suits r) where
  toDials := dials_isolated r
  pooled _ hc := hc
  fresh _ _ := trivial

theorem keeps_h2_send {r : Request} (hr : Follows route r) :
    Keeps (Apart route) (H2.send codec r) := by
  by_cases hscheme : r.url.scheme = "https".toList
  · exact triple_h2_send stable_apart (h2Rules_apart hscheme hr) (sends2_isolated r)
  · unfold H2.send
    rw [if_pos hscheme]
    exact keeps_throw _

theorem keeps_dispatch {r : Request} (hr : usesH2 r = true → Follows route r) :
    Keeps (Apart route) (dispatch codec r) :=
  triple_dispatch stable_apart stable_apart (fun _ => id) (sends11_isolated r)
    (fun hscheme huses => ⟨h2Rules_apart hscheme (hr huses), sends2_isolated r⟩)
    fun _ _ => trivial

/-- The requests of a batch on one connection share its key. -/
theorem linkFor_of_multiplexable {first r : Request} {reqs : List Request}
    (hmulti : H2.isMultiplexable first reqs = true) (hfirst : Follows route first)
    (hmem : first ∈ reqs) (hr : r ∈ reqs) (hfollows : Follows route r) :
    linkFor first = linkFor r := by
  obtain ⟨hparts, helig⟩ := Bool.and_eq_true_iff.mp hmulti
  obtain ⟨hscheme, hsame⟩ := Bool.and_eq_true_iff.mp hparts
  obtain ⟨hpair, hport⟩ := Bool.and_eq_true_iff.mp (List.all_eq_true.mp hsame r hr)
  obtain ⟨hsch, hhost⟩ := Bool.and_eq_true_iff.mp hpair
  have hkey : poolKeyFor r.url = poolKeyFor first.url := by
    rw [poolKeyFor, poolKeyFor, beq_iff_eq.mp hsch, beq_iff_eq.mp hhost, beq_iff_eq.mp hport]
  have hhttps : first.url.scheme = "https".toList := beq_iff_eq.mp hscheme
  have hrhttps : r.url.scheme = "https".toList := (beq_iff_eq.mp hsch).trans hhttps
  have hall := List.all_eq_true.mp helig
  rw [linkFor_eq_linkAt (hfirst hhttps (hall first hmem)) (hall first hmem),
    linkFor_eq_linkAt (hfollows hrhttps (hall r hr)) (hall r hr), hkey]

theorem keeps_sendMultiplexed {reqs : List Request} (h : ∀ r ∈ reqs, Follows route r) :
    Keeps (Apart route) (H2.sendMultiplexed codec reqs) := by
  have heach : Keeps (Apart route) (H2.sendEach codec reqs) :=
    keeps_sendEach fun r hr => keeps_h2_send (h r hr)
  cases reqs with
  | nil => exact keeps_pure _
  | cons first rest =>
      show Keeps (Apart route) (if H2.isMultiplexable first (first :: rest) = true then
        H2.multiplex codec first (first :: rest) else H2.sendEach codec (first :: rest))
      split
      · next hmulti =>
          have hmem : first ∈ first :: rest := List.mem_cons_self
          obtain ⟨hparts, helig⟩ := Bool.and_eq_true_iff.mp hmulti
          have hscheme : first.url.scheme = "https".toList :=
            beq_iff_eq.mp (Bool.and_eq_true_iff.mp hparts).1
          refine keeps_multiplex stable_apart (h2Rules_apart hscheme (h first hmem))
            (dials_isolated first) (List.all_eq_true.mp helig first hmem) heach ?_
          intro c pooled hc r hr
          have hlink : c.link = linkFor r :=
            Eq.trans hc (linkFor_of_multiplexable hmulti (h first hmem) hmem hr (h r hr))
          cases pooled with
          | true => exact hlink
          | false => trivial
      · exact heach

/-- One operation. -/
theorem Keeps.world {α : Type} {I : World → Prop} {m : Client α} (h : Keeps I m) {w : World}
    (hw : I w) : I (m.exec w).2 := by
  have hm := h w hw
  revert hm
  rcases m.exec w with ⟨e | a, w'⟩ <;> exact id

theorem Apart.run {w : World} {op : Op} (hw : Apart route w)
    (hop : ∀ r ∈ op.h2Requests, Follows route r) : Apart route (op.run codec w) := by
  cases op with
  | once r =>
      refine (keeps_dispatch fun huses => hop r ?_).world hw
      rw [Op.h2Requests, if_pos huses]
      exact List.mem_singleton_self r
  | h2 r => exact (keeps_h2_send (hop r (List.mem_singleton_self r))).world hw
  | batch reqs => exact (keeps_sendMultiplexed hop).world hw

theorem Apart.runOps {w : World} {ops : List Op} (hw : Apart route w)
    (hops : ∀ op ∈ ops, ∀ r ∈ op.h2Requests, Follows route r) :
    Apart route (runOps codec w ops) := by
  induction ops generalizing w with
  | nil => exact hw
  | cons op ops ih =>
      obtain ⟨hop, hrest⟩ := List.forall_mem_cons.mp hops
      exact ih (hw.run hop) hrest

end

/-- For every history from an empty HTTP/2 pool in which requests with the same scheme, host and
port that come near it go the same way: no request gets a pooled connection that is not what
it asks for. -/
theorem isolated_run (codec : Codec) (route : PoolKey → Option Dest) (w : World) (ops : List Op)
    (hpool : w.h2 = ∅) (hlog : w.log = [])
    (hops : ∀ op ∈ ops, ∀ r ∈ op.h2Requests, Follows route r) :
    ∀ e ∈ (runOps codec w ops).log, Isolated e := by
  refine (Apart.runOps ⟨fun {k c} hp => ?_, fun e he => ?_⟩ hops).log
  · rw [hpool] at hp
    exact (Pool.not_parked_empty hp).elim
  · rw [hlog] at he
    cases he

/-! ## Two histories -/

/-- A codec that leaves a body as it is. -/
def plainCodec : Codec := fun _ bytes _ => .ok bytes

/-- A sink that takes everything. -/
def openSink : Sink := ⟨[], none, none⟩

/-- A server that answers a CONNECT and then speaks HTTP/2, one 204 on each of two streams. -/
def h2Peer : Peer where
  tcp := .ok (⟨"HTTP/1.1 200 ok\r\n\r\n".toList.map fun c => UInt8.ofNat c.toNat, none⟩, openSink)
  tls _ _ := .ok (⟨[0, 0, 1, 1, 5, 0, 0, 0, 1, 0x89, 0, 0, 1, 1, 5, 0, 0, 0, 3, 0x89], none⟩,
    openSink, true)

/-- Nobody was connected to yet. -/
def freshWorld : World where
  net := [h2Peer]
  quic := []
  plain := ∅
  tls := ∅
  h2 := ∅
  log := []

/-- A GET. -/
def directGet : Request := (Request.new "GET".toList "https://a/".toList).toOption.get (by decide)

/-- A GET through a proxy. -/
def proxiedGet : Request := { directGet with proxy := some ⟨"p".toList, 3128, none⟩ }

/-- A request is handed a pooled connection that is, or is not, what it asks for. -/
def handsPooled (right : Bool) : Event → Bool
  | .handed r true (.h2 c) => decide (c.link = linkFor r) == right
  | _ => false

theorem not_isolated_of_handsPooled {e : Event} (h : handsPooled false e = true) :
    ¬ Isolated e := by
  cases e with
  | connect dest => cases h
  | udp dest => cases h
  | tunnel link target => cases h
  | handed r pooled exchange =>
      cases pooled with
      | false => cases h
      | true =>
          cases exchange with
          | h1 wire absoluteForm => cases h
          | batch c reqs => cases h
          | h2 c =>
              intro hiso
              have hlink : c.link = linkFor r := hiso
              simp [handsPooled, hlink] at h

/-- Two requests through one proxy: the second one gets the tunnel of the first. -/
theorem isolated_of_proxied :
    (∀ e ∈ (runOps plainCodec freshWorld [.once proxiedGet, .once proxiedGet]).log, Isolated e) ∧
      ∃ e ∈ (runOps plainCodec freshWorld [.once proxiedGet, .once proxiedGet]).log,
        handsPooled true e = true := by
  refine ⟨isolated_run plainCodec (fun _ => some ("p".toList, 3128)) freshWorld _ rfl rfl ?_, ?_⟩
  · intro op hop r hr
    have hr' : r = proxiedGet := by
      simp only [List.mem_cons, List.not_mem_nil, or_false, or_self] at hop
      subst hop
      have huses : usesH2 proxiedGet = true := by decide
      rw [Op.h2Requests, if_pos huses] at hr
      exact List.mem_singleton.mp hr
    intro _ _
    rw [hr']
    decide
  · have hany : (runOps plainCodec freshWorld [.once proxiedGet, .once proxiedGet]).log.any
        (handsPooled true) = true := by decide +kernel
    exact List.any_eq_true.mp hany

/-- A direct request leaves its connection behind; the next one, which asks for a proxy, gets
it. -/
theorem route_crossed :
    ∃ ops : List Op, ∃ e ∈ (runOps plainCodec freshWorld ops).log, ¬ Isolated e := by
  have hany : (runOps plainCodec freshWorld [.once directGet, .once proxiedGet]).log.any
      (handsPooled false) = true := by decide +kernel
  obtain ⟨e, he, hbad⟩ := List.any_eq_true.mp hany
  exact ⟨_, e, he, not_isolated_of_handsPooled hbad⟩

end Rsurl.Http
