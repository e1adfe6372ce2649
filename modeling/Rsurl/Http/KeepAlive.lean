/-
# `Rsurl.Http.KeepAlive` — whose HTTP/1.1 connection a request gets, and where it stands

A parked connection of HTTP/1.1 was dialled straight to the host and port it is
filed under, for `https` with the default TLS options, and since then it has done
nothing but whole exchanges whose responses allow another one.  That holds in
every history, with no condition on its requests; so a request that is handed a
pooled connection reads behind the last of these responses (`reserved_run`).  Each
of them said itself where it ends, but for a chunked one that the peer's close cut
short at its end, behind which nothing is left to read (`answered_run`).
-/
import Mathlib.Logic.Relation
import Rsurl.Http.Complete
import Rsurl.Http.Isolation

namespace Rsurl.Http

open Base (Pool Program)
open Base.Program (Triple)
open Relation (ReflTransGen TransGen)

/-! ## Connections that are kept -/

/-- An exchange after which the connection may carry another one. -/
def Reuses (codec : Codec) (w w' : Wire) : Prop :=
  ∃ r absoluteForm resp, perform codec r absoluteForm w = (.ok resp, w') ∧
    responseIsReusable r.method resp = true

/-- A connection as one of the peers gave it, under TLS if that is how it was opened. -/
def Dialled (net : List Peer) (w : Wire) : Prop :=
  ∃ peer ∈ net, match w.link.posture with
    | none => peer.tcp = .ok (w.source, w.sink)
    | some posture => ∃ selected, peer.tls posture false = .ok (w.source, w.sink, selected)

/-- The connection that is filed under a key: no proxy, no tunnel, and for `https` the default TLS
options. -/
def linkOf (k : PoolKey) : Link where
  peer := (k.host, k.port)
  tunnel := none
  posture := if k.scheme = "https".toList then some ⟨k.host, true, none⟩ else none

/-- A connection of that kind that has carried nothing but exchanges that allow another. -/
structure Belongs (codec : Codec) (net : List Peer) (k : PoolKey) (w : Wire) : Prop where
  link : w.link = linkOf k
  since : ∃ w₀, Dialled net w₀ ∧ ReflTransGen (Reuses codec) w₀ w

/-- One that has carried at least one of them. -/
structure Reserved (codec : Codec) (net : List Peer) (k : PoolKey) (w : Wire) : Prop where
  link : w.link = linkOf k
  used : ∃ w₀, Dialled net w₀ ∧ TransGen (Reuses codec) w₀ w

/-- The connection that a request asks for. -/
def linkAsked (r : Request) : Link :=
  if r.url.scheme = "https".toList then linkFor r else ⟨destOf r, none, none⟩

/-- A pooled connection of HTTP/1.1 that is handed to a request is what it asks for, and one kept
for its scheme, host and port. -/
def Sound (codec : Codec) (net : List Peer) : Event → Prop
  | .handed r true (.h1 w _) => w.link = linkAsked r ∧ Reserved codec net (poolKeyFor r.url) w
  | _ => True

/-- Nothing else is parked, and nothing else was handed over. -/
structure Kept (codec : Codec) (net : List Peer) (w : World) : Prop where
  peers : ∀ peer ∈ w.net, peer ∈ net
  plain : ∀ {k c}, Pool.Parked w.plain k c → Reserved codec net k c
  tls : ∀ {k c}, Pool.Parked w.tls k c → Reserved codec net k c
  log : ∀ e ∈ w.log, Sound codec net e

/-! ## The side that does not matter -/

/-- A property that only HTTP/1.1 exchanges and their pools can touch. -/
structure Aside (I : World → Prop) : Prop where
  emit : ∀ {w : World} {e : Event}, I w → (∀ r wire b, e ≠ .handed r true (.h1 wire b)) →
    I { w with log := w.log ++ [e] }
  net : ∀ {w : World} {peer : Peer} {net : List Peer}, w.net = peer :: net → I w →
    I { w with net }
  quic : ∀ {w : World} (quic : List QuicPeer), I w → I { w with quic }
  h2 : ∀ {w : World} (h2 : Pool PoolKey H2Wire), I w → I { w with h2 }

section

variable {I : World → Prop} {codec : Codec} {r first : Request} {reqs : List Request}
  (hI : Aside I)

include hI

theorem Aside.keeps_emit {e : Event} (he : ∀ r wire b, e ≠ .handed r true (.h1 wire b)) :
    Keeps I (Http.emit e) :=
  Triple.modify fun _ hw => hI.emit hw he

theorem Aside.keeps_nextPeer : Keeps I nextPeer := by
  intro w hw
  unfold Program.exec nextPeer
  cases hnet : w.net with
  | nil => exact hw
  | cons peer net => exact hI.net hnet hw

theorem Aside.keeps_tcpConnect : Keeps I (tcpConnect r) := by
  refine Triple.bind (hI.keeps_emit ?_) fun _ => Triple.bind hI.keeps_nextPeer fun peer =>
    Triple.bind (keeps_ofExcept _) ?_
  · intro r wire b heq
    cases heq
  · rintro ⟨source, sink⟩
    exact keeps_pure _

theorem Aside.keeps_maybeTunnel {w : Wire} {target : Url} {proxy : Option ProxyConfig} :
    Keeps I (maybeTunnel w target proxy) := by
  cases proxy with
  | none => exact keeps_pure w
  | some p =>
      refine Triple.bind (hI.keeps_emit ?_) fun _ => Triple.bind (keeps_ofExcept _) ?_
      · intro r wire b heq
        cases heq
      · rintro ⟨source, sink⟩
        exact keeps_pure _

omit hI in
theorem keeps_connectOverTls {w : Wire} {peer : Peer} {h2 : Bool} :
    Keeps I (connectOverTls w peer r h2) := by
  refine Triple.bind (keeps_ofExcept _) ?_
  rintro ⟨source, sink, selected⟩
  exact keeps_pure _

theorem Aside.keeps_dialH2 : Keeps I (H2.dialH2 r) := by
  refine Triple.bind hI.keeps_tcpConnect ?_
  rintro ⟨wire, peer⟩
  refine Triple.bind hI.keeps_maybeTunnel fun wire => Triple.bind keeps_connectOverTls ?_
  rintro ⟨wire, negotiated⟩
  cases negotiated with
  | false => exact keeps_throw _
  | true => exact Triple.bind (keeps_ofExcept _) fun conn => keeps_pure _

theorem Aside.keeps_repool {mayPool : Bool} {c : H2Wire} : Keeps I (H2.repool r mayPool c) := by
  unfold H2.repool
  split
  · exact Triple.modify fun _ hw => hI.h2 _ hw
  · exact keeps_pure _

theorem Aside.keeps_h2_exchange {pooled : Bool} {c : H2Wire} :
    Keeps I (H2.exchange codec r pooled c) := by
  refine Triple.bind (hI.keeps_emit ?_) fun _ => ?_
  · intro r wire b heq
    cases heq
  · generalize H2.runOneRequest codec c.conn r = out
    obtain ⟨res, conn⟩ := out
    exact keeps_pure _

theorem Aside.keeps_poolCheckoutH2 : Keeps I (poolCheckoutH2 r) := fun _ hw => hI.h2 _ hw

theorem Aside.keeps_sendPooled : Keeps I (H2.sendPooled codec r) := by
  refine Triple.bind hI.keeps_poolCheckoutH2 fun c => ?_
  cases c with
  | none => exact keeps_pure _
  | some c =>
      show Keeps I (if c.conn.isUsable then _ else _ : Client (Option Response))
      split
      · refine Triple.bind hI.keeps_h2_exchange ?_
        rintro ⟨res, c'⟩
        cases res with
        | error e => exact keeps_pure _
        | ok resp => exact Triple.bind hI.keeps_repool fun _ => keeps_pure _
      · exact keeps_pure _

theorem Aside.keeps_sendFresh : Keeps I (H2.sendFresh codec r) := by
  refine Triple.bind hI.keeps_dialH2 fun fresh => Triple.bind hI.keeps_h2_exchange ?_
  rintro ⟨res, c⟩
  exact Triple.bind (keeps_ofExcept _) fun resp => Triple.bind hI.keeps_repool fun _ => keeps_pure _

theorem Aside.keeps_h2_send : Keeps I (H2.send codec r) := by
  unfold H2.send
  split
  · exact keeps_throw _
  split
  · refine Triple.bind hI.keeps_sendPooled fun resp => ?_
    cases resp with
    | none => exact hI.keeps_sendFresh
    | some resp => exact keeps_pure _
  · exact hI.keeps_sendFresh

theorem Aside.keeps_runBatch {pooled : Bool} {c : H2Wire} :
    Keeps I (H2.runBatch codec first reqs pooled c) := by
  have hemit : ∀ rs : List Request, Keeps I (rs.forM fun r =>
      Http.emit (.handed r pooled (.batch c reqs))) := by
    intro rs
    induction rs with
    | nil => exact keeps_pure _
    | cons r rs ih =>
        refine Triple.bind (hI.keeps_emit ?_) fun _ => ih
        intro r wire b heq
        cases heq
  refine Triple.bind (hemit reqs) fun _ => ?_
  generalize H2.runMultiplexed codec c.conn reqs = out
  obtain ⟨results, conn⟩ := out
  exact Triple.bind hI.keeps_repool fun _ => keeps_pure _

theorem Aside.keeps_sendMultiplexed : Keeps I (H2.sendMultiplexed codec reqs) := by
  have heach : ∀ rs : List Request, Keeps I (H2.sendEach codec rs) := fun rs =>
    keeps_sendEach fun _ _ => hI.keeps_h2_send
  cases reqs with
  | nil => exact keeps_pure _
  | cons first rest =>
      show Keeps I (if H2.isMultiplexable first (first :: rest) = true then
        H2.multiplex codec first (first :: rest) else H2.sendEach codec (first :: rest))
      split
      · refine Triple.bind hI.keeps_poolCheckoutH2 fun pooled => ?_
        cases pooled.filter (·.conn.isUsable) with
        | some c => exact hI.keeps_runBatch
        | none =>
            refine Triple.bind hI.keeps_dialH2.attempt fun res => ?_
            cases res with
            | error e => exact heach _
            | ok fresh => exact hI.keeps_runBatch
      · exact heach _

theorem Aside.keeps_h3_send : Keeps I (H3.send r) := by
  have hnext : Keeps I nextQuic := by
    intro w hw
    unfold Program.exec nextQuic
    cases w.quic with
    | nil => exact hw
    | cons peer quic => exact hI.quic quic hw
  unfold H3.send
  split
  · exact keeps_throw _
  · refine Triple.bind hnext fun peer => Triple.bind (keeps_ofExcept peer.client) fun _ => ?_
    refine Triple.bind (hI.keeps_emit ?_) fun _ => keeps_ofExcept _
    intro r wire b heq
    cases heq

end

/-! ## The side that does -/

section

variable {codec : Codec} {net : List Peer} {k : PoolKey} {w w' : Wire} {r : Request}
  {resp : Response} {absoluteForm pooled : Bool}

theorem perform_link {res : Result Response}
    (h : perform codec r absoluteForm w = (res, w')) : w'.link = w.link := by
  unfold perform at h
  split at h
  · obtain ⟨-, rfl⟩ := Prod.mk.inj h
    rfl
  · obtain ⟨-, rfl⟩ := Prod.mk.inj h
    rfl

theorem Reserved.belongs (h : Reserved codec net k w) : Belongs codec net k w := by
  obtain ⟨w₀, hdialled, hused⟩ := h.used
  exact ⟨h.link, w₀, hdialled, hused.to_reflTransGen⟩

/-- A connection stays where it belongs as long as it may be reused. -/
theorem Belongs.reserved (h : Belongs codec net k w)
    (hout : perform codec r absoluteForm w = (.ok resp, w'))
    (hreuse : responseIsReusable r.method resp = true) : Reserved codec net k w' := by
  obtain ⟨w₀, hdialled, hsince⟩ := h.since
  have hstep : Reuses codec w w' := ⟨r, absoluteForm, resp, hout, hreuse⟩
  exact ⟨(perform_link hout).trans h.link, w₀, hdialled, TransGen.tail' hsince hstep⟩

theorem aside_kept : Aside (Kept codec net) where
  emit {w e} h he := by
    refine ⟨h.peers, h.plain, h.tls, fun e' he' => ?_⟩
    rcases List.mem_append.mp he' with he' | he'
    · exact h.log e' he'
    · obtain rfl := List.mem_singleton.mp he'
      cases e' with
      | connect | udp | tunnel => trivial
      | handed r pooled exchange =>
          cases pooled with
          | false => trivial
          | true =>
              cases exchange with
              | h1 wire b => exact absurd rfl (he r wire b)
              | h2 | batch => trivial
  net {w peer net'} hnet h := by
    refine ⟨fun p hp => h.peers p ?_, h.plain, h.tls, h.log⟩
    rw [hnet]
    exact List.mem_cons_of_mem peer hp
  quic _ h := ⟨h.peers, h.plain, h.tls, h.log⟩
  h2 _ h := ⟨h.peers, h.plain, h.tls, h.log⟩

theorem activeProxy_of_isDirect (h : isDirect r = true) : activeProxy r = none := by
  unfold isDirect at h
  unfold activeProxy
  cases hproxy : r.proxy with
  | none => rfl
  | some p =>
      rw [hproxy] at h
      have hbypassed : proxyBypassed r = true := h
      rw [Option.filter_some, hbypassed]
      rfl

/-- What a direct request asks for is filed under its key. -/
theorem linkOf_plain (hscheme : r.url.scheme = "http".toList) (hdirect : isDirect r = true) :
    linkOf (poolKeyFor r.url) = ⟨destOf r, none, none⟩ := by
  have hplain : r.url.scheme ≠ "https".toList := by
    rw [hscheme]
    decide
  rw [destOf, activeProxy_of_isDirect hdirect, linkOf, poolKeyFor, if_neg hplain]

theorem linkOf_tls (hscheme : r.url.scheme = "https".toList) (hdirect : isDirect r = true)
    (helig : tlsPoolEligible r = true) : linkOf (poolKeyFor r.url) = linkFor r := by
  obtain ⟨hverify, hbundle⟩ := Bool.and_eq_true_iff.mp helig
  rw [linkFor, destOf, activeProxy_of_isDirect hdirect, postureOf, hverify,
    Option.isNone_iff_eq_none.mp hbundle, linkOf, poolKeyFor, if_pos hscheme]
  rfl

/-! ### Exchanges and pools -/

theorem triple_emit_h1 (hs : pooled = true → w.link = linkAsked r ∧
    Reserved codec net (poolKeyFor r.url) w) :
    Keeps (Kept codec net) (emit (.handed r pooled (.h1 w absoluteForm))) := by
  refine Triple.modify fun world h => ⟨h.peers, h.plain, h.tls, fun e he => ?_⟩
  rcases List.mem_append.mp he with he | he
  · exact h.log e he
  · obtain rfl := List.mem_singleton.mp he
    cases pooled with
    | false => trivial
    | true => exact hs rfl

theorem triple_exchange (hs : pooled = true → w.link = linkAsked r ∧
    Reserved codec net (poolKeyFor r.url) w) :
    Triple (Kept codec net) (exchange codec r pooled absoluteForm w)
      (fun x world => Kept codec net world ∧ perform codec r absoluteForm w = (.ok x.1, x.2))
      (Kept codec net) := by
  refine Triple.bind (triple_emit_h1 hs) fun _ => ?_
  generalize hout : perform codec r absoluteForm w = out
  obtain ⟨res, w'⟩ := out
  have hres : Triple (Kept codec net) (Program.ofExcept res : Client Response)
      (fun resp world => Kept codec net world ∧ res = .ok resp) (Kept codec net) :=
    Triple.ofExcept (fun _ hres _ hw => ⟨hw, hres⟩) fun _ hw => hw
  refine Triple.bind hres fun resp => Triple.assume fun hres => Triple.pure fun _ hw => ⟨hw, ?_⟩
  rw [hres]

theorem keeps_finalizePlain_kept {mayPool : Bool}
    (hpark : mayPool = true → Belongs codec net (poolKeyFor r.url) w)
    (hout : perform codec r absoluteForm w = (.ok resp, w')) :
    Keeps (Kept codec net) (finalizePlain w' r resp mayPool) := by
  unfold finalizePlain
  split
  · next hmay =>
      obtain ⟨hmay, hreuse⟩ := Bool.and_eq_true_iff.mp hmay
      have hreserved := (hpark hmay).reserved hout hreuse
      refine Triple.modify fun world h => ⟨h.peers, fun {k c} hp => ?_, h.tls, h.log⟩
      rcases Pool.parked_release hp with hp | ⟨rfl, rfl⟩
      · exact h.plain hp
      · exact hreserved
  · exact keeps_pure _

theorem keeps_finalizeTls_kept {mayPool : Bool}
    (hpark : mayPool = true → tlsPoolEligible r = true → Belongs codec net (poolKeyFor r.url) w)
    (hout : perform codec r absoluteForm w = (.ok resp, w')) :
    Keeps (Kept codec net) (finalizeTls w' r resp mayPool) := by
  unfold finalizeTls
  split
  · next hmay =>
      obtain ⟨hmay, hreuse⟩ := Bool.and_eq_true_iff.mp hmay
      obtain ⟨hmay, helig⟩ := Bool.and_eq_true_iff.mp hmay
      have hreserved := (hpark hmay helig).reserved hout hreuse
      refine Triple.modify fun world h => ⟨h.peers, h.plain, fun {k c} hp => ?_, h.log⟩
      rcases Pool.parked_release hp with hp | ⟨rfl, rfl⟩
      · exact h.tls hp
      · exact hreserved
  · exact keeps_pure _

/-! ### Dialling -/

/-- A peer of the net answers the connect. -/
theorem triple_tcpConnect_kept : Triple (Kept codec net) (tcpConnect r)
    (fun x world => Kept codec net world ∧ x.1.link = ⟨destOf r, none, none⟩ ∧ x.2 ∈ net ∧
      x.2.tcp = .ok (x.1.source, x.1.sink)) (Kept codec net) := by
  have hnext : Triple (Kept codec net) nextPeer
      (fun peer world => Kept codec net world ∧ peer ∈ net) (Kept codec net) := by
    intro world hw
    unfold Program.exec nextPeer
    cases hnet : world.net with
    | nil => exact hw
    | cons peer rest =>
        refine ⟨aside_kept.net hnet hw, hw.peers peer ?_⟩
        rw [hnet]
        exact List.mem_cons_self
  refine Triple.bind (aside_kept.keeps_emit ?_) fun _ => Triple.bind hnext fun peer =>
    Triple.assume fun hmem => ?_
  · intro r wire b heq
    cases heq
  have htcp : Triple (Kept codec net) (Program.ofExcept peer.tcp : Client (Source × Sink))
      (fun x world => Kept codec net world ∧ peer.tcp = .ok x) (Kept codec net) :=
    Triple.ofExcept (fun _ hres _ hw => ⟨hw, hres⟩) fun _ hw => hw
  refine Triple.bind htcp ?_
  rintro ⟨source, sink⟩
  exact Triple.assume fun hres => Triple.pure fun _ hw => ⟨hw, rfl, hmem, hres⟩

theorem triple_connectOverTls_kept {peer : Peer} : Triple (Kept codec net)
    (connectOverTls w peer r false)
    (fun x world => Kept codec net world ∧ x.1.link = { w.link with posture := some (postureOf r) } ∧
      ∃ selected, peer.tls (postureOf r) false = .ok (x.1.source, x.1.sink, selected))
    (Kept codec net) := by
  have htls : Triple (Kept codec net)
      (Program.ofExcept (peer.tls (postureOf r) false) : Client (Source × Sink × Bool))
      (fun x world => Kept codec net world ∧ peer.tls (postureOf r) false = .ok x)
      (Kept codec net) :=
    Triple.ofExcept (fun _ hres _ hw => ⟨hw, hres⟩) fun _ hw => hw
  refine Triple.bind htls ?_
  rintro ⟨source, sink, selected⟩
  exact Triple.assume fun hres => Triple.pure fun _ hw => ⟨hw, rfl, selected, hres⟩

/-- Where there is no proxy to ask, there is no tunnel. -/
theorem triple_maybeTunnel_kept {target : Url} {proxy : Option ProxyConfig} :
    Triple (Kept codec net) (maybeTunnel w target proxy)
      (fun x world => Kept codec net world ∧ (proxy = none → x = w)) (Kept codec net) := by
  cases proxy with
  | none => exact Triple.pure fun _ hw => ⟨hw, fun _ => rfl⟩
  | some p =>
      refine aside_kept.keeps_maybeTunnel.weaken (fun _ => id) (fun _ _ hw => ⟨hw, ?_⟩) fun _ => id
      intro hnone
      cases hnone

/-! ### Requests -/

theorem keeps_sendPlainFresh_kept {mayPool : Bool} (hscheme : r.url.scheme = "http".toList)
    (hmay : mayPool = true → isDirect r = true) :
    Keeps (Kept codec net) (sendPlainFresh codec r mayPool) := by
  refine Triple.bind triple_tcpConnect_kept ?_
  rintro ⟨wire, peer⟩
  refine Triple.assume fun hdial => ?_
  obtain ⟨hlink, hmem, htcp⟩ := hdial
  have hbelongs : mayPool = true → Belongs codec net (poolKeyFor r.url) wire := by
    intro hpool
    refine ⟨hlink.trans (linkOf_plain hscheme (hmay hpool)).symm, wire, ⟨peer, hmem, ?_⟩, .refl⟩
    dsimp only at hlink
    rw [hlink]
    exact htcp
  refine Triple.bind (triple_exchange fun hno => absurd hno Bool.false_ne_true) ?_
  rintro ⟨resp, wire'⟩
  exact Triple.assume fun hout => Triple.bind (keeps_finalizePlain_kept hbelongs hout) fun _ =>
    keeps_pure _

theorem keeps_sendHttpsFresh_kept {mayPool : Bool} (hscheme : r.url.scheme = "https".toList)
    (hmay : mayPool = true → isDirect r = true) :
    Keeps (Kept codec net) (sendHttpsFresh codec r mayPool) := by
  refine Triple.bind triple_tcpConnect_kept ?_
  rintro ⟨wire, peer⟩
  refine Triple.assume fun hdial => Triple.bind triple_maybeTunnel_kept fun wire' => ?_
  obtain ⟨hlink, hmem, -⟩ := hdial
  refine Triple.assume fun htunnel => Triple.bind triple_connectOverTls_kept ?_
  rintro ⟨wire₂, selected⟩
  refine Triple.assume fun htls => ?_
  obtain ⟨hlink₂, hanswer⟩ := htls
  have hbelongs : mayPool = true → tlsPoolEligible r = true →
      Belongs codec net (poolKeyFor r.url) wire₂ := by
    intro hpool helig
    have hdirect := activeProxy_of_isDirect (hmay hpool)
    have hsame : wire' = wire := htunnel (by rw [hdirect]; rfl)
    have hfor : wire₂.link = linkFor r := by
      dsimp only at hlink hlink₂
      rw [hlink₂, hsame, hlink, linkFor, hdirect]
      rfl
    refine ⟨hfor.trans (linkOf_tls hscheme (hmay hpool) helig).symm, wire₂, ⟨peer, hmem, ?_⟩, .refl⟩
    rw [hfor]
    exact hanswer
  refine Triple.bind (triple_exchange fun hno => absurd hno Bool.false_ne_true) ?_
  rintro ⟨resp, wire₃⟩
  exact Triple.assume fun hout => Triple.bind (keeps_finalizeTls_kept hbelongs hout) fun _ =>
    keeps_pure _

theorem keeps_performOnPooledPlain_kept (hlink : w.link = linkAsked r)
    (hw : Reserved codec net (poolKeyFor r.url) w) :
    Keeps (Kept codec net) (performOnPooledPlain codec w r) := by
  refine Triple.bind (triple_exchange fun _ => ⟨hlink, hw⟩) ?_
  rintro ⟨resp, wire'⟩
  exact Triple.assume fun hout => Triple.bind (keeps_finalizePlain_kept (fun _ => hw.belongs) hout)
    fun _ => keeps_pure _

theorem keeps_performOnPooledTls_kept (hlink : w.link = linkAsked r)
    (hw : Reserved codec net (poolKeyFor r.url) w) :
    Keeps (Kept codec net) (performOnPooledTls codec w r) := by
  refine Triple.bind (triple_exchange fun _ => ⟨hlink, hw⟩) ?_
  rintro ⟨resp, wire'⟩
  exact Triple.assume fun hout =>
    Triple.bind (keeps_finalizeTls_kept (fun _ _ => hw.belongs) hout) fun _ => keeps_pure _

theorem keeps_sendPlain_kept (hscheme : r.url.scheme = "http".toList) :
    Keeps (Kept codec net) (sendPlain codec r) := by
  unfold sendPlain
  split
  · exact keeps_throw _
  split
  · next hdirect =>
      have hcheckout : Triple (Kept codec net) (poolCheckoutPlain r.url)
          (fun c world => Kept codec net world ∧
            ∀ x, c = some x → Reserved codec net (poolKeyFor r.url) x) (Kept codec net) := by
        intro world h
        refine ⟨⟨h.peers, fun hp => h.plain (Pool.parked_checkout hp), h.tls, h.log⟩, fun x hx => ?_⟩
        exact h.plain (Pool.parked_of_checkout hx)
      have hfresh : Keeps (Kept codec net) (sendPlainFresh codec r true) :=
        keeps_sendPlainFresh_kept hscheme fun _ => hdirect
      refine Triple.bind hcheckout fun c => Triple.assume fun hreserved => ?_
      cases c with
      | none => exact hfresh
      | some wire =>
          have hwire := hreserved wire rfl
          have hasked : wire.link = linkAsked r := by
            have hplain : r.url.scheme ≠ "https".toList := by
              rw [hscheme]
              decide
            rw [hwire.link, linkOf_plain hscheme hdirect, linkAsked, if_neg hplain]
          refine Triple.bind (keeps_performOnPooledPlain_kept hasked hwire).attempt fun res => ?_
          cases res with
          | ok resp => exact keeps_pure _
          | error e =>
              dsimp only
              split
              · exact hfresh
              · exact keeps_throw _
  · exact keeps_sendPlainFresh_kept hscheme fun hno => absurd hno Bool.false_ne_true

theorem keeps_sendHttps11_kept (hscheme : r.url.scheme = "https".toList) :
    Keeps (Kept codec net) (sendHttps11 codec r) := by
  unfold sendHttps11
  split
  · next hdirect =>
      have hcheckout : Triple (Kept codec net) (poolCheckoutTls r)
          (fun c world => Kept codec net world ∧ ∀ x, c = some x →
            tlsPoolEligible r = true ∧ Reserved codec net (poolKeyFor r.url) x)
          (Kept codec net) := by
        intro world h
        unfold Program.exec poolCheckoutTls
        cases helig : tlsPoolEligible r with
        | false =>
            refine ⟨h, fun x hx => ?_⟩
            cases hx
        | true =>
            refine ⟨⟨h.peers, h.plain, fun hp => h.tls (Pool.parked_checkout hp), h.log⟩, ?_⟩
            intro x hx
            exact ⟨rfl, h.tls (Pool.parked_of_checkout hx)⟩
      have hfresh : Keeps (Kept codec net) (sendHttpsFresh codec r true) :=
        keeps_sendHttpsFresh_kept hscheme fun _ => hdirect
      refine Triple.bind hcheckout fun c => Triple.assume fun hreserved => ?_
      cases c with
      | none => exact hfresh
      | some wire =>
          obtain ⟨helig, hwire⟩ := hreserved wire rfl
          have hasked : wire.link = linkAsked r := by
            rw [hwire.link, linkOf_tls hscheme hdirect helig, linkAsked, if_pos hscheme]
          refine Triple.bind (keeps_performOnPooledTls_kept hasked hwire).attempt fun res => ?_
          cases res with
          | ok resp => exact keeps_pure _
          | error e =>
              dsimp only
              split
              · exact hfresh
              · exact keeps_throw _
  · exact keeps_sendHttpsFresh_kept hscheme fun hno => absurd hno Bool.false_ne_true

theorem keeps_sendAuto_kept (hscheme : r.url.scheme = "https".toList) :
    Keeps (Kept codec net) (sendAuto codec r) := by
  refine Triple.bind aside_kept.keeps_h2_send.attempt fun res => ?_
  split
  · exact keeps_pure _
  · exact keeps_sendHttps11_kept hscheme
  · exact keeps_throw _

theorem keeps_dispatch_kept : Keeps (Kept codec net) (dispatch codec r) := by
  unfold dispatch routeOf
  by_cases hplain : r.url.scheme = "http".toList
  · rw [if_pos hplain]
    exact keeps_sendPlain_kept hplain
  rw [if_neg hplain]
  by_cases hscheme : r.url.scheme = "https".toList
  · rw [if_pos hscheme]
    show Keeps (Kept codec net) (sendHttps codec r)
    unfold sendHttps
    cases r.httpVersionPref with
    | auto => exact keeps_sendAuto_kept hscheme
    | http11Only => exact keeps_sendHttps11_kept hscheme
    | http2Only => exact aside_kept.keeps_h2_send
    | http3Only => exact aside_kept.keeps_h3_send
    | http3 =>
        refine Triple.bind aside_kept.keeps_h3_send.attempt fun res => ?_
        cases res with
        | ok resp => exact keeps_pure _
        | error e =>
            show Keeps (Kept codec net) (if h3ShouldFallBack e then sendAuto codec r else throw e)
            split
            · exact keeps_sendAuto_kept hscheme
            · exact keeps_throw _
  · rw [if_neg hscheme]
    exact keeps_throw _

/-! ### Histories -/

theorem Kept.run {world : World} (h : Kept codec net world) (op : Op) :
    Kept codec net (op.run codec world) := by
  cases op with
  | once r => exact keeps_dispatch_kept.world h
  | h2 r => exact aside_kept.keeps_h2_send.world h
  | batch reqs => exact aside_kept.keeps_sendMultiplexed.world h

theorem Kept.runOps {world : World} (h : Kept codec net world) (ops : List Op) :
    Kept codec net (runOps codec world ops) := by
  induction ops generalizing world with
  | nil => exact h
  | cons op ops ih => exact ih (h.run op)

theorem kept_start {world : World} (codec : Codec) (hplain : world.plain = ∅) (htls : world.tls = ∅)
    (hlog : world.log = []) : Kept codec world.net world := by
  refine ⟨fun _ => id, fun {k c} hp => ?_, fun {k c} hp => ?_, fun e he => ?_⟩
  · rw [hplain] at hp
    exact (Pool.not_parked_empty hp).elim
  · rw [htls] at hp
    exact (Pool.not_parked_empty hp).elim
  · rw [hlog] at he
    cases he

/-- **Whose connection a request gets.**  In every history from empty pools, a pooled connection of
HTTP/1.1 that is handed to a request is the one it asks for, and it has carried nothing but whole
exchanges whose responses allow another; so has every connection that is parked at the end. -/
theorem reserved_run (codec : Codec) (world : World) (ops : List Op) (hplain : world.plain = ∅)
    (htls : world.tls = ∅) (hlog : world.log = []) :
    (∀ e ∈ (runOps codec world ops).log, Sound codec world.net e) ∧
      ∀ k c, (Pool.Parked (runOps codec world ops).plain k c ∨
        Pool.Parked (runOps codec world ops).tls k c) → Reserved codec world.net k c := by
  have hend := (kept_start codec hplain htls hlog).runOps ops
  refine ⟨hend.log, fun k c hp => ?_⟩
  rcases hp with hp | hp
  · exact hend.plain hp
  · exact hend.tls hp

end

/-! ## Where a connection stands -/

/-- How the body behind a head ends without a close: there is none; chunks, up to the empty line
behind the last one; so many bytes as announced. -/
inductive Framed (head : Head) (method : Text) (s : Source) : Source → Prop
  | bodiless (h : isBodiless method head.status = true) : Framed head method s s
  | chunks {body : Bytes} {s' : Source} (h : Chunks EndsWell s body s') : Framed head method s s'
  | length {body : Bytes} {s' : Source}
      (hlength : parseContentLength none head.headers = .ok (some body.length))
      (hs : s = ⟨body ++ s'.bytes, s'.tail⟩) : Framed head method s s'

/-- One whole response between two places of a stream, its end marked by itself. -/
def Answered (s s' : Source) : Prop :=
  ∃ head method s₁, readHead s = (.ok head, s₁) ∧ Framed head method s₁ s'

/-- A chunked response that the end of the stream cuts short: behind its last chunk, or in what is
there of a size line and may be a zero. -/
def CutShort (s s' : Source) : Prop :=
  ∃ head s₁ body, readHead s = (.ok head, s₁) ∧ Chunks EndsEarly s₁ body s'

/-- Where a stream stands that has been read response by response: behind a whole one, or at its
end, which cut the last one short. -/
inductive Stands (s : Source) : Source → Prop
  | behind {s' : Source} (h : TransGen Answered s s') : Stands s s'
  | ended {s' : Source} (h : ReflTransGen Answered s s') (hcut : CutShort s' ⟨[], none⟩) :
      Stands s ⟨[], none⟩

section

variable {codec : Codec} {net : List Peer} {k : PoolKey} {w w' : Wire} {s s' : Source}
  {headers : List Header} {method : Text} {resp : Response}

/-- Decoding only removes fields. -/
theorem mem_of_maybeDecodeBody {body : Bytes} {out : List Header × Bytes} {field : Header}
    (h : Compress.maybeDecodeBody codec headers body = .ok out) (hmem : field ∈ out.1) :
    field ∈ headers := by
  unfold Compress.maybeDecodeBody at h
  split at h
  · obtain rfl := Except.ok.inj h
    exact hmem
  · obtain ⟨x, -, hout⟩ := Result.bind_eq_ok.mp h
    obtain ⟨bytes, decoded⟩ := x
    obtain rfl := Except.ok.inj hout
    cases decoded with
    | false => exact hmem
    | true => exact (List.mem_filter.mp hmem).1

/-- A response with a body that allows another exchange says where the body ends. -/
theorem named_of_reusable (hreuse : responseIsReusable method resp = true)
    (hbody : isBodiless method resp.status = false) (hsub : ∀ h ∈ resp.headers, h ∈ headers) :
    named headers "Content-Length" ≠ [] ∨
      ((named headers "Transfer-Encoding").any fun f => isChunked f.2) = true := by
  unfold responseIsReusable at hreuse
  split at hreuse
  · cases hreuse
  simp only [hbody, Bool.not_false, Bool.and_true] at hreuse
  split at hreuse
  · cases hreuse
  next hframing =>
  rw [Bool.not_eq_true, Bool.not_eq_false'] at hframing
  obtain ⟨⟨name, value⟩, hmem, hname⟩ := List.any_eq_true.mp hframing
  have hin := hsub _ hmem
  rcases Bool.or_eq_true_iff.mp hname with hlength | hcoding
  · exact .inl ((hasHeader_named (by decide)).mp (List.any_eq_true.mpr ⟨_, hin, hlength⟩))
  · refine .inr ?_
    rw [← any_chunked]
    exact List.any_eq_true.mpr ⟨_, hin, hcoding⟩

theorem chunks_end_eq {body : Bytes} (h : Chunks EndsEarly s body s') : s' = ⟨[], none⟩ := by
  induction h with
  | last hend =>
      cases hend with
      | trailers _ _ hrest => exact hrest.end_eq
      | size => rfl
  | chunk _ _ _ _ ih => exact ih

/-- A response that allows another exchange did not run up to the close, unless the close cut its
chunks short. -/
theorem answered_of_reusable (hread : readResponse codec s method = (.ok resp, s'))
    (hreuse : responseIsReusable method resp = true) : Answered s s' ∨ CutShort s s' := by
  obtain ⟨head, s₁, hhead, hrest⟩ := readResponse_eq_ok.mp hread
  obtain ⟨body, headers, body', hbody, hdecode, rfl⟩ := readRest_eq_ok.mp hrest
  have hframed : Framed head method s₁ s' → Answered s s' ∨ CutShort s s' := by
    intro h
    exact .inl ⟨head, method, s₁, hhead, h⟩
  cases hbodiless : isBodiless method head.status with
  | true =>
      rw [Compress.readBody_of_bodiless hbodiless] at hbody
      obtain ⟨-, rfl⟩ := Prod.mk.inj hbody
      exact hframed (.bodiless hbodiless)
  | false =>
      have hends := named_of_reusable hreuse hbodiless fun _ hmem =>
        mem_of_maybeDecodeBody hdecode hmem
      rw [readBody_eq hbodiless] at hbody
      split at hbody
      · cases (Prod.mk.inj hbody).1
      split at hbody
      · obtain ⟨-, hwell | hearly⟩ := readChunked_eq_ok.mp hbody
        · exact hframed (.chunks hwell)
        · exact .inr ⟨head, s₁, body, hhead, hearly⟩
      next hchunked =>
      have hlength := hends.resolve_right hchunked
      have hgives := (gives_length hlength body s' hbody).1
      cases hparse : parseContentLength none head.headers with
      | error e =>
          rw [hparse] at hgives
          exact hgives.elim
      | ok n =>
          rw [hparse] at hgives
          cases n with
          | none => exact absurd (parseContentLength_eq_ok.mp hparse) hlength
          | some n =>
              obtain ⟨hs, rfl⟩ := hgives
              exact hframed (.length hparse hs)

theorem Reuses.answered (h : Reuses codec w w') :
    Answered w.source w'.source ∨ CutShort w.source w'.source := by
  obtain ⟨r, absoluteForm, resp, hout, hreuse⟩ := h
  unfold perform at hout
  split at hout
  · cases (Prod.mk.inj hout).1
  · obtain ⟨hresp, rfl⟩ := Prod.mk.inj hout
    exact answered_of_reusable (Prod.ext hresp rfl) hreuse

theorem CutShort.end_eq (h : CutShort s s') : s' = ⟨[], none⟩ := by
  obtain ⟨head, s₁, body, -, hchunks⟩ := h
  exact chunks_end_eq hchunks

end

/-! ## A history -/

/-- A server that answers twice. -/
def patientWorld : World where
  net := [{ tcp := .ok (⟨Text.utf8 "HTTP/1.1 204 n\r\n\r\nHTTP/1.1 204 n\r\n\r\n".toList, none⟩, openSink)
            tls := fun _ _ => .error (.io .other) }]
  quic := []
  plain := ∅
  tls := ∅
  h2 := ∅
  log := []

/-- A GET without TLS. -/
def plainGet : Request := (Request.new "GET".toList "http://a/".toList).toOption.get (by decide)

/-- A request is handed a pooled connection of HTTP/1.1. -/
def handsKept : Event → Bool
  | .handed _ true (.h1 _ _) => true
  | _ => false

/-- The second request gets the connection of the first. -/
theorem sound_twice :
    (∀ e ∈ (runOps plainCodec patientWorld [.once plainGet, .once plainGet]).log,
      Sound plainCodec patientWorld.net e) ∧
      (runOps plainCodec patientWorld [.once plainGet, .once plainGet]).log.any handsKept = true :=
  ⟨(reserved_run plainCodec patientWorld [.once plainGet, .once plainGet] rfl rfl rfl).1,
    by decide +kernel⟩

end Rsurl.Http
