/-
# `Rsurl.Http.Effects` — what the client's functions keep

One triple a function, for any property of the world that its acts keep: the
property is indifferent to who answers and to the HTTP/1.1 pools (`Stable`), and
the acts that may occur are named in the hypotheses.
-/
import Rsurl.Http.Send

namespace Rsurl.Http

open Base (Pool Program)
open Base.Program (Triple)

/-- A property of the world that only acts of the kind `ok`, and changes of the HTTP/2 pool,
can touch. -/
structure Stable (I : World → Prop) (ok : Event → Prop) : Prop where
  emit : ∀ {w : World} {e : Event}, I w → ok e → I { w with log := w.log ++ [e] }
  net : ∀ {w : World} (net : List Peer), I w → I { w with net }
  quic : ∀ {w : World} (quic : List QuicPeer), I w → I { w with quic }
  plain : ∀ {w : World} (plain : Pool PoolKey Wire), I w → I { w with plain }
  tls : ∀ {w : World} (tls : Pool PoolKey Wire), I w → I { w with tls }

/-- Where the socket of a request goes. -/
def destOf (r : Request) : Dest :=
  match activeProxy r with
  | some p => (p.host, p.port)
  | none => (r.url.host, r.url.port)

/-- What the TLS session of a request checks. -/
def postureOf (r : Request) : Posture := ⟨r.url.host, r.verifyTls, r.caBundle⟩

/-- The connection an `https` request asks for. -/
def linkFor (r : Request) : Link where
  peer := destOf r
  tunnel := (activeProxy r).map fun _ => (r.url.host, r.url.port)
  posture := some (postureOf r)

section

variable {I : World → Prop} {ok : Event → Prop} (hI : Stable I ok) {codec : Codec} {r : Request}

/-- Nothing but the property is known after `m`. -/
abbrev Keeps (I : World → Prop) {α : Type} (m : Client α) : Prop := Triple I m (fun _ => I) I

theorem keeps_pure {α : Type} (a : α) : Keeps I (pure a : Client α) := Triple.pure fun _ => id

theorem keeps_throw {α : Type} (e : Error) : Keeps I (throw e : Client α) := Triple.throw fun _ => id

theorem keeps_ofExcept {α : Type} (x : Result α) : Keeps I (Program.ofExcept x : Client α) :=
  Triple.ofExcept (fun _ _ _ => id) fun _ => id

theorem Keeps.attempt {α : Type} {m : Client α} {E : World → Prop} (h : Keeps I m) :
    Triple I m.attempt (fun _ => I) E :=
  Triple.attempt (h.weaken (fun _ => id) (fun _ _ => id) fun _ hw _ => hw)

include hI

theorem keeps_emit {e : Event} (he : ok e) : Keeps I (emit e) :=
  Triple.modify fun _ hw => hI.emit hw he

theorem keeps_nextPeer : Keeps I nextPeer := by
  intro w hw
  unfold Program.exec nextPeer
  cases w.net with
  | nil => exact hw
  | cons peer net => exact hI.net net hw

theorem keeps_nextQuic : Keeps I nextQuic := by
  intro w hw
  unfold Program.exec nextQuic
  cases w.quic with
  | nil => exact hw
  | cons peer quic => exact hI.quic quic hw

/-! ## Dialling -/

theorem triple_tcpConnect (hc : ok (.connect (destOf r))) :
    Triple I (tcpConnect r) (fun x w => I w ∧ x.1.link = ⟨destOf r, none, none⟩) I := by
  refine Triple.bind (keeps_emit hI hc) fun _ => Triple.bind (keeps_nextPeer hI) fun peer => ?_
  refine Triple.bind (keeps_ofExcept peer.tcp) ?_
  rintro ⟨source, sink⟩
  exact Triple.pure fun _ hw => ⟨hw, rfl⟩

theorem triple_connectTunnel {wire : Wire} {target : Url} {proxy : ProxyConfig}
    (ht : ok (.tunnel wire.link (target.host, target.port))) :
    Triple I (connectTunnel wire target proxy)
      (fun x w => I w ∧ x.link = { wire.link with tunnel := some (target.host, target.port) }) I := by
  refine Triple.bind (keeps_emit hI ht) fun _ => Triple.bind (keeps_ofExcept _) ?_
  rintro ⟨source, sink⟩
  exact Triple.pure fun _ hw => ⟨hw, rfl⟩

omit hI in
theorem triple_connectOverTls {wire : Wire} {peer : Peer} {h2 : Bool} :
    Triple I (connectOverTls wire peer r h2)
      (fun x w => I w ∧ x.1.link = { wire.link with posture := some (postureOf r) }) I := by
  refine Triple.bind (keeps_ofExcept _) ?_
  rintro ⟨source, sink, selected⟩
  exact Triple.pure fun _ hw => ⟨hw, rfl⟩

/-- The acts of dialling for a request. -/
structure Dials (ok : Event → Prop) (r : Request) : Prop where
  connect : ok (.connect (destOf r))
  tunnel : (activeProxy r).isSome →
    ok (.tunnel ⟨destOf r, none, none⟩ (r.url.host, r.url.port))

/-- The tunnel that a proxy asks for, none without one. -/
theorem triple_maybeTunnel (hd : Dials ok r) {wire : Wire}
    (hlink : wire.link = ⟨destOf r, none, none⟩) :
    Triple I (maybeTunnel wire r.url (activeProxy r))
      (fun x w => I w ∧ x.link = { linkFor r with posture := none }) I := by
  cases hp : activeProxy r with
  | none =>
      refine Triple.pure fun _ hw => ⟨hw, ?_⟩
      rw [hlink, linkFor, hp]
      rfl
  | some p =>
      have ht := hd.tunnel (by rw [hp]; rfl)
      rw [← hlink] at ht
      refine (triple_connectTunnel hI ht).weaken (fun _ => id) ?_ fun _ => id
      rintro x w ⟨hw, hx⟩
      refine ⟨hw, ?_⟩
      rw [hx, hlink, linkFor, hp]
      rfl

/-- A fresh HTTP/2 connection is what the request asks for. -/
theorem triple_dialH2 (hd : Dials ok r) :
    Triple I (H2.dialH2 r) (fun c w => I w ∧ c.link = linkFor r) I := by
  refine Triple.bind (triple_tcpConnect hI hd.connect) ?_
  rintro ⟨wire, peer⟩
  refine Triple.assume fun hlink => Triple.bind (triple_maybeTunnel hI hd hlink) fun wire' => ?_
  refine Triple.assume fun hlink' => Triple.bind triple_connectOverTls ?_
  rintro ⟨wire₂, negotiated⟩
  refine Triple.assume fun hlink₂ => ?_
  cases negotiated with
  | false => exact Triple.throw fun _ hw => hw
  | true =>
      refine Triple.bind (keeps_ofExcept _) fun conn => Triple.pure fun w hw => ⟨hw, ?_⟩
      rw [hlink₂, hlink']
      rfl

/-! ## HTTP/1.1 -/

/-- The acts of sending over HTTP/1.1. -/
structure Sends11 (ok : Event → Prop) (r : Request) : Prop extends Dials ok r where
  pooled : isDirect r = true → ∀ wire absoluteForm, ok (.handed r true (.h1 wire absoluteForm))
  plain : r.url.scheme = "http".toList → ∀ wire : Wire, wire.link = ⟨destOf r, none, none⟩ →
    ok (.handed r false (.h1 wire (viaPlainHttpProxy r)))
  tls : r.url.scheme = "https".toList → ∀ wire : Wire, wire.link = linkFor r →
    ok (.handed r false (.h1 wire false))

theorem keeps_exchange {pooled absoluteForm : Bool} {wire : Wire}
    (h : ok (.handed r pooled (.h1 wire absoluteForm))) :
    Keeps I (exchange codec r pooled absoluteForm wire) :=
  Triple.bind (keeps_emit hI h) fun _ => Triple.bind (keeps_ofExcept _) fun _ => keeps_pure _

theorem keeps_finalizePlain {wire : Wire} {resp : Response} {mayPool : Bool} :
    Keeps I (finalizePlain wire r resp mayPool) := by
  unfold finalizePlain
  split
  · exact Triple.modify fun _ hw => hI.plain _ hw
  · exact keeps_pure _

theorem keeps_finalizeTls {wire : Wire} {resp : Response} {mayPool : Bool} :
    Keeps I (finalizeTls wire r resp mayPool) := by
  unfold finalizeTls
  split
  · exact Triple.modify fun _ hw => hI.tls _ hw
  · exact keeps_pure _

theorem keeps_poolCheckoutPlain {u : Url} : Keeps I (poolCheckoutPlain u) :=
  fun _ hw => hI.plain _ hw

theorem keeps_poolCheckoutTls : Keeps I (poolCheckoutTls r) := by
  intro w hw
  unfold Program.exec poolCheckoutTls
  cases tlsPoolEligible r with
  | true => exact hI.tls _ hw
  | false => exact hw

theorem keeps_sendPlainFresh (hs : Sends11 ok r) (hscheme : r.url.scheme = "http".toList)
    {mayPool : Bool} : Keeps I (sendPlainFresh codec r mayPool) := by
  refine Triple.bind (triple_tcpConnect hI hs.connect) ?_
  rintro ⟨wire, peer⟩
  refine Triple.assume fun hlink => ?_
  refine Triple.bind (keeps_exchange hI (hs.plain hscheme wire hlink)) ?_
  rintro ⟨resp, wire'⟩
  exact Triple.bind (keeps_finalizePlain hI) fun _ => keeps_pure _

theorem keeps_sendHttpsFresh (hs : Sends11 ok r) (hscheme : r.url.scheme = "https".toList)
    {mayPool : Bool} : Keeps I (sendHttpsFresh codec r mayPool) := by
  have hfilter : (activeProxy r).filter (fun _ => r.url.scheme = "https".toList) =
      activeProxy r := by
    cases activeProxy r with
    | none => rfl
    | some p => simp [Option.filter, hscheme]
  refine Triple.bind (triple_tcpConnect hI hs.connect) ?_
  rintro ⟨wire, peer⟩
  refine Triple.assume fun hlink => ?_
  simp only [hfilter]
  refine Triple.bind (triple_maybeTunnel hI hs.toDials hlink) fun wire' => ?_
  refine Triple.assume fun hlink' => Triple.bind triple_connectOverTls ?_
  rintro ⟨wire₂, selected⟩
  refine Triple.assume fun hlink₂ => ?_
  have hfor : wire₂.link = linkFor r := by
    rw [hlink₂, hlink']
    rfl
  refine Triple.bind (keeps_exchange hI (hs.tls hscheme wire₂ hfor)) ?_
  rintro ⟨resp, wire₃⟩
  exact Triple.bind (keeps_finalizeTls hI) fun _ => keeps_pure _

theorem keeps_performOnPooledPlain (hs : Sends11 ok r) (hdirect : isDirect r = true)
    {wire : Wire} : Keeps I (performOnPooledPlain codec wire r) := by
  refine Triple.bind (keeps_exchange hI (hs.pooled hdirect wire _)) ?_
  rintro ⟨resp, wire'⟩
  exact Triple.bind (keeps_finalizePlain hI) fun _ => keeps_pure _

theorem keeps_performOnPooledTls (hs : Sends11 ok r) (hdirect : isDirect r = true)
    {wire : Wire} : Keeps I (performOnPooledTls codec wire r) := by
  refine Triple.bind (keeps_exchange hI (hs.pooled hdirect wire _)) ?_
  rintro ⟨resp, wire'⟩
  exact Triple.bind (keeps_finalizeTls hI) fun _ => keeps_pure _

theorem keeps_sendPlain (hs : Sends11 ok r) (hscheme : r.url.scheme = "http".toList) :
    Keeps I (sendPlain codec r) := by
  unfold sendPlain
  split
  · exact keeps_throw _
  split
  · next hdirect =>
      refine Triple.bind (keeps_poolCheckoutPlain hI) fun wire => ?_
      cases wire with
      | none => exact keeps_sendPlainFresh hI hs hscheme
      | some wire =>
          refine Triple.bind (keeps_performOnPooledPlain hI hs hdirect).attempt fun res => ?_
          cases res with
          | ok resp => exact keeps_pure _
          | error e =>
              dsimp only
              split
              · exact keeps_sendPlainFresh hI hs hscheme
              · exact keeps_throw _
  · exact keeps_sendPlainFresh hI hs hscheme

theorem keeps_sendHttps11 (hs : Sends11 ok r) (hscheme : r.url.scheme = "https".toList) :
    Keeps I (sendHttps11 codec r) := by
  unfold sendHttps11
  split
  · next hdirect =>
      refine Triple.bind (keeps_poolCheckoutTls hI) fun wire => ?_
      cases wire with
      | none => exact keeps_sendHttpsFresh hI hs hscheme
      | some wire =>
          refine Triple.bind (keeps_performOnPooledTls hI hs hdirect).attempt fun res => ?_
          cases res with
          | ok resp => exact keeps_pure _
          | error e =>
              dsimp only
              split
              · exact keeps_sendHttpsFresh hI hs hscheme
              · exact keeps_throw _
  · exact keeps_sendHttpsFresh hI hs hscheme

/-! ## HTTP/3 -/

theorem keeps_h3_send (hudp : ok (.udp (r.url.host, r.url.port))) : Keeps I (H3.send r) := by
  unfold H3.send
  split
  · exact keeps_throw _
  · refine Triple.bind (keeps_nextQuic hI) fun peer => ?_
    refine Triple.bind (keeps_ofExcept peer.client) fun _ => ?_
    exact Triple.bind (keeps_emit hI hudp) fun _ => keeps_ofExcept _

end

/-! ## HTTP/2 -/

/-- What is known of the HTTP/2 pool: `P` before the checkout for a request, `I` from then on,
and `Good` of the connections that the request is handed to. -/
structure H2Rules (P I : World → Prop) (ok : Event → Prop) (r : Request) (Good : H2Wire → Prop) :
    Prop where
  before : ∀ {w}, P w → I w
  checkout : H2.poolEligible r = true → Triple P (poolCheckoutH2 r)
    (fun c w => I w ∧ ∀ x, c = some x → x.conn.isUsable = true → Good x) I
  fresh : ∀ {c : H2Wire}, c.link = linkFor r → Good c
  link : ∀ {c c' : H2Wire}, c'.link = c.link → Good c → Good c'
  release : H2.poolEligible r = true → ∀ {c}, Good c → Keeps I (poolReleaseH2 r c)

section

variable {P I : World → Prop} {ok : Event → Prop} {codec : Codec} {r : Request}
  {Good : H2Wire → Prop} (hI : Stable I ok) (hr : H2Rules P I ok r Good)

include hr

theorem keeps_repool {c : H2Wire} {mayPool : Bool}
    (hmay : mayPool = true → H2.poolEligible r = true) (hc : Good c) :
    Keeps I (H2.repool r mayPool c) := by
  unfold H2.repool
  split
  · next h => exact hr.release (hmay (Bool.and_eq_true_iff.mp h).1) hc
  · exact keeps_pure _

include hI

theorem triple_h2_exchange {c : H2Wire} {pooled : Bool} (hc : Good c)
    (hok : ok (.handed r pooled (.h2 c))) :
    Triple I (H2.exchange codec r pooled c) (fun x w => I w ∧ Good x.2) I := by
  refine Triple.bind (keeps_emit hI hok) fun _ => ?_
  generalize H2.runOneRequest codec c.conn r = out
  obtain ⟨res, conn⟩ := out
  have hlink : (⟨c.link, conn⟩ : H2Wire).link = c.link := rfl
  exact Triple.pure fun _ hw => ⟨hw, hr.link hlink hc⟩

theorem triple_sendPooled (helig : H2.poolEligible r = true)
    (hok : ∀ c, Good c → ok (.handed r true (.h2 c))) :
    Triple P (H2.sendPooled codec r) (fun _ => I) I := by
  refine Triple.bind (hr.checkout helig) fun c => Triple.assume fun hgood => ?_
  cases c with
  | none => exact keeps_pure _
  | some c =>
      show Keeps I (if c.conn.isUsable then _ else _ : Client (Option Response))
      split
      · next husable =>
          have hc : Good c := hgood c rfl husable
          refine Triple.bind (triple_h2_exchange hI hr hc (hok c hc)) ?_
          rintro ⟨res, c'⟩
          refine Triple.assume fun hc' => ?_
          cases res with
          | error e => exact keeps_pure _
          | ok resp => exact Triple.bind (keeps_repool hr (fun _ => helig) hc') fun _ => keeps_pure _
      · exact keeps_pure _

theorem keeps_sendFresh (hd : Dials ok r) (hok : ∀ c : H2Wire, c.link = linkFor r →
    ok (.handed r false (.h2 c))) : Keeps I (H2.sendFresh codec r) := by
  refine Triple.bind (triple_dialH2 hI hd) fun fresh => Triple.assume fun hlink => ?_
  refine Triple.bind (triple_h2_exchange hI hr (hr.fresh hlink) (hok fresh hlink)) ?_
  rintro ⟨res, c⟩
  refine Triple.assume fun hc => Triple.bind (keeps_ofExcept _) fun resp => ?_
  exact Triple.bind (keeps_repool hr id hc) fun _ => keeps_pure _

/-- The acts of sending over HTTP/2. -/
structure Sends2 (ok : Event → Prop) (r : Request) (Good : H2Wire → Prop) : Prop
    extends Dials ok r where
  pooled : ∀ c, Good c → ok (.handed r true (.h2 c))
  fresh : ∀ c : H2Wire, c.link = linkFor r → ok (.handed r false (.h2 c))

theorem triple_h2_send (hs : Sends2 ok r Good) : Triple P (H2.send codec r) (fun _ => I) I := by
  have hfresh : Keeps I (H2.sendFresh codec r) := keeps_sendFresh hI hr hs.toDials hs.fresh
  unfold H2.send
  split
  · exact Triple.throw fun _ => hr.before
  split
  · next helig =>
      refine Triple.bind (triple_sendPooled hI hr helig hs.pooled) fun resp => ?_
      cases resp with
      | none => exact hfresh
      | some resp => exact keeps_pure _
  · exact hfresh.pre fun _ => hr.before

end

/-! ## Batches -/

section

variable {I : World → Prop} {ok : Event → Prop} {codec : Codec} {first : Request}
  {Good : H2Wire → Prop} (hI : Stable I ok)

theorem keeps_sendEach {reqs : List Request} (h : ∀ r ∈ reqs, Keeps I (H2.send codec r)) :
    Keeps I (H2.sendEach codec reqs) := by
  induction reqs with
  | nil => exact keeps_pure _
  | cons r reqs ih =>
      obtain ⟨hr, hreqs⟩ := List.forall_mem_cons.mp h
      refine Triple.bind hr.attempt fun res => ?_
      exact Triple.bind (ih hreqs) fun results => keeps_pure _

include hI

theorem keeps_emitEach {reqs : List Request} {event : Request → Event}
    (h : ∀ r ∈ reqs, ok (event r)) : Keeps I (reqs.forM fun r => emit (event r)) := by
  induction reqs with
  | nil => exact keeps_pure _
  | cons r reqs ih =>
      obtain ⟨hr, hreqs⟩ := List.forall_mem_cons.mp h
      exact Triple.bind (keeps_emit hI hr) fun _ => ih hreqs

theorem keeps_runBatch (hr : H2Rules I I ok first Good) (helig : H2.poolEligible first = true)
    {reqs : List Request} {pooled : Bool} {c : H2Wire} (hc : Good c) (hok : ∀ r ∈ reqs, ok (.handed r pooled (.batch c reqs))) :
    Keeps I (H2.runBatch codec first reqs pooled c) := by
  refine Triple.bind (keeps_emitEach hI hok) fun _ => ?_
  generalize H2.runMultiplexed codec c.conn reqs = out
  obtain ⟨results, conn⟩ := out
  have hlink : (⟨c.link, conn⟩ : H2Wire).link = c.link := rfl
  exact Triple.bind (keeps_repool hr (fun _ => helig) (hr.link hlink hc)) fun _ => keeps_pure _

theorem keeps_multiplex (hr : H2Rules I I ok first Good) (hd : Dials ok first)
    (helig : H2.poolEligible first = true) {reqs : List Request} (heach : Keeps I (H2.sendEach codec reqs))
    (hok : ∀ c pooled, Good c → ∀ r ∈ reqs, ok (.handed r pooled (.batch c reqs))) :
    Keeps I (H2.multiplex codec first reqs) := by
  have hdial : Triple I (H2.dialH2 first).attempt (fun res w => I w ∧ ∀ c, res = .ok c → Good c)
      I := by
    refine Triple.attempt ((triple_dialH2 hI hd).weaken (fun _ => id) ?_ ?_)
    · rintro c w ⟨hw, hlink⟩
      refine ⟨hw, fun c' hc' => ?_⟩
      cases hc'
      exact hr.fresh hlink
    · intro w hw e
      refine ⟨hw, fun c hc => ?_⟩
      cases hc
  refine Triple.bind (hr.checkout helig) fun pooled => Triple.assume fun hgood => ?_
  cases hfilter : pooled.filter (·.conn.isUsable) with
  | some c =>
      obtain ⟨hsome, husable⟩ := Option.filter_eq_some_iff.mp hfilter
      have hc : Good c := hgood c hsome husable
      exact keeps_runBatch hI hr helig hc (hok c true hc)
  | none =>
      refine Triple.bind hdial fun res => Triple.assume fun hfresh => ?_
      cases res with
      | error e => exact heach
      | ok fresh =>
          have hc : Good fresh := hfresh fresh rfl
          exact keeps_runBatch hI hr helig hc (hok fresh false hc)

end

/-! ## Dispatch -/

/-- The versions that try HTTP/2. -/
def usesH2 (r : Request) : Bool :=
  match r.httpVersionPref with
  | .auto | .http2Only | .http3 => true
  | .http11Only | .http3Only => false

/-- The versions that try HTTP/3. -/
def usesH3 (r : Request) : Bool :=
  match r.httpVersionPref with
  | .http3 | .http3Only => true
  | .auto | .http2Only | .http11Only => false

section

variable {P I : World → Prop} {ok : Event → Prop} {codec : Codec} {r : Request}
  {Good : H2Wire → Prop} (hI : Stable I ok)

theorem triple_sendAuto (hI : Stable I ok) (hr : H2Rules P I ok r Good) (hs : Sends2 ok r Good)
    (h11 : Sends11 ok r) (hscheme : r.url.scheme = "https".toList) :
    Triple P (sendAuto codec r) (fun _ => I) I := by
  refine Triple.bind (Q := fun _ => I) (Triple.attempt ((triple_h2_send hI hr hs).weaken
    (fun _ => id) (fun _ _ => id) fun _ hw _ => hw)) fun res => ?_
  split
  · exact keeps_pure _
  · exact keeps_sendHttps11 hI h11 hscheme
  · exact keeps_throw _

theorem triple_sendHttps (hP : Stable P ok) (hI : Stable I ok) (hPI : ∀ w, P w → I w)
    (hscheme : r.url.scheme = "https".toList) (h11 : Sends11 ok r)
    (h2 : usesH2 r = true → H2Rules P I ok r Good ∧ Sends2 ok r Good)
    (h3 : usesH3 r = true → ok (.udp (r.url.host, r.url.port))) :
    Triple P (sendHttps codec r) (fun _ => I) I := by
  unfold usesH2 at h2
  unfold usesH3 at h3
  unfold sendHttps
  cases hpref : r.httpVersionPref with
  | auto =>
      rw [hpref] at h2
      exact triple_sendAuto hI (h2 rfl).1 (h2 rfl).2 h11 hscheme
  | http11Only => exact (keeps_sendHttps11 hI h11 hscheme).pre hPI
  | http2Only =>
      rw [hpref] at h2
      exact triple_h2_send hI (h2 rfl).1 (h2 rfl).2
  | http3 =>
      rw [hpref] at h2 h3
      refine Triple.bind (keeps_h3_send hP (h3 rfl)).attempt fun res => ?_
      cases res with
      | ok resp => exact (keeps_pure resp).pre hPI
      | error e =>
          show Triple P (if h3ShouldFallBack e then sendAuto codec r else throw e) (fun _ => I) I
          split
          · exact triple_sendAuto hI (h2 rfl).1 (h2 rfl).2 h11 hscheme
          · exact (keeps_throw e).pre hPI
  | http3Only =>
      rw [hpref] at h3
      exact (keeps_h3_send hI (h3 rfl)).pre hPI

theorem triple_dispatch (hP : Stable P ok) (hI : Stable I ok) (hPI : ∀ w, P w → I w)
    (h11 : Sends11 ok r)
    (h2 : r.url.scheme = "https".toList → usesH2 r = true →
      H2Rules P I ok r Good ∧ Sends2 ok r Good)
    (h3 : r.url.scheme = "https".toList → usesH3 r = true → ok (.udp (r.url.host, r.url.port))) :
    Triple P (dispatch codec r) (fun _ => I) I := by
  unfold dispatch routeOf
  split
  · next hroute =>
      split at hroute
      · next hscheme => exact (keeps_sendPlain hI h11 hscheme).pre hPI
      · split at hroute <;> cases hroute
  · next hroute =>
      split at hroute
      · cases hroute
      · split at hroute
        · next hscheme => exact triple_sendHttps hP hI hPI hscheme h11 (h2 hscheme) (h3 hscheme)
        · cases hroute
  · exact (keeps_throw _).pre hPI

end

end Rsurl.Http
