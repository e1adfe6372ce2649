/-
# `Rsurl.Http.ProxyLaw` — what a proxied request puts where

The plain and the TLS path of HTTP/1.1, `dial_h2` and the tunnel all look at the
proxy; `open_udp` does not, and the HTTP/2 pool does not ask how a connection
came about.  `goesThrough_iff` says when neither matters.
-/
import Rsurl.H3.Request
import Rsurl.Http.Isolation

namespace Rsurl.Http

open Base (Pool Program)
open Base.Program (Triple)

/-! ## The law -/

/-- The request with other credentials for its proxy. -/
def withAuth (r : Request) (auth : Option (Text × Text)) : Request :=
  { r with proxy := r.proxy.map fun p => { p with auth } }

/-- The bytes of a request on the connection it is handed. -/
def sentOn (codec : Codec) (r : Request) : Exchange → Bytes
  | .h1 wire absoluteForm =>
      (perform codec r absoluteForm wire).2.sink.written.drop wire.sink.written.length
  | .h2 c => (H2.runOneRequest codec c.conn r).2.tls.sink.written.drop c.conn.tls.sink.written.length
  | .batch c reqs =>
      (H2.runMultiplexed codec c.conn reqs).2.tls.sink.written.drop c.conn.tls.sink.written.length

/-- The socket goes to the proxy, and is a TLS session inside a tunnel to the URL's host and
port. -/
def IsTunnel (p : ProxyConfig) (r : Request) (link : Link) : Prop :=
  link.peer = (p.host, p.port) ∧ link.tunnel = some (r.url.host, r.url.port) ∧
    link.posture.isSome = true

/-- What a request with this proxy may do: open connections to the proxy, ask it for a tunnel to
the URL's host and port, and be sent in absolute form to the proxy or, if it is an `https` one,
inside that tunnel, in bytes that no credentials for the proxy change. -/
def GoesThrough (codec : Codec) (p : ProxyConfig) (r : Request) : Event → Prop
  | .connect dest => dest = (p.host, p.port)
  | .udp dest => dest = (p.host, p.port) ∧
      ∀ auth, H3.requestFields (withAuth r auth) = H3.requestFields r
  | .tunnel link target =>
      link = ⟨(p.host, p.port), none, none⟩ ∧ target = (r.url.host, r.url.port)
  | .handed _ _ exchange =>
      if r.url.scheme = "http".toList then
        ∃ wire, exchange = .h1 wire true ∧ wire.link = ⟨(p.host, p.port), none, none⟩
      else
        IsTunnel p r exchange.link ∧
          ∀ auth, sentOn codec (withAuth r auth) exchange = sentOn codec r exchange

/-- The request does not try HTTP/3 (or its proxy is where it goes anyway), and the HTTP/2 pool
holds no usable connection for it that goes another way. -/
structure KeepsToProxy (p : ProxyConfig) (r : Request) (w : World) : Prop where
  udp : r.url.scheme = "https".toList → usesH3 r = true →
    (r.url.host, r.url.port) = (p.host, p.port)
  pooled : r.url.scheme = "https".toList → usesH2 r = true → H2.poolEligible r = true →
    ∀ c, (w.h2.checkout (poolKeyFor r.url)).1 = some c → c.conn.isUsable = true →
      IsTunnel p r c.link

/-! ## Credentials -/

theorem sentOn_withAuth_h2 (codec : Codec) (r : Request) (auth : Option (Text × Text))
    (c : H2Wire) : sentOn codec (withAuth r auth) (.h2 c) = sentOn codec r (.h2 c) := rfl

theorem sentOn_withAuth_h1 (codec : Codec) (r : Request) (auth : Option (Text × Text))
    (wire : Wire) :
    sentOn codec (withAuth r auth) (.h1 wire false) = sentOn codec r (.h1 wire false) := rfl

theorem requestFields_withAuth (r : Request) (auth : Option (Text × Text)) :
    H3.requestFields (withAuth r auth) = H3.requestFields r := rfl

/-! ## What keeps to the proxy goes through it -/

section

variable {codec : Codec} {p : ProxyConfig} {r : Request}

/-- Every act so far is within the law. -/
def AllThrough (codec : Codec) (p : ProxyConfig) (r : Request) (w : World) : Prop :=
  ∀ e ∈ w.log, GoesThrough codec p r e

theorem AllThrough.emit {w : World} {e : Event} (h : AllThrough codec p r w)
    (he : GoesThrough codec p r e) : AllThrough codec p r { w with log := w.log ++ [e] } := by
  intro e' hmem
  rcases List.mem_append.mp hmem with hmem | hmem
  · exact h e' hmem
  · exact List.mem_singleton.mp hmem ▸ he

theorem stable_allThrough : Stable (AllThrough codec p r) (GoesThrough codec p r) where
  emit h he := h.emit he
  net _ h := h
  quic _ h := h
  plain _ h := h
  tls _ h := h

/-- The same, while the HTTP/2 pool is as it was. -/
theorem stable_allThrough_pool {pool : Pool PoolKey H2Wire} :
    Stable (fun w => w.h2 = pool ∧ AllThrough codec p r w) (GoesThrough codec p r) where
  emit h he := ⟨h.1, h.2.emit he⟩
  net _ h := h
  quic _ h := h
  plain _ h := h
  tls _ h := h

theorem destOf_of_proxy (hp : activeProxy r = some p) : destOf r = (p.host, p.port) := by
  rw [destOf, hp]

theorem isTunnel_linkFor (hp : activeProxy r = some p) : IsTunnel p r (linkFor r) := by
  refine ⟨destOf_of_proxy hp, ?_, rfl⟩
  rw [linkFor, hp]
  rfl

theorem isDirect_of_proxy (hp : activeProxy r = some p) : isDirect r = false := by
  obtain ⟨hsome, hbypass⟩ := Option.filter_eq_some_iff.mp hp
  rw [isDirect, hsome]
  exact (Bool.not_eq_true' _).mp hbypass

theorem viaPlainHttpProxy_of_proxy (hp : activeProxy r = some p)
    (hscheme : r.url.scheme = "http".toList) : viaPlainHttpProxy r = true := by
  obtain ⟨hsome, hbypass⟩ := Option.filter_eq_some_iff.mp hp
  rw [viaPlainHttpProxy, hsome, hscheme, hbypass]
  rfl

theorem https_ne_http : "https".toList ≠ "http".toList := by decide

theorem dials_through (hp : activeProxy r = some p) : Dials (GoesThrough codec p r) r where
  connect := destOf_of_proxy hp
  tunnel _ := ⟨by rw [destOf_of_proxy hp], rfl⟩

theorem handed_through {pooled : Bool} {exchange : Exchange}
    (hscheme : r.url.scheme = "https".toList) (hlink : IsTunnel p r exchange.link)
    (hbytes : ∀ auth, sentOn codec (withAuth r auth) exchange = sentOn codec r exchange) :
    GoesThrough codec p r (.handed r pooled exchange) := by
  show if r.url.scheme = "http".toList then _ else _
  rw [if_neg (hscheme ▸ https_ne_http)]
  exact ⟨hlink, hbytes⟩

theorem sends11_through (hp : activeProxy r = some p) : Sends11 (GoesThrough codec p r) r where
  toDials := dials_through hp
  pooled hdirect := by
    rw [isDirect_of_proxy hp] at hdirect
    cases hdirect
  plain hscheme wire hlink := by
    show if r.url.scheme = "http".toList then _ else _
    rw [if_pos hscheme]
    refine ⟨wire, ?_, ?_⟩
    · rw [viaPlainHttpProxy_of_proxy hp hscheme]
    · rw [hlink, destOf_of_proxy hp]
  tls hscheme wire hlink := by
    refine handed_through hscheme ?_ fun auth => sentOn_withAuth_h1 codec r auth wire
    show IsTunnel p r wire.link
    rw [hlink]
    exact isTunnel_linkFor hp

theorem h2Rules_through (hp : activeProxy r = some p) {w : World} (hw : KeepsToProxy p r w)
    (hscheme : r.url.scheme = "https".toList) (huses : usesH2 r = true) :
    H2Rules (fun w' => w'.h2 = w.h2 ∧ AllThrough codec p r w') (AllThrough codec p r)
      (GoesThrough codec p r) r (fun c => IsTunnel p r c.link) where
  before h := h.2
  checkout helig := by
    rintro w' ⟨hpool, hlog⟩
    refine ⟨hlog, fun c hc husable => ?_⟩
    have hc' : (w'.h2.checkout (poolKeyFor r.url)).1 = some c := hc
    rw [hpool] at hc'
    exact hw.pooled hscheme huses helig c hc' husable
  fresh hlink := hlink ▸ isTunnel_linkFor hp
  link hlink hc := hlink ▸ hc
  release _ {_} _ := Triple.modify fun _ h => h

theorem sends2_through (hp : activeProxy r = some p) (hscheme : r.url.scheme = "https".toList) :
    Sends2 (GoesThrough codec p r) r (fun c => IsTunnel p r c.link) where
  toDials := dials_through hp
  pooled c hc := handed_through hscheme hc fun auth => sentOn_withAuth_h2 codec r auth c
  fresh c hlink := by
    have htunnel : IsTunnel p r c.link := hlink ▸ isTunnel_linkFor hp
    exact handed_through hscheme htunnel fun auth => sentOn_withAuth_h2 codec r auth c

theorem goesThrough_of_keeps (hp : activeProxy r = some p) {w : World} (hw : KeepsToProxy p r w)
    (hlog : AllThrough codec p r w) : AllThrough codec p r ((dispatch codec r).exec w).2 := by
  have hrun : Triple (fun w' => w'.h2 = w.h2 ∧ AllThrough codec p r w') (dispatch codec r)
      (fun _ => AllThrough codec p r) (AllThrough codec p r) :=
    triple_dispatch stable_allThrough_pool stable_allThrough (fun _ h => h.2) (sends11_through hp)
      (fun hscheme huses => ⟨h2Rules_through hp hw hscheme huses, sends2_through hp hscheme⟩)
      fun hscheme huses => ⟨hw.udp hscheme huses, fun auth => requestFields_withAuth r auth⟩
  have hend := hrun w ⟨rfl, hlog⟩
  revert hend
  rcases (dispatch codec r).exec w with ⟨e | resp, w'⟩ <;> exact id

/-! ## What does not, does not -/

/-- A QUIC server that resets the exchange with an error. -/
def quicFailing (e : Error) : QuicPeer := ⟨.ok (), .error e⟩

theorem exec_h3_send_failing (hscheme : r.url.scheme = "https".toList) {w : World} {e : Error}
    (hquic : w.quic = [quicFailing e]) : (H3.send r).exec w =
      (.error e, { w with quic := [], log := w.log ++ [.udp (r.url.host, r.url.port)] }) := by
  have hnext : nextQuic.exec w = (.ok (quicFailing e), { w with quic := [] }) := by
    unfold Program.exec nextQuic
    rw [hquic]
  unfold H3.send
  rw [if_neg (not_not.mpr hscheme), Program.exec_bind_ok hnext]
  rfl

theorem exec_h3_send_nobody (hscheme : r.url.scheme = "https".toList) {w : World}
    (hquic : w.quic = []) : (H3.send r).exec w = (.error (.io .other), w) := by
  have hnext : nextQuic.exec w = (.error (.io .other), w) := by
    unfold Program.exec nextQuic
    rw [hquic]
  unfold H3.send
  rw [if_neg (not_not.mpr hscheme), Program.exec_bind, hnext]

theorem dispatch_https (hscheme : r.url.scheme = "https".toList) :
    dispatch codec r = sendHttps codec r := by
  have hroute : routeOf r.url = some .https := by
    rw [routeOf, if_neg (hscheme ▸ https_ne_http), if_pos hscheme]
  rw [dispatch, hroute]

/-- With HTTP/3 wanted, a UDP socket is opened to the URL's host. -/
theorem udp_of_usesH3 (hscheme : r.url.scheme = "https".toList) (huses : usesH3 r = true)
    {w : World} (hquic : w.quic = [quicFailing .unexpectedEof]) :
    .udp (r.url.host, r.url.port) ∈ ((dispatch codec r).exec w).2.log := by
  have hsend := exec_h3_send_failing hscheme hquic
  have hmem : Event.udp (r.url.host, r.url.port) ∈
      w.log ++ [Event.udp (r.url.host, r.url.port)] :=
    List.mem_append_right _ (List.mem_singleton_self _)
  rw [dispatch_https hscheme]
  unfold usesH3 at huses
  unfold sendHttps
  cases hpref : r.httpVersionPref with
  | auto =>
      rw [hpref] at huses
      cases huses
  | http2Only =>
      rw [hpref] at huses
      cases huses
  | http11Only =>
      rw [hpref] at huses
      cases huses
  | http3Only =>
      show _ ∈ ((H3.send r).exec w).2.log
      rw [hsend]
      exact hmem
  | http3 =>
      have hattempt := Program.exec_attempt (H3.send r) w
      rw [hsend] at hattempt
      show _ ∈ (Program.exec ((H3.send r).attempt >>= _) w).2.log
      rw [Program.exec_bind_ok hattempt]
      exact hmem

/-- Once something was done it stays done. -/
theorem stable_done (e : Event) : Stable (fun w => e ∈ w.log) fun _ => True where
  emit h _ := List.mem_append_left _ h
  net _ h := h
  quic _ h := h
  plain _ h := h
  tls _ h := h

theorem h2Rules_done (e : Event) : H2Rules (fun w => e ∈ w.log) (fun w => e ∈ w.log)
    (fun _ => True) r fun _ => True where
  before := id
  checkout _ := fun _ hw => ⟨hw, fun _ _ _ => trivial⟩
  fresh _ := trivial
  link _ _ := trivial
  release _ {_} _ := Triple.modify fun _ hw => hw

theorem dials_any : Dials (fun _ => True) r := ⟨trivial, fun _ => trivial⟩

theorem sends11_any : Sends11 (fun _ => True) r :=
  ⟨dials_any, fun _ _ _ => trivial, fun _ _ _ => trivial, fun _ _ _ => trivial⟩

/-- With a usable pooled connection, the request is handed it first. -/
theorem hands_pooled (hscheme : r.url.scheme = "https".toList)
    (helig : H2.poolEligible r = true) {c : H2Wire} (husable : c.conn.isUsable = true) :
    Triple (fun w => (w.h2.checkout (poolKeyFor r.url)).1 = some c) (H2.send codec r)
      (fun _ w => Event.handed r true (.h2 c) ∈ w.log)
      (fun w => Event.handed r true (.h2 c) ∈ w.log) := by
  have hI := stable_done (Event.handed r true (.h2 c))
  have hr := h2Rules_done (r := r) (Event.handed r true (.h2 c))
  have hcheckout : Triple (fun w => (w.h2.checkout (poolKeyFor r.url)).1 = some c)
      (poolCheckoutH2 r) (fun x _ => True ∧ x = some c)
      (fun w => Event.handed r true (.h2 c) ∈ w.log) := fun _ hw => ⟨trivial, hw⟩
  have hexchange : Triple (fun _ => True) (H2.exchange codec r true c)
      (fun _ w => Event.handed r true (.h2 c) ∈ w.log)
      (fun w => Event.handed r true (.h2 c) ∈ w.log) := by
    refine Triple.bind (Q := fun _ w => Event.handed r true (.h2 c) ∈ w.log)
      (Triple.modify fun w _ => List.mem_append_right _ (List.mem_singleton_self _)) fun _ => ?_
    generalize H2.runOneRequest codec c.conn r = out
    obtain ⟨res, conn⟩ := out
    exact keeps_pure _
  have hpooled : Triple (fun w => (w.h2.checkout (poolKeyFor r.url)).1 = some c)
      (H2.sendPooled codec r) (fun _ w => Event.handed r true (.h2 c) ∈ w.log)
      (fun w => Event.handed r true (.h2 c) ∈ w.log) := by
    refine Triple.bind hcheckout fun x => Triple.assume fun hx => ?_
    subst hx
    show Triple _ (if c.conn.isUsable = true then _ else _ : Client (Option Response)) _ _
    rw [if_pos husable]
    refine Triple.bind hexchange ?_
    rintro ⟨res, c'⟩
    cases res with
    | error e => exact keeps_pure _
    | ok resp => exact Triple.bind (keeps_repool hr (fun _ => helig) trivial) fun _ => keeps_pure _
  unfold H2.send
  rw [if_neg (not_not.mpr hscheme), if_pos helig]
  refine Triple.bind hpooled fun resp => ?_
  cases resp with
  | none => exact keeps_sendFresh hI hr dials_any fun _ _ => trivial
  | some resp => exact keeps_pure _

theorem hands_pooled_auto (hscheme : r.url.scheme = "https".toList)
    (helig : H2.poolEligible r = true) {c : H2Wire} (husable : c.conn.isUsable = true) :
    Triple (fun w => (w.h2.checkout (poolKeyFor r.url)).1 = some c) (sendAuto codec r)
      (fun _ w => Event.handed r true (.h2 c) ∈ w.log)
      (fun w => Event.handed r true (.h2 c) ∈ w.log) := by
  have hI := stable_done (Event.handed r true (.h2 c))
  refine Triple.bind (Q := fun _ w => Event.handed r true (.h2 c) ∈ w.log)
    (Triple.attempt ((hands_pooled hscheme helig husable).weaken (fun _ => id) (fun _ _ => id)
      fun _ hw _ => hw)) fun res => ?_
  split
  · exact keeps_pure _
  · exact keeps_sendHttps11 hI sends11_any hscheme
  · exact keeps_throw _

theorem Triple.log_mem {P : World → Prop} {e : Event} {m : Client Response}
    (h : Triple P m (fun _ w => e ∈ w.log) fun w => e ∈ w.log) {w : World} (hw : P w) :
    e ∈ (m.exec w).2.log := by
  have hend := h w hw
  revert hend
  rcases m.exec w with ⟨e' | resp, w'⟩ <;> exact id

/-- With a usable pooled connection and no QUIC server, the request is handed the connection. -/
theorem pooled_of_usesH2 (hscheme : r.url.scheme = "https".toList) (huses : usesH2 r = true)
    (helig : H2.poolEligible r = true) {c : H2Wire} (husable : c.conn.isUsable = true)
    {w : World} (hquic : w.quic = []) (hc : (w.h2.checkout (poolKeyFor r.url)).1 = some c) :
    .handed r true (.h2 c) ∈ ((dispatch codec r).exec w).2.log := by
  rw [dispatch_https hscheme]
  unfold usesH2 at huses
  unfold sendHttps
  cases hpref : r.httpVersionPref with
  | auto => exact Triple.log_mem (hands_pooled_auto hscheme helig husable) hc
  | http2Only => exact Triple.log_mem (hands_pooled hscheme helig husable) hc
  | http11Only =>
      rw [hpref] at huses
      cases huses
  | http3Only =>
      rw [hpref] at huses
      cases huses
  | http3 =>
      have hattempt := Program.exec_attempt (H3.send r) w
      rw [exec_h3_send_nobody hscheme hquic] at hattempt
      show _ ∈ (Program.exec ((H3.send r).attempt >>= _) w).2.log
      rw [Program.exec_bind_ok hattempt]
      exact Triple.log_mem (hands_pooled_auto hscheme helig husable) hc

end

/-! ## The law holds -/

/-- For every request with an active proxy, whatever the pools hold: whoever answers, everything
it does goes through the proxy if and only if it keeps to the proxy. -/
theorem goesThrough_iff {codec : Codec} {p : ProxyConfig} {r : Request} {w : World}
    (hp : activeProxy r = some p) (hlog : w.log = []) :
    (∀ net quic, ∀ e ∈ ((dispatch codec r).exec { w with net, quic }).2.log,
      GoesThrough codec p r e) ↔ KeepsToProxy p r w := by
  constructor
  · intro h
    refine ⟨fun hscheme huses => ?_, fun hscheme huses helig c hc husable => ?_⟩
    · exact (h [] [quicFailing .unexpectedEof] _ (udp_of_usesH3 hscheme huses rfl)).1
    · have hlaw := h [] [] _ (pooled_of_usesH2 hscheme huses helig husable rfl hc)
      have hlaw' : if r.url.scheme = "http".toList then _ else _ := hlaw
      rw [if_neg (hscheme ▸ https_ne_http)] at hlaw'
      exact hlaw'.1
  · intro hw net quic
    refine goesThrough_of_keeps hp ⟨hw.udp, hw.pooled⟩ fun e he => ?_
    have hnil : e ∈ w.log := he
    rw [hlog] at hnil
    cases hnil

/-- A GET through a proxy that wants credentials. -/
def credentialGet : Request :=
  { directGet with proxy := some ⟨"p".toList, 3128, some ("u".toList, "pw".toList)⟩ }

def isTunnelEvent : Event → Bool
  | .tunnel _ _ => true
  | _ => false

/-- Nothing is pooled and HTTP/3 is not wanted; with a proxy that agrees a tunnel is opened. -/
theorem goesThrough_of_get :
    (∀ net quic, ∀ e ∈ ((dispatch plainCodec credentialGet).exec
      { freshWorld with net, quic }).2.log,
      GoesThrough plainCodec ⟨"p".toList, 3128, some ("u".toList, "pw".toList)⟩ credentialGet e) ∧
    ((dispatch plainCodec credentialGet).exec freshWorld).2.log.any isTunnelEvent = true := by
  have hactive : activeProxy credentialGet =
      some ⟨"p".toList, 3128, some ("u".toList, "pw".toList)⟩ := by decide
  refine ⟨(goesThrough_iff hactive rfl).mpr ⟨fun _ huses => ?_, fun _ _ _ c hc => ?_⟩, ?_⟩
  · exact absurd huses (by decide)
  · have hnone : (freshWorld.h2.checkout (poolKeyFor credentialGet.url)).1 = none := rfl
    rw [hnone] at hc
    cases hc
  · decide +kernel

/-- A GET through a proxy, over HTTP/3: a UDP socket is opened to the URL's host. -/
theorem udp_past_proxy :
    ∃ r p, activeProxy r = some p ∧ p.host ≠ r.url.host ∧
      ∃ w : World, ∃ e ∈ ((dispatch plainCodec r).exec w).2.log, ¬ GoesThrough plainCodec p r e := by
  obtain ⟨r, hr⟩ : ∃ r, r = { proxiedGet with httpVersionPref := .http3Only } := ⟨_, rfl⟩
  have hscheme : r.url.scheme = "https".toList := by
    rw [hr]
    decide
  have huses : usesH3 r = true := by
    rw [hr]
    decide
  have hactive : activeProxy r = some ⟨"p".toList, 3128, none⟩ := by
    rw [hr]
    decide
  have hhost : "p".toList ≠ r.url.host := by
    rw [hr]
    decide
  refine ⟨r, _, hactive, hhost, { freshWorld with quic := [quicFailing .unexpectedEof] }, _,
    udp_of_usesH3 hscheme huses rfl, fun h => ?_⟩
  have hdest : (r.url.host, r.url.port) = ("p".toList, (3128 : UInt16)) := h.1
  exact hhost (Prod.mk.inj hdest).1.symm

end Rsurl.Http
