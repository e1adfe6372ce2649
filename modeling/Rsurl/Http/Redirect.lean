/-
# `Rsurl.Http.Redirect` — redirect chains

`send_to` is a loop over `hops_left`.  One iteration makes a hop (`makeHop`:
the snapshot with the jar's cookie, dispatched by `send_once`) and reads a
verdict off the response (`verdict`: stop, or go on with the next request).
The log of hops is what the chain put on the wire; `Chain` is the relation
between a request and the logs it can leave, and every law below is an
induction over it.
-/
import Rsurl.Http

namespace Rsurl.Http

/-! ## The loop -/

/-- What `send_to` runs in: the clock, the two dispatch targets of `send_once`, and a
cookie jar. -/
structure Env (W J : Type) where
  now : W → Nat × W
  sendPlain : Request → W → Result Response × W
  sendHttps : Request → W → Result Response × W
  purgeExpired : W → J → J
  cookieHeader : W → J → Url → Option Text
  ingestResponse : W → J → Url → List Header → J

/-- The transport `send_once` hands a request to. -/
inductive Route where
  | plain
  | https
deriving DecidableEq, Repr

/-- The arms of `send_once`. -/
def routeOf (u : Url) : Option Route :=
  if u.scheme = "http".toList then some .plain
  else if u.scheme = "https".toList then some .https
  else none

/-- One iteration as seen from outside: the request `send_once` was given, the cookie
the jar put into it, and what came back. -/
structure Hop where
  request : Request
  jarCookie : Option Text
  outcome : Result Response

section Loop

variable {W J : Type}

/-- `send_once`. -/
def sendOnce (env : Env W J) (r : Request) (w : W) : Result Response × W :=
  match routeOf r.url with
  | some .plain => env.sendPlain r w
  | some .https => env.sendHttps r w
  | none => (.error (.unsupportedScheme (.ofText r.url.scheme)), w)

/-- `headers.retain(..)`: drop every header of these names. -/
def dropHeaders (names : List Text) (headers : List Header) : List Header :=
  headers.filter fun (k, _) => !names.any fun n => k.eqIgnoreAsciiCase n

/-- The snapshot with the jar's cookie in place of any other. -/
def withCookie (r : Request) (cookie : Option Text) : Request :=
  let headers := dropHeaders ["cookie".toList] r.headers
  match cookie with
  | some val => { r with headers := headers ++ [("Cookie".toList, val)] }
  | none => { r with headers }

/-- Snapshot, jar, `send_once`, jar again. -/
def makeHop (env : Env W J) (r : Request) (jar : Option J) (w : W) : Hop × Option J × W :=
  match jar with
  | none =>
      let (outcome, w) := sendOnce env r w
      (⟨r, none, outcome⟩, none, w)
  | some j =>
      let j := env.purgeExpired w j
      let cookie := env.cookieHeader w j r.url
      let snapshot := withCookie r cookie
      let (outcome, w) := sendOnce env snapshot w
      let j := match outcome with
        | .ok resp => env.ingestResponse w j r.url resp.headers
        | .error _ => j
      (⟨snapshot, cookie, outcome⟩, some j, w)

def isRedirectStatus (status : UInt16) : Bool :=
  status ∈ [301, 302, 303, 307, 308]

/-- The hop leaves the origin: host, port or scheme differ. -/
def hostChanged (current next : Url) : Bool :=
  next.host != current.host || next.port != current.port || next.scheme != current.scheme

/-- The status and method that turn the next request into a bodyless GET. -/
def rewritesToGet (status : UInt16) (method : Text) : Bool :=
  (301 ≤ status && status ≤ 303) && !method.eqIgnoreAsciiCase "GET".toList &&
    !method.eqIgnoreAsciiCase "HEAD".toList

/-- Credentials go on a hop that leaves the origin. -/
def stripCredentials (r : Request) : Request :=
  { r with
    headers := dropHeaders ["authorization".toList, "cookie".toList] r.headers
    basicAuth := none }

/-- Method, body and the headers that describe the body. -/
def rewriteToGet (r : Request) : Request :=
  { r with
    method := "GET".toList
    body := []
    headers := dropHeaders
      ["content-type".toList, "content-length".toList, "transfer-encoding".toList] r.headers }

/-- The request for the next URL, without credentials when that leaves the origin. -/
def retarget (r : Request) (url : Url) : Request :=
  if hostChanged r.url url then stripCredentials { r with url } else { r with url }

/-- The request after a redirect of this status to `url`. -/
def nextRequest (r : Request) (url : Url) (status : UInt16) : Request :=
  if rewritesToGet status r.method then rewriteToGet (retarget r url) else retarget r url

/-- The response is not to be followed. -/
def isFinal (r : Request) (resp : Response) : Bool :=
  !r.followRedirects || !isRedirectStatus resp.status

/-- Where a redirect goes: nowhere without a `Location`, else to the request for the
resolved URL. -/
def redirectTarget (r : Request) (resp : Response) : Except (Result Response) Request :=
  match findHeader resp.headers "location".toList with
  | none => .error (.ok resp)
  | some location =>
      match Url.resolve r.url location with
      | .error e => .error (.error e)
      | .ok url => .ok (nextRequest r url resp.status)

/-- What a call of `send_to` leaves behind. -/
structure Sent (W J : Type) where
  result : Result Response
  jar : Option J
  world : W
  log : List Hop

/-- The deadline check at the head of an iteration. -/
def deadlinePassed (env : Env W J) (deadline : Option Nat) (w : W) : Bool × W :=
  match deadline with
  | none => (false, w)
  | some last =>
      let (now, w) := env.now w
      (decide (last ≤ now), w)

/-- The loop of `send_to`. -/
def sendLoop (env : Env W J) (deadline : Option Nat) (hopsLeft : Nat) (r : Request)
    (jar : Option J) (w : W) : Sent W J :=
  let (expired, w) := deadlinePassed env deadline w
  if expired then ⟨.error (.badResponse [.str "operation timed out"]), jar, w, []⟩
  else
    let (hop, jar, w) := makeHop env r jar w
    match hop.outcome with
    | .error e => ⟨.error e, jar, w, [hop]⟩
    | .ok resp =>
        if isFinal r resp then ⟨.ok resp, jar, w, [hop]⟩
        else
          match hopsLeft with
          | 0 =>
              ⟨.error (.badResponse [.str "maximum (", .num r.maxRedirs,
                .str ") redirects followed"]), jar, w, [hop]⟩
          | hopsLeft + 1 =>
              match redirectTarget r resp with
              | .error result => ⟨result, jar, w, [hop]⟩
              | .ok next =>
                  let sent := sendLoop env deadline hopsLeft next jar w
                  { sent with log := hop :: sent.log }

/-- `Request::send_to`. -/
def sendTo (env : Env W J) (r : Request) (jar : Option J) (w : W) : Sent W J :=
  match r.maxTime with
  | none => sendLoop env none r.maxRedirs r jar w
  | some d =>
      let (now, w) := env.now w
      sendLoop env (some (now + d)) r.maxRedirs r jar w

end Loop

/-! ## Chains -/

/-- A hop made from `r`: the request itself, or its snapshot with the jar's cookie, and an error
where `send_once` has no arm for its scheme. -/
structure Makes (r : Request) (hop : Hop) : Prop where
  request : (hop.jarCookie = none ∧ hop.request = r) ∨
    hop.request = withCookie r hop.jarCookie
  refused : routeOf r.url = none → hop.outcome = .error (.unsupportedScheme (.ofText r.url.scheme))

/-- The logs a request can leave: nothing when its time is up, one hop, or a hop whose
response redirects to a request that leaves the rest. -/
inductive Chain : Request → List Hop → Prop where
  | expired (r : Request) : Chain r []
  | last {r : Request} {hop : Hop} (h : Makes r hop) : Chain r [hop]
  | follow {r : Request} {hop : Hop} {resp : Response} {location : Text} {url : Url}
      {log : List Hop} (h : Makes r hop) (hresp : hop.outcome = .ok resp)
      (hurl : Url.resolve r.url location = .ok url)
      (rest : Chain (nextRequest r url resp.status) log) : Chain r (hop :: log)

section Loop

variable {W J : Type}

/-- `send_once` on a scheme that it has no arm for. -/
theorem sendOnce_of_none (env : Env W J) {r : Request} (w : W) (h : routeOf r.url = none) :
    sendOnce env r w = (.error (.unsupportedScheme (.ofText r.url.scheme)), w) := by
  rw [sendOnce, h]

theorem withCookie_url (r : Request) (cookie : Option Text) : (withCookie r cookie).url = r.url := by
  unfold withCookie
  split <;> rfl

theorem makes_makeHop (env : Env W J) (r : Request) (jar : Option J) (w : W) :
    Makes r (makeHop env r jar w).1 := by
  cases jar with
  | none =>
      refine ⟨.inl ⟨rfl, rfl⟩, fun hroute => ?_⟩
      exact congrArg Prod.fst (sendOnce_of_none env w hroute)
  | some j =>
      refine ⟨.inr rfl, fun hroute => ?_⟩
      have hsame := withCookie_url r (env.cookieHeader w (env.purgeExpired w j) r.url)
      rw [← hsame] at hroute ⊢
      exact congrArg Prod.fst (sendOnce_of_none env w hroute)

theorem redirectTarget_eq_ok {r next : Request} {resp : Response}
    (h : redirectTarget r resp = .ok next) : ∃ location url,
      Url.resolve r.url location = .ok url ∧ next = nextRequest r url resp.status := by
  unfold redirectTarget at h
  split at h
  · cases h
  · next location _ =>
      split at h
      · cases h
      · next url hurl => exact ⟨location, url, hurl, (Except.ok.inj h).symm⟩

/-- The loop leaves a chain of at most `hopsLeft + 1` hops. -/
theorem chain_sendLoop (env : Env W J) (deadline : Option Nat) (hopsLeft : Nat)
    (r : Request) (jar : Option J) (w : W) :
    Chain r (sendLoop env deadline hopsLeft r jar w).log ∧
      (sendLoop env deadline hopsLeft r jar w).log.length ≤ hopsLeft + 1 := by
  induction hopsLeft generalizing r jar w with
  | zero =>
      unfold sendLoop
      simp only
      split
      · exact ⟨.expired r, Nat.zero_le _⟩
      have hmakes := makes_makeHop env r jar (deadlinePassed env deadline w).2
      split
      · exact ⟨.last hmakes, Nat.le_refl 1⟩
      split
      · exact ⟨.last hmakes, Nat.le_refl 1⟩
      · exact ⟨.last hmakes, Nat.le_refl 1⟩
  | succ hopsLeft ih =>
      unfold sendLoop
      simp only
      split
      · exact ⟨.expired r, Nat.zero_le _⟩
      have hmakes := makes_makeHop env r jar (deadlinePassed env deadline w).2
      split
      · exact ⟨.last hmakes, Nat.succ_le_succ (Nat.zero_le _)⟩
      next resp hresp =>
      split
      · exact ⟨.last hmakes, Nat.succ_le_succ (Nat.zero_le _)⟩
      split
      · exact ⟨.last hmakes, Nat.succ_le_succ (Nat.zero_le _)⟩
      next next hnext =>
      obtain ⟨location, url, hurl, rfl⟩ := redirectTarget_eq_ok hnext
      obtain ⟨hchain, hlen⟩ := ih (nextRequest r url resp.status)
        (makeHop env r jar (deadlinePassed env deadline w).2).2.1
        (makeHop env r jar (deadlinePassed env deadline w).2).2.2
      exact ⟨.follow hmakes hresp hurl hchain, Nat.succ_le_succ hlen⟩

theorem chain_sendTo (env : Env W J) (r : Request) (jar : Option J) (w : W) :
    Chain r (sendTo env r jar w).log ∧ (sendTo env r jar w).log.length ≤ r.maxRedirs + 1 := by
  unfold sendTo
  split
  · exact chain_sendLoop env none r.maxRedirs r jar w
  · exact chain_sendLoop env _ r.maxRedirs r jar _

end Loop

/-! ## What the next request keeps -/

/-- A property that a change of URL, stripping and rewriting keep is kept by every
redirect. -/
theorem nextRequest_keeps {P : Request → Prop} (hurl : ∀ r url, P r → P { r with url })
    (hstrip : ∀ r, P r → P (stripCredentials r)) (hget : ∀ r, P r → P (rewriteToGet r))
    {r : Request} (h : P r) (url : Url) (status : UInt16) : P (nextRequest r url status) := by
  have hretarget : P (retarget r url) := by
    unfold retarget
    split
    · exact hstrip _ (hurl r url h)
    · exact hurl r url h
  unfold nextRequest
  split
  · exact hget _ hretarget
  · exact hretarget

theorem nextRequest_url (r : Request) (url : Url) (status : UInt16) :
    (nextRequest r url status).url = url := by
  have hretarget : (retarget r url).url = url := by
    unfold retarget
    split <;> rfl
  unfold nextRequest
  split
  · exact hretarget
  · exact hretarget

theorem mem_dropHeaders {names : List Text} {headers : List Header} {h : Header} :
    h ∈ dropHeaders names headers ↔
      h ∈ headers ∧ ∀ n ∈ names, h.1.eqIgnoreAsciiCase n = false := by
  simp [dropHeaders]

/-- No header of this name. -/
def Lacks (r : Request) (name : Text) : Prop :=
  ∀ h ∈ r.headers, h.1.eqIgnoreAsciiCase name = false

theorem Lacks.stripCredentials {r : Request} {name : Text} (h : Lacks r name) :
    Lacks (stripCredentials r) name := by
  intro x hx
  exact h x (mem_dropHeaders.mp hx).1

theorem Lacks.rewriteToGet {r : Request} {name : Text} (h : Lacks r name) :
    Lacks (rewriteToGet r) name := by
  intro x hx
  exact h x (mem_dropHeaders.mp hx).1

/-! ## What is gone for good -/

/-- No credential of the caller is left in the request. -/
structure Stripped (r : Request) : Prop where
  authorization : Lacks r "authorization".toList
  cookie : Lacks r "cookie".toList
  basic : r.basicAuth = none

/-- A bodyless GET without the headers that describe a body. -/
structure Bodyless (r : Request) : Prop where
  method : r.method = "GET".toList
  body : r.body = []
  contentType : Lacks r "content-type".toList
  contentLength : Lacks r "content-length".toList
  transferEncoding : Lacks r "transfer-encoding".toList

theorem stripped_stripCredentials (r : Request) : Stripped (stripCredentials r) := by
  refine ⟨?_, ?_, rfl⟩
  · intro x hx
    exact (mem_dropHeaders.mp hx).2 _ List.mem_cons_self
  · intro x hx
    exact (mem_dropHeaders.mp hx).2 _ (List.mem_cons_of_mem _ List.mem_cons_self)

theorem Stripped.rewriteToGet {r : Request} (h : Stripped r) : Stripped (rewriteToGet r) :=
  ⟨h.authorization.rewriteToGet, h.cookie.rewriteToGet, h.basic⟩

theorem Stripped.nextRequest {r : Request} (h : Stripped r) (url : Url) (status : UInt16) :
    Stripped (nextRequest r url status) :=
  nextRequest_keeps (fun _ _ h => ⟨h.authorization, h.cookie, h.basic⟩)
    (fun r _ => stripped_stripCredentials r) (fun _ h => h.rewriteToGet) h url status

theorem bodyless_rewriteToGet (r : Request) : Bodyless (rewriteToGet r) := by
  refine ⟨rfl, rfl, ?_, ?_, ?_⟩
  · intro x hx
    exact (mem_dropHeaders.mp hx).2 _ List.mem_cons_self
  · intro x hx
    exact (mem_dropHeaders.mp hx).2 _ (List.mem_cons_of_mem _ List.mem_cons_self)
  · intro x hx
    exact (mem_dropHeaders.mp hx).2 _
      (List.mem_cons_of_mem _ (List.mem_cons_of_mem _ List.mem_cons_self))

theorem Bodyless.stripCredentials {r : Request} (h : Bodyless r) :
    Bodyless (stripCredentials r) :=
  ⟨h.method, h.body, h.contentType.stripCredentials, h.contentLength.stripCredentials,
    h.transferEncoding.stripCredentials⟩

theorem Bodyless.nextRequest {r : Request} (h : Bodyless r) (url : Url) (status : UInt16) :
    Bodyless (nextRequest r url status) :=
  nextRequest_keeps
    (fun _ _ h => ⟨h.method, h.body, h.contentType, h.contentLength, h.transferEncoding⟩)
    (fun _ h => h.stripCredentials) (fun r _ => bodyless_rewriteToGet r) h url status

/-- The source's three comparisons are the comparison of origins. -/
theorem hostChanged_iff {current next : Url} :
    hostChanged current next = true ↔ Url.origin current ≠ Url.origin next := by
  simp only [hostChanged, Url.origin, Bool.or_eq_true, bne_iff_ne, ne_eq, Prod.mk.injEq]
  constructor
  · rintro ((h | h) | h) ⟨hs, hh, hp⟩
    · exact h hh.symm
    · exact h hp.symm
    · exact h hs.symm
  · intro h
    by_contra hno
    simp only [not_or, not_not] at hno
    exact h ⟨hno.2.symm, hno.1.1.symm, hno.1.2.symm⟩

theorem stripped_of_origin_ne {r : Request} {url : Url} {status : UInt16}
    (h : Url.origin r.url ≠ Url.origin url) : Stripped (nextRequest r url status) := by
  have hretarget : Stripped (retarget r url) := by
    rw [retarget, if_pos (hostChanged_iff.mpr h)]
    exact stripped_stripCredentials _
  unfold nextRequest
  split
  · exact hretarget.rewriteToGet
  · exact hretarget

theorem bodyless_of_rewritesToGet {r : Request} {url : Url} {status : UInt16}
    (h : rewritesToGet status r.method = true) : Bodyless (nextRequest r url status) := by
  rw [nextRequest, if_pos h]
  exact bodyless_rewriteToGet _

theorem rewritesToGet_of_method {status : UInt16} {method : Text}
    (hs : status ∈ [301, 302, 303]) (hup : method.toAsciiUppercase = method)
    (hget : method ≠ "GET".toList) (hhead : method ≠ "HEAD".toList) :
    rewritesToGet status method = true := by
  have hrange : (301 ≤ status && status ≤ 303) = true := by
    simp only [List.mem_cons, List.not_mem_nil, or_false] at hs
    rcases hs with rfl | rfl | rfl <;> decide
  have hne : ∀ m : Text, m.toAsciiUppercase = m → method ≠ m →
      Text.eqIgnoreAsciiCase method m = false := by
    intro m hm hmne
    rw [Bool.eq_false_iff]
    exact fun heq => hmne (Text.eq_of_eqIgnoreAsciiCase hup hm heq)
  rw [rewritesToGet, hrange, hne _ (by decide) hget, hne _ (by decide) hhead]
  rfl

theorem toAsciiUppercase_nextRequest {r : Request} (h : r.method.toAsciiUppercase = r.method)
    (url : Url) (status : UInt16) :
    (nextRequest r url status).method.toAsciiUppercase = (nextRequest r url status).method := by
  have hget : Text.toAsciiUppercase "GET".toList = "GET".toList := by decide
  exact nextRequest_keeps (P := fun r => r.method.toAsciiUppercase = r.method)
    (fun _ _ h => h) (fun _ h => h) (fun _ _ => hget) h url status

theorem Request.Built.method_upper {r : Request} (h : Request.Built r) :
    r.method.toAsciiUppercase = r.method := by
  induction h with
  | @new method _ _ h =>
      obtain ⟨u, -, hr⟩ := Result.bind_eq_ok.mp h
      cases hr
      exact Text.toAsciiUppercase_idem method
  | proxy _ hp ih =>
      obtain ⟨p, -, hr⟩ := Result.bind_eq_ok.mp hp
      cases hr
      exact ih
  | proxyUser _ hp ih =>
      simp only [Request.proxyUser] at hp
      split at hp
      · cases hp
        exact ih
      · cases hp
  | header _ _ _ ih => exact ih
  | body _ _ ih => exact ih
  | httpVersion _ _ ih => exact ih
  | followRedirects _ _ ih => exact ih
  | maxRedirs _ _ _ ih => exact ih
  | basicAuth _ _ _ ih => exact ih
  | verifyTls _ _ ih => exact ih
  | caBundle _ _ ih => exact ih
  | maxTime _ _ ih => exact ih
  | connectTimeout _ _ ih => exact ih
  | noProxy _ _ ih => exact ih

/-! ## Hops -/

/-- The hop carries no credential of the caller: no `Authorization`, no `Cookie` but the
jar's, no Basic pair. -/
structure CredentialFree (hop : Hop) : Prop where
  authorization : Lacks hop.request "authorization".toList
  cookie : ∀ h ∈ hop.request.headers, h.1.eqIgnoreAsciiCase "cookie".toList = true →
    hop.jarCookie = some h.2
  basic : hop.request.basicAuth = none

theorem mem_withCookie {r : Request} {cookie : Option Text} {h : Header}
    (hmem : h ∈ (withCookie r cookie).headers) :
    h ∈ r.headers ∨ ∃ val, cookie = some val ∧ h = ("Cookie".toList, val) := by
  unfold withCookie at hmem
  split at hmem
  · next val =>
      rcases List.mem_append.mp hmem with hmem | hmem
      · exact .inl (mem_dropHeaders.mp hmem).1
      · exact .inr ⟨val, rfl, List.mem_singleton.mp hmem⟩
  · exact .inl (mem_dropHeaders.mp hmem).1

section Makes

variable {r : Request} {hop : Hop}

/-- The snapshot differs from the request in its headers only. -/
theorem Makes.frame (h : Makes r hop) : hop.request.url = r.url ∧
    hop.request.method = r.method ∧ hop.request.body = r.body ∧
    hop.request.basicAuth = r.basicAuth := by
  rcases h.request with ⟨-, hreq⟩ | hreq
  · rw [hreq]
    exact ⟨rfl, rfl, rfl, rfl⟩
  · rw [hreq]
    unfold withCookie
    split <;> exact ⟨rfl, rfl, rfl, rfl⟩

theorem Makes.mem (h : Makes r hop) {x : Header} (hx : x ∈ hop.request.headers) :
    x ∈ r.headers ∨ ∃ val, hop.jarCookie = some val ∧ x = ("Cookie".toList, val) := by
  rcases h.request with ⟨-, hreq⟩ | hreq
  · exact .inl (hreq ▸ hx)
  · rw [hreq] at hx
    exact mem_withCookie hx

theorem Makes.lacks (h : Makes r hop) {name : Text} (hr : Lacks r name)
    (hname : Text.eqIgnoreAsciiCase "Cookie".toList name = false) : Lacks hop.request name := by
  intro x hx
  rcases h.mem hx with hx | ⟨val, -, rfl⟩
  · exact hr x hx
  · exact hname

theorem Makes.credentialFree (h : Makes r hop) (hr : Stripped r) : CredentialFree hop := by
  refine ⟨h.lacks hr.authorization (by decide), fun x hx hcookie => ?_, ?_⟩
  · rcases h.mem hx with hx | ⟨val, hval, rfl⟩
    · exact absurd (hr.cookie x hx) (by simp only [hcookie, Bool.true_eq_false, not_false_eq_true])
    · exact hval
  · rw [h.frame.2.2.2]
    exact hr.basic

theorem Makes.bodyless (h : Makes r hop) (hr : Bodyless r) : Bodyless hop.request := by
  obtain ⟨-, hmethod, hbody, -⟩ := h.frame
  exact ⟨hmethod.trans hr.method, hbody.trans hr.body, h.lacks hr.contentType (by decide),
    h.lacks hr.contentLength (by decide), h.lacks hr.transferEncoding (by decide)⟩

end Makes

/-! ## Laws of a chain -/

theorem Chain.head {r : Request} {hop : Hop} {log : List Hop} (h : Chain r (hop :: log)) :
    Makes r hop := by
  cases h with
  | last h => exact h
  | follow h => exact h

theorem Chain.credentialFree {r : Request} {log : List Hop} (h : Chain r log)
    (hr : Stripped r) : ∀ hop ∈ log, CredentialFree hop := by
  induction h with
  | expired => simp
  | last hm =>
      intro hop hmem
      obtain rfl := List.mem_singleton.mp hmem
      exact hm.credentialFree hr
  | follow hm _ _ _ ih =>
      intro hop hmem
      rcases List.mem_cons.mp hmem with rfl | hmem
      · exact hm.credentialFree hr
      · exact ih (hr.nextRequest _ _) hop hmem

theorem Chain.bodyless {r : Request} {log : List Hop} (h : Chain r log)
    (hr : Bodyless r) : ∀ hop ∈ log, Bodyless hop.request := by
  induction h with
  | expired => simp
  | last hm =>
      intro hop hmem
      obtain rfl := List.mem_singleton.mp hmem
      exact hm.bodyless hr
  | follow hm _ _ _ ih =>
      intro hop hmem
      rcases List.mem_cons.mp hmem with rfl | hmem
      · exact hm.bodyless hr
      · exact ih (hr.nextRequest _ _) hop hmem

/-- After the first hop to another origin nothing carries the caller's credentials. -/
theorem Chain.stripped {r : Request} {log : List Hop} (h : Chain r log)
    {pre post : List Hop} {a b : Hop} (hlog : log = pre ++ a :: b :: post)
    (hne : Url.origin a.request.url ≠ Url.origin b.request.url) :
    ∀ hop ∈ b :: post, CredentialFree hop := by
  induction h generalizing pre with
  | expired => simp at hlog
  | last hm =>
      have hlen := congrArg List.length hlog
      simp at hlen
      omega
  | @follow r hop resp _ url log hm _ _ rest ih =>
      cases pre with
      | cons x pre => exact ih (List.cons.inj hlog).2
      | nil =>
          obtain ⟨rfl, rfl⟩ := List.cons.inj hlog
          have hb : b.request.url = url :=
            rest.head.frame.1.trans (nextRequest_url r url resp.status)
          rw [hm.frame.1, hb] at hne
          exact rest.credentialFree (stripped_of_origin_ne hne)

/-- After a 301, 302 or 303 on another method everything is a bodyless GET. -/
theorem Chain.rewritten {r : Request} {log : List Hop} (h : Chain r log)
    (hup : r.method.toAsciiUppercase = r.method) {pre post : List Hop} {a : Hop}
    {resp : Response} (hlog : log = pre ++ a :: post) (hresp : a.outcome = .ok resp)
    (hstatus : resp.status ∈ [301, 302, 303]) (hget : a.request.method ≠ "GET".toList)
    (hhead : a.request.method ≠ "HEAD".toList) : ∀ hop ∈ post, Bodyless hop.request := by
  induction h generalizing pre with
  | expired => simp at hlog
  | last hm =>
      cases pre with
      | nil =>
          obtain ⟨-, rfl⟩ := List.cons.inj hlog
          simp
      | cons x pre => simp at hlog
  | @follow r hop resp' _ url log hm hresp' _ rest ih =>
      cases pre with
      | cons x pre =>
          exact ih (toAsciiUppercase_nextRequest hup url resp'.status) (List.cons.inj hlog).2
      | nil =>
          obtain ⟨rfl, rfl⟩ := List.cons.inj hlog
          obtain rfl : resp' = resp := Except.ok.inj (hresp'.symm.trans hresp)
          rw [hm.frame.2.1] at hget hhead
          exact rest.bodyless
            (bodyless_of_rewritesToGet (rewritesToGet_of_method hstatus hup hget hhead))

theorem routeOf_eq_some {u : Url} {route : Route} (h : routeOf u = some route) :
    u.scheme = "http".toList ∧ route = .plain ∨ u.scheme = "https".toList ∧ route = .https := by
  unfold routeOf at h
  split at h
  · next hs => exact .inl ⟨hs, (Option.some.inj h).symm⟩
  split at h
  · next hs => exact .inr ⟨hs, (Option.some.inj h).symm⟩
  · cases h

theorem routeOf_eq_none {u : Url} (hplain : u.scheme ≠ "http".toList)
    (hhttps : u.scheme ≠ "https".toList) : routeOf u = none := by
  rw [routeOf, if_neg hplain, if_neg hhttps]

/-- The chain ends in an error where it comes to another scheme. -/
theorem Chain.refused {r : Request} {log : List Hop} (h : Chain r log) :
    ∀ hop ∈ log, hop.request.url.scheme ≠ "http".toList →
      hop.request.url.scheme ≠ "https".toList →
      hop.outcome = .error (.unsupportedScheme (.ofText hop.request.url.scheme)) := by
  have hone : ∀ {r : Request} {hop : Hop}, Makes r hop →
      hop.request.url.scheme ≠ "http".toList → hop.request.url.scheme ≠ "https".toList →
      hop.outcome = .error (.unsupportedScheme (.ofText hop.request.url.scheme)) := by
    intro r hop hm
    rw [hm.frame.1]
    exact fun hplain hhttps => hm.refused (routeOf_eq_none hplain hhttps)
  induction h with
  | expired => simp
  | last hm =>
      intro hop hmem
      obtain rfl := List.mem_singleton.mp hmem
      exact hone hm
  | follow hm _ _ _ ih =>
      intro hop hmem
      rcases List.mem_cons.mp hmem with rfl | hmem
      · exact hone hm
      · exact ih hop hmem

/-! ## What is never issued -/

/-- What the environment would do with a request of another scheme than http on its first door,
and than https on its second, makes no difference: no such request is issued. -/
def OnlyHttp {W J α : Type} (env : Env W J) (run : Env W J → α) : Prop :=
  ∀ sendPlain sendHttps,
    (∀ r w, r.url.scheme = "http".toList → sendPlain r w = env.sendPlain r w) →
    (∀ r w, r.url.scheme = "https".toList → sendHttps r w = env.sendHttps r w) →
    run { env with sendPlain, sendHttps } = run env

section Issued

variable {W J : Type} (env : Env W J)

theorem onlyHttp_sendOnce (r : Request) (w : W) : OnlyHttp env fun env => sendOnce env r w := by
  intro sendPlain sendHttps hplain hhttps
  show sendOnce { env with sendPlain, sendHttps } r w = sendOnce env r w
  cases hroute : routeOf r.url with
  | none => rw [sendOnce_of_none _ w hroute, sendOnce_of_none _ w hroute]
  | some route =>
      rcases routeOf_eq_some hroute with ⟨hscheme, rfl⟩ | ⟨hscheme, rfl⟩
      · simp only [sendOnce, hroute]
        exact hplain r w hscheme
      · simp only [sendOnce, hroute]
        exact hhttps r w hscheme

theorem onlyHttp_makeHop (r : Request) (jar : Option J) (w : W) :
    OnlyHttp env fun env => makeHop env r jar w := by
  intro sendPlain sendHttps hplain hhttps
  have honce := fun r => onlyHttp_sendOnce env r w sendPlain sendHttps hplain hhttps
  cases jar with
  | none => simp only [makeHop, honce]
  | some j => simp only [makeHop, honce]

/-- Environments that make the same hops at the same times make the same chains. -/
theorem sendLoop_congr {env env' : Env W J}
    (hhop : ∀ r jar w, makeHop env' r jar w = makeHop env r jar w)
    (hnow : env'.now = env.now) (deadline : Option Nat) (hopsLeft : Nat) (r : Request)
    (jar : Option J) (w : W) :
    sendLoop env' deadline hopsLeft r jar w = sendLoop env deadline hopsLeft r jar w := by
  have hclock : ∀ w, deadlinePassed env' deadline w = deadlinePassed env deadline w := by
    intro w
    unfold deadlinePassed
    rw [hnow]
  induction hopsLeft generalizing r jar w with
  | zero =>
      unfold sendLoop
      simp only [hclock, hhop]
  | succ hopsLeft ih =>
      unfold sendLoop
      simp only [hclock, hhop, ih]

theorem onlyHttp_sendTo (r : Request) (jar : Option J) (w : W) :
    OnlyHttp env fun env => sendTo env r jar w := by
  intro sendPlain sendHttps hplain hhttps
  have hhop := fun r jar w => onlyHttp_makeHop env r jar w sendPlain sendHttps hplain hhttps
  show sendTo { env with sendPlain, sendHttps } r jar w = sendTo env r jar w
  unfold sendTo
  split
  · exact sendLoop_congr hhop rfl none r.maxRedirs r jar w
  · exact sendLoop_congr hhop rfl _ r.maxRedirs r jar _

end Issued

/-- What a redirect chain may put on the wire. -/
structure RedirectLaw (maxRedirs : Nat) (log : List Hop) : Prop where
  bounded : log.length ≤ maxRedirs + 1
  stripped : ∀ pre a b post, log = pre ++ a :: b :: post →
    Url.origin a.request.url ≠ Url.origin b.request.url →
    ∀ hop ∈ b :: post, CredentialFree hop
  rewritten : ∀ pre a post resp, log = pre ++ a :: post → a.outcome = .ok resp →
    resp.status ∈ [301, 302, 303] → a.request.method ≠ "GET".toList →
    a.request.method ≠ "HEAD".toList → ∀ hop ∈ post, Bodyless hop.request
  refused : ∀ hop ∈ log, hop.request.url.scheme ≠ "http".toList →
    hop.request.url.scheme ≠ "https".toList →
    hop.outcome = .error (.unsupportedScheme (.ofText hop.request.url.scheme))

/-- Every call of `send_to`, with any jar and in any environment, obeys the law, and issues nothing
but http and https; on another scheme `send_once` fails and leaves the world as it was. -/
theorem redirectLaw_sendTo {W J : Type} {r : Request} (hb : Request.Built r) (env : Env W J)
    (jar : Option J) (w : W) : RedirectLaw r.maxRedirs (sendTo env r jar w).log ∧
      OnlyHttp env (fun env => sendTo env r jar w) ∧
      ∀ r w, r.url.scheme ≠ "http".toList → r.url.scheme ≠ "https".toList →
        sendOnce env r w = (.error (.unsupportedScheme (.ofText r.url.scheme)), w) := by
  obtain ⟨hchain, hlen⟩ := chain_sendTo env r jar w
  refine ⟨⟨hlen, fun pre a b post hlog hne => hchain.stripped hlog hne, ?_, hchain.refused⟩,
    onlyHttp_sendTo env r jar w, fun r w hplain hhttps =>
      sendOnce_of_none env w (routeOf_eq_none hplain hhttps)⟩
  intro pre a post resp hlog hresp hstatus hget hhead
  exact hchain.rewritten hb.method_upper hlog hresp hstatus hget hhead

/-- An environment that answers from a script. -/
def replay : Env (List Response) Unit where
  now w := (0, w)
  sendPlain _ w := match w with
    | resp :: w => (.ok resp, w)
    | [] => (.error .unexpectedEof, [])
  sendHttps _ w := (.error .unexpectedEof, w)
  purgeExpired _ j := j
  cookieHeader _ _ _ := none
  ingestResponse _ j _ _ := j

/-- A script of three redirects: to another host, back, and to another scheme. -/
def roundTrip : List Response :=
  [⟨302, [], "HTTP/1.1".toList, [("location".toList, "http://b/y".toList)], []⟩,
    ⟨302, [], "HTTP/1.1".toList, [("location".toList, "http://a/z".toList)], []⟩,
    ⟨302, [], "HTTP/1.1".toList, [("location".toList, "ftp://a/f".toList)], []⟩]

/-- A POST with credentials that is sent to another host and back, and then nowhere. -/
theorem redirectLaw_of_round_trip :
    ∃ r, Request.Built r ∧ (sendTo replay r none roundTrip).log.length = 4 ∧
      (sendTo replay r none roundTrip).world = [] ∧
      RedirectLaw r.maxRedirs (sendTo replay r none roundTrip).log ∧
      OnlyHttp replay fun env => sendTo env r none roundTrip := by
  have hnew : ∃ r, Request.new "post".toList "http://a/x".toList = .ok r ∧
      (sendTo replay { r.header "Authorization".toList "t".toList with followRedirects := true }
        none roundTrip).log.length = 4 ∧
      (sendTo replay { r.header "Authorization".toList "t".toList with followRedirects := true }
        none roundTrip).world = [] := ⟨_, rfl, by decide +kernel⟩
  obtain ⟨r₀, hr₀, hlen, hworld⟩ := hnew
  have hb := Request.Built.followRedirects (.header (.new hr₀) "Authorization".toList "t".toList)
    true
  obtain ⟨hlaw, honly, -⟩ := redirectLaw_sendTo hb replay none roundTrip
  exact ⟨_, hb, hlen, hworld, hlaw, honly⟩

end Rsurl.Http
