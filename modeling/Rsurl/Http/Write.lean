/-
# `Rsurl.Http.Write` — the head `write_request` puts on the wire

Every text that reaches the request line or a header line is checked in one
of three places: the method and the caller's headers by `write_request`
itself, the target and the host by `Url::parse`.  The generated lines carry
only constants, decimal numbers, Base64 and the host.  Together these make
the head split at CRLF into exactly the lines it was built from.
-/
import Mathlib
import Rsurl.Http
import Rsurl.Net

namespace Rsurl.Http

/-! ## Validation -/

/-- A byte of an RFC 7230 token. -/
def isTokenChar (c : Char) : Bool :=
  c.isAlphanum || c ∈ "!#$%&'*+-.^_`|~".toList

def isValidHeaderName (name : Text) : Bool := !name.isEmpty && name.all isTokenChar

def headerValueHasForbidden (value : Text) : Bool :=
  value.any fun c => c == '\r' || c == '\n' || c == '\x00'

def validateHeader (name value : Text) : Result Unit :=
  if !isValidHeaderName name then
    .error (.badResponse [.str "invalid header name: ", .debug name])
  else if headerValueHasForbidden value then
    .error (.badResponse [.str "invalid header value for ", .debug name])
  else .ok ()

def validateMethod (method : Text) : Result Unit :=
  if method.isEmpty || method.any Url.isForbidden then
    .error (.badResponse [.str "invalid method: ", .debug method])
  else .ok ()

/-- `for (k, v) in &req.headers { validate_header(k, v)?; }`. -/
def validateHeaders : List Header → Result Unit
  | [] => .ok ()
  | (k, v) :: hs => do
      validateHeader k v
      validateHeaders hs

/-! ## The head -/

/-- The port goes without saying: 80 for `http`, 443 for `https`. -/
def portImplied (u : Url) : Bool :=
  (u.scheme == "http".toList && u.port == 80) ||
    (u.scheme == "https".toList && u.port == 443)

/-- `host` or `host:port`. -/
def hostHeader (u : Url) : Text :=
  if portImplied u then u.host else u.host ++ ':' :: decimal u.port.toNat

/-- The request target: the path, or the whole URL toward a proxy. -/
def requestTarget (u : Url) (absoluteForm : Bool) : Text :=
  if absoluteForm then u.scheme ++ "://".toList ++ hostHeader u ++ u.path else u.path

/-- `"Basic <token>"` for a pair of credentials. -/
def basicToken (token : Text) : Text := "Basic ".toList ++ token

/-- The lines before the caller's. -/
def leadingHeaders (r : Request) (absoluteForm : Bool) : List Header :=
  ("Host".toList, hostHeader r.url) ::
    if absoluteForm then
      match r.proxy.bind ProxyConfig.auth with
      | some (user, pass) =>
          [("Proxy-Authorization".toList,
            basicToken (base64Encode (user ++ ':' :: pass : Text).utf8))]
      | none => []
    else []

/-- A header that is generated unless the caller set one of its name. -/
def unlessSet (r : Request) (name : String) (value : Text) : List Header :=
  if hasHeader r.headers name.toList then [] else [(name.toList, value)]

/-- The lines after the caller's. -/
def trailingHeaders (r : Request) : List Header :=
  (match effectiveBasicAuth r with
    | some token => unlessSet r "Authorization" (basicToken token)
    | none => []) ++
  unlessSet r "User-Agent" "rsurl/0.0.4".toList ++
  unlessSet r "Accept" "*/*".toList ++
  unlessSet r "Accept-Encoding" "gzip, deflate".toList ++
  if r.body.isEmpty then []
  else unlessSet r "Content-Length" (decimal r.body.length)

def crlf : Text := ['\r', '\n']

/-- `"{k}: {v}"`. -/
def headerLine (h : Header) : Text := h.1 ++ ": ".toList ++ h.2

/-- `"{method} {target} HTTP/1.1"`. -/
def requestLine (r : Request) (absoluteForm : Bool) : Text :=
  r.method ++ ' ' :: (requestTarget r.url absoluteForm ++ " HTTP/1.1".toList)

/-- The contents of `buf`. -/
def requestHead (r : Request) (absoluteForm : Bool) : Text :=
  requestLine r absoluteForm ++ crlf ++
    (leadingHeaders r absoluteForm ++ r.headers ++ trailingHeaders r).flatMap
      (fun h => headerLine h ++ crlf) ++
    crlf

/-- `write_request`. -/
def writeRequest (w : Sink) (r : Request) (absoluteForm : Bool) : Result Unit × Sink :=
  match (do validateMethod r.method; validateHeaders r.headers : Result Unit) with
  | .error e => (.error e, w)
  | .ok () =>
      Sink.andThen (w.writeAll (requestHead r absoluteForm).utf8) fun w =>
        Sink.andThen (if r.body.isEmpty then (.ok (), w) else w.writeAll r.body) Sink.flush

/-! ## The law of the head -/

/-- The header names `write_request` generates. -/
def generatedNames : List Text :=
  ["Host".toList, "Proxy-Authorization".toList, "Authorization".toList,
    "User-Agent".toList, "Accept".toList, "Accept-Encoding".toList,
    "Content-Length".toList]

/-- `head`, split at CRLF, is a request line of three parts, one `name: value` line for
each generated header and each of the caller's, in order, and one empty line. -/
structure FramedHead (r : Request) (head line target : Bytes) (before after : List Header) :
    Prop where
  lines : Base.splitPair 13 10 head =
    line :: (before ++ r.headers ++ after).map (fun h => (headerLine h).utf8) ++ [[], []]
  request_line : line.splitOn 32 = [r.method.utf8, target, Text.utf8 "HTTP/1.1".toList]
  parts_ne : r.method ≠ [] ∧ target ≠ []
  generated : ∀ h ∈ before ++ after, h.1 ∈ generatedNames
  plain : ∀ h ∈ before ++ r.headers ++ after,
    isValidHeaderName h.1 = true ∧ headerValueHasForbidden h.2 = false

/-- `write_request` refuses before any byte, or writes a framed head and the body, or
breaks off inside them with an I/O error. -/
def HeadLaw (r : Request) (absoluteForm : Bool) (w : Sink) : Prop :=
  (∃ e, writeRequest w r absoluteForm = (.error e, w)) ∨
    ∃ head line target before after, FramedHead r head line target before after ∧
      Takes w (head ++ r.body) (writeRequest w r absoluteForm)

/-! ## Characters that cannot split a line -/

theorem isForbidden_of_isAlphanum {c : Char} (h : c.isAlphanum = true) :
    Url.isForbidden c = false := by
  have hlow : 48 ≤ c.toNat ∧ c.toNat ≤ 122 := by
    rw [isAlphanum_iff, isAlpha_iff, isDigit_iff] at h
    omega
  simp only [Url.isForbidden, Bool.or_eq_false_iff, decide_eq_false_iff_not,
    beq_eq_false_iff_ne]
  refine ⟨⟨by omega, by omega⟩, ?_⟩
  rintro rfl
  exact absurd hlow.1 (by decide)

theorem isForbidden_of_mem_decimal {n : Nat} {c : Char} (h : c ∈ decimal n) :
    Url.isForbidden c = false :=
  isForbidden_of_isAlphanum (isAlphanum_iff.mpr (.inr (isDigit_of_mem_decimal h)))

theorem base64Char_mem (i : UInt8) : base64Char i = '=' ∨ base64Char i ∈ base64Alphabet := by
  rw [base64Char, List.getD_eq_getElem?_getD]
  cases h : base64Alphabet[i.toNat]? with
  | none => exact .inl rfl
  | some c => exact .inr (List.mem_of_getElem? h)

theorem isForbidden_base64Char (i : UInt8) : Url.isForbidden (base64Char i) = false := by
  have hall : base64Alphabet.all (fun c => !Url.isForbidden c) = true := by decide +kernel
  rcases base64Char_mem i with h | h
  · rw [h]
    decide
  · exact Bool.not_eq_true' _ ▸ List.all_eq_true.mp hall _ h

theorem isForbidden_of_mem_base64 {bs : Bytes} {c : Char} (h : c ∈ base64Encode bs) :
    Url.isForbidden c = false := by
  fun_induction base64Encode bs with
  | case1 b0 b1 b2 rest ih =>
      simp only [List.mem_cons] at h
      rcases h with rfl | rfl | rfl | rfl | h
      · exact isForbidden_base64Char _
      · exact isForbidden_base64Char _
      · exact isForbidden_base64Char _
      · exact isForbidden_base64Char _
      · exact ih h
  | case2 b0 b1 =>
      simp only [List.mem_cons, List.not_mem_nil, or_false] at h
      rcases h with rfl | rfl | rfl | rfl
      · exact isForbidden_base64Char _
      · exact isForbidden_base64Char _
      · exact isForbidden_base64Char _
      · decide
  | case3 b0 =>
      simp only [List.mem_cons, List.not_mem_nil, or_false] at h
      rcases h with rfl | rfl | rfl | rfl
      · exact isForbidden_base64Char _
      · exact isForbidden_base64Char _
      · decide
      · decide
  | case4 => cases h

theorem headerValueHasForbidden_append (a b : Text) :
    headerValueHasForbidden (a ++ b) =
      (headerValueHasForbidden a || headerValueHasForbidden b) := by
  simp [headerValueHasForbidden]

theorem headerValueHasForbidden_of_plain {v : Text}
    (h : ∀ c ∈ v, Url.isForbidden c = false) : headerValueHasForbidden v = false := by
  rw [headerValueHasForbidden, Bool.eq_false_iff, ne_eq, List.any_eq_true]
  rintro ⟨c, hc, hbad⟩
  simp only [Bool.or_eq_true, beq_iff_eq] at hbad
  rcases hbad with (rfl | rfl) | rfl <;> exact absurd (h _ hc) (by decide)

/-- No carriage return gets into a line made of a token and a checked value. -/
theorem not_mem_headerLine {h : Header} (hname : isValidHeaderName h.1 = true)
    (hvalue : headerValueHasForbidden h.2 = false) : '\r' ∉ headerLine h := by
  simp only [headerLine, List.mem_append, not_or]
  refine ⟨⟨fun hc => ?_, by decide⟩, fun hc => ?_⟩
  · simp only [isValidHeaderName, Bool.and_eq_true, List.all_eq_true] at hname
    exact absurd (hname.2 _ hc) (by decide)
  · have hbad : headerValueHasForbidden h.2 = true :=
      List.any_eq_true.mpr ⟨'\r', hc, by decide⟩
    simp [hbad] at hvalue

/-! ## What is checked before the head is built -/

theorem validateHeaders_eq_ok {hs : List Header} : validateHeaders hs = .ok () ↔
    ∀ h ∈ hs, isValidHeaderName h.1 = true ∧ headerValueHasForbidden h.2 = false := by
  have hone : ∀ k v, validateHeader k v = .ok () ↔
      isValidHeaderName k = true ∧ headerValueHasForbidden v = false := by
    intro k v
    unfold validateHeader
    cases isValidHeaderName k <;> cases headerValueHasForbidden v <;> simp
  induction hs with
  | nil => simp [validateHeaders]
  | cons h hs ih => simp [validateHeaders, Result.guard_eq_ok, hone, ih]

theorem validateMethod_eq_ok {m : Text} : validateMethod m = .ok () ↔
    m ≠ [] ∧ ∀ c ∈ m, Url.isForbidden c = false := by
  unfold validateMethod
  by_cases hne : m = []
  · simp [hne]
  by_cases hany : m.any Url.isForbidden = true
  · rw [if_pos (by simp [hany])]
    obtain ⟨c, hc, hbad⟩ := List.any_eq_true.mp hany
    exact iff_of_false (by simp) fun h => absurd (h.2 c hc) (by simp [hbad])
  · rw [if_neg (by simp [hne, hany])]
    refine iff_of_true rfl ⟨hne, fun c hc => Bool.eq_false_iff.mpr fun hbad => ?_⟩
    exact hany (List.any_eq_true.mpr ⟨c, hc, hbad⟩)

/-- The texts of a URL that go into a head. -/
structure UrlPlain (u : Url) : Prop where
  scheme : ∀ c ∈ u.scheme, Url.isForbidden c = false
  host : ∀ c ∈ u.host, Url.isForbidden c = false
  path : ∀ c ∈ u.path, Url.isForbidden c = false
  path_ne : u.path ≠ []

theorem urlPlain_of_parse {s : Text} {u : Url} (h : Url.parse s = .ok u)
    (hfile : u.scheme ≠ "file".toList) : UrlPlain u := by
  obtain ⟨p, hr⟩ | ⟨-, -, -, -, hf⟩ := Url.reads_of_parse h
  · refine ⟨fun c hc => ?_, hr.host_ok, hr.path_ok, ?_⟩
    · exact isForbidden_of_isAlphanum ((Url.scheme_chars hr.default).2 c hc).1
    · obtain ⟨⟨t, ht⟩, -⟩ := hr.path_slash
      simp [ht]
  · obtain ⟨path, -, rfl⟩ := Url.parseFile_eq_ok.mp hf
    exact absurd rfl hfile

theorem UrlPlain.hostHeader {u : Url} (h : UrlPlain u) {c : Char}
    (hc : c ∈ hostHeader u) : Url.isForbidden c = false := by
  unfold Http.hostHeader at hc
  split at hc
  · exact h.host c hc
  · simp only [List.mem_append, List.mem_cons] at hc
    rcases hc with hc | rfl | hc
    · exact h.host c hc
    · decide
    · exact isForbidden_of_mem_decimal hc

theorem UrlPlain.requestTarget {u : Url} (h : UrlPlain u) (absoluteForm : Bool) :
    requestTarget u absoluteForm ≠ [] ∧
      ∀ c ∈ requestTarget u absoluteForm, Url.isForbidden c = false := by
  unfold Http.requestTarget
  cases absoluteForm with
  | false => exact ⟨h.path_ne, h.path⟩
  | true =>
      refine ⟨by simp, fun c hc => ?_⟩
      simp only [if_true, List.mem_append] at hc
      rcases hc with ((hc | hc) | hc) | hc
      · exact h.scheme c hc
      · have hmarker : "://".toList.all (fun c => !Url.isForbidden c) = true := by decide +kernel
        exact Bool.not_eq_true' _ ▸ List.all_eq_true.mp hmarker c hc
      · exact h.hostHeader hc
      · exact h.path c hc

/-! ## The generated lines -/

/-- A header whose name is one of `write_request`'s own and whose value cannot split a
line. -/
def IsGenerated (h : Header) : Prop :=
  h.1 ∈ generatedNames ∧ headerValueHasForbidden h.2 = false

theorem isValidHeaderName_of_generated {h : Header} (hg : IsGenerated h) :
    isValidHeaderName h.1 = true := by
  have hall : ∀ n ∈ generatedNames, isValidHeaderName n = true := by decide
  exact hall _ hg.1

theorem headerValueHasForbidden_basicToken {bs : Bytes} :
    headerValueHasForbidden (basicToken (base64Encode bs)) = false := by
  change headerValueHasForbidden ("Basic ".toList ++ base64Encode bs) = false
  rw [headerValueHasForbidden_append,
    headerValueHasForbidden_of_plain fun c hc => isForbidden_of_mem_base64 hc]
  decide

theorem effectiveBasicAuth_eq_some {r : Request} {token : Text}
    (h : effectiveBasicAuth r = some token) : ∃ bs, token = base64Encode bs := by
  unfold effectiveBasicAuth at h
  split at h
  · cases h
  split at h
  · cases h
  · exact ⟨_, (Option.some.inj h).symm⟩

theorem isGenerated_leading {r : Request} {absoluteForm : Bool} (hu : UrlPlain r.url) :
    ∀ h ∈ leadingHeaders r absoluteForm, IsGenerated h := by
  have hhost : "Host".toList ∈ generatedNames := by decide
  have hproxy : "Proxy-Authorization".toList ∈ generatedNames := by decide
  intro h hh
  unfold leadingHeaders at hh
  rcases List.mem_cons.mp hh with rfl | hh
  · exact ⟨hhost, headerValueHasForbidden_of_plain fun c hc => hu.hostHeader hc⟩
  · split at hh
    · split at hh
      · obtain rfl := List.mem_singleton.mp hh
        exact ⟨hproxy, headerValueHasForbidden_basicToken⟩
      · cases hh
    · cases hh

theorem isGenerated_unlessSet {r : Request} {name : String} {value : Text}
    (hn : name.toList ∈ generatedNames) (hv : headerValueHasForbidden value = false) :
    ∀ h ∈ unlessSet r name value, IsGenerated h := by
  intro h hh
  unfold unlessSet at hh
  split at hh
  · cases hh
  · obtain rfl := List.mem_singleton.mp hh
    exact ⟨hn, hv⟩

theorem isGenerated_trailing (r : Request) : ∀ h ∈ trailingHeaders r, IsGenerated h := by
  intro h hh
  simp only [trailingHeaders, List.mem_append] at hh
  rcases hh with (((hh | hh) | hh) | hh) | hh
  · split at hh
    · next token htoken =>
        obtain ⟨bs, rfl⟩ := effectiveBasicAuth_eq_some htoken
        exact isGenerated_unlessSet (by decide) headerValueHasForbidden_basicToken h hh
    · cases hh
  · exact isGenerated_unlessSet (by decide) (by decide) h hh
  · exact isGenerated_unlessSet (by decide) (by decide) h hh
  · exact isGenerated_unlessSet (by decide) (by decide) h hh
  · split at hh
    · cases hh
    · refine isGenerated_unlessSet (by decide) ?_ h hh
      exact headerValueHasForbidden_of_plain fun c hc => isForbidden_of_mem_decimal hc

/-! ## The head splits into the lines it was built from -/

/-- The head as lines: each closed by CRLF, the last one empty. -/
theorem requestHead_eq_lines (r : Request) (absoluteForm : Bool) :
    (requestHead r absoluteForm).utf8 =
      ((requestLine r absoluteForm).utf8 ::
        (leadingHeaders r absoluteForm ++ r.headers ++ trailingHeaders r).map
          (fun h => (headerLine h).utf8) ++ [[]]).flatMap (· ++ [13, 10]) ++ [] := by
  have hcrlf : crlf.utf8 = [13, 10] := by decide
  have hfields : ∀ hs : List Header, Text.utf8 (hs.flatMap fun h => headerLine h ++ crlf) =
      (hs.map fun h => (headerLine h).utf8).flatMap (· ++ [13, 10]) := by
    intro hs
    induction hs with
    | nil => rfl
    | cons h hs ih =>
        rw [List.flatMap_cons, Text.utf8_append, Text.utf8_append, hcrlf, ih]
        rfl
  simp only [requestHead, Text.utf8_append, hfields, hcrlf, List.cons_append,
    List.map_append, List.flatMap_cons, List.flatMap_append, List.flatMap_nil, List.append_nil,
    List.append_assoc, List.nil_append]

theorem framedHead_requestHead {r : Request} (hu : UrlPlain r.url)
    (hm : r.method ≠ [] ∧ ∀ c ∈ r.method, Url.isForbidden c = false)
    (hh : ∀ h ∈ r.headers, isValidHeaderName h.1 = true ∧ headerValueHasForbidden h.2 = false)
    (absoluteForm : Bool) :
    FramedHead r (requestHead r absoluteForm).utf8 (requestLine r absoluteForm).utf8
      (requestTarget r.url absoluteForm).utf8 (leadingHeaders r absoluteForm)
      (trailingHeaders r) := by
  obtain ⟨htne, htplain⟩ := hu.requestTarget absoluteForm
  have hgen : ∀ h ∈ leadingHeaders r absoluteForm ++ trailingHeaders r, IsGenerated h :=
    fun h hmem => (List.mem_append.mp hmem).elim (isGenerated_leading hu h)
      (isGenerated_trailing r h)
  have hplain : ∀ h ∈ leadingHeaders r absoluteForm ++ r.headers ++ trailingHeaders r,
      isValidHeaderName h.1 = true ∧ headerValueHasForbidden h.2 = false := by
    intro h hmem
    simp only [List.mem_append] at hmem
    rcases hmem with (hmem | hmem) | hmem
    · have hg := hgen h (List.mem_append_left _ hmem)
      exact ⟨isValidHeaderName_of_generated hg, hg.2⟩
    · exact hh h hmem
    · have hg := hgen h (List.mem_append_right _ hmem)
      exact ⟨isValidHeaderName_of_generated hg, hg.2⟩
  have hspace : ∀ {t : Text}, (∀ c ∈ t, Url.isForbidden c = false) →
      ∀ b ∈ t.utf8, (b == (32 : UInt8)) = false := by
    intro t ht b hb
    rw [beq_eq_false_iff_ne]
    rintro rfl
    have hno : ' ' ∉ t := fun hc => absurd (ht ' ' hc) (by decide)
    exact Text.not_mem_utf8 (by decide) hno hb
  constructor
  case lines =>
    rw [requestHead_eq_lines, Base.splitPair_flatMap ?_ []]
    · simp [Base.splitPair]
    · -- no line holds a carriage return
      intro line hline
      rcases List.mem_append.mp hline with hline | hline
      swap
      · obtain rfl := List.mem_singleton.mp hline
        simp
      rcases List.mem_cons.mp hline with rfl | hline
      · have hno : '\r' ∉ requestLine r absoluteForm := by
          simp only [requestLine, List.mem_append, List.mem_cons, not_or]
          exact ⟨fun hc => absurd (hm.2 _ hc) (by decide), by decide,
            fun hc => absurd (htplain _ hc) (by decide), by decide⟩
        exact Text.not_mem_utf8 (c := '\r') (by decide) hno
      · obtain ⟨h, hmem, rfl⟩ := List.mem_map.mp hline
        have hno := not_mem_headerLine (hplain h hmem).1 (hplain h hmem).2
        exact Text.not_mem_utf8 (c := '\r') (by decide) hno
  case request_line =>
    have hline : (requestLine r absoluteForm).utf8 = r.method.utf8 ++ 32 ::
        ((requestTarget r.url absoluteForm).utf8 ++ 32 :: Text.utf8 "HTTP/1.1".toList) := by
      simp only [requestLine, Text.utf8_append, Text.utf8_cons]
      rfl
    rw [hline, List.splitOn_eq_splitOnP,
      List.splitOnP_append_cons_of_forall_mem (hspace hm.2) 32 (by decide),
      List.splitOnP_append_cons_of_forall_mem (hspace htplain) 32 (by decide)]
    rfl
  case parts_ne => exact ⟨hm.1, fun h => htne (Text.utf8_eq_nil.mp h)⟩
  case generated => exact fun h hmem => (hgen h hmem).1
  case plain => exact hplain

/-- Past validation `write_request` writes the head and the body and nothing else. -/
theorem takes_writeRequest {w : Sink} {r : Request} {absoluteForm : Bool}
    (hvalid : (do validateMethod r.method; validateHeaders r.headers : Result Unit) = .ok ()) :
    Takes w ((requestHead r absoluteForm).utf8 ++ r.body) (writeRequest w r absoluteForm) := by
  have hbody : ∀ w', Takes w' r.body
      (if r.body.isEmpty then (.ok (), w') else w'.writeAll r.body) := by
    intro w'
    split
    · next hempty =>
        rw [List.isEmpty_iff.mp hempty]
        exact takes_nil w'
    · exact takes_writeAll w' r.body
  have hrest : ∀ w', Takes w' (r.body ++ []) (Sink.andThen
      (if r.body.isEmpty then (.ok (), w') else w'.writeAll r.body) Sink.flush) :=
    fun w' => (hbody w').andThen takes_flush
  simp only [writeRequest, hvalid]
  simpa using (takes_writeAll w (requestHead r absoluteForm).utf8).andThen hrest

/-- For every request the builder makes of a URL that is not `file://`, every request
form and every sink, nothing is written or the head is framed as it was built. -/
theorem headLaw_of_built {r : Request} (hb : Request.Built r)
    (hfile : r.url.scheme ≠ "file".toList) (absoluteForm : Bool) (w : Sink) :
    HeadLaw r absoluteForm w := by
  obtain ⟨s, hs⟩ := hb.url_parsed
  cases hvalid : (do validateMethod r.method; validateHeaders r.headers : Result Unit) with
  | error e => exact .inl ⟨e, by simp only [writeRequest, hvalid]⟩
  | ok =>
      obtain ⟨hm, hh⟩ := Result.guard_eq_ok.mp hvalid
      exact .inr ⟨_, _, _, _, _,
        framedHead_requestHead (urlPlain_of_parse hs hfile) (validateMethod_eq_ok.mp hm)
          (validateHeaders_eq_ok.mp hh) absoluteForm,
        takes_writeRequest hvalid⟩

/-- A POST with credentials in its URL, through a proxy that wants the absolute form,
on a connection that breaks after forty bytes. -/
theorem headLaw_of_proxied_post :
    ∃ r, Request.Built r ∧ r.proxy.isSome = true ∧
      HeadLaw r true ⟨[], some (40, .brokenPipe), none⟩ := by
  obtain ⟨r, hr, hscheme⟩ : ∃ r, Request.new "post".toList "http://me:pw@h:81/a?b".toList
      = .ok r ∧ r.url.scheme = "http".toList := ⟨_, rfl, rfl⟩
  obtain ⟨r', hr', hurl, hproxy⟩ : ∃ r', r.withProxy "u:p@proxy:3128".toList = .ok r' ∧
      r'.url = r.url ∧ r'.proxy.isSome = true := ⟨_, rfl, rfl, rfl⟩
  have hb : Request.Built (r'.header "X-Id".toList "7".toList) :=
    .header (.proxy (.new hr) hr') _ _
  have hfile : (r'.header "X-Id".toList "7".toList).url.scheme ≠ "file".toList := by
    rw [show (r'.header "X-Id".toList "7".toList).url = r.url from hurl, hscheme]
    decide
  exact ⟨_, hb, hproxy, headLaw_of_built hb hfile true _⟩

/-- A `file://` URL keeps a space in its path: the request line has four parts. -/
theorem headLaw_fails_for_file_url :
    ∃ r, Request.Built r ∧ Request.new "GET".toList "file:///a b".toList = .ok r ∧
      ¬ HeadLaw r false ⟨[], none, none⟩ := by
  obtain ⟨r, hr, hok, hhead⟩ : ∃ r, Request.new "GET".toList "file:///a b".toList = .ok r ∧
      (writeRequest ⟨[], none, none⟩ r false).1 = .ok () ∧
      ((Base.splitPair 13 10 (writeRequest ⟨[], none, none⟩ r false).2.written).head?.map
        fun line => (line.splitOn 32).length) = some 4 :=
    ⟨_, rfl, by decide, by decide⟩
  refine ⟨r, .new hr, hr, ?_⟩
  rintro (⟨e, he⟩ | ⟨head, line, target, before, after, hf, ht⟩)
  · rw [he] at hok
    cases hok
  · have hbody : r.body = [] := by
      obtain ⟨u, -, hnew⟩ := Result.bind_eq_ok.mp hr
      cases hnew
      rfl
    rcases ht with ⟨-, hw⟩ | ⟨kind, sent, herr, -⟩
    · simp only [hbody, List.append_nil, List.nil_append] at hw
      rw [hw, hf.lines] at hhead
      simp [hf.request_line] at hhead
    · rw [herr] at hok
      cases hok

end Rsurl.Http
