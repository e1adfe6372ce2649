/-
# `Rsurl.Http.Versions` — one request, three versions

`write_request` of HTTP/1.1, `request_header_fields` of HTTP/2 and `write_request`
of HTTP/3 each merge the caller's headers with defaults; only the first refuses
anything.  What a request says is
its method, authority, path and end-to-end fields: the caller's, in order and in
lower case, and generated ones behind them.  HTTP/2 and HTTP/3 are for `https`
URLs alone, so the requests compared are to those.
-/
import Rsurl.Http.WellFormed

namespace Rsurl.Http

/-! ## What a request says -/

/-- A field that is not about the connection and not the authority. -/
def isEndToEnd (h : Header) : Bool :=
  !(H2.isConnectionSpecificHeader h.1 || h.1.eqIgnoreAsciiCase "host".toList)

/-- The end-to-end fields of a list, their names in lower case. -/
def endToEnd (fields : List Header) : List Header := (fields.filter isEndToEnd).map lowered

/-- What a request says, whatever the version. -/
@[ext]
structure Semantic where
  method : Text
  authority : Text
  path : Text
  fields : List Header

/-- What the head of a request says, in origin form. -/
def headSemantic (r : Request) : Semantic where
  method := r.method
  authority := hostHeader r.url
  path := requestTarget r.url false
  fields := endToEnd (headFields r false)

/-- What `write_request` says, in origin form, of a request that it does not refuse. -/
def semantic11 (r : Request) : Result Semantic := do
  validateMethod r.method
  validateHeaders r.headers
  .ok (headSemantic r)

/-- `write_request` writes a head and the body, and the head, read back, says this. -/
def Writes11 (r : Request) (s : Semantic) : Prop :=
  ∃ head line fields, (∀ w, Takes w (head ++ r.body) (writeRequest w r false)) ∧
    IsHead head line fields ∧
    line.splitOn 32 = [s.method.utf8, s.path.utf8, Text.utf8 "HTTP/1.1".toList] ∧
    findHeader fields "host".toList = some s.authority ∧ s.fields = endToEnd fields

def semantic2 (r : Request) : Semantic :=
  let (pseudo, fields) := H2.requestHeaderFields r
  ⟨pseudo.method, pseudo.authority, pseudo.path, endToEnd fields⟩

/-- The pseudo-header of a name. -/
def pseudoValue (fields : List Header) (name : String) : Text :=
  (findHeader fields name.toList).getD []

def semantic3 (r : Request) : Semantic where
  method := pseudoValue (H3.pseudoFields r) ":method"
  authority := pseudoValue (H3.pseudoFields r) ":authority"
  path := pseudoValue (H3.pseudoFields r) ":path"
  fields := endToEnd (H3.regularFields r)

/-- Two lists carry the same fields: the caller's in order, then generated ones in any order. -/
def SameFields (callers a b : List Header) : Prop :=
  ∃ g g', a = callers ++ g ∧ b = callers ++ g' ∧ g.Perm g'

/-- Two versions of a request say the same. -/
structure SaysSame (r : Request) (a b : Semantic) : Prop where
  method : a.method = b.method
  authority : a.authority = b.authority
  path : a.path = b.path
  fields : SameFields (endToEnd r.headers) a.fields b.fields

theorem sameFields_append_iff {callers g g' : List Header} :
    SameFields callers (callers ++ g) (callers ++ g') ↔ g.Perm g' := by
  constructor
  · rintro ⟨k, k', hk, hk', hperm⟩
    rw [List.append_cancel_left hk, List.append_cancel_left hk']
    exact hperm
  · intro h
    exact ⟨g, g', rfl, rfl, h⟩

theorem SameFields.length_eq {callers a b : List Header} (h : SameFields callers a b) :
    a.length = b.length := by
  obtain ⟨g, g', rfl, rfl, hperm⟩ := h
  rw [List.length_append, List.length_append, hperm.length_eq]

theorem endToEnd_append (a b : List Header) : endToEnd (a ++ b) = endToEnd a ++ endToEnd b := by
  rw [endToEnd, List.filter_append, List.map_append]
  rfl

/-! ## What HTTP/1.1 writes -/

theorem semantic11_eq_ok {r : Request} {s : Semantic} :
    semantic11 r = .ok s ↔ Accepted r ∧ headSemantic r = s := by
  rw [semantic11, Result.guard_eq_ok, Result.guard_eq_ok, Except.ok.injEq, ← and_assoc]
  exact and_congr_left' ⟨fun h => ⟨h.1, h.2⟩, fun h => ⟨h.method, h.headers⟩⟩

/-- A refusal is not an error of the connection. -/
theorem refused_badResponse {r : Request} {e : Error}
    (h : (do validateMethod r.method; validateHeaders r.headers : Result Unit) = .error e) :
    ∃ msg, e = .badResponse msg := by
  have hheaders : ∀ {hs : List Header}, validateHeaders hs = .error e → ∃ msg, e = .badResponse msg := by
    intro hs
    induction hs with
    | nil => exact fun h => by cases h
    | cons f hs ih =>
        intro h
        rw [validateHeaders, validateHeader] at h
        split at h
        · exact ⟨_, (Except.error.inj h).symm⟩
        split at h
        · exact ⟨_, (Except.error.inj h).symm⟩
        · exact ih h
  rw [validateMethod] at h
  split at h
  · exact ⟨_, (Except.error.inj h).symm⟩
  · exact hheaders h

theorem accepted_of_takes {r : Request} {absoluteForm : Bool} {w : Sink} {bs : Bytes}
    (h : Takes w bs (writeRequest w r absoluteForm)) : Accepted r := by
  rcases h with ⟨hok, -⟩ | ⟨kind, sent, herr, -⟩
  · exact accepted_of_writeRequest hok
  · cases hvalid : (do validateMethod r.method; validateHeaders r.headers : Result Unit) with
    | ok =>
        obtain ⟨hmethod, hheaders⟩ := Result.guard_eq_ok.mp hvalid
        exact ⟨hmethod, hheaders⟩
    | error e =>
        obtain ⟨msg, rfl⟩ := refused_badResponse hvalid
        rw [writeRequest, hvalid] at herr
        cases herr

/-- The parts of the request line. -/
theorem splitOn_requestLine {r : Request} (hu : UrlPlain r.url) (h : Accepted r) :
    (requestLine r false).utf8.splitOn 32 =
      [(headSemantic r).method.utf8, (headSemantic r).path.utf8, Text.utf8 "HTTP/1.1".toList] :=
  (framedHead_requestHead hu (validateMethod_eq_ok.mp h.method)
    (validateHeaders_eq_ok.mp h.headers) false).request_line

/-- `write_request` says what `semantic11` is, and nothing else. -/
theorem writes11_iff {r : Request} (hu : UrlPlain r.url) {s : Semantic} :
    Writes11 r s ↔ semantic11 r = .ok s := by
  have hhost : findHeader (headFields r false) "host".toList = some (hostHeader r.url) := by
    have hsame : Text.eqIgnoreAsciiCase "Host".toList "host".toList = true := by decide
    exact congrArg (Option.map Prod.snd) (List.find?_cons_of_pos hsame)
  rw [semantic11_eq_ok]
  constructor
  · rintro ⟨head, line, fields, htakes, hhead, hline, hauthority, hfields⟩
    have hok := accepted_of_takes (htakes ⟨[], none, none⟩)
    have hread := isHead_requestHead hu hok false
    have hwritten := htakes ⟨[], none, none⟩
    rw [writeRequest_healthy hok] at hwritten
    rcases hwritten with ⟨-, hsame⟩ | ⟨kind, sent, herr, -⟩
    · rw [List.append_cancel_right hsame] at hread
      obtain ⟨rfl, rfl⟩ := hread.unique hhead
      rw [splitOn_requestLine hu hok] at hline
      obtain ⟨hmethod, hrest⟩ := List.cons.inj hline
      refine ⟨hok, Semantic.ext (utf8_injective hmethod) ?_
        (utf8_injective (List.cons.inj hrest).1) hfields.symm⟩
      exact Option.some.inj (hhost.symm.trans hauthority)
    · cases herr
  · rintro ⟨hok, rfl⟩
    exact ⟨_, _, _, fun w => takes_writeRequest hok.checks, isHead_requestHead hu hok false,
      splitOn_requestLine hu hok, hhost, rfl⟩

/-! ## The caller's fields -/

theorem isEndToEnd_lowered (h : Header) : isEndToEnd (lowered h) = isEndToEnd h := by
  simp only [isEndToEnd, H2.isConnectionSpecificHeader, lowered, Text.toAsciiLowercase_idem,
    Text.eqIgnoreAsciiCase_lower]

theorem lowered_lowered (h : Header) : lowered (lowered h) = lowered h := by
  rw [lowered, lowered, Text.toAsciiLowercase_idem]

/-- Fields that were lowered and filtered before. -/
theorem endToEnd_map_lowered (fields : List Header) :
    endToEnd (fields.map lowered) = endToEnd fields := by
  rw [endToEnd, List.filter_map, List.map_map, endToEnd]
  have hfilter : isEndToEnd ∘ lowered = isEndToEnd := funext isEndToEnd_lowered
  have hmap : lowered ∘ lowered = lowered := funext lowered_lowered
  rw [hfilter, hmap]

theorem endToEnd_h2_callers (r : Request) :
    endToEnd (H2.callerFields r) = endToEnd r.headers := by
  have hcallers : H2.callerFields r = (r.headers.filter isEndToEnd).map lowered := rfl
  rw [hcallers, endToEnd_map_lowered, endToEnd, List.filter_filter, endToEnd]
  simp only [Bool.and_self]

/-- HTTP/3 keeps a `te` and drops what looks like a pseudo-header, which no valid name does. -/
theorem endToEnd_h3_callers {r : Request} (hvalid : validateHeaders r.headers = .ok ()) :
    endToEnd (H3.callerFields r) = endToEnd r.headers := by
  have hcallers : H3.callerFields r =
      (r.headers.filter fun h => !H3.isSkipped h.1.toAsciiLowercase).map lowered := rfl
  rw [hcallers, endToEnd_map_lowered, endToEnd, List.filter_filter, endToEnd]
  congr 1
  refine List.filter_congr fun h hh => ?_
  cases hend : isEndToEnd h with
  | false => rfl
  | true =>
      have hname := (validateHeaders_eq_ok.mp hvalid h hh).1
      rw [← isValidHeaderName_toAsciiLowercase] at hname
      have hcolon : h.1.toAsciiLowercase.head? ≠ some ':' := by
        intro hhead
        obtain ⟨t, ht⟩ : ∃ t, h.1.toAsciiLowercase = ':' :: t := List.head?_eq_some_iff.mp hhead
        rw [ht] at hname
        simp [isValidHeaderName] at hname
        exact absurd hname.1 (by decide)
      exact (h3_passes_iff h.1 h.2).mpr ⟨((h2_passes_iff h.1 h.2).mp hend).1, hcolon⟩

/-! ## The generated fields -/

/-- A field that is added unless the caller set it. -/
def default (r : Request) (name : String) (value : Option Text) : List Header :=
  if hasHeader r.headers name.toList then [] else (value.map fun v => (name.toList, v)).toList

theorem default_eq_nil {r : Request} {name : String} {value : Option Text} :
    default r name value = [] ↔ value = none ∨ hasHeader r.headers name.toList = true := by
  unfold default
  cases hasHeader r.headers name.toList <;> cases value <;> simp

theorem hasHeader_congr {fields : List Header} {m n : Text}
    (h : m.toAsciiLowercase = n.toAsciiLowercase) : hasHeader fields m = hasHeader fields n := by
  simp only [hasHeader, Text.eqIgnoreAsciiCase, h]

/-- Looking for a name among the fields a builder kept, if it keeps every field of that name. -/
theorem any_callers {fields : List Header} {keep : Header → Bool} {n : Text}
    (hlow : n.toAsciiLowercase = n)
    (h : ∀ f ∈ fields, f.1.eqIgnoreAsciiCase n = true → keep f = true) :
    ((fields.filter keep).map lowered).any (fun (k, _) => k == n) = hasHeader fields n := by
  have hname : ∀ f : Header, ((lowered f).1 == n) = f.1.eqIgnoreAsciiCase n := by
    intro f
    rw [Text.eqIgnoreAsciiCase, hlow]
    rfl
  rw [List.any_map, hasHeader, Bool.eq_iff_iff, List.any_eq_true, List.any_eq_true]
  constructor
  · rintro ⟨f, hf, heq⟩
    exact ⟨f, (List.mem_filter.mp hf).1, (hname f).symm.trans heq⟩
  · rintro ⟨f, hf, heq⟩
    exact ⟨f, List.mem_filter.mpr ⟨hf, h f hf heq⟩, (hname f).trans heq⟩

/-- A name that no builder drops. -/
structure IsKept (n : Text) : Prop where
  lower : n.toAsciiLowercase = n
  passed : isPassedOn (n, []) = true
  te : n ≠ "te".toList
  colon : n.head? ≠ some ':'

theorem IsKept.h2 {n : Text} (hn : IsKept n) {f : Header} (hf : f.1.eqIgnoreAsciiCase n = true) :
    isEndToEnd f = true := by
  have heq : f.1.toAsciiLowercase = n := (beq_iff_eq.mp hf).trans hn.lower
  have hpassed : isPassedOn f = isPassedOn (n, []) := by
    rw [isPassedOn, isPassedOn, heq, hn.lower]
  exact (h2_passes_iff f.1 f.2).mpr ⟨hpassed.trans hn.passed, heq.symm ▸ hn.te⟩

theorem IsKept.h3 {n : Text} (hn : IsKept n) {f : Header} (hf : f.1.eqIgnoreAsciiCase n = true) :
    (!H3.isSkipped f.1.toAsciiLowercase) = true := by
  have heq : f.1.toAsciiLowercase = n := (beq_iff_eq.mp hf).trans hn.lower
  have hpassed : isPassedOn f = isPassedOn (n, []) := by
    rw [isPassedOn, isPassedOn, heq, hn.lower]
  exact (h3_passes_iff f.1 f.2).mpr ⟨hpassed.trans hn.passed, heq.symm ▸ hn.colon⟩

theorem h2_fieldUnlessSet_eq {r : Request} {name : String} {value : Option Text}
    (hn : IsKept name.toList) :
    H2.fieldUnlessSet (H2.callerFields r) name value = default r name value := by
  have hany : (H2.callerFields r).any (fun (k, _) => k == name.toList) =
      hasHeader r.headers name.toList := any_callers hn.lower fun f _ hf => hn.h2 hf
  rw [H2.fieldUnlessSet, hany, default]

theorem h3_fieldUnlessSet_eq {r : Request} {name value : String} (hn : IsKept name.toList) :
    H3.fieldUnlessSet (H3.callerFields r) name value = default r name (some value.toList) := by
  have hany : (H3.callerFields r).any (fun (k, _) => k == name.toList) =
      hasHeader r.headers name.toList := any_callers hn.lower fun f _ hf => hn.h3 hf
  rw [H3.fieldUnlessSet, hany, default]
  rfl

theorem endToEnd_unlessSet {r : Request} {given name : String} {value : Text}
    (hlow : Text.toAsciiLowercase given.toList = name.toList) (hn : IsKept name.toList) :
    endToEnd (unlessSet r given value) = default r name (some value) := by
  have hhas : hasHeader r.headers given.toList = hasHeader r.headers name.toList :=
    hasHeader_congr (hlow.trans hn.lower.symm)
  have hend : isEndToEnd (given.toList, value) = true := by
    refine hn.h2 ?_
    rw [Text.eqIgnoreAsciiCase, hlow, hn.lower]
    exact beq_self_eq_true _
  unfold unlessSet default
  rw [hhas]
  split
  · rfl
  · show (List.filter isEndToEnd [(given.toList, value)]).map lowered = [(name.toList, value)]
    rw [List.filter_cons_of_pos hend, List.filter_nil, List.map_singleton, lowered, hlow]

theorem isKept_authorization : IsKept "authorization".toList :=
  ⟨by decide, by decide, by decide, by decide⟩

theorem isKept_user_agent : IsKept "user-agent".toList :=
  ⟨by decide, by decide, by decide, by decide⟩

theorem isKept_accept : IsKept "accept".toList :=
  ⟨by decide, by decide, by decide, by decide⟩

theorem isKept_accept_encoding : IsKept "accept-encoding".toList :=
  ⟨by decide, by decide, by decide, by decide⟩

theorem isKept_content_length : IsKept "content-length".toList :=
  ⟨by decide, by decide, by decide, by decide⟩

/-- The length that HTTP/1.1 adds: none beside the caller's. -/
def lengthUnlessSet (r : Request) : List Header :=
  if r.body.isEmpty then [] else default r "content-length" (some (decimal r.body.length))

def authField (r : Request) : List Header :=
  default r "authorization" ((effectiveBasicAuth r).map ("Basic ".toList ++ ·))

def agentField (r : Request) : List Header := default r "user-agent" (some "rsurl/0.0.4".toList)

def acceptField (r : Request) : List Header := default r "accept" (some "*/*".toList)

def encodingField (r : Request) : List Header :=
  default r "accept-encoding" (some "gzip, deflate".toList)

theorem endToEnd_basicAuth (r : Request) :
    endToEnd (match effectiveBasicAuth r with
      | some token => unlessSet r "Authorization" (basicToken token)
      | none => []) = authField r := by
  unfold authField
  cases effectiveBasicAuth r with
  | none => exact (default_eq_nil.mpr (.inl rfl)).symm
  | some token => exact endToEnd_unlessSet (by decide) isKept_authorization

theorem fields11_eq (r : Request) : (headSemantic r).fields = endToEnd r.headers ++
    (authField r ++ agentField r ++ acceptField r ++ encodingField r ++ lengthUnlessSet r) := by
  have hhost : endToEnd (leadingHeaders r false) = [] := by
    have hno : isEndToEnd ("Host".toList, hostHeader r.url) = false := by
      show (!(H2.isConnectionSpecificHeader "Host".toList ||
        Text.eqIgnoreAsciiCase "Host".toList "host".toList)) = false
      decide
    show (List.filter isEndToEnd [("Host".toList, hostHeader r.url)]).map lowered = []
    rw [List.filter_cons_of_neg (by rw [hno]; exact Bool.false_ne_true), List.filter_nil,
      List.map_nil]
  have hauth := endToEnd_basicAuth r
  have hlength : endToEnd (if r.body.isEmpty then []
      else unlessSet r "Content-Length" (decimal r.body.length)) = lengthUnlessSet r := by
    unfold lengthUnlessSet
    split
    · rfl
    · exact endToEnd_unlessSet (by decide) isKept_content_length
  show endToEnd (leadingHeaders r false ++ r.headers ++ trailingHeaders r) = _
  rw [trailingHeaders]
  simp only [endToEnd_append, hhost, hlength, List.nil_append,
    endToEnd_unlessSet (by decide : Text.toAsciiLowercase "User-Agent".toList = "user-agent".toList)
      isKept_user_agent,
    endToEnd_unlessSet (by decide : Text.toAsciiLowercase "Accept".toList = "accept".toList)
      isKept_accept,
    endToEnd_unlessSet
      (by decide : Text.toAsciiLowercase "Accept-Encoding".toList = "accept-encoding".toList)
      isKept_accept_encoding]
  rw [← hauth]
  rfl

/-- A generated field is end-to-end and in lower case already. -/
theorem endToEnd_default {r : Request} {name : String} {value : Option Text}
    (hn : IsKept name.toList) : endToEnd (default r name value) = default r name value := by
  have hend : ∀ v, isEndToEnd (name.toList, v) = true := by
    intro v
    refine hn.h2 ?_
    exact beq_self_eq_true _
  unfold default
  split
  · rfl
  · cases value with
    | none => rfl
    | some v =>
        show (List.filter isEndToEnd [(name.toList, v)]).map lowered = [(name.toList, v)]
        rw [List.filter_cons_of_pos (hend v), List.filter_nil, List.map_singleton, lowered, hn.lower]

theorem endToEnd_lengthField (body : Bytes) : endToEnd (lengthField body) = lengthField body := by
  unfold lengthField
  split
  · rfl
  · have hend : isEndToEnd ("content-length".toList, decimal body.length) = true :=
      isKept_content_length.h2 (beq_self_eq_true _)
    show (List.filter isEndToEnd [("content-length".toList, decimal body.length)]).map lowered = _
    rw [List.filter_cons_of_pos hend, List.filter_nil, List.map_singleton, lowered,
      isKept_content_length.lower]

theorem fields2_eq (r : Request) : (semantic2 r).fields = endToEnd r.headers ++
    (authField r ++ agentField r ++ acceptField r ++ encodingField r ++ lengthField r.body) := by
  have hfields : (H2.requestHeaderFields r).2 =
      H2.callerFields r ++ h2Generated r ++ lengthField r.body := by
    simp only [H2.requestHeaderFields, h2Generated, lengthField, List.append_assoc]
  show endToEnd (H2.requestHeaderFields r).2 = _
  rw [hfields, h2Generated]
  simp only [endToEnd_append, endToEnd_h2_callers, endToEnd_lengthField,
    h2_fieldUnlessSet_eq isKept_authorization, h2_fieldUnlessSet_eq isKept_user_agent,
    h2_fieldUnlessSet_eq isKept_accept, h2_fieldUnlessSet_eq isKept_accept_encoding,
    endToEnd_default isKept_authorization, endToEnd_default isKept_user_agent,
    endToEnd_default isKept_accept, endToEnd_default isKept_accept_encoding, authField, agentField,
    acceptField, encodingField, List.append_assoc]

theorem fields3_eq {r : Request} (hvalid : validateHeaders r.headers = .ok ()) :
    (semantic3 r).fields =
      endToEnd r.headers ++ (agentField r ++ encodingField r ++ lengthField r.body) := by
  have hfields : H3.regularFields r = H3.callerFields r ++ h3Generated r ++ lengthField r.body := by
    simp only [H3.regularFields, h3Generated, lengthField, List.append_assoc]
  show endToEnd (H3.regularFields r) = _
  rw [hfields, h3Generated]
  simp only [endToEnd_append, endToEnd_h3_callers hvalid, endToEnd_lengthField,
    h3_fieldUnlessSet_eq isKept_user_agent, h3_fieldUnlessSet_eq isKept_accept_encoding,
    endToEnd_default isKept_user_agent, endToEnd_default isKept_accept_encoding, agentField,
    encodingField, List.append_assoc]

/-! ## The same request -/

/-- What the caller must have set, or not, for the three builders to agree. -/
structure VersionFree (r : Request) : Prop where
  method : validateMethod r.method = .ok ()
  auth : effectiveBasicAuth r = none ∨ hasHeader r.headers "authorization".toList = true
  accept : hasHeader r.headers "accept".toList = true
  length : r.body = [] ∨ hasHeader r.headers "content-length".toList = false

theorem lengthUnlessSet_eq {r : Request}
    (h : r.body = [] ∨ hasHeader r.headers "content-length".toList = false) :
    lengthUnlessSet r = lengthField r.body := by
  rcases h with h | h
  · rw [lengthUnlessSet, lengthField, h]
    rfl
  · rw [lengthUnlessSet, lengthField, default, h]
    rfl

theorem length_lengthUnlessSet {r : Request} :
    (lengthUnlessSet r).length = (lengthField r.body).length ↔
      r.body = [] ∨ hasHeader r.headers "content-length".toList = false := by
  constructor
  · intro h
    by_contra hno
    obtain ⟨hbody, hset⟩ := not_or.mp hno
    have hempty : r.body.isEmpty = false := List.isEmpty_eq_false_iff.mpr hbody
    rw [lengthUnlessSet, lengthField, default, hempty, eq_true_of_ne_false hset] at h
    cases h
  · intro h
    rw [lengthUnlessSet_eq h]

theorem sameLine {r : Request} (hscheme : r.url.scheme = "https".toList) :
    ((headSemantic r).method = (semantic2 r).method ∧
      (headSemantic r).authority = (semantic2 r).authority ∧
      (headSemantic r).path = (semantic2 r).path) ∧
    ((headSemantic r).method = (semantic3 r).method ∧
      (headSemantic r).authority = (semantic3 r).authority ∧
      (headSemantic r).path = (semantic3 r).path) := by
  have himplied : portImplied r.url = decide (r.url.port = 443) := by
    rw [Bool.eq_iff_iff, decide_eq_true_eq]
    simp [portImplied, hscheme]
  have hhost : hostHeader r.url = if r.url.port = 443 then r.url.host
      else r.url.host ++ ':' :: decimal r.url.port.toNat := by
    rw [hostHeader, himplied]
    simp only [decide_eq_true_eq]
  refine ⟨⟨rfl, ?_, rfl⟩, rfl, ?_, rfl⟩
  · show hostHeader r.url = (H2.requestHeaderFields r).1.authority
    rw [hhost]
    simp only [H2.requestHeaderFields, hscheme, and_true]
  · exact hhost

/-- Of the fields, it is three of the conditions that decide. -/
theorem sameFields_iff {r : Request} (hscheme : r.url.scheme = "https".toList)
    (hvalid : validateHeaders r.headers = .ok ()) (hmethod : validateMethod r.method = .ok ()) :
    SaysSame r (headSemantic r) (semantic2 r) ∧ SaysSame r (headSemantic r) (semantic3 r) ↔
      VersionFree r := by
  obtain ⟨⟨hmethod2, hauthority2, hpath2⟩, hmethod3, hauthority3, hpath3⟩ := sameLine hscheme
  constructor
  · rintro ⟨h2, h3⟩
    have hperm2 := h2.fields
    have hperm3 := h3.fields
    rw [fields11_eq, fields2_eq, sameFields_append_iff] at hperm2
    rw [fields11_eq, fields3_eq hvalid, sameFields_append_iff] at hperm3
    have hlen2 := hperm2.length_eq
    have hlen3 := hperm3.length_eq
    simp only [List.length_append] at hlen2 hlen3
    have hauth : authField r = [] := List.length_eq_zero_iff.mp (by omega)
    have haccept : acceptField r = [] := List.length_eq_zero_iff.mp (by omega)
    refine ⟨hmethod, ?_, ?_, length_lengthUnlessSet.mp (by omega)⟩
    · exact (default_eq_nil.mp hauth).imp_left Option.map_eq_none_iff.mp
    · exact (default_eq_nil.mp haccept).resolve_left (Option.some_ne_none _)
  · intro h
    have hauth : authField r = [] := default_eq_nil.mpr (h.auth.imp_left Option.map_eq_none_iff.mpr)
    have haccept : acceptField r = [] := default_eq_nil.mpr (.inr h.accept)
    have hlength := lengthUnlessSet_eq h.length
    refine ⟨⟨hmethod2, hauthority2, hpath2, ?_⟩, ⟨hmethod3, hauthority3, hpath3, ?_⟩⟩
    · rw [fields11_eq, fields2_eq, sameFields_append_iff, hlength]
    · rw [fields11_eq, fields3_eq hvalid, sameFields_append_iff, hlength, hauth, haccept,
        List.nil_append, List.append_nil]

/-- For every `https` request with valid headers: `write_request` says something, and HTTP/2 and
HTTP/3 say the same, if and only if it takes the method, and they leave nothing out that it
derives and add no length beside the caller's. -/
theorem sameRequest_iff {r : Request} (hb : Request.Built r)
    (hscheme : r.url.scheme = "https".toList) (hvalid : validateHeaders r.headers = .ok ()) :
    (∃ s, Writes11 r s ∧ SaysSame r s (semantic2 r) ∧ SaysSame r s (semantic3 r)) ↔
      VersionFree r := by
  obtain ⟨text, hparse⟩ := hb.url_parsed
  have hfile : r.url.scheme ≠ "file".toList := by
    rw [hscheme]
    decide
  have hu := urlPlain_of_parse hparse hfile
  constructor
  · rintro ⟨s, hwrites, hsame⟩
    obtain ⟨hok, rfl⟩ := semantic11_eq_ok.mp ((writes11_iff hu).mp hwrites)
    exact (sameFields_iff hscheme hvalid hok.method).mp hsame
  · intro h
    exact ⟨headSemantic r, (writes11_iff hu).mpr (semantic11_eq_ok.mpr ⟨⟨h.method, hvalid⟩, rfl⟩),
      (sameFields_iff hscheme hvalid h.method).mpr h⟩

/-- A PUT with a cookie, its own Accept and a Basic authorization of its own. -/
theorem sameRequest_of_put :
    ∃ r, Request.Built r ∧ r.headers.length = 3 ∧ r.body ≠ [] ∧
      ∃ s, Writes11 r s ∧ SaysSame r s (semantic2 r) ∧ SaysSame r s (semantic3 r) := by
  obtain ⟨r, hnew, hscheme, hmethod, hheaders⟩ : ∃ r,
      Request.new "put".toList "https://u:p@h:8443/a?b".toList = .ok r ∧
        r.url.scheme = "https".toList ∧ validateMethod r.method = .ok () ∧ r.headers = [] :=
    ⟨_, rfl, by decide, by decide, rfl⟩
  have hb : Request.Built ((({ r with body := [65] }.header "Accept".toList "*/*".toList).header
      "AUTHORIZATION".toList "Bearer x".toList).header "Cookie".toList "a=b".toList) :=
    .header (.header (.header (.body (.new hnew) [65]) _ _) _ _) _ _
  obtain ⟨q, hq⟩ : ∃ q, q = (({ r with body := [65] }.header "Accept".toList "*/*".toList).header
      "AUTHORIZATION".toList "Bearer x".toList).header "Cookie".toList "a=b".toList := ⟨_, rfl⟩
  have hsame : q.url.scheme = "https".toList := hq ▸ hscheme
  have hlist : q.headers = [("Accept".toList, "*/*".toList),
      ("AUTHORIZATION".toList, "Bearer x".toList), ("Cookie".toList, "a=b".toList)] := by
    rw [hq]
    show r.headers ++ [_] ++ [_] ++ [_] = _
    rw [hheaders]
    rfl
  have hvalid : validateHeaders q.headers = .ok () := by
    rw [hlist]
    decide
  have hfree : VersionFree q := by
    refine ⟨hq ▸ hmethod, .inr ?_, ?_, .inr ?_⟩
    all_goals
      rw [hlist]
      decide
  refine ⟨q, hq ▸ hb, ?_, ?_, (sameRequest_iff (hq ▸ hb) hsame hvalid).mpr hfree⟩
  · rw [hlist]
    rfl
  · rw [hq]
    exact List.cons_ne_nil _ _

/-- A POST with credentials in its URL and a length of the caller's: HTTP/2 says the length
twice, HTTP/3 says it twice and leaves out the credentials and the Accept. -/
theorem request_differs :
    ∃ r, Request.Built r ∧ r.url.scheme = "https".toList ∧ Accepted r ∧
      ∀ s, Writes11 r s → ¬ SaysSame r s (semantic2 r) ∧ ¬ SaysSame r s (semantic3 r) := by
  obtain ⟨r, hnew, hscheme, hmethod, hvalid, h2, h3⟩ :
      ∃ r, Request.new "POST".toList "https://u:p@h/".toList = .ok r ∧
        r.url.scheme = "https".toList ∧ validateMethod r.method = .ok () ∧
        validateHeaders ({ r with body := [65] }.header "Content-Length".toList
          "1".toList).headers = .ok () ∧
        (headSemantic ({ r with body := [65] }.header "Content-Length".toList
          "1".toList)).fields.length ≠ (semantic2 ({ r with body := [65] }.header
          "Content-Length".toList "1".toList)).fields.length ∧
        (headSemantic ({ r with body := [65] }.header "Content-Length".toList
          "1".toList)).fields.length ≠ (semantic3 ({ r with body := [65] }.header
          "Content-Length".toList "1".toList)).fields.length :=
    ⟨_, rfl, by decide, by decide, by decide, by decide +kernel, by decide +kernel⟩
  have hb : Request.Built ({ r with body := [65] }.header "Content-Length".toList "1".toList) :=
    .header (.body (.new hnew) [65]) _ _
  refine ⟨_, hb, hscheme, ⟨hmethod, hvalid⟩, fun s hwrites => ?_⟩
  obtain ⟨text, hparse⟩ := hb.url_parsed
  have hfile : r.url.scheme ≠ "file".toList := by
    rw [hscheme]
    decide
  obtain ⟨-, rfl⟩ := semantic11_eq_ok.mp
    ((writes11_iff (urlPlain_of_parse hparse hfile)).mp hwrites)
  exact ⟨fun h => h2 h.fields.length_eq, fun h => h3 h.fields.length_eq⟩

end Rsurl.Http
