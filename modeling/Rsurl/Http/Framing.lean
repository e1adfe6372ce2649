/-
# `Rsurl.Http.Framing` — one Host and one length

The head of `write_request` merges generated fields with the caller's.  A field
that frames the message may come from either side: `Host` is always generated,
`Content-Length` gives way to the caller's, and `Transfer-Encoding` is only ever
the caller's.  A head is read back at its line ends (`IsHead`), and
`framing_iff` says which of the caller's headers leave the framing of what is
written in order.
-/
import Rsurl.Http.Write
import Rsurl.Text.Fields
import Rsurl.Text.Numerals

namespace Rsurl.Http

/-! ## Fields by name -/

/-- The fields of a name, in any case. -/
def named (fields : List Header) (name : String) : List Header :=
  fields.filter fun h => h.1.eqIgnoreAsciiCase name.toList

@[simp] theorem named_nil (name : String) : named [] name = [] := rfl

@[simp] theorem named_append (a b : List Header) (name : String) :
    named (a ++ b) name = named a name ++ named b name := List.filter_append ..

theorem named_eq_nil {fields : List Header} {name : String} :
    named fields name = [] ↔ hasHeader fields name.toList = false := by
  simp [named, List.filter_eq_nil_iff, hasHeader, List.any_eq_false]

/-- A space or a tab. -/
def isBlank (c : Char) : Bool := c == ' ' || c == '\t'

/-- A field value without the blanks around it. -/
def trimBlanks (t : Text) : Text := (t.dropWhile isBlank).rdropWhile isBlank

/-- The number that a field value is, one or more digits and blanks around them. -/
def lengthOf (v : Text) : Option Nat := numeral 10 (trimBlanks v)

theorem trimBlanks_of_visible {t : Text} (h : ∀ c ∈ t, isBlank c = false) : trimBlanks t = t := by
  have hfront : t.dropWhile isBlank = t := by
    cases t with
    | nil => rfl
    | cons c t => rw [List.dropWhile_cons_of_neg (by rw [h c List.mem_cons_self]; exact Bool.false_ne_true)]
  rw [trimBlanks, hfront]
  refine List.rdropWhile_eq_self_iff.mpr fun hne => ?_
  rw [h _ (List.getLast_mem hne)]
  exact Bool.false_ne_true

theorem lengthOf_decimal (n : Nat) : lengthOf (decimal n) = some n := by
  have hdigit : ∀ c ∈ decimal n, 48 ≤ c.toNat ∧ c.toNat ≤ 57 := fun c hc =>
    isDigit_iff.mp (isDigit_of_mem_decimal hc)
  have hvisible : ∀ c ∈ decimal n, isBlank c = false := by
    intro c hc
    obtain ⟨hlow, -⟩ := hdigit c hc
    rw [Bool.eq_false_iff]
    intro hblank
    rcases (Bool.or_eq_true _ _).mp hblank with h | h
    · rw [beq_iff_eq.mp h] at hlow
      exact absurd hlow (by decide)
    · rw [beq_iff_eq.mp h] at hlow
      exact absurd hlow (by decide)
  have hparse := (parseUnsigned_iff (by decide)).mp (parseUnsigned_decimal (Nat.le_refl n))
  rw [lengthOf, trimBlanks_of_visible hvisible]
  rw [stripPlus_of_digits fun c hc => isDigit_of_mem_decimal hc] at hparse
  exact hparse.1

/-! ## The fields of a head -/

/-- Every field of the head, in order. -/
def headFields (r : Request) (absoluteForm : Bool) : List Header :=
  leadingHeaders r absoluteForm ++ r.headers ++ trailingHeaders r

/-- A head as it is read: a request line, one line `name: value` for each of the fields, an
empty line. -/
structure IsHead (head line : Bytes) (fields : List Header) : Prop where
  lines : Base.splitPair 13 10 head =
    line :: fields.map (fun h => (headerLine h).utf8) ++ [[], []]
  names : ∀ h ∈ fields, isValidHeaderName h.1 = true

theorem utf8_injective {s t : Text} (h : s.utf8 = t.utf8) : s = t := by
  have hread := fromUtf8_utf8 s
  rw [h, fromUtf8_utf8] at hread
  exact (Option.some.inj hread).symm

/-- The name of a line ends at the first colon. -/
theorem splitOnce_headerLine {h : Header} (hname : isValidHeaderName h.1 = true) :
    Text.splitOnce ':' (headerLine h) = some (h.1, ' ' :: h.2) := by
  refine Text.splitOnce_eq_some.mpr ⟨?_, fun hcolon => ?_⟩
  · rw [headerLine, List.append_assoc]
    rfl
  · have htoken := List.all_eq_true.mp ((Bool.and_eq_true _ _).mp hname).2 _ hcolon
    exact absurd htoken (by decide)

theorem headerLines_inj {fields fields' : List Header}
    (hnames : ∀ h ∈ fields, isValidHeaderName h.1 = true)
    (hnames' : ∀ h ∈ fields', isValidHeaderName h.1 = true)
    (heq : fields.map (fun h => (headerLine h).utf8) = fields'.map fun h => (headerLine h).utf8) :
    fields = fields' := by
  induction fields generalizing fields' with
  | nil => exact (List.map_eq_nil_iff.mp heq.symm).symm
  | cons h fields ih =>
      cases fields' with
      | nil => cases heq
      | cons h' fields' =>
          obtain ⟨hline, hlines⟩ := List.cons.inj heq
          obtain ⟨hname, hnames⟩ := List.forall_mem_cons.mp hnames
          obtain ⟨hname', hnames'⟩ := List.forall_mem_cons.mp hnames'
          have hcut := splitOnce_headerLine hname
          rw [utf8_injective hline, splitOnce_headerLine hname'] at hcut
          obtain ⟨hfirst, hsecond⟩ := Prod.mk.inj (Option.some.inj hcut)
          rw [Prod.ext hfirst.symm (List.cons.inj hsecond).2.symm, ih hnames hnames' hlines]

/-- A head has one request line and one list of fields. -/
theorem IsHead.unique {head line line' : Bytes} {fields fields' : List Header}
    (h : IsHead head line fields) (h' : IsHead head line' fields') :
    line = line' ∧ fields = fields' := by
  have hlines := h.lines.symm.trans h'.lines
  obtain ⟨hline, hrest⟩ := List.cons.inj (List.append_cancel_right hlines)
  exact ⟨hline, headerLines_inj h.names h'.names hrest⟩

/-- What `write_request` checks before it writes. -/
structure Accepted (r : Request) : Prop where
  method : validateMethod r.method = .ok ()
  headers : validateHeaders r.headers = .ok ()

theorem Accepted.checks {r : Request} (h : Accepted r) :
    (do validateMethod r.method; validateHeaders r.headers : Result Unit) = .ok () :=
  Result.guard_eq_ok.mpr ⟨h.method, h.headers⟩

theorem accepted_of_writeRequest {r : Request} {absoluteForm : Bool} {w : Sink}
    (h : (writeRequest w r absoluteForm).1 = .ok ()) : Accepted r := by
  cases hvalid : (do validateMethod r.method; validateHeaders r.headers : Result Unit) with
  | error e =>
      rw [writeRequest, hvalid] at h
      cases h
  | ok =>
      obtain ⟨hmethod, hheaders⟩ := Result.guard_eq_ok.mp hvalid
      exact ⟨hmethod, hheaders⟩

/-- The head of a request to an HTTP URL, read back. -/
theorem isHead_requestHead {r : Request} (hu : UrlPlain r.url) (h : Accepted r)
    (absoluteForm : Bool) :
    IsHead (requestHead r absoluteForm).utf8 (requestLine r absoluteForm).utf8
      (headFields r absoluteForm) := by
  have hframed := framedHead_requestHead hu (validateMethod_eq_ok.mp h.method)
    (validateHeaders_eq_ok.mp h.headers) absoluteForm
  exact ⟨hframed.lines, fun f hf => (hframed.plain f hf).1⟩

/-- On a connection that takes everything, the head and the body. -/
theorem writeRequest_healthy {r : Request} (h : Accepted r) (absoluteForm : Bool) :
    writeRequest ⟨[], none, none⟩ r absoluteForm =
      (.ok (), ⟨(requestHead r absoluteForm).utf8 ++ r.body, none, none⟩) := by
  rw [writeRequest, h.checks]
  cases hbody : r.body.isEmpty with
  | true =>
      rw [List.isEmpty_iff.mp hbody, List.append_nil]
      rfl
  | false => rfl

/-- One Host; a body is announced by its length once and by nothing else; without a body
nothing is announced. -/
structure Framing (fields : List Header) (body : Bytes) : Prop where
  host : (named fields "Host").length = 1
  coding : named fields "Transfer-Encoding" = []
  sized : body ≠ [] → ∃ h, named fields "Content-Length" = [h] ∧ lengthOf h.2 = some body.length
  empty : body = [] → ∀ h ∈ named fields "Content-Length", lengthOf h.2 = some 0

/-- The caller's headers leave the framing to the writer, or announce the length of a body
once and rightly. -/
structure LeavesFraming (headers : List Header) (body : Bytes) : Prop where
  host : named headers "Host" = []
  coding : named headers "Transfer-Encoding" = []
  sized : body ≠ [] → named headers "Content-Length" = [] ∨
    ∃ h, named headers "Content-Length" = [h] ∧ lengthOf h.2 = some body.length
  empty : body = [] → ∀ h ∈ named headers "Content-Length", lengthOf h.2 = some 0

theorem named_unlessSet {r : Request} {name other : String} {value : Text} :
    named (unlessSet r name value) other =
      if hasHeader r.headers name.toList then []
      else if Text.eqIgnoreAsciiCase name.toList other.toList then [(name.toList, value)] else [] := by
  unfold unlessSet named
  split
  · rfl
  · rw [List.filter_cons]
    rfl

theorem named_of_name {fields : List Header} {n name : String} (h : ∀ f ∈ fields, f.1 = n.toList)
    (hne : Text.eqIgnoreAsciiCase n.toList name.toList = false) : named fields name = [] := by
  rw [named, List.filter_eq_nil_iff]
  intro f hf
  rw [h f hf, hne]
  exact Bool.false_ne_true

/-- The generated fields before the caller's: one Host, nothing that announces a body. -/
theorem named_leading (r : Request) (absoluteForm : Bool) :
    (named (leadingHeaders r absoluteForm) "Host").length = 1 ∧
      named (leadingHeaders r absoluteForm) "Transfer-Encoding" = [] ∧
      named (leadingHeaders r absoluteForm) "Content-Length" = [] := by
  obtain ⟨proxied, hleading, hproxied⟩ : ∃ proxied, leadingHeaders r absoluteForm =
      [("Host".toList, hostHeader r.url)] ++ proxied ∧
      ∀ f ∈ proxied, f.1 = "Proxy-Authorization".toList := by
    cases absoluteForm with
    | false => exact ⟨[], rfl, List.forall_mem_nil _⟩
    | true =>
        cases hauth : r.proxy.bind ProxyConfig.auth with
        | none => exact ⟨[], by simp [leadingHeaders, hauth], List.forall_mem_nil _⟩
        | some auth =>
            refine ⟨[("Proxy-Authorization".toList,
              basicToken (base64Encode (auth.1 ++ ':' :: auth.2 : Text).utf8))], ?_, ?_⟩
            · simp only [leadingHeaders, hauth, if_true]
              rfl
            · intro f hf
              rw [List.mem_singleton.mp hf]
  rw [hleading, named_append, named_append, named_append,
    named_of_name hproxied (by decide), named_of_name hproxied (by decide),
    named_of_name hproxied (by decide)]
  exact ⟨rfl, rfl, rfl⟩

/-- The generated fields behind the caller's: a length for a body that has none. -/
theorem named_trailing (r : Request) :
    named (trailingHeaders r) "Host" = [] ∧ named (trailingHeaders r) "Transfer-Encoding" = [] ∧
      named (trailingHeaders r) "Content-Length" =
        if r.body.isEmpty || hasHeader r.headers "Content-Length".toList then []
        else [("Content-Length".toList, decimal r.body.length)] := by
  obtain ⟨auth, htrailing, hauth⟩ : ∃ auth, trailingHeaders r =
      auth ++ unlessSet r "User-Agent" "rsurl/0.0.4".toList ++
        unlessSet r "Accept" "*/*".toList ++
        unlessSet r "Accept-Encoding" "gzip, deflate".toList ++
        (if r.body.isEmpty then []
          else unlessSet r "Content-Length" (decimal r.body.length)) ∧
      ∀ f ∈ auth, f.1 = "Authorization".toList := by
    refine ⟨_, rfl, ?_⟩
    intro f hf
    split at hf
    · unfold unlessSet at hf
      split at hf
      · cases hf
      · rw [List.mem_singleton.mp hf]
    · cases hf
  have hother : ∀ {n name : String} {value : Text},
      Text.eqIgnoreAsciiCase n.toList name.toList = false →
      named (unlessSet r n value) name = [] := by
    intro n name value hne
    rw [named_unlessSet, hne]
    split <;> rfl
  rw [htrailing]
  simp only [named_append]
  rw [named_of_name hauth (by decide), named_of_name hauth (by decide),
    named_of_name hauth (by decide), hother (by decide), hother (by decide), hother (by decide),
    hother (by decide), hother (by decide), hother (by decide), hother (by decide),
    hother (by decide), hother (by decide)]
  refine ⟨?_, ?_, ?_⟩
  · split
    · rfl
    · exact hother (by decide)
  · split
    · rfl
    · exact hother (by decide)
  · cases r.body.isEmpty with
    | true => rfl
    | false =>
        have hsame : Text.eqIgnoreAsciiCase "Content-Length".toList "Content-Length".toList =
            true := by decide
        simp only [Bool.false_eq_true, if_false, Bool.false_or, named_unlessSet, hsame, if_true,
          List.nil_append]

/-- In either form: the fields of the head are one Host and the body's length alone if and only
if the caller's headers leave that to the writer, or say the same. -/
theorem framing_headFields (r : Request) (absoluteForm : Bool) :
    Framing (headFields r absoluteForm) r.body ↔ LeavesFraming r.headers r.body := by
  obtain ⟨hhost, hcoding, hlength⟩ := named_leading r absoluteForm
  obtain ⟨hhost', hcoding', hlength'⟩ := named_trailing r
  have hhosts : (named (headFields r absoluteForm) "Host").length =
      1 + (named r.headers "Host").length := by
    rw [headFields, named_append, named_append, hhost', List.append_nil, List.length_append, hhost]
  have hcodings : named (headFields r absoluteForm) "Transfer-Encoding" =
      named r.headers "Transfer-Encoding" := by
    rw [headFields, named_append, named_append, hcoding, hcoding', List.append_nil, List.nil_append]
  have hlengths : named (headFields r absoluteForm) "Content-Length" =
      named r.headers "Content-Length" ++ named (trailingHeaders r) "Content-Length" := by
    rw [headFields, named_append, named_append, hlength, List.nil_append]
  have hempty : r.body = [] → named (headFields r absoluteForm) "Content-Length" =
      named r.headers "Content-Length" := by
    intro hbody
    rw [hlengths, hlength', hbody]
    exact List.append_nil _
  have hset : named r.headers "Content-Length" ≠ [] →
      named (headFields r absoluteForm) "Content-Length" = named r.headers "Content-Length" := by
    intro hne
    have hhas : hasHeader r.headers "Content-Length".toList = true := by
      rw [← Bool.not_eq_false]
      exact fun hno => hne (named_eq_nil.mpr hno)
    rw [hlengths, hlength', hhas, Bool.or_true, if_pos rfl, List.append_nil]
  constructor
  · intro h
    refine ⟨?_, hcodings ▸ h.coding, fun hbody => ?_, fun hbody => ?_⟩
    · have hone := h.host
      rw [hhosts] at hone
      exact List.length_eq_zero_iff.mp (by omega)
    · by_cases hne : named r.headers "Content-Length" = []
      · exact .inl hne
      · exact .inr (hset hne ▸ h.sized hbody)
    · exact hempty hbody ▸ h.empty hbody
  · intro h
    refine ⟨?_, hcodings.trans h.coding, fun hbody => ?_, fun hbody => ?_⟩
    · rw [hhosts, h.host]
      rfl
    · rcases h.sized hbody with hnone | ⟨f, hone, hlen⟩
      · have hno := named_eq_nil.mp hnone
        have hbody' : r.body.isEmpty = false := List.isEmpty_eq_false_iff.mpr hbody
        refine ⟨("Content-Length".toList, decimal r.body.length), ?_, lengthOf_decimal _⟩
        rw [hlengths, hnone, hlength', hbody', hno]
        rfl
      · exact ⟨f, (hset (hone ▸ List.cons_ne_nil f [])).trans hone, hlen⟩
    · exact hempty hbody ▸ h.empty hbody

/-- Whatever goes out as a request has one Host and is announced by its length. -/
def WritesFramed (r : Request) (absoluteForm : Bool) : Prop :=
  ∀ w w', writeRequest w r absoluteForm = (.ok (), w') →
    ∃ head line fields, w'.written = w.written ++ (head ++ r.body) ∧ IsHead head line fields ∧
      Framing fields r.body

theorem WritesFramed.headFields {r : Request} {absoluteForm : Bool}
    (h : WritesFramed r absoluteForm) (hu : UrlPlain r.url) (hok : Accepted r) :
    Framing (headFields r absoluteForm) r.body := by
  obtain ⟨head, line, fields, hwritten, hhead, hframing⟩ := h _ _ (writeRequest_healthy hok _)
  have hsame : (requestHead r absoluteForm).utf8 = head := List.append_cancel_right hwritten
  have hread := isHead_requestHead hu hok absoluteForm
  rw [hsame] at hread
  exact (hread.unique hhead).2 ▸ hframing

/-- For every request to an HTTP URL, in either form: what is written is framed if and only if
the request is refused, or the caller's headers leave the framing to the writer. -/
theorem framing_iff {r : Request} (hb : Request.Built r) (hfile : r.url.scheme ≠ "file".toList)
    (absoluteForm : Bool) :
    WritesFramed r absoluteForm ↔ (Accepted r → LeavesFraming r.headers r.body) := by
  obtain ⟨s, hs⟩ := hb.url_parsed
  have hu := urlPlain_of_parse hs hfile
  constructor
  · intro h hok
    exact (framing_headFields r absoluteForm).mp (h.headFields hu hok)
  · intro h w w' hrun
    have hok : Accepted r := accepted_of_writeRequest (congrArg Prod.fst hrun)
    refine ⟨_, _, _, ?_, isHead_requestHead hu hok absoluteForm,
      (framing_headFields r absoluteForm).mpr (h hok)⟩
    rcases @takes_writeRequest w r absoluteForm hok.checks with ⟨-, hwritten⟩ | ⟨kind, sent, herr, -⟩
    · rw [hrun] at hwritten
      exact hwritten
    · rw [hrun] at herr
      cases herr

/-- A POST with a header and a length of the caller's, toward a proxy. -/
theorem framing_of_sized_post :
    ∃ r, Request.Built r ∧ Accepted r ∧ r.body = [65, 66] ∧ r.headers.length = 2 ∧
      WritesFramed r true := by
  obtain ⟨r, hnew, hscheme, hmethod, hheaders⟩ :
      ∃ r, Request.new "POST".toList "http://h/a".toList = .ok r ∧ r.url.scheme = "http".toList ∧
        validateMethod r.method = .ok () ∧ r.headers = [] := ⟨_, rfl, rfl, by decide, rfl⟩
  have hlist : ((({ r with body := [65, 66] }.header "X-Id".toList "7".toList).header
      "content-length".toList " 2".toList)).headers =
      [("X-Id".toList, "7".toList), ("content-length".toList, " 2".toList)] := by
    show r.headers ++ [_] ++ [_] = _
    rw [hheaders]
    rfl
  have hleaves : LeavesFraming [("X-Id".toList, "7".toList), ("content-length".toList, " 2".toList)]
      [65, 66] :=
    ⟨by decide, by decide, fun _ => .inr ⟨("content-length".toList, " 2".toList), by decide,
      by decide⟩, fun h => absurd h (List.cons_ne_nil _ _)⟩
  have hok : Accepted ((({ r with body := [65, 66] }.header "X-Id".toList "7".toList).header
      "content-length".toList " 2".toList)) := ⟨hmethod, by rw [hlist]; decide⟩
  refine ⟨_, .header (.header (.body (.new hnew) [65, 66]) _ _) _ _, hok, rfl, ?_, ?_⟩
  · rw [hlist]
    rfl
  · refine (framing_iff (.header (.header (.body (.new hnew) [65, 66]) _ _) _ _) ?_ true).mpr ?_
    · show r.url.scheme ≠ _
      rw [hscheme]
      decide
    · rw [hlist]
      exact fun _ => hleaves

/-- A POST on which the caller set a Host and a transfer coding. -/
theorem framing_lost :
    ∃ r, Request.Built r ∧ (writeRequest ⟨[], none, none⟩ r false).1 = .ok () ∧
      (named (headFields r false) "Host").length = 2 ∧
      (named (headFields r false) "Transfer-Encoding").length = 1 ∧
      ¬ WritesFramed r false := by
  obtain ⟨r, hnew, hscheme, hok, hhost, hcoding⟩ :
      ∃ r, Request.new "POST".toList "http://h/".toList = .ok r ∧ r.url.scheme = "http".toList ∧
      (writeRequest ⟨[], none, none⟩ ((({ r with body := [65, 66] }.header "Host".toList
        "other".toList).header "Transfer-Encoding".toList "chunked".toList)) false).1 = .ok () ∧
      (named (headFields ((({ r with body := [65, 66] }.header "Host".toList
        "other".toList).header "Transfer-Encoding".toList "chunked".toList)) false)
        "Host").length = 2 ∧
      (named (headFields ((({ r with body := [65, 66] }.header "Host".toList
        "other".toList).header "Transfer-Encoding".toList "chunked".toList)) false)
        "Transfer-Encoding").length = 1 :=
    ⟨_, rfl, rfl, by decide +kernel, by decide +kernel, by decide +kernel⟩
  have hb : Request.Built ((({ r with body := [65, 66] }.header "Host".toList
      "other".toList).header "Transfer-Encoding".toList "chunked".toList)) :=
    .header (.header (.body (.new hnew) [65, 66]) _ _) _ _
  refine ⟨_, hb, hok, hhost, hcoding, fun h => ?_⟩
  obtain ⟨s, hs⟩ := hb.url_parsed
  have hfile : r.url.scheme ≠ "file".toList := by
    rw [hscheme]
    decide
  have hframing := h.headFields (urlPlain_of_parse hs hfile) (accepted_of_writeRequest hok)
  rw [hframing.coding] at hcoding
  cases hcoding

end Rsurl.Http
