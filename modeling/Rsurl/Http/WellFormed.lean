/-
# `Rsurl.Http.WellFormed` — the field lists of HTTP/2 and HTTP/3

Both builders put four pseudo-headers in front, the caller's headers in lower
case behind them, and defaults at the end; they differ in which of the caller's
headers they drop.  Neither checks what it passes on, so `wellFormed_iff` is a
condition on the caller's headers.
-/
import Mathlib
import Rsurl.Http.Framing
import Rsurl.H2.Request
import Rsurl.H3.Request
import Rsurl.Text.Fields

namespace Rsurl.Http

/-! ## Lower case -/

theorem isTokenChar_toLower (c : Char) : isTokenChar c.toLower = isTokenChar c := by
  by_cases hup : c.isUpper = true
  · have halpha : c.isAlpha = true := by rw [Char.isAlpha, hup, Bool.true_or]
    have hlower : c.toLower.isAlpha = true := by rw [Char.isAlpha_toLower_eq_isAlpha, halpha]
    simp only [isTokenChar, Char.isAlphanum, halpha, hlower, Bool.true_or]
  · rw [Char.toLower_eq_of_not_isUpper hup]

theorem isValidHeaderName_toAsciiLowercase (name : Text) :
    isValidHeaderName name.toAsciiLowercase = isValidHeaderName name := by
  have hall : (name.map Char.toLower).all isTokenChar = name.all isTokenChar := by
    rw [List.all_map]
    exact congrArg name.all (funext isTokenChar_toLower)
  rw [isValidHeaderName, isValidHeaderName, Text.toAsciiLowercase, hall, List.isEmpty_map]

/-- A header with its name in lower case. -/
def lowered (h : Header) : Header := (h.1.toAsciiLowercase, h.2)

theorem named_map_lowered (fields : List Header) (name : String) :
    named (fields.map lowered) name = (named fields name).map lowered := by
  rw [named, named, List.filter_map]
  congr 1
  refine List.filter_congr fun h _ => ?_
  exact Text.eqIgnoreAsciiCase_lower h.1 name.toList

/-! ## Well-formed field lists -/

/-- The fields that speak of one connection only; `te` may say `trailers`. -/
def connectionSpecific : List Text :=
  ["connection".toList, "keep-alive".toList, "proxy-connection".toList,
    "transfer-encoding".toList, "upgrade".toList]

/-- A field behind the pseudo-headers: its name is a token in lower case, so no pseudo-header,
and says nothing about the connection; its value has no CR, LF or NUL. -/
structure IsRegular (f : Header) : Prop where
  valid : isValidHeaderName f.1 = true
  lower : f.1.toAsciiLowercase = f.1
  specific : f.1 ∉ connectionSpecific
  te : f.1 = "te".toList → f.2 = "trailers".toList
  clean : headerValueHasForbidden f.2 = false

/-- A `content-length`, if there is one, is alone and right. -/
def Sized (lengths : List Header) (n : Nat) : Prop :=
  lengths = [] ∨ ∃ f, lengths = [f] ∧ lengthOf f.2 = some n

/-- A request's field list as HTTP/2 and HTTP/3 want it. -/
structure WellFormed (fields : List Header) (body : Bytes) : Prop where
  pseudo : (fields.take 4).map Prod.fst =
    [":method".toList, ":scheme".toList, ":authority".toList, ":path".toList]
  clean : ∀ f ∈ fields.take 4, headerValueHasForbidden f.2 = false
  regular : ∀ f ∈ fields.drop 4, IsRegular f
  length : Sized (named fields "content-length") body.length

/-- The length that both builders add behind the other fields. -/
def lengthField (body : Bytes) : List Header :=
  if body.isEmpty then [] else [("content-length".toList, decimal body.length)]

theorem named_lengthField (body : Bytes) :
    named (lengthField body) "content-length" = lengthField body := by
  have hself : Text.eqIgnoreAsciiCase "content-length".toList "content-length".toList = true := by
    decide
  refine List.filter_eq_self.mpr fun f hf => ?_
  unfold lengthField at hf
  split at hf
  · cases hf
  · rw [List.mem_singleton.mp hf]
    exact hself

/-- What the caller's content-lengths must be for the builder's to be right. -/
def LeavesLength (lengths : List Header) (body : Bytes) : Prop :=
  (body ≠ [] → lengths = []) ∧ (body = [] → Sized lengths 0)

theorem sized_append_iff (lengths : List Header) (body : Bytes) :
    Sized (lengths ++ lengthField body) body.length ↔ LeavesLength lengths body := by
  by_cases hbody : body = []
  · subst hbody
    have hnone : lengthField [] = [] := rfl
    rw [hnone, List.append_nil]
    exact ⟨fun h => ⟨fun hne => absurd rfl hne, fun _ => h⟩, fun h => h.2 rfl⟩
  · have hsome : lengthField body = [("content-length".toList, decimal body.length)] := by
      rw [lengthField, List.isEmpty_eq_false_iff.mpr hbody]
      rfl
    rw [hsome]
    constructor
    · rintro (hnil | ⟨f, hone, -⟩)
      · simp at hnil
      · have hlen := congrArg List.length hone
        rw [List.length_append, List.length_singleton, List.length_singleton] at hlen
        exact ⟨fun _ => List.length_eq_zero_iff.mp (by omega), fun hnil => absurd hnil hbody⟩
    · intro h
      rw [h.1 hbody]
      exact .inr ⟨_, rfl, lengthOf_decimal _⟩

/-- A list of four pseudo-headers, the caller's fields, generated ones and a length is well
formed if and only if the parts that are not generated are. -/
theorem wellFormed_merge_iff {pseudo callers generated : List Header} {body : Bytes}
    (hpseudo : pseudo.map Prod.fst =
      [":method".toList, ":scheme".toList, ":authority".toList, ":path".toList])
    (hgen : ∀ f ∈ generated, IsRegular f) (hno : named generated "content-length" = []) :
    WellFormed (pseudo ++ (callers ++ generated ++ lengthField body)) body ↔
      (∀ f ∈ pseudo, headerValueHasForbidden f.2 = false) ∧ (∀ f ∈ callers, IsRegular f) ∧
        LeavesLength (named callers "content-length") body := by
  have hfour : pseudo.length = 4 := by
    rw [← List.length_map (f := Prod.fst), hpseudo]
    rfl
  have htake : (pseudo ++ (callers ++ generated ++ lengthField body)).take 4 = pseudo :=
    List.take_left' hfour
  have hdrop : (pseudo ++ (callers ++ generated ++ lengthField body)).drop 4 =
      callers ++ generated ++ lengthField body := List.drop_left' hfour
  have hlength : ∀ f ∈ lengthField body, IsRegular f := by
    intro f hf
    unfold lengthField at hf
    split at hf
    · cases hf
    · rw [List.mem_singleton.mp hf]
      have hte : "content-length".toList ≠ "te".toList := by decide
      refine ⟨?_, ?_, ?_, fun h => absurd h hte, ?_⟩
      · show isValidHeaderName "content-length".toList = true
        decide
      · show Text.toAsciiLowercase "content-length".toList = "content-length".toList
        decide
      · show "content-length".toList ∉ connectionSpecific
        decide
      · exact headerValueHasForbidden_of_plain fun c hc => isForbidden_of_mem_decimal hc
  have hpseudoNames : named pseudo "content-length" = [] := by
    rw [named, List.filter_eq_nil_iff]
    intro f hf
    have hmem : f.1 ∈ pseudo.map Prod.fst := List.mem_map_of_mem hf
    rw [hpseudo] at hmem
    simp only [List.mem_cons, List.not_mem_nil, or_false] at hmem
    rcases hmem with h | h | h | h <;> rw [h] <;> decide
  have hall : named (pseudo ++ (callers ++ generated ++ lengthField body)) "content-length" =
      named callers "content-length" ++ lengthField body := by
    simp only [named_append, hpseudoNames, hno, named_lengthField, List.nil_append, List.append_nil]
  constructor
  · intro h
    have hclean := h.clean
    have hregular := h.regular
    have hsized := h.length
    rw [htake] at hclean
    rw [hdrop] at hregular
    rw [hall] at hsized
    refine ⟨hclean, fun f hf => ?_, (sized_append_iff _ _).mp hsized⟩
    exact hregular f (List.mem_append_left _ (List.mem_append_left _ hf))
  · rintro ⟨hclean, hcallers, hlens⟩
    refine ⟨?_, ?_, ?_, ?_⟩
    · rw [htake, hpseudo]
    · rw [htake]
      exact hclean
    · rw [hdrop]
      intro f hf
      rcases List.mem_append.mp hf with hf | hf
      · rcases List.mem_append.mp hf with hf | hf
        · exact hcallers f hf
        · exact hgen f hf
      · exact hlength f hf
    · rw [hall]
      exact (sized_append_iff _ _).mpr hlens

/-! ## The two builders -/

/-- `all` in `build_header_block`. -/
def blockFields (r : Request) : List Header :=
  let (pseudo, fields) := H2.requestHeaderFields r
  [(":method".toList, pseudo.method), (":scheme".toList, pseudo.scheme),
    (":authority".toList, pseudo.authority), (":path".toList, pseudo.path)] ++ fields

theorem buildHeaderBlock_eq (encoder : H2.Encoder) (r : Request) :
    H2.buildHeaderBlock encoder r =
      (blockFields r).foldl (fun (out, e) (k, v) => e.encodeHeader out k v) ([], encoder) := rfl

/-- A generated field, by its name. -/
theorem isRegular_of_name {name : Text} {f : Header} (hf : f.1 = name)
    (hname : isValidHeaderName name = true ∧ name.toAsciiLowercase = name ∧
      name ∉ connectionSpecific ∧ name ≠ "te".toList)
    (hclean : headerValueHasForbidden f.2 = false) : IsRegular f where
  valid := hf ▸ hname.1
  lower := hf.symm ▸ hname.2.1
  specific := hf ▸ hname.2.2.1
  te := fun hte => absurd (hf.symm.trans hte) hname.2.2.2
  clean := hclean

/-- The fields of the caller's that one builder or the other passes on. -/
def isPassedOn (h : Header) : Bool :=
  h.1.toAsciiLowercase ∉ "host".toList :: connectionSpecific

/-- What the caller may ask for, for the two field lists to be well formed. -/
structure PassesOn (r : Request) : Prop where
  method : headerValueHasForbidden r.method = false
  headers : ∀ h ∈ r.headers, isPassedOn h = true → IsRegular (lowered h)
  length : LeavesLength (named r.headers "content-length") r.body

theorem h2_passes_iff (k v : Text) :
    (!(H2.isConnectionSpecificHeader k || k.eqIgnoreAsciiCase "host".toList)) = true ↔
      isPassedOn (k, v) = true ∧ k.toAsciiLowercase ≠ "te".toList := by
  have hhost : Text.toAsciiLowercase "host".toList = "host".toList := by decide
  simp only [H2.isConnectionSpecificHeader, Text.eqIgnoreAsciiCase, isPassedOn, connectionSpecific,
    hhost, Bool.not_eq_true', Bool.or_eq_false_iff, decide_eq_false_iff_not, decide_eq_true_eq,
    beq_eq_false_iff_ne, List.mem_cons, List.not_mem_nil, or_false, not_or]
  -- the literals as variables: nothing here depends on what they are
  generalize k.toAsciiLowercase = lk, "host".toList = host, "connection".toList = connection,
    "keep-alive".toList = alive, "proxy-connection".toList = proxy,
    "transfer-encoding".toList = coding, "upgrade".toList = upgrade, "te".toList = te
  tauto

theorem h3_passes_iff (k v : Text) : (!H3.isSkipped k.toAsciiLowercase) = true ↔
    isPassedOn (k, v) = true ∧ k.toAsciiLowercase.head? ≠ some ':' := by
  simp only [H3.isSkipped, isPassedOn, connectionSpecific, Bool.not_eq_true',
    Bool.or_eq_false_iff, decide_eq_false_iff_not, decide_eq_true_eq, beq_eq_false_iff_ne,
    List.mem_cons, List.not_mem_nil, or_false, not_or]
  generalize k.toAsciiLowercase = lk, "host".toList = host, "connection".toList = connection,
    "keep-alive".toList = alive, "proxy-connection".toList = proxy,
    "transfer-encoding".toList = coding, "upgrade".toList = upgrade
  tauto

theorem mem_h2_callerFields {r : Request} {f : Header} : f ∈ H2.callerFields r ↔
    ∃ h ∈ r.headers, isPassedOn h = true ∧ h.1.toAsciiLowercase ≠ "te".toList ∧ lowered h = f := by
  simp only [H2.callerFields, List.mem_map, List.mem_filter]
  refine exists_congr fun h => ?_
  rw [h2_passes_iff h.1 h.2, and_assoc, and_assoc]
  rfl

theorem mem_h3_callerFields {r : Request} {f : Header} : f ∈ H3.callerFields r ↔
    ∃ h ∈ r.headers, isPassedOn h = true ∧ h.1.toAsciiLowercase.head? ≠ some ':' ∧
      lowered h = f := by
  simp only [H3.callerFields, List.mem_map, List.mem_filter]
  refine exists_congr fun h => ?_
  rw [h3_passes_iff h.1 h.2, and_assoc, and_assoc]
  rfl

/-- A builder that keeps every field of a name keeps them in lower case and in order. -/
theorem named_callers {fields : List Header} {keep : Header → Bool} {name : String}
    (h : ∀ f ∈ fields, f.1.eqIgnoreAsciiCase name.toList = true → keep f = true) :
    named ((fields.filter keep).map lowered) name = (named fields name).map lowered := by
  rw [named_map_lowered, named, named, List.filter_filter]
  congr 1
  refine List.filter_congr fun f hf => ?_
  cases hname : f.1.eqIgnoreAsciiCase name.toList with
  | false => rfl
  | true => rw [h f hf hname, Bool.and_self]

theorem isPassedOn_of_length {h : Header}
    (hname : h.1.eqIgnoreAsciiCase "content-length".toList = true) :
    isPassedOn h = true ∧ h.1.toAsciiLowercase = "content-length".toList := by
  have hlower : h.1.toAsciiLowercase = "content-length".toList := by
    have hself : Text.toAsciiLowercase "content-length".toList = "content-length".toList := by decide
    rw [← hself]
    exact beq_iff_eq.mp hname
  refine ⟨?_, hlower⟩
  rw [isPassedOn, hlower]
  decide

theorem named_h2_callerFields (r : Request) :
    named (H2.callerFields r) "content-length" =
      (named r.headers "content-length").map lowered := by
  refine named_callers fun f _ hname => (h2_passes_iff f.1 f.2).mpr ?_
  obtain ⟨hpass, hlower⟩ := isPassedOn_of_length hname
  refine ⟨hpass, ?_⟩
  rw [hlower]
  decide

theorem named_h3_callerFields (r : Request) :
    named (H3.callerFields r) "content-length" =
      (named r.headers "content-length").map lowered := by
  refine named_callers fun f _ hname => (h3_passes_iff f.1 f.2).mpr ?_
  obtain ⟨hpass, hlower⟩ := isPassedOn_of_length hname
  refine ⟨hpass, ?_⟩
  rw [hlower]
  decide

theorem leavesLength_map_lowered {lengths : List Header} {body : Bytes} :
    LeavesLength (lengths.map lowered) body ↔ LeavesLength lengths body := by
  have hsized : Sized (lengths.map lowered) 0 ↔ Sized lengths 0 := by
    unfold Sized
    simp only [List.map_eq_nil_iff, List.map_eq_singleton_iff]
    refine or_congr_right ⟨?_, ?_⟩
    · rintro ⟨f, ⟨h, rfl, rfl⟩, hlen⟩
      exact ⟨h, rfl, hlen⟩
    · rintro ⟨h, rfl, hlen⟩
      exact ⟨lowered h, ⟨h, rfl, rfl⟩, hlen⟩
  rw [LeavesLength, LeavesLength, hsized, List.map_eq_nil_iff]

/-- What HTTP/2 adds to the caller's fields, the length apart. -/
def h2Generated (r : Request) : List Header :=
  let fields := H2.callerFields r
  H2.fieldUnlessSet fields "authorization"
      ((effectiveBasicAuth r).map ("Basic ".toList ++ ·)) ++
    H2.fieldUnlessSet fields "user-agent" (some "rsurl/0.0.4".toList) ++
    H2.fieldUnlessSet fields "accept" (some "*/*".toList) ++
    H2.fieldUnlessSet fields "accept-encoding" (some "gzip, deflate".toList)

/-- What HTTP/3 adds. -/
def h3Generated (r : Request) : List Header :=
  let fields := H3.callerFields r
  H3.fieldUnlessSet fields "user-agent" "rsurl/0.0.4" ++
    H3.fieldUnlessSet fields "accept-encoding" "gzip, deflate"

theorem mem_h2_fieldUnlessSet {fields : List Header} {name : String} {value : Option Text}
    {f : Header} (hf : f ∈ H2.fieldUnlessSet fields name value) :
    f.1 = name.toList ∧ value = some f.2 := by
  unfold H2.fieldUnlessSet at hf
  split at hf
  · cases hf
  · obtain ⟨v, hv, rfl⟩ := List.mem_map.mp (Option.toList_map ▸ hf)
    exact ⟨rfl, Option.mem_toList.mp hv⟩

theorem mem_h3_fieldUnlessSet {fields : List Header} {name value : String} {f : Header}
    (hf : f ∈ H3.fieldUnlessSet fields name value) : f = (name.toList, value.toList) := by
  unfold H3.fieldUnlessSet at hf
  split at hf
  · cases hf
  · exact List.mem_singleton.mp hf

/-- What a generated field is: regular, and no length. -/
def IsDefault (f : Header) : Prop :=
  IsRegular f ∧ f.1.eqIgnoreAsciiCase "content-length".toList = false

theorem isDefault_h2Generated {r : Request} : ∀ f ∈ h2Generated r, IsDefault f := by
  intro f hf
  simp only [h2Generated, List.mem_append] at hf
  rcases hf with ((hf | hf) | hf) | hf
  · obtain ⟨hname, hvalue⟩ := mem_h2_fieldUnlessSet hf
    obtain ⟨token, htoken, hv⟩ := Option.map_eq_some_iff.mp hvalue
    obtain ⟨bs, rfl⟩ := effectiveBasicAuth_eq_some htoken
    refine ⟨isRegular_of_name hname (by decide) ?_, hname ▸ by decide⟩
    rw [← hv]
    exact headerValueHasForbidden_basicToken
  all_goals
    obtain ⟨hname, hvalue⟩ := mem_h2_fieldUnlessSet hf
    refine ⟨isRegular_of_name hname (by decide) ?_, hname ▸ by decide⟩
    rw [← Option.some.inj hvalue]
    decide

theorem isDefault_h3Generated {r : Request} : ∀ f ∈ h3Generated r, IsDefault f := by
  intro f hf
  rcases List.mem_append.mp hf with hf | hf
  all_goals
    rw [mem_h3_fieldUnlessSet hf]
    exact ⟨isRegular_of_name rfl (by decide) (by decide), by decide⟩

theorem named_of_isDefault {generated : List Header} (h : ∀ f ∈ generated, IsDefault f) :
    named generated "content-length" = [] := by
  rw [named, List.filter_eq_nil_iff]
  intro f hf
  rw [(h f hf).2]
  exact Bool.false_ne_true

theorem blockFields_eq (r : Request) : blockFields r =
    [(":method".toList, r.method), (":scheme".toList, r.url.scheme),
      (":authority".toList, (H2.requestHeaderFields r).1.authority), (":path".toList, r.url.path)] ++
    (H2.callerFields r ++ h2Generated r ++ lengthField r.body) := by
  simp only [blockFields, H2.requestHeaderFields, h2Generated, lengthField, List.append_assoc]

theorem requestFields_eq (r : Request) : H3.requestFields r =
    H3.pseudoFields r ++ (H3.callerFields r ++ h3Generated r ++ lengthField r.body) := by
  simp only [H3.requestFields, H3.regularFields, h3Generated, lengthField, List.append_assoc]

/-- Host and port of a URL that was parsed. -/
theorem clean_authority {u : Url} (hu : UrlPlain u) :
    headerValueHasForbidden u.host = false ∧
      headerValueHasForbidden (u.host ++ ':' :: decimal u.port.toNat) = false := by
  refine ⟨headerValueHasForbidden_of_plain hu.host, headerValueHasForbidden_of_plain ?_⟩
  intro c hc
  rcases List.mem_append.mp hc with hc | hc
  · exact hu.host c hc
  · rcases List.mem_cons.mp hc with rfl | hc
    · decide
    · exact isForbidden_of_mem_decimal hc

theorem clean_h2_pseudo {r : Request} (hu : UrlPlain r.url) :
    (∀ f ∈ [(":method".toList, r.method), (":scheme".toList, r.url.scheme),
      (":authority".toList, (H2.requestHeaderFields r).1.authority), (":path".toList, r.url.path)],
      headerValueHasForbidden f.2 = false) ↔ headerValueHasForbidden r.method = false := by
  have hauthority : headerValueHasForbidden (H2.requestHeaderFields r).1.authority = false := by
    unfold H2.requestHeaderFields
    show headerValueHasForbidden (if _ then _ else _) = false
    split
    · exact (clean_authority hu).1
    · exact (clean_authority hu).2
  refine ⟨fun h => (List.forall_mem_cons.mp h).1, fun hmethod => ?_⟩
  simp only [List.forall_mem_cons]
  exact ⟨hmethod, headerValueHasForbidden_of_plain hu.scheme, hauthority,
    headerValueHasForbidden_of_plain hu.path, List.forall_mem_nil _⟩

theorem clean_h3_pseudo {r : Request} (hu : UrlPlain r.url) :
    (∀ f ∈ H3.pseudoFields r, headerValueHasForbidden f.2 = false) ↔
      headerValueHasForbidden r.method = false := by
  have hauthority : headerValueHasForbidden
      (if r.url.port = 443 then r.url.host
        else r.url.host ++ ':' :: decimal r.url.port.toNat) = false := by
    split
    · exact (clean_authority hu).1
    · exact (clean_authority hu).2
  have hscheme : headerValueHasForbidden "https".toList = false := by decide
  refine ⟨fun h => (List.forall_mem_cons.mp h).1, fun hmethod => ?_⟩
  simp only [H3.pseudoFields, List.forall_mem_cons]
  exact ⟨hmethod, hscheme, hauthority, headerValueHasForbidden_of_plain hu.path,
    List.forall_mem_nil _⟩

/-- For every request to an HTTP URL: both field lists are well formed if and only if the
caller's method, headers and lengths leave them so. -/
theorem wellFormed_iff {r : Request} (hb : Request.Built r)
    (hfile : r.url.scheme ≠ "file".toList) :
    WellFormed (blockFields r) r.body ∧ WellFormed (H3.requestFields r) r.body ↔ PassesOn r := by
  obtain ⟨s, hs⟩ := hb.url_parsed
  have hu := urlPlain_of_parse hs hfile
  have hregular : (∀ f ∈ H2.callerFields r, IsRegular f) ∧ (∀ f ∈ H3.callerFields r, IsRegular f) ↔
      ∀ h ∈ r.headers, isPassedOn h = true → IsRegular (lowered h) := by
    constructor
    · rintro ⟨h2, h3⟩ h hh hpass
      by_cases hte : h.1.toAsciiLowercase = "te".toList
      · -- HTTP/2 drops every `te`, HTTP/3 passes it on
        refine h3 _ (mem_h3_callerFields.mpr ⟨h, hh, hpass, ?_, rfl⟩)
        rw [hte]
        decide
      · exact h2 _ (mem_h2_callerFields.mpr ⟨h, hh, hpass, hte, rfl⟩)
    · intro h
      constructor
      · intro f hf
        obtain ⟨g, hg, hpass, -, rfl⟩ := mem_h2_callerFields.mp hf
        exact h g hg hpass
      · intro f hf
        obtain ⟨g, hg, hpass, -, rfl⟩ := mem_h3_callerFields.mp hf
        exact h g hg hpass
  rw [blockFields_eq, requestFields_eq,
    wellFormed_merge_iff rfl (fun f hf => (isDefault_h2Generated f hf).1)
      (named_of_isDefault isDefault_h2Generated),
    wellFormed_merge_iff rfl (fun f hf => (isDefault_h3Generated f hf).1)
      (named_of_isDefault isDefault_h3Generated),
    clean_h2_pseudo hu, clean_h3_pseudo hu, named_h2_callerFields, named_h3_callerFields,
    leavesLength_map_lowered]
  constructor
  · rintro ⟨⟨hmethod, h2, hlength⟩, -, h3, -⟩
    exact ⟨hmethod, hregular.mp ⟨h2, h3⟩, hlength⟩
  · intro h
    obtain ⟨h2, h3⟩ := hregular.mpr h.headers
    exact ⟨⟨h.method, h2, h.length⟩, h.method, h3, h.length⟩

/-- A POST whose caller set a Host, a Connection and a `te`. -/
theorem wellFormed_of_post :
    ∃ r, Request.Built r ∧ r.headers.length = 3 ∧
      (WellFormed (blockFields r) r.body ∧ WellFormed (H3.requestFields r) r.body) := by
  obtain ⟨r, hnew, hscheme, hmethod, hheaders⟩ :
      ∃ r, Request.new "post".toList "https://h:8443/p".toList = .ok r ∧
        r.url.scheme ≠ "file".toList ∧ headerValueHasForbidden r.method = false ∧
        r.headers = [] := ⟨_, rfl, by decide, by decide, rfl⟩
  have hb : Request.Built ((({ r with body := [65] }.header "Host".toList "x".toList).header
      "Connection".toList "close".toList).header "TE".toList "trailers".toList) :=
    .header (.header (.header (.body (.new hnew) [65]) _ _) _ _) _ _
  refine ⟨_, hb, ?_, (wellFormed_iff hb hscheme).mpr ⟨hmethod, ?_, fun _ => ?_, fun h => ?_⟩⟩
  · show (r.headers ++ [_] ++ [_] ++ [_]).length = 3
    rw [hheaders]
    rfl
  · show ∀ h ∈ r.headers ++ [_] ++ [_] ++ [_], _
    rw [hheaders]
    simp only [List.nil_append, List.cons_append, List.forall_mem_cons]
    refine ⟨fun h => absurd h (by decide), fun h => absurd h (by decide), fun _ => ?_,
      List.forall_mem_nil _⟩
    exact ⟨by decide, by decide, by decide, fun _ => rfl, by decide⟩
  · show named (r.headers ++ [_] ++ [_] ++ [_]) "content-length" = []
    rw [hheaders]
    decide
  · exact absurd h (List.cons_ne_nil _ _)

/-- A caller's `:path` goes out on HTTP/2, a line break in a value on both. -/
theorem pseudo_injected :
    ∃ r, Request.Built r ∧ r.url.scheme = "https".toList ∧
      (named (blockFields r) ":path").length = 2 ∧
      ¬ WellFormed (blockFields r) r.body ∧ ¬ WellFormed (H3.requestFields r) r.body := by
  obtain ⟨r, hnew, hscheme, htwo, h2, h3⟩ :
      ∃ r, Request.new "GET".toList "https://h/".toList = .ok r ∧ r.url.scheme = "https".toList ∧
        (named (blockFields ((r.header ":Path".toList "/admin".toList).header "X".toList
          "1\r\ny: 2".toList)) ":path").length = 2 ∧
        ("x".toList, "1\r\ny: 2".toList) ∈ (blockFields ((r.header ":Path".toList
          "/admin".toList).header "X".toList "1\r\ny: 2".toList)).drop 4 ∧
        ("x".toList, "1\r\ny: 2".toList) ∈ (H3.requestFields ((r.header ":Path".toList
          "/admin".toList).header "X".toList "1\r\ny: 2".toList)).drop 4 :=
    ⟨_, rfl, by decide, by decide +kernel, by decide +kernel, by decide +kernel⟩
  have hbad : ¬ IsRegular ("x".toList, "1\r\ny: 2".toList) := fun h => absurd h.clean (by decide)
  exact ⟨_, .header (.header (.new hnew) _ _) _ _, hscheme, htwo,
    fun h => hbad (h.regular _ h2), fun h => hbad (h.regular _ h3)⟩

end Rsurl.Http
