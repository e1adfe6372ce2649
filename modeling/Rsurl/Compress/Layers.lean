/-
# `Rsurl.Compress.Layers` — what a decoded body is still coded in

A body goes through the codings that its header lists, one after the other.  The
decoder crate is known by its encoders: what a layer's encoder has made, its
decoders give back.  Which headers describe the body after `maybe_decode_body`
is then a question of the header alone (`codingLaw_iff`), and so is what becomes of
a response whose body is empty (`readResponse_nil_iff`).
-/
import Rsurl.Http.Head

namespace Rsurl.Compress

open Http (Header)

/-! ## Codings and encoders -/

/-- The tokens of a value, as `decode_body` splits it. -/
def tokens (value : Text) : List Text :=
  ((value.splitOn ',').map Text.trim).filter (!·.isEmpty)

/-- The values of the `Content-Encoding` fields. -/
def codingFields (headers : List Header) : List Text :=
  (headers.filter fun (k, _) => k.eqIgnoreAsciiCase "content-encoding".toList).map Prod.snd

/-- The codings a header lists, over all its fields, in the order they were applied. -/
def listed (headers : List Header) : List Text := (codingFields headers).flatMap tokens

/-- The decoders a layer is tried with. -/
def Layer.algorithms : Layer → List Algorithm
  | .gzip => [.gzip]
  | .deflate => [.zlib, .deflate]
  | .zstd => [.zstd]
  | .brotli => [.brotli]
  | .compress => [.lzw]
  | .identity => []

/-- What a server applies for a token: a layer's encoder, or whatever an unknown one stands for. -/
structure Encoders where
  layer : Layer → Bytes → Bytes
  other : Text → Bytes → Bytes
  identity : ∀ x, layer .identity x = x

namespace Encoders

variable (enc : Encoders)

def apply (token : Text) (x : Bytes) : Bytes :=
  match Layer.parse token with
  | some layer => enc.layer layer x
  | none => enc.other token x

/-- The codings of a list, the first one innermost. -/
def applyAll (ts : List Text) (x : Bytes) : Bytes := ts.foldl (fun body t => enc.apply t body) x

theorem applyAll_concat (ts : List Text) (t : Text) (x : Bytes) :
    enc.applyAll (ts ++ [t]) x = enc.apply t (enc.applyAll ts x) := by
  rw [applyAll, List.foldl_append]
  rfl

theorem apply_identity {t : Text} (h : Layer.parse t = some .identity) (x : Bytes) :
    enc.apply t x = x := by
  rw [apply, h]
  exact enc.identity x

theorem applyAll_identity {ts : List Text} (h : ∀ t ∈ ts, Layer.parse t = some .identity)
    (x : Bytes) : enc.applyAll ts x = x := by
  induction ts using List.reverseRecOn with
  | nil => rfl
  | append_singleton ts t ih =>
      rw [applyAll_concat, apply_identity enc (h t (by simp)), ih fun u hu => h u (by simp [hu])]

end Encoders

/-- Every decoder of a layer gives back what the layer's encoder made, or fails, and one of them
does not fail where the budget is enough. -/
structure Inverse (codec : Codec) (enc : Encoders) : Prop where
  only : ∀ {layer : Layer} {a : Algorithm}, a ∈ layer.algorithms → ∀ {x out : Bytes} {budget : Nat},
    codec a (enc.layer layer x) budget = .ok out → out = x
  decodes : ∀ {layer : Layer}, layer ≠ .identity → ∀ {x : Bytes} {budget : Nat},
    x.length ≤ budget → ∃ a ∈ layer.algorithms, codec a (enc.layer layer x) budget = .ok x

/-! ## Peeling -/

section

variable {codec : Codec} {enc : Encoders}

theorem decodeAs_eq_ok {a : Algorithm} {what : String} {src out : Bytes} {budget : Nat}
    (h : decodeAs codec a what src budget = .ok out) : codec a src budget = .ok out := by
  unfold decodeAs at h
  split at h
  · next heq => rwa [Except.ok.inj h] at heq
  · cases h

theorem peel_eq_ok (hinv : Inverse codec enc) {layer : Layer} {x out : Bytes} {budget : Nat}
    (h : peel codec layer (enc.layer layer x) budget = .ok out) : out = x := by
  cases layer with
  | gzip => exact hinv.only (by simp [Layer.algorithms]) (decodeAs_eq_ok h)
  | deflate =>
      have h : inflateZlib codec (enc.layer .deflate x) budget = .ok out := h
      unfold inflateZlib at h
      split at h
      · next heq =>
          rw [Except.ok.inj h] at heq
          exact hinv.only (by simp [Layer.algorithms]) heq
      · split at h
        · next heq =>
            rw [Except.ok.inj h] at heq
            exact hinv.only (by simp [Layer.algorithms]) heq
        · cases h
  | zstd => exact hinv.only (by simp [Layer.algorithms]) (decodeAs_eq_ok h)
  | brotli => exact hinv.only (by simp [Layer.algorithms]) (decodeAs_eq_ok h)
  | compress => exact hinv.only (by simp [Layer.algorithms]) (decodeAs_eq_ok h)
  | identity => exact (Except.ok.inj h).symm.trans (enc.identity x)

/-- All layers that are known come off a body in them. -/
theorem peelAll_known (hinv : Inverse codec enc) {ts : List Text}
    (hknown : ∀ t ∈ ts, (Layer.parse t).isSome = true) {x out : Bytes} {budget : Nat}
    {peeled peeled' : Bool}
    (h : peelAll codec ts.reverse (enc.applyAll ts x) budget peeled = .ok (out, peeled')) :
    out = x := by
  induction ts using List.reverseRecOn generalizing budget peeled with
  | nil => exact (congrArg Prod.fst (Except.ok.inj h)).symm
  | append_singleton ts t ih =>
      obtain ⟨layer, hlayer⟩ := Option.isSome_iff_exists.mp (hknown t (by simp))
      rw [List.reverse_concat, Encoders.applyAll_concat, Encoders.apply, hlayer, peelAll,
        hlayer] at h
      obtain ⟨inner, hpeel, h⟩ := Result.bind_eq_ok.mp h
      rw [peel_eq_ok hinv hpeel] at h
      exact ih (fun u hu => hknown u (by simp [hu])) h

end

/-! ## The headers afterwards -/

theorem findHeader_coding (headers : List Header) :
    Http.findHeader headers "content-encoding".toList = (codingFields headers).head? := by
  rw [Http.findHeader, codingFields, List.head?_map, List.head?_filter]

theorem codingFields_strip (headers : List Header) :
    codingFields (stripAfterDecode headers) = [] := by
  rw [codingFields, List.map_eq_nil_iff, List.filter_eq_nil_iff]
  intro h hmem hcoding
  obtain ⟨k, v⟩ := h
  have hkept := (List.mem_filter.mp hmem).2
  have hcoding : k.eqIgnoreAsciiCase "content-encoding".toList = true := hcoding
  rw [Bool.and_eq_true, hcoding] at hkept
  cases hkept.1

theorem listed_strip (headers : List Header) : listed (stripAfterDecode headers) = [] := by
  rw [listed, codingFields_strip]
  rfl

/-- With decoders that are inverse to their encoders, the header that is left describes what the
body is still coded in; it is left as it was, body included, or all of it is gone. -/
def CodingLaw (headers : List Header) : Prop :=
  ∀ (codec : Codec) (enc : Encoders), Inverse codec enc → ∀ (x : Bytes) (headers' : List Header)
    (body' : Bytes),
    maybeDecodeBody codec headers (enc.applyAll (listed headers) x) = .ok (headers', body') →
      body' = enc.applyAll (listed headers') x ∧
        (headers' = headers ∧ body' = enc.applyAll (listed headers) x ∨
          codingFields headers' = [] ∧ body' = x)

/-- The first field lists no coding, too many, or an unknown one last; or all its codings are
known, and no other field lists anything but `identity`. -/
def Describable (headers : List Header) : Prop :=
  match codingFields headers with
  | [] => True
  | first :: others =>
      tokens first = [] ∨ maxEncodingLayers < (tokens first).length ∨
        (∃ t ∈ (tokens first).getLast?, Layer.parse t = none) ∨
        (∀ t ∈ tokens first, (Layer.parse t).isSome = true) ∧
          ∀ t ∈ others.flatMap tokens, Layer.parse t = some .identity

theorem decodeBody_eq (codec : Codec) (body : Bytes) (value : Text) :
    decodeBody codec body value =
      if tokens value = [] then .ok (body, false)
      else if maxEncodingLayers < (tokens value).length then
        .error (.badResponse [.str "too many Content-Encoding layers (",
          .num (tokens value).length, .str ", max 3)"])
      else peelAll codec (tokens value).reverse body maxBodyBytes false := rfl

theorem maybeDecodeBody_of_fields {codec : Codec} {headers : List Header} {body : Bytes}
    {first : Text} {others : List Text} (h : codingFields headers = first :: others) :
    maybeDecodeBody codec headers body = (decodeBody codec body first).bind fun (out, decoded) =>
      .ok (if decoded then stripAfterDecode headers else headers, out) := by
  rw [maybeDecodeBody, findHeader_coding, h]
  rfl

/-- An unknown coding outermost stops the walk before it has begun. -/
theorem peelAll_unknown {codec : Codec} {ts : List Text} {t : Text} (ht : t ∈ ts.getLast?)
    (hparse : Layer.parse t = none) (body : Bytes) (budget : Nat) (peeled : Bool) :
    peelAll codec ts.reverse body budget peeled = .ok (body, peeled) := by
  obtain ⟨front, rfl⟩ := List.getLast?_eq_some_iff.mp ht
  rw [List.reverse_concat, peelAll, hparse]

/-- Once something was peeled, that is not forgotten. -/
theorem peelAll_peeled {codec : Codec} {ts : List Text} {body out : Bytes} {budget : Nat}
    {peeled : Bool} (h : peelAll codec ts body budget true = .ok (out, peeled)) : peeled = true := by
  induction ts generalizing body budget with
  | nil => exact (congrArg Prod.snd (Except.ok.inj h)).symm
  | cons t ts ih =>
      rw [peelAll] at h
      split at h
      · exact (congrArg Prod.snd (Except.ok.inj h)).symm
      · obtain ⟨inner, -, h⟩ := Result.bind_eq_ok.mp h
        exact ih h

theorem peeled_of_known {codec : Codec} {ts : List Text} (hne : ts ≠ [])
    (hknown : ∀ t ∈ ts, (Layer.parse t).isSome = true) {body out : Bytes} {budget : Nat}
    {peeled peeled' : Bool} (h : peelAll codec ts.reverse body budget peeled = .ok (out, peeled')) :
    peeled' = true := by
  obtain ⟨front, t, rfl⟩ := (List.eq_nil_or_concat ts).resolve_left hne
  obtain ⟨layer, hlayer⟩ := Option.isSome_iff_exists.mp (hknown t (by simp))
  rw [List.concat_eq_append, List.reverse_concat, peelAll, hlayer] at h
  obtain ⟨inner, -, h⟩ := Result.bind_eq_ok.mp h
  exact peelAll_peeled h

theorem codingLaw_of_describable {headers : List Header} (h : Describable headers) :
    CodingLaw headers := by
  intro codec enc hinv x headers' body' hdecode
  unfold Describable at h
  cases hfields : codingFields headers with
  | nil =>
      rw [maybeDecodeBody, findHeader_coding, hfields] at hdecode
      obtain ⟨rfl, rfl⟩ := Prod.mk.inj (Except.ok.inj hdecode)
      exact ⟨rfl, .inl ⟨rfl, rfl⟩⟩
  | cons first others =>
      rw [hfields] at h
      have hlisted : listed headers = tokens first ++ others.flatMap tokens := by
        rw [listed, hfields, List.flatMap_cons]
      rw [maybeDecodeBody_of_fields hfields] at hdecode
      obtain ⟨⟨out, decoded⟩, hbody, hdecode⟩ := Result.bind_eq_ok.mp hdecode
      have hsame : (if decoded then stripAfterDecode headers else headers, out) = (headers', body') :=
        Except.ok.inj hdecode
      obtain ⟨rfl, rfl⟩ := Prod.mk.inj hsame
      rw [decodeBody_eq] at hbody
      split at hbody
      · obtain ⟨rfl, rfl⟩ := Prod.mk.inj (Except.ok.inj hbody)
        exact ⟨rfl, .inl ⟨rfl, rfl⟩⟩
      next hne =>
      split at hbody
      · cases hbody
      next hroom =>
      rcases h with h | h | ⟨t, ht, hunknown⟩ | ⟨hknown, hothers⟩
      · exact absurd h hne
      · exact absurd h hroom
      · rw [peelAll_unknown ht hunknown] at hbody
        obtain ⟨rfl, rfl⟩ := Prod.mk.inj (Except.ok.inj hbody)
        exact ⟨rfl, .inl ⟨rfl, rfl⟩⟩
      · rw [hlisted, Encoders.applyAll, List.foldl_append, ← Encoders.applyAll,
          ← Encoders.applyAll, Encoders.applyAll_identity enc hothers] at hbody
        obtain rfl := peelAll_known hinv hknown hbody
        obtain rfl := peeled_of_known hne hknown hbody
        refine ⟨?_, .inr ⟨codingFields_strip headers, rfl⟩⟩
        rw [if_pos rfl, listed_strip]
        rfl

/-! ## Headers that stop describing the body -/

/-- A coding of one byte in front, for every token but `identity`. -/
def tagged : Encoders where
  layer layer x := if layer = .identity then x else 0 :: x
  other _ x := 0 :: x
  identity _ := rfl

def untag : Codec := fun _ coded _ =>
  match coded with
  | [] => .error []
  | _ :: x => .ok x

theorem inverse_tagged : Inverse untag tagged where
  only := by
    intro layer a ha x out budget h
    cases layer with
    | identity => cases ha
    | gzip => exact (Except.ok.inj h).symm
    | deflate => exact (Except.ok.inj h).symm
    | zstd => exact (Except.ok.inj h).symm
    | brotli => exact (Except.ok.inj h).symm
    | compress => exact (Except.ok.inj h).symm
  decodes := by
    intro layer hlayer x budget _
    cases layer with
    | identity => exact absurd rfl hlayer
    | gzip => exact ⟨.gzip, by simp [Layer.algorithms], rfl⟩
    | deflate => exact ⟨.zlib, by simp [Layer.algorithms], rfl⟩
    | zstd => exact ⟨.zstd, by simp [Layer.algorithms], rfl⟩
    | brotli => exact ⟨.brotli, by simp [Layer.algorithms], rfl⟩
    | compress => exact ⟨.lzw, by simp [Layer.algorithms], rfl⟩

/-- How many tokens of a list stand for more than `identity`. -/
def weight (ts : List Text) : Nat := ts.countP fun t => Layer.parse t != some .identity

theorem weight_append (ts us : List Text) : weight (ts ++ us) = weight ts + weight us :=
  List.countP_append

theorem weight_cons (t : Text) (ts : List Text) :
    weight (t :: ts) = weight ts + if Layer.parse t = some .identity then 0 else 1 := by
  rw [weight, List.countP_cons]
  by_cases hid : Layer.parse t = some .identity
  · rw [hid]
    rfl
  · rw [if_pos (bne_iff_ne.mpr hid), if_neg hid]
    rfl

def isKnown (t : Text) : Bool := (Layer.parse t).isSome

theorem applyAll_tagged (ts : List Text) :
    tagged.applyAll ts [] = List.replicate (weight ts) 0 := by
  induction ts using List.reverseRecOn with
  | nil => rfl
  | append_singleton ts t ih =>
      rw [Encoders.applyAll_concat, ih, weight_append, weight_cons]
      by_cases hid : Layer.parse t = some .identity
      · rw [Encoders.apply_identity tagged hid, if_pos hid]
        rfl
      · rw [if_neg hid, ← Nat.add_assoc, List.replicate_succ, Encoders.apply]
        cases hparse : Layer.parse t with
        | none => rfl
        | some layer =>
            have hlayer : layer ≠ .identity := fun h => hid (by rw [hparse, h])
            exact if_neg hlayer

theorem peel_untag {layer : Layer} (h : layer ≠ .identity) (b : UInt8) (x : Bytes) (budget : Nat) :
    peel untag layer (b :: x) budget = .ok x := by
  cases layer with
  | identity => exact absurd rfl h
  | gzip => rfl
  | deflate => rfl
  | zstd => rfl
  | brotli => rfl
  | compress => rfl

/-- The walk takes off the known codings, up to the first that is not. -/
theorem peelAll_untag (ts : List Text) {n : Nat} (hn : weight (ts.takeWhile isKnown) ≤ n)
    (budget : Nat) (peeled : Bool) :
    peelAll untag ts (List.replicate n 0) budget peeled =
      .ok (List.replicate (n - weight (ts.takeWhile isKnown)) 0,
        peeled || !(ts.takeWhile isKnown).isEmpty) := by
  induction ts generalizing n budget peeled with
  | nil => simp [peelAll, weight]
  | cons t ts ih =>
      rw [peelAll]
      cases hparse : Layer.parse t with
      | none =>
          have hunknown : ¬ isKnown t = true := by rw [isKnown, hparse]; exact Bool.false_ne_true
          rw [List.takeWhile_cons_of_neg hunknown]
          simp [weight]
      | some layer =>
          have hknown : isKnown t = true := by rw [isKnown, hparse]; rfl
          rw [List.takeWhile_cons_of_pos hknown] at hn ⊢
          rw [weight_cons, hparse] at hn ⊢
          by_cases hid : layer = .identity
          · subst hid
            rw [if_pos rfl, Nat.add_zero] at hn ⊢
            have hrest := ih hn budget true
            rw [Bool.true_or] at hrest
            rw [List.isEmpty_cons, Bool.not_false, Bool.or_true]
            exact hrest
          · rw [if_neg fun h => hid (Option.some.inj h)] at hn ⊢
            obtain ⟨n, rfl⟩ := Nat.exists_eq_add_of_le' (Nat.le_of_add_left_le hn)
            rw [List.replicate_succ]
            dsimp only
            rw [peel_untag hid, Result.ok_bind, if_neg hid, ih (by omega)]
            simp [Nat.add_sub_add_right]

/-- An unknown coding, or one behind it, is not taken off. -/
theorem weight_takeWhile_lt {ts : List Text} {t : Text} (ht : t ∈ ts) (h : Layer.parse t = none) :
    weight (ts.takeWhile isKnown) < weight ts := by
  have hcut := List.takeWhile_append_dropWhile (p := isKnown) (l := ts)
  have hdrop : ts.dropWhile isKnown ≠ [] := by
    intro hnil
    rw [hnil, List.append_nil] at hcut
    rw [← hcut] at ht
    have hknown := List.mem_takeWhile_imp ht
    rw [isKnown, h] at hknown
    cases hknown
  obtain ⟨u, more, hmore⟩ := List.exists_cons_of_ne_nil hdrop
  have hhead := List.head?_dropWhile_not isKnown ts
  rw [hmore] at hhead
  have hunknown : Layer.parse u = none := by simpa [isKnown] using hhead
  have hcount : weight (u :: more) = weight more + 1 := by
    rw [weight_cons, hunknown]
    rfl
  have hsum : weight ts = weight (ts.takeWhile isKnown) + weight (u :: more) := by
    rw [← weight_append, ← hmore, hcut]
  omega

theorem describable_of_codingLaw {headers : List Header} (hlaw : CodingLaw headers) :
    Describable headers := by
  by_contra h
  unfold Describable at h
  cases hfields : codingFields headers with
  | nil => exact h (by rw [hfields]; trivial)
  | cons first others =>
      rw [hfields] at h
      simp only [not_or] at h
      obtain ⟨hne, hroom, hlast, hrest⟩ := h
      have hlisted : listed headers = tokens first ++ others.flatMap tokens := by
        rw [listed, hfields, List.flatMap_cons]
      have hless : weight ((tokens first).reverse.takeWhile isKnown) < weight (listed headers) := by
        have hreverse : weight (tokens first).reverse = weight (tokens first) :=
          (List.reverse_perm _).countP_eq _
        rw [hlisted, weight_append]
        by_cases hknown : ∀ t ∈ tokens first, (Layer.parse t).isSome = true
        · have hall : (tokens first).reverse.takeWhile isKnown = (tokens first).reverse :=
            List.takeWhile_eq_self_iff.mpr fun t ht => hknown t (List.mem_reverse.mp ht)
          have hothers : ∃ t ∈ others.flatMap tokens, Layer.parse t ≠ some .identity := by
            by_contra hnone
            push Not at hnone
            exact hrest ⟨hknown, hnone⟩
          obtain ⟨t, ht, hid⟩ := hothers
          have hpos : 0 < weight (others.flatMap tokens) :=
            List.countP_pos_iff.mpr ⟨t, ht, bne_iff_ne.mpr hid⟩
          rw [hall, hreverse]
          omega
        · push Not at hknown
          obtain ⟨t, ht, hunknown⟩ := hknown
          have hlt := weight_takeWhile_lt (List.mem_reverse.mpr ht)
            (Option.not_isSome_iff_eq_none.mp hunknown)
          omega
      have hpeeled : ((tokens first).reverse.takeWhile isKnown).isEmpty = false := by
        obtain ⟨front, t, hfirst⟩ := (List.eq_nil_or_concat (tokens first)).resolve_left hne
        rw [List.concat_eq_append] at hfirst
        have hknown : isKnown t = true := by
          by_contra hunknown
          refine hlast ⟨t, List.getLast?_eq_some_iff.mpr ⟨front, hfirst⟩, ?_⟩
          exact Option.not_isSome_iff_eq_none.mp hunknown
        rw [hfirst, List.reverse_concat, List.takeWhile_cons_of_pos hknown]
        rfl
      have hdecode : maybeDecodeBody untag headers (tagged.applyAll (listed headers) []) =
          .ok (stripAfterDecode headers, List.replicate (weight (listed headers) -
            weight ((tokens first).reverse.takeWhile isKnown)) 0) := by
        rw [maybeDecodeBody_of_fields hfields, decodeBody_eq, if_neg hne, if_neg hroom,
          applyAll_tagged, peelAll_untag _ hless.le, hpeeled]
        rfl
      have hplain := (hlaw untag tagged inverse_tagged [] _ _ hdecode).1
      rw [listed_strip] at hplain
      have hlength := congrArg List.length hplain
      rw [List.length_replicate] at hlength
      have hzero : (tagged.applyAll [] []).length = 0 := rfl
      omega

/-- Which headers describe the body that is returned with them. -/
theorem codingLaw_iff (headers : List Header) : CodingLaw headers ↔ Describable headers :=
  ⟨describable_of_codingLaw, codingLaw_of_describable⟩

/-- An unknown coding inside a known one. -/
theorem codingLaw_fails : ¬ ∀ headers : List Header, CodingLaw headers := by
  intro hclaim
  have hlaw := describable_of_codingLaw
    (hclaim [("Content-Encoding".toList, "snappy, gzip".toList)])
  have htokens : tokens "snappy, gzip".toList = ["snappy".toList, "gzip".toList] := by decide
  have hfields : codingFields [("Content-Encoding".toList, "snappy, gzip".toList)] =
      ["snappy, gzip".toList] := by decide
  unfold Describable at hlaw
  rw [hfields] at hlaw
  dsimp only at hlaw
  rw [htokens] at hlaw
  revert hlaw
  decide

/-! ## A body that is not there -/

/-- Nothing is no coding of anything. -/
def RejectsEmpty (codec : Codec) : Prop := ∀ a budget, ∃ e, codec a [] budget = .error e

/-- The fields without the codings. -/
def uncoded (headers : List Header) : List Header :=
  headers.filter fun f => !f.1.eqIgnoreAsciiCase "content-encoding".toList

def isIdentity (t : Text) : Bool := Layer.parse t == some .identity

/-- The walk finds nothing to decode: from the outermost on there is only `identity`, up to the
end or to an unknown coding. -/
def Hollow (ts : List Text) : Prop :=
  ∀ t ∈ (ts.reverse.dropWhile isIdentity).head?, Layer.parse t = none

/-- The first field lists no more codings than are decoded, and none that is. -/
def PassesEmpty (headers : List Header) : Prop :=
  ∀ first ∈ (codingFields headers).head?,
    (tokens first).length ≤ maxEncodingLayers ∧ Hollow (tokens first)

/-- An outermost `identity`, which counts as decoded. -/
def hasOuterIdentity (headers : List Header) : Bool :=
  (codingFields headers).head?.any fun first => (tokens first).getLast?.any isIdentity

/-- With the header that was decoded the announced length goes. -/
def LosesLength (headers : List Header) : Prop :=
  hasOuterIdentity headers = true ∧ Http.hasHeader headers "content-length".toList = true

section

variable {codec : Codec}

theorem peel_nil (hempty : RejectsEmpty codec) {layer : Layer} (h : layer ≠ .identity)
    (budget : Nat) : ∃ e, peel codec layer [] budget = .error e := by
  have hdecode : ∀ (a : Algorithm) (what : String), ∃ e, decodeAs codec a what [] budget = .error e := by
    intro a what
    obtain ⟨e, he⟩ := hempty a budget
    rw [decodeAs, he]
    exact ⟨_, rfl⟩
  cases layer with
  | gzip => exact hdecode .gzip "gzip"
  | deflate =>
      obtain ⟨e, he⟩ := hempty .zlib budget
      obtain ⟨e', he'⟩ := hempty .deflate budget
      refine ⟨.badResponse [.str "deflate decode failed: ", .display e], ?_⟩
      show inflateZlib codec [] budget = _
      rw [inflateZlib, he]
      dsimp only
      rw [he']
  | zstd => exact hdecode .zstd "zstd"
  | brotli => exact hdecode .brotli "brotli"
  | compress => exact hdecode .lzw "compress"
  | identity => exact absurd rfl h

/-- Only `identity` comes off an empty body. -/
theorem peelAll_nil_iff (hempty : RejectsEmpty codec) {ts : List Text} {budget : Nat}
    {peeled : Bool} {out : Bytes × Bool} :
    peelAll codec ts [] budget peeled = .ok out ↔
      (∀ t ∈ (ts.dropWhile isIdentity).head?, Layer.parse t = none) ∧
        out = ([], peeled || ts.head?.any isIdentity) := by
  induction ts generalizing budget peeled with
  | nil =>
      rw [peelAll, List.head?_nil, Option.any_none, Bool.or_false]
      constructor
      · intro h
        exact ⟨nofun, (Except.ok.inj h).symm⟩
      · rintro ⟨-, rfl⟩
        rfl
  | cons t ts ih =>
      rw [peelAll, List.head?_cons, Option.any_some]
      cases hparse : Layer.parse t with
      | none =>
          have hother : isIdentity t = false := by rw [isIdentity, hparse]; rfl
          rw [List.dropWhile_cons_of_neg (by rw [hother]; exact Bool.false_ne_true), hother,
            Bool.or_false]
          constructor
          · intro h
            exact ⟨fun u hu => Option.some.inj hu ▸ hparse, (Except.ok.inj h).symm⟩
          · rintro ⟨-, rfl⟩
            rfl
      | some layer =>
          dsimp only
          by_cases hid : layer = .identity
          · subst hid
            have hsame : isIdentity t = true := by rw [isIdentity, hparse]; rfl
            rw [List.dropWhile_cons_of_pos hsame, hsame, Bool.or_true]
            have hrest := @ih budget true
            rw [Bool.true_or] at hrest
            exact hrest
          · have hother : isIdentity t = false := by
              rw [isIdentity, hparse]
              exact beq_eq_false_iff_ne.mpr fun heq => hid (Option.some.inj heq)
            obtain ⟨e, he⟩ := peel_nil hempty hid budget
            rw [List.dropWhile_cons_of_neg (by rw [hother]; exact Bool.false_ne_true), he]
            constructor
            · intro h
              cases h
            · rintro ⟨h, -⟩
              rw [h t rfl] at hparse
              cases hparse

/-- What an empty body is decoded to: itself, or nothing at all. -/
theorem maybeDecodeBody_nil_iff (hempty : RejectsEmpty codec) {headers : List Header}
    {out : List Header × Bytes} :
    maybeDecodeBody codec headers [] = .ok out ↔ PassesEmpty headers ∧
      out = (if hasOuterIdentity headers then stripAfterDecode headers else headers, []) := by
  unfold PassesEmpty hasOuterIdentity
  cases hfields : codingFields headers with
  | nil =>
      rw [maybeDecodeBody, findHeader_coding, hfields]
      constructor
      · intro h
        exact ⟨nofun, (Except.ok.inj h).symm⟩
      · rintro ⟨-, rfl⟩
        rfl
  | cons first others =>
      rw [maybeDecodeBody_of_fields hfields, decodeBody_eq, List.head?_cons, Option.any_some]
      by_cases hnil : tokens first = []
      · rw [if_pos hnil, hnil]
        constructor
        · intro h
          refine ⟨fun f hf => ?_, (Except.ok.inj h).symm⟩
          rw [← Option.some.inj hf, hnil]
          exact ⟨Nat.zero_le _, nofun⟩
        · rintro ⟨-, rfl⟩
          rfl
      rw [if_neg hnil]
      by_cases hroom : maxEncodingLayers < (tokens first).length
      · rw [if_pos hroom]
        constructor
        · intro h
          cases h
        · rintro ⟨h, -⟩
          exact absurd (h first rfl).1 (Nat.not_le.mpr hroom)
      rw [if_neg hroom, ← List.head?_reverse]
      constructor
      · intro h
        obtain ⟨res, hpeel, h⟩ := Result.bind_eq_ok.mp h
        obtain ⟨hhollow, rfl⟩ := (peelAll_nil_iff hempty).mp hpeel
        rw [Bool.false_or] at h
        refine ⟨fun f hf => ?_, (Except.ok.inj h).symm⟩
        rw [← Option.some.inj hf]
        exact ⟨Nat.not_lt.mp hroom, hhollow⟩
      · rintro ⟨h, rfl⟩
        rw [(peelAll_nil_iff hempty).mpr ⟨(h first rfl).2, rfl⟩, Bool.false_or]
        rfl

end

/-! ## Responses without a body -/

theorem any_uncoded {headers : List Header} {p : Header → Bool}
    (h : ∀ f : Header, f.1.eqIgnoreAsciiCase "content-encoding".toList = true → p f = false) :
    (uncoded headers).any p = headers.any p := by
  rw [uncoded, List.any_filter]
  congr 1
  funext f
  cases hcoding : f.1.eqIgnoreAsciiCase "content-encoding".toList with
  | false => exact Bool.true_and _
  | true => exact (h f hcoding).symm

theorem not_named {k a b : Text} (h : k.eqIgnoreAsciiCase a = true)
    (hab : a.eqIgnoreAsciiCase b = false) : k.eqIgnoreAsciiCase b = false := by
  rw [Text.eqIgnoreAsciiCase, beq_iff_eq] at h
  rwa [Text.eqIgnoreAsciiCase, h]

theorem hasHeader_uncoded (headers : List Header) {name : Text}
    (hname : Text.eqIgnoreAsciiCase "content-encoding".toList name = false) :
    Http.hasHeader (uncoded headers) name = Http.hasHeader headers name :=
  any_uncoded fun _ hcoding => not_named hcoding hname

theorem parseContentLength_uncoded (seen : Option Nat) (headers : List Header) :
    Http.parseContentLength seen (uncoded headers) = Http.parseContentLength seen headers := by
  induction headers generalizing seen with
  | nil => rfl
  | cons f headers ih =>
      obtain ⟨k, v⟩ := f
      rw [uncoded, List.filter_cons]
      by_cases hcoding : k.eqIgnoreAsciiCase "content-encoding".toList = true
      · have hlength : k.eqIgnoreAsciiCase "content-length".toList = false :=
          not_named hcoding (by decide)
        have hskip : Http.parseContentLength seen ((k, v) :: headers) =
            Http.parseContentLength seen headers := by
          rw [Http.parseContentLength, hlength]
          rfl
        rw [hskip, ← ih seen, hcoding]
        rfl
      · rw [Bool.not_eq_true] at hcoding
        rw [hcoding, Bool.not_false, if_pos rfl, Http.parseContentLength, Http.parseContentLength]
        split
        · exact congrArg _ (funext fun seen => ih seen)
        · exact ih seen

/-- How a body is framed does not depend on its codings. -/
theorem readBody_uncoded (s : Source) (headers : List Header) (status : UInt16) (method : Text) :
    Http.readBody s (uncoded headers) status method = Http.readBody s headers status method := by
  have hchunked : (uncoded headers).any (fun (k, v) =>
      k.eqIgnoreAsciiCase "transfer-encoding".toList && v.eqIgnoreAsciiCase "chunked".toList) =
        headers.any fun (k, v) =>
          k.eqIgnoreAsciiCase "transfer-encoding".toList && v.eqIgnoreAsciiCase "chunked".toList :=
    any_uncoded fun f hcoding => by
      have hother : f.1.eqIgnoreAsciiCase "transfer-encoding".toList = false :=
        not_named hcoding (by decide)
      show (f.1.eqIgnoreAsciiCase _ && _) = false
      rw [hother, Bool.false_and]
  rw [Http.readBody, Http.readBody, hchunked, hasHeader_uncoded _ (by decide),
    hasHeader_uncoded _ (by decide), parseContentLength_uncoded]

theorem stripAfterDecode_eq (headers : List Header) : stripAfterDecode headers =
    (uncoded headers).filter fun (k, _) => !k.eqIgnoreAsciiCase "content-length".toList := by
  rw [uncoded, List.filter_filter, stripAfterDecode]
  congr 1
  funext f
  exact Bool.and_comm _ _

theorem uncoded_strip_eq_iff (headers : List Header) :
    uncoded (stripAfterDecode headers) = uncoded headers ↔
      Http.hasHeader headers "content-length".toList = false := by
  have hidem : uncoded (stripAfterDecode headers) = stripAfterDecode headers := by
    refine List.filter_eq_self.mpr fun f hf => ?_
    exact ((Bool.and_eq_true _ _).mp (List.mem_filter.mp hf).2).1
  rw [hidem, stripAfterDecode_eq, List.filter_eq_self, ← hasHeader_uncoded headers (by decide),
    Http.hasHeader, List.any_eq_false]
  exact forall₂_congr fun f _ => by simp

/-- A response to HEAD, a 1xx, a 204 or a 304 is read without a body. -/
theorem readBody_of_bodiless {method : Text} {status : UInt16}
    (h : Http.isBodiless method status = true) (s : Source) (headers : List Header) :
    Http.readBody s headers status method = (.ok [], s) := by
  rw [Http.readBody, if_pos h]

/-- A response whose body is empty, for whatever reason: without its `Content-Encoding` fields it
is returned with the empty body; with them, when their walk finds nothing to decode; and with the
same other fields, when nothing but the header counted as decoded. -/
theorem readResponse_nil_iff {codec : Codec} (hempty : RejectsEmpty codec) {s s₁ s₂ : Source}
    {head : Http.Head} {method : Text} (hhead : Http.readHead s = (.ok head, s₁))
    (hbody : Http.readBody s₁ head.headers head.status method = (.ok [], s₂)) :
    Http.readRest codec { head with headers := uncoded head.headers } s₁ method =
        (.ok (head.response (uncoded head.headers) []), s₂) ∧
      ((∃ headers, Http.readResponse codec s method = (.ok (head.response headers []), s₂)) ↔
        PassesEmpty head.headers) ∧
      ((∃ headers, Http.readResponse codec s method = (.ok (head.response headers []), s₂) ∧
          uncoded headers = uncoded head.headers) ↔
        PassesEmpty head.headers ∧ ¬ LosesLength head.headers) := by
  have hrest : ∀ headers, Http.readResponse codec s method =
      (.ok (head.response headers []), s₂) ↔
        PassesEmpty head.headers ∧ headers =
          if hasOuterIdentity head.headers then stripAfterDecode head.headers
          else head.headers := by
    intro headers
    rw [Http.readResponse_of_head method hhead, Http.readRest_eq_ok]
    constructor
    · rintro ⟨body, headers', body', hread, hdecode, hresp⟩
      obtain rfl : [] = body := Except.ok.inj (Prod.mk.inj (hbody.symm.trans hread)).1
      obtain ⟨hpass, hout⟩ := (maybeDecodeBody_nil_iff hempty).mp hdecode
      refine ⟨hpass, ?_⟩
      rw [← (Prod.mk.inj hout).1]
      exact congrArg Http.Response.headers hresp
    · rintro ⟨hpass, rfl⟩
      exact ⟨[], _, [], hbody, (maybeDecodeBody_nil_iff hempty).mpr ⟨hpass, rfl⟩, rfl⟩
  refine ⟨?_, ?_, ?_⟩
  · refine Http.readRest_eq_ok.mpr ⟨[], uncoded head.headers, [], ?_, ?_, rfl⟩
    · rw [readBody_uncoded, hbody]
    · have hnone : codingFields (uncoded head.headers) = [] := by
        rw [codingFields, List.map_eq_nil_iff, List.filter_eq_nil_iff]
        intro f hf
        have hkept := (List.mem_filter.mp hf).2
        rw [Bool.not_eq_true'] at hkept
        exact Bool.not_eq_true _ ▸ hkept
      rw [maybeDecodeBody, findHeader_coding, hnone]
      rfl
  · constructor
    · rintro ⟨headers, h⟩
      exact ((hrest headers).mp h).1
    · intro hpass
      exact ⟨_, (hrest _).mpr ⟨hpass, rfl⟩⟩
  · have hsame : (uncoded (if hasOuterIdentity head.headers then stripAfterDecode head.headers
        else head.headers) = uncoded head.headers) ↔ ¬ LosesLength head.headers := by
      unfold LosesLength
      by_cases houter : hasOuterIdentity head.headers = true
      · rw [if_pos houter, uncoded_strip_eq_iff]
        simp [houter]
      · rw [if_neg houter]
        simp [houter]
    constructor
    · rintro ⟨headers, h, heq⟩
      obtain ⟨hpass, rfl⟩ := (hrest headers).mp h
      exact ⟨hpass, hsame.mp heq⟩
    · rintro ⟨hpass, hkeep⟩
      exact ⟨_, (hrest _).mpr ⟨hpass, rfl⟩, hsame.mpr hkeep⟩

/-- Takes nothing for anything. -/
def refusing : Codec := fun _ _ _ => .error []

theorem rejectsEmpty_refusing : RejectsEmpty refusing := fun _ _ => ⟨[], rfl⟩

/-- A response to HEAD with an unknown coding. -/
theorem readResponse_nil_snappy :
    ∃ headers, Http.readResponse refusing
      ⟨Text.utf8 "HTTP/1.1 200 OK\r\nContent-Encoding: snappy\r\n\r\n".toList, none⟩
      "HEAD".toList =
        (.ok (Http.Head.response ⟨"HTTP/1.1".toList, 200, "OK".toList,
          [("Content-Encoding".toList, "snappy".toList)]⟩ headers []), ⟨[], none⟩) :=
  (@readResponse_nil_iff _ rejectsEmpty_refusing _ ⟨[], none⟩ _ _ _ (by decide +kernel)
    (by decide +kernel)).2.1.mpr
    (by unfold PassesEmpty Hollow; decide +kernel)

/-- A response to HEAD that would have been compressed. -/
theorem readResponse_nil_fails :
    ¬ ∀ (codec : Codec), RejectsEmpty codec → ∀ (s s₁ s₂ : Source) (head : Http.Head)
      (method : Text), Http.readHead s = (.ok head, s₁) →
      Http.readBody s₁ head.headers head.status method = (.ok [], s₂) →
      ∃ headers, Http.readResponse codec s method = (.ok (head.response headers []), s₂) := by
  intro hclaim
  obtain ⟨headers, h⟩ := hclaim refusing rejectsEmpty_refusing
    ⟨Text.utf8 "HTTP/1.1 200 OK\r\nContent-Encoding: gzip\r\n\r\n".toList, none⟩ ⟨[], none⟩
    ⟨[], none⟩ ⟨"HTTP/1.1".toList, 200, "OK".toList, [("Content-Encoding".toList, "gzip".toList)]⟩
    "HEAD".toList (by decide +kernel) (by decide +kernel)
  have hgzip : (Http.readResponse refusing ⟨Text.utf8
      "HTTP/1.1 200 OK\r\nContent-Encoding: gzip\r\n\r\n".toList, none⟩ "HEAD".toList).1 =
        .error (.badResponse [.str "gzip", .str " decode failed: ", .display []]) := by
    decide +kernel
  rw [h] at hgzip
  cases hgzip

end Rsurl.Compress
