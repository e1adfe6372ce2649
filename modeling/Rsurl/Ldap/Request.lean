/-
# `Rsurl.Ldap.Request` — what is written is read back

A filter and a search request as BER trees.  The writer, which learns a length
only after the content and splices it in, writes the bytes of the tree: every
length exact and as short as it can be.  A reading of the tree with the
client's own BER reader gives the filter and the parameters back.
-/
import Rsurl.Base.Ber
import Rsurl.Ldap

namespace Rsurl.Ldap

open Base (beValue)
open Base.Ber

/-- What a `usize` can count: no vector is longer. -/
def usizeLimit : Nat := 2 ^ 64

/-! ## The writer writes tagged values -/

theorem encodeLength_eq (len : Nat) (out : Bytes) :
    encodeLength len out = out ++ lengthBytes len := by
  rw [encodeLength, lengthBytes]
  split
  · rfl
  · rw [octets, List.length_reverse, List.append_assoc]
    rfl

theorem writeTlv_eq (out : Bytes) (tag : UInt8) (value : Bytes) :
    writeTlv out tag value = out ++ tlv tag value := by
  rw [writeTlv, encodeLength_eq, tlv, List.append_assoc, List.append_assoc]
  rfl

/-- Whatever the body appends, it ends up behind a tag and its own length. -/
theorem writeConstructed_eq {f : Bytes → Bytes} {body : Bytes} (hf : ∀ w, f w = w ++ body)
    (out : Bytes) (tag : UInt8) : writeConstructed out tag f = out ++ tlv tag body := by
  have hsplit : f (out ++ [tag, 0]) = (out ++ [tag]) ++ 0 :: body := by
    rw [hf, List.append_assoc, List.append_assoc]
    rfl
  have hlen : (out ++ [tag]).length = out.length + 1 := by
    rw [List.length_append, List.length_singleton]
  have hbody : ((out ++ [tag]) ++ 0 :: body).length - (out.length + 2) = body.length := by
    rw [List.length_append, hlen, List.length_cons]
    omega
  simp only [writeConstructed, hsplit, hbody]
  rw [tlv]
  split
  · next hshort =>
      rw [List.set_append_right _ _ (Nat.le_of_eq hlen), hlen, Nat.sub_self, List.set_cons_zero,
        lengthBytes, if_pos hshort, List.append_assoc]
      rfl
  · have htake : ((out ++ [tag]) ++ 0 :: body).take (out.length + 1) = out ++ [tag] := by
      rw [← hlen, List.take_left]
    have hdrop : ((out ++ [tag]) ++ 0 :: body).drop (out.length + 2) = body := by
      rw [show out.length + 2 = (out ++ [tag]).length + 1 by rw [hlen], List.drop_length_add_append]
      rfl
    rw [htake, hdrop, encodeLength_eq, List.nil_append, List.append_assoc, List.append_assoc]
    rfl

/-! ## The reader reads them -/

theorem foldl_or_eq (bytes : Bytes) (acc : Nat) :
    bytes.foldl (fun len b => len <<< 8 ||| b.toNat) acc =
      bytes.foldl (fun len b => len * 256 + b.toNat) acc := by
  induction bytes generalizing acc with
  | nil => rfl
  | cons b bytes ih =>
      rw [List.foldl_cons, List.foldl_cons, ih]
      congr 1
      rw [← Nat.shiftLeft_add_eq_or_of_lt (i := 8) b.toNat_lt, Nat.shiftLeft_eq]

theorem readLength_lengthBytes {n : Nat} (h : n < usizeLimit) (rest : Bytes) :
    readLength (lengthBytes n ++ rest) = .ok (n, rest) := by
  rw [lengthBytes]
  split
  · next hshort =>
      have hval : (UInt8.ofNat n).toNat = n := by
        rw [UInt8.toNat_ofNat']
        exact Nat.mod_eq_of_lt (by omega)
      have hlt : UInt8.ofNat n < 0x80 := by
        rw [UInt8.lt_iff_toNat_lt, hval]
        exact hshort
      rw [List.singleton_append, readLength, if_pos hlt, hval]
  · next hlong =>
      have hk : (octets n).length ≤ 8 := length_octets_le (by rw [usizeLimit] at h; omega)
      have hpos : (octets n).length ≠ 0 := by
        rw [Ne, List.length_eq_zero_iff]
        exact octets_ne_nil (by omega)
      have hcount : ∀ k : Nat, k ≤ 8 → ¬ (0x80 ||| UInt8.ofNat k) < 0x80 ∧
          ((0x80 ||| UInt8.ofNat k) &&& 0x7f).toNat = k := by
        intro k hk
        interval_cases k <;> decide
      obtain ⟨hnot, hmask⟩ := hcount _ hk
      rw [List.cons_append, readLength, if_neg hnot]
      dsimp only
      rw [hmask, if_neg hpos, if_neg (by omega), if_neg (by rw [List.length_append]; omega),
        List.take_left, List.drop_left, foldl_or_eq]
      exact congrArg (fun v => Except.ok (v, rest)) (beValue_octets n)

theorem readTlv_tlv {tag : UInt8} {value : Bytes} (h : value.length < usizeLimit) (rest : Bytes) :
    readTlv (tlv tag value ++ rest) = .ok (⟨tag, value⟩, rest) := by
  rw [tlv, List.append_assoc, List.cons_append, readTlv, readLength_lengthBytes h]
  show (if (value ++ rest).length < value.length then _ else _) = _
  rw [if_neg (by rw [List.length_append]; omega), List.take_left, List.drop_left]

theorem readExpect_tlv {tag : UInt8} {value : Bytes} (h : value.length < usizeLimit)
    (rest : Bytes) : readExpect tag (tlv tag value ++ rest) = .ok (value, rest) := by
  rw [readExpect, readTlv_tlv h]
  show (if tag ≠ tag then _ else _) = _
  rw [if_neg (not_not_intro rfl)]

theorem readExpect_tlv_end {tag : UInt8} {value : Bytes} (h : value.length < usizeLimit) :
    readExpect tag (tlv tag value) = .ok (value, []) := by
  have hread : readExpect tag (tlv tag value ++ []) = _ := readExpect_tlv h []
  rwa [List.append_nil] at hread

/-! ## Integers -/

/-- The value of two's-complement bytes. -/
def signedValue (bytes : Bytes) : Int :=
  bytes.foldl (fun acc b => acc * 256 + (b.toNat : Int))
    (if bytes.head?.any (fun b => b &&& 0x80 ≠ 0) then -1 else 0)

theorem decodeInteger_eq {bytes : Bytes} (hpos : bytes ≠ []) (hlen : bytes.length ≤ 8) :
    decodeInteger bytes = .ok (signedValue bytes) := by
  cases bytes with
  | nil => exact absurd rfl hpos
  | cons first rest =>
      rw [decodeInteger, if_neg (Nat.not_lt.mpr hlen), signedValue]
      simp

/-- The bytes dropped only repeat the sign. -/
theorem signedValue_dropRedundant (bytes : Bytes) :
    signedValue (dropRedundant bytes) = signedValue bytes := by
  induction bytes with
  | nil => rfl
  | cons first rest ih =>
      cases rest with
      | nil => rfl
      | cons next rest =>
          rw [dropRedundant]
          split
          · next hred =>
              rw [ih]
              have h255 : (255 : UInt8) &&& 128 ≠ 0 := by decide
              rcases hred with ⟨rfl, hbit⟩ | ⟨rfl, hbit⟩
              · simp [signedValue, hbit]
              · simp [signedValue, hbit, h255]
          · rfl

theorem dropRedundant_ne_nil {bytes : Bytes} (h : bytes ≠ []) :
    dropRedundant bytes ≠ [] ∧ (dropRedundant bytes).length ≤ bytes.length := by
  induction bytes with
  | nil => exact absurd rfl h
  | cons first rest ih =>
      cases rest with
      | nil => exact ⟨h, Nat.le_refl _⟩
      | cons next rest =>
          rw [dropRedundant]
          split
          · obtain ⟨hne, hle⟩ := ih (List.cons_ne_nil next rest)
            exact ⟨hne, hle.trans (Nat.le_succ _)⟩
          · exact ⟨h, Nat.le_refl _⟩

theorem signBit_iff (b : UInt8) : b &&& 0x80 ≠ 0 ↔ 128 ≤ b.toNat := by
  have hall : ∀ n : Fin 256, UInt8.ofNat n.val &&& 0x80 ≠ 0 ↔ 128 ≤ n.val := by decide +kernel
  have hb := hall ⟨b.toNat, b.toNat_lt⟩
  rwa [UInt8.ofNat_toNat] at hb

theorem signedValue_toBeBytes {v : Int} (hlow : -(2 ^ 63) ≤ v) (hhigh : v < 2 ^ 63) :
    signedValue (toBeBytes v) = v := by
  have hbyte : ∀ i : Nat, ((UInt8.ofNat (v / 2 ^ i % 256).toNat).toNat : Int) = v / 2 ^ i % 256 := by
    intro i
    have hpos := Int.emod_nonneg (v / 2 ^ i) (show (256 : Int) ≠ 0 by decide)
    have hlt := Int.emod_lt_of_pos (v / 2 ^ i) (show (0 : Int) < 256 by decide)
    rw [UInt8.toNat_ofNat', Nat.mod_eq_of_lt (by omega), Int.toNat_of_nonneg hpos]
  have hsign : (UInt8.ofNat (v / 2 ^ 56 % 256).toNat &&& 0x80 ≠ 0) ↔ v < 0 := by
    rw [signBit_iff, ← Int.ofNat_le, hbyte]
    omega
  have hdigit : ∀ i : Nat, v / 2 ^ i = v / 2 ^ (i + 8) * 256 + v / 2 ^ i % 256 := by
    intro i
    have hnext : v / 2 ^ (i + 8) = v / 2 ^ i / 256 := by
      rw [pow_add, Int.ediv_ediv_of_nonneg (by positivity)]
      rfl
    rw [hnext, Int.ediv_mul_add_emod]
  have hfold : ∀ acc : Int, (toBeBytes v).foldl (fun (acc : Int) b => acc * 256 + (b.toNat : Int)) acc =
      acc * 2 ^ 64 + v % 2 ^ 64 := by
    intro acc
    have hmod := Int.emod_def v (2 ^ 64)
    have h0 := hdigit 0
    have h8 := hdigit 8
    have h16 := hdigit 16
    have h24 := hdigit 24
    have h32 := hdigit 32
    have h40 := hdigit 40
    have h48 := hdigit 48
    have h56 := hdigit 56
    simp only [toBeBytes, List.map_cons, List.map_nil, List.foldl_cons, List.foldl_nil, hbyte]
    rw [pow_zero, Int.ediv_one] at h0 ⊢
    linarith
  rw [signedValue, hfold]
  show (if decide (UInt8.ofNat (v / 2 ^ 56 % 256).toNat &&& 0x80 ≠ 0) = true then (-1 : Int) else 0) *
    2 ^ 64 + v % 2 ^ 64 = v
  by_cases hneg : v < 0
  · rw [if_pos (decide_eq_true (hsign.mpr hneg))]
    omega
  · rw [if_neg (by rw [decide_eq_true_iff, hsign]; exact hneg)]
    omega

theorem decodeInteger_toBeBytes {v : Int} (hlow : -(2 ^ 63) ≤ v) (hhigh : v < 2 ^ 63) :
    decodeInteger (dropRedundant (toBeBytes v)) = .ok v := by
  have hne : toBeBytes v ≠ [] := List.cons_ne_nil _ _
  obtain ⟨hpos, hlen⟩ := dropRedundant_ne_nil hne
  rw [decodeInteger_eq hpos hlen, signedValue_dropRedundant, signedValue_toBeBytes hlow hhigh]

/-! ## Filters as trees -/

/-- A string as the value of a primitive tag. -/
def textNode (tag : UInt8) (s : Text) : Node := .primitive tag s.utf8

/-- A field that may be absent. -/
def optNodes (tag : UInt8) (s : Option Text) : List Node := (s.map (textNode tag)).toList

/-- The segments of a substrings filter. -/
def segmentNodes (initial : Option Text) (any : List Text) (final : Option Text) : List Node :=
  optNodes (Tag.ctx 0 false) initial ++ (any.map (textNode (Tag.ctx 1 false)) ++
    optNodes (Tag.ctx 2 false) final)

/-- The fields of an extensible match; the marker is there only when it is set. -/
def ruleNodes (matchingRule attrType : Option Text) (matchValue : Text) (dnAttributes : Bool) :
    List Node :=
  optNodes (Tag.ctx 1 false) matchingRule ++ (optNodes (Tag.ctx 2 false) attrType ++
    textNode (Tag.ctx 3 false) matchValue ::
      if dnAttributes then [.primitive (Tag.ctx 4 false) [0xff]] else [])

mutual

/-- The tree RFC 4511 gives a filter. -/
def Filter.node : Filter → Node
  | .and items => .constructed (Tag.ctx 0 true) (Filter.nodes items)
  | .or items => .constructed (Tag.ctx 1 true) (Filter.nodes items)
  | .not inner => .constructed (Tag.ctx 2 true) [inner.node]
  | .equalityMatch attr value =>
      .constructed (Tag.ctx 3 true) [textNode Tag.octetString attr, textNode Tag.octetString value]
  | .substrings attr initial any final =>
      .constructed (Tag.ctx 4 true) [textNode Tag.octetString attr,
        .constructed Tag.sequence (segmentNodes initial any final)]
  | .present attr => textNode (Tag.ctx 7 false) attr
  | .extensibleMatch matchingRule attrType matchValue dnAttributes =>
      .constructed (Tag.ctx 9 true) (ruleNodes matchingRule attrType matchValue dnAttributes)

def Filter.nodes : List Filter → List Node
  | [] => []
  | f :: items => f.node :: Filter.nodes items

end

theorem writeTlv_text (out : Bytes) (tag : UInt8) (s : Text) :
    writeTlv out tag s.utf8 = out ++ (textNode tag s).bytes := by
  rw [writeTlv_eq, textNode, Node.bytes]

theorem bytesOf_singleton (n : Node) : Node.bytesOf [n] = n.bytes := by
  rw [Node.bytesOf, Node.bytesOf, List.append_nil]

/-- An optional field is written or left out. -/
theorem writeOpt_eq (out : Bytes) (tag : UInt8) (s : Option Text) :
    writeOpt out tag s = out ++ Node.bytesOf (optNodes tag s) := by
  cases s with
  | none => exact (List.append_nil out).symm
  | some s =>
      show writeTlv out tag s.utf8 = out ++ Node.bytesOf [textNode tag s]
      rw [writeTlv_text, bytesOf_singleton]

theorem foldl_writeTlv (out : Bytes) (tag : UInt8) (ss : List Text) :
    ss.foldl (fun out s => writeTlv out tag s.utf8) out =
      out ++ Node.bytesOf (ss.map (textNode tag)) := by
  induction ss generalizing out with
  | nil => exact (List.append_nil out).symm
  | cons s ss ih =>
      rw [List.foldl_cons, ih, writeTlv_text, List.map_cons, Node.bytesOf, List.append_assoc]

mutual

/-- The writer appends the bytes of the tree. -/
theorem encodeFilter_eq : ∀ (f : Filter) (out : Bytes), encodeFilter f out = out ++ f.node.bytes
  | .and items, out => by
      rw [encodeFilter, Filter.node, Node.bytes]
      exact writeConstructed_eq (encodeFilters_eq items) out _
  | .or items, out => by
      rw [encodeFilter, Filter.node, Node.bytes]
      exact writeConstructed_eq (encodeFilters_eq items) out _
  | .not inner, out => by
      rw [encodeFilter, Filter.node, Node.bytes, bytesOf_singleton]
      exact writeConstructed_eq (encodeFilter_eq inner) out _
  | .equalityMatch attr value, out => by
      rw [encodeFilter, Filter.node, Node.bytes]
      refine writeConstructed_eq (fun w => ?_) out _
      rw [writeOctetString, writeOctetString, writeTlv_text, writeTlv_text, List.append_assoc,
        Node.bytesOf, bytesOf_singleton]
  | .substrings attr initial any final, out => by
      rw [encodeFilter, Filter.node, Node.bytes]
      refine writeConstructed_eq (fun w => ?_) out _
      rw [Node.bytesOf, bytesOf_singleton, Node.bytes, ← List.append_assoc, ← writeTlv_text]
      refine writeConstructed_eq (fun subs => ?_) _ _
      dsimp only
      rw [writeOpt_eq, foldl_writeTlv, writeOpt_eq, segmentNodes, bytesOf_append, bytesOf_append,
        List.append_assoc, List.append_assoc]
  | .present attr, out => by
      rw [encodeFilter, Filter.node, writeTlv_text]
  | .extensibleMatch matchingRule attrType matchValue dnAttributes, out => by
      rw [encodeFilter, Filter.node, Node.bytes]
      refine writeConstructed_eq (fun w => ?_) out _
      dsimp only
      rw [writeOpt_eq, writeOpt_eq, writeTlv_text, ruleNodes, bytesOf_append, bytesOf_append,
        Node.bytesOf]
      cases dnAttributes with
      | false => simp [Node.bytesOf]
      | true =>
          rw [if_pos rfl, if_pos rfl, writeTlv_eq, bytesOf_singleton, Node.bytes]
          simp only [List.append_assoc]

theorem encodeFilters_eq : ∀ (fs : List Filter) (out : Bytes),
    encodeFilters fs out = out ++ Node.bytesOf (Filter.nodes fs)
  | [], out => by
      rw [encodeFilters, Filter.nodes, Node.bytesOf, List.append_nil]
  | f :: fs, out => by
      rw [encodeFilters, encodeFilter_eq f, encodeFilters_eq fs, Filter.nodes, Node.bytesOf,
        List.append_assoc]

end

/-! ## Reading a filter

The RFC's grammar, on the client's own BER reader. -/

/-- A refusal of what is not a filter or a request. -/
def malformed {α : Type} : Result α := .error (.badResponse [.str "malformed"])

def decodeText (value : Bytes) : Result Text :=
  match fromUtf8 value with
  | some s => .ok s
  | none => malformed

/-- A string under a tag. -/
def decodeTextAt (tag : UInt8) (r : Bytes) : Result (Text × Bytes) := do
  let (value, r) ← readExpect tag r
  return (← decodeText value, r)

/-- A string under a tag, if that is the next one. -/
def decodeOpt (tag : UInt8) (r : Bytes) : Result (Option Text × Bytes) :=
  if r.head? = some tag then do
    let (s, r) ← decodeTextAt tag r
    return (some s, r)
  else .ok (none, r)

/-- The strings under a tag, while it is the next one. -/
def decodeTexts (tag : UInt8) : Nat → Bytes → Result (List Text × Bytes)
  | 0, r => .ok ([], r)
  | fuel + 1, r =>
      if r.head? = some tag then do
        let (s, r) ← decodeTextAt tag r
        let (ss, r) ← decodeTexts tag fuel r
        return (s :: ss, r)
      else .ok ([], r)

/-- Nothing is left. -/
def finish {α : Type} (r : Bytes) (a : α) : Result α := if r = [] then .ok a else malformed

/-- The items of a set, to its end. -/
def decodeItems (item : Bytes → Result (Filter × Bytes)) : Nat → Bytes → Result (List Filter)
  | _, [] => .ok []
  | 0, _ :: _ => malformed
  | fuel + 1, b :: r => do
      let (f, r) ← item (b :: r)
      let items ← decodeItems item fuel r
      return f :: items

/-- The segments of a substrings filter: at most one initial and one final one. -/
def decodeSegments (r : Bytes) : Result (Option Text × List Text × Option Text) := do
  let (initial, r) ← decodeOpt (Tag.ctx 0 false) r
  let (any, r) ← decodeTexts (Tag.ctx 1 false) r.length r
  let (final, r) ← decodeOpt (Tag.ctx 2 false) r
  finish r (initial, any, final)

/-- The marker at the end of an extensible match. -/
def decodeMarker (r : Bytes) : Result Bool :=
  if r = [] then .ok false
  else do
    let (b, r) ← readExpect (Tag.ctx 4 false) r
    if b = [0xff] then finish r true else malformed

/-- One alternative of the CHOICE, with the reader of a filter one level down. -/
def decodeChoice (item : Bytes → Result (Filter × Bytes)) (t : Tlv) : Result Filter :=
  if t.tag = Tag.ctx 0 true then do return .and (← decodeItems item t.value.length t.value)
  else if t.tag = Tag.ctx 1 true then do return .or (← decodeItems item t.value.length t.value)
  else if t.tag = Tag.ctx 2 true then do
    let (inner, r) ← item t.value
    finish r (.not inner)
  else if t.tag = Tag.ctx 3 true then do
    let (attr, r) ← decodeTextAt Tag.octetString t.value
    let (value, r) ← decodeTextAt Tag.octetString r
    finish r (.equalityMatch attr value)
  else if t.tag = Tag.ctx 4 true then do
    let (attr, r) ← decodeTextAt Tag.octetString t.value
    let (subs, r) ← readExpect Tag.sequence r
    let (initial, any, final) ← decodeSegments subs
    finish r (.substrings attr initial any final)
  else if t.tag = Tag.ctx 7 false then do return .present (← decodeText t.value)
  else if t.tag = Tag.ctx 9 true then do
    let (matchingRule, r) ← decodeOpt (Tag.ctx 1 false) t.value
    let (attrType, r) ← decodeOpt (Tag.ctx 2 false) r
    let (matchValue, r) ← decodeTextAt (Tag.ctx 3 false) r
    return .extensibleMatch matchingRule attrType matchValue (← decodeMarker r)
  else malformed

/-- A filter of at most so many levels, and what is left. -/
def decodeFilter : Nat → Bytes → Result (Filter × Bytes)
  | 0, _ => malformed
  | levels + 1, r => do
      let (t, r) ← readTlv r
      return (← decodeChoice (decodeFilter levels) t, r)

/-! ## The reading gives the filter back -/

theorem head_tlv (tag : UInt8) (value rest : Bytes) : (tlv tag value ++ rest).head? = some tag := rfl

/-- Fields under other tags, or none. -/
theorem head_bytesOf_texts {tag other : UInt8} (hne : other ≠ tag) (ss : List Text) {rest : Bytes}
    (hrest : rest.head? ≠ some tag) :
    (Node.bytesOf (ss.map (textNode other)) ++ rest).head? ≠ some tag := by
  cases ss with
  | nil => exact hrest
  | cons s ss =>
      rw [List.map_cons, Node.bytesOf, textNode, Node.bytes, List.append_assoc, head_tlv]
      exact fun h => hne (Option.some.inj h)

theorem optNodes_eq (tag : UInt8) (s : Option Text) :
    optNodes tag s = s.toList.map (textNode tag) := by
  cases s <;> rfl

theorem decodeText_utf8 (s : Text) : decodeText s.utf8 = .ok s := by
  rw [decodeText, fromUtf8_utf8]

theorem decodeTextAt_node {tag : UInt8} {s : Text} (h : s.utf8.length < usizeLimit) (rest : Bytes) :
    decodeTextAt tag ((textNode tag s).bytes ++ rest) = .ok (s, rest) := by
  rw [textNode, Node.bytes, decodeTextAt, readExpect_tlv h]
  show (do return (← decodeText s.utf8, rest) : Result (Text × Bytes)) = _
  rw [decodeText_utf8]
  rfl

theorem length_textNode (tag : UInt8) (s : Text) : s.utf8.length < (textNode tag s).bytes.length :=
  length_lt_tlv tag s.utf8

theorem decodeOpt_nodes {tag : UInt8} {s : Option Text} {rest : Bytes}
    (h : (Node.bytesOf (optNodes tag s)).length < usizeLimit) (hrest : rest.head? ≠ some tag) :
    decodeOpt tag (Node.bytesOf (optNodes tag s) ++ rest) = .ok (s, rest) := by
  cases s with
  | none =>
      show decodeOpt tag rest = .ok (none, rest)
      rw [decodeOpt, if_neg hrest]
  | some s =>
      have hone : Node.bytesOf (optNodes tag (some s)) = (textNode tag s).bytes := bytesOf_singleton _
      rw [hone] at h ⊢
      have hhead : ((textNode tag s).bytes ++ rest).head? = some tag := rfl
      rw [decodeOpt, if_pos hhead, decodeTextAt_node ((length_textNode tag s).trans h)]
      rfl

theorem decodeTexts_nodes {tag : UInt8} {ss : List Text} {rest : Bytes} {fuel : Nat}
    (h : (Node.bytesOf (ss.map (textNode tag))).length < usizeLimit)
    (hrest : rest.head? ≠ some tag) (hfuel : ss.length ≤ fuel) :
    decodeTexts tag fuel (Node.bytesOf (ss.map (textNode tag)) ++ rest) = .ok (ss, rest) := by
  induction ss generalizing fuel with
  | nil =>
      show decodeTexts tag fuel rest = .ok ([], rest)
      cases fuel with
      | zero => rfl
      | succ fuel => rw [decodeTexts, if_neg hrest]
  | cons s ss ih =>
      cases fuel with
      | zero => exact absurd hfuel (Nat.not_succ_le_zero _)
      | succ fuel =>
          rw [List.map_cons, Node.bytesOf] at h ⊢
          rw [List.length_append] at h
          have hhead : ((textNode tag s).bytes ++ Node.bytesOf (ss.map (textNode tag)) ++ rest).head? =
              some tag := rfl
          rw [decodeTexts, if_pos hhead, List.append_assoc,
            decodeTextAt_node ((length_textNode tag s).trans (by omega))]
          show (do
            let (ss, r) ← decodeTexts tag fuel (Node.bytesOf (ss.map (textNode tag)) ++ rest)
            return (s :: ss, r) : Result (List Text × Bytes)) = _
          rw [ih (by omega) (Nat.le_of_succ_le_succ hfuel)]
          rfl

theorem length_le_bytesOf (ns : List Node) : ns.length ≤ (Node.bytesOf ns).length := by
  induction ns with
  | nil => exact Nat.le_refl 0
  | cons n ns ih =>
      have hpos : 0 < n.bytes.length := by cases n <;> exact Nat.succ_pos _
      rw [Node.bytesOf, List.length_append, List.length_cons]
      omega

theorem length_nodes (fs : List Filter) : (Filter.nodes fs).length = fs.length := by
  induction fs with
  | nil => rfl
  | cons f fs ih => rw [Filter.nodes, List.length_cons, ih, List.length_cons]

/-- A set is read to its end when each of its items is. -/
theorem decodeItems_nodes {item : Bytes → Result (Filter × Bytes)} {fs : List Filter} {fuel : Nat}
    (hitem : ∀ f ∈ fs, ∀ rest, item (f.node.bytes ++ rest) = .ok (f, rest))
    (hfuel : fs.length ≤ fuel) :
    decodeItems item fuel (Node.bytesOf (Filter.nodes fs)) = .ok fs := by
  induction fs generalizing fuel with
  | nil => cases fuel <;> rfl
  | cons f fs ih =>
      cases fuel with
      | zero => exact absurd hfuel (Nat.not_succ_le_zero _)
      | succ fuel =>
          obtain ⟨b, bs, hcons⟩ : ∃ b bs, f.node.bytes ++ Node.bytesOf (Filter.nodes fs) = b :: bs := by
            cases f.node <;> exact ⟨_, _, rfl⟩
          have hrest := ih (fun g hg => hitem g (List.mem_cons_of_mem _ hg))
            (Nat.le_of_succ_le_succ hfuel)
          have hfirst := hitem f List.mem_cons_self (Node.bytesOf (Filter.nodes fs))
          rw [Filter.nodes, Node.bytesOf]
          rw [hcons] at hfirst ⊢
          rw [decodeItems, hfirst]
          show (do
            let items ← decodeItems item fuel (Node.bytesOf (Filter.nodes fs))
            return f :: items : Result (List Filter)) = _
          rw [hrest]
          rfl

theorem readTlv_node {tag : UInt8} {items : List Node}
    (h : (Node.constructed tag items).bytes.length < usizeLimit) (rest : Bytes) :
    readTlv ((Node.constructed tag items).bytes ++ rest) = .ok (⟨tag, Node.bytesOf items⟩, rest) := by
  rw [Node.bytes] at h ⊢
  exact readTlv_tlv ((length_lt_tlv tag _).trans h) rest

theorem length_node_le {f : Filter} {fs : List Filter} (h : f ∈ fs) :
    f.node.bytes.length ≤ (Node.bytesOf (Filter.nodes fs)).length := by
  induction fs with
  | nil => exact absurd h List.not_mem_nil
  | cons g fs ih =>
      rw [Filter.nodes, Node.bytesOf, List.length_append]
      rcases List.mem_cons.mp h with rfl | h
      · exact Nat.le_add_right _ _
      · exact (ih h).trans (Nat.le_add_left _ _)

/-- The items of a set in it. -/
theorem decodeItems_set {item : Bytes → Result (Filter × Bytes)} {tag : UInt8} {fs : List Filter}
    (hitem : ∀ g : Filter, g.node.bytes.length < (tlv tag (Node.bytesOf (Filter.nodes fs))).length →
      ∀ rest, item (g.node.bytes ++ rest) = .ok (g, rest)) :
    decodeItems item (Node.bytesOf (Filter.nodes fs)).length (Node.bytesOf (Filter.nodes fs)) =
      .ok fs := by
  refine decodeItems_nodes (fun g hg => hitem g ((length_node_le hg).trans_lt (length_lt_tlv _ _))) ?_
  rw [← length_nodes]
  exact length_le_bytesOf _

theorem head_optNodes {tag other : UInt8} (hne : other ≠ tag) (s : Option Text) {rest : Bytes}
    (hrest : rest.head? ≠ some tag) :
    (Node.bytesOf (optNodes other s) ++ rest).head? ≠ some tag := by
  rw [optNodes_eq]
  exact head_bytesOf_texts hne _ hrest

theorem decodeSegments_nodes {initial : Option Text} {any : List Text} {final : Option Text}
    (h : (Node.bytesOf (segmentNodes initial any final)).length < usizeLimit) :
    decodeSegments (Node.bytesOf (segmentNodes initial any final)) = .ok (initial, any, final) := by
  rw [segmentNodes, bytesOf_append, bytesOf_append] at h ⊢
  rw [List.length_append, List.length_append] at h
  have hnil : ∀ tag : UInt8, ([] : Bytes).head? ≠ some tag := fun tag => nofun
  have hfinal : (Node.bytesOf (optNodes (Tag.ctx 2 false) final)).head? ≠ some (Tag.ctx 1 false) := by
    have hne : Tag.ctx 2 false ≠ Tag.ctx 1 false := by decide
    have hhead := head_optNodes hne final (hnil _)
    rwa [List.append_nil] at hhead
  have hany : (Node.bytesOf (any.map (textNode (Tag.ctx 1 false))) ++
      Node.bytesOf (optNodes (Tag.ctx 2 false) final)).head? ≠ some (Tag.ctx 0 false) := by
    refine head_bytesOf_texts (by decide) any ?_
    have hne : Tag.ctx 2 false ≠ Tag.ctx 0 false := by decide
    have hhead := head_optNodes hne final (hnil _)
    rwa [List.append_nil] at hhead
  have hcount : any.length ≤ (Node.bytesOf (any.map (textNode (Tag.ctx 1 false))) ++
      Node.bytesOf (optNodes (Tag.ctx 2 false) final)).length := by
    have hle := length_le_bytesOf (any.map (textNode (Tag.ctx 1 false)))
    rw [List.length_map] at hle
    rw [List.length_append]
    omega
  have hlast : decodeOpt (Tag.ctx 2 false) (Node.bytesOf (optNodes (Tag.ctx 2 false) final) ++ []) =
      .ok (final, []) := decodeOpt_nodes (by omega) (hnil _)
  rw [List.append_nil] at hlast
  have hfirst : (Node.bytesOf (optNodes (Tag.ctx 0 false) initial)).length < usizeLimit := by omega
  have hmiddle : (Node.bytesOf (any.map (textNode (Tag.ctx 1 false)))).length < usizeLimit := by omega
  simp only [decodeSegments, decodeOpt_nodes hfirst hany, Result.ok_bind,
    decodeTexts_nodes hmiddle hfinal hcount, hlast]
  rfl

/-- Reading the value of a filter's tag, when the filters in it are read. -/
theorem decodeChoice_node {item : Bytes → Result (Filter × Bytes)} (f : Filter)
    (hsize : f.node.bytes.length < usizeLimit)
    (hitem : ∀ g : Filter, g.node.bytes.length < f.node.bytes.length →
      ∀ rest, item (g.node.bytes ++ rest) = .ok (g, rest)) (rest : Bytes) :
    ∃ t, readTlv (f.node.bytes ++ rest) = .ok (t, rest) ∧ decodeChoice item t = .ok f := by
  cases f with
  | and fs =>
      refine ⟨_, readTlv_node hsize rest, ?_⟩
      show (do return .and (← decodeItems item _ _) : Result Filter) = _
      rw [decodeItems_set hitem]
      rfl
  | or fs =>
      refine ⟨_, readTlv_node hsize rest, ?_⟩
      show (do return .or (← decodeItems item _ _) : Result Filter) = _
      rw [decodeItems_set hitem]
      rfl
  | not inner =>
      refine ⟨_, readTlv_node hsize rest, ?_⟩
      have hle : inner.node.bytes.length ≤ (Node.bytesOf [inner.node]).length := by
        rw [bytesOf_singleton]
      have hinner := hitem inner (hle.trans_lt (length_lt_tlv _ _)) []
      show (do
        let (inner, r) ← item (Node.bytesOf [inner.node])
        finish r (.not inner) : Result Filter) = _
      rw [bytesOf_singleton, ← List.append_nil inner.node.bytes, hinner]
      rfl
  | equalityMatch attr value =>
      refine ⟨_, readTlv_node hsize rest, ?_⟩
      have hbody := (length_lt_tlv _ _).trans hsize
      rw [Node.bytesOf, bytesOf_singleton, List.length_append] at hbody
      have hattr := length_textNode Tag.octetString attr
      have hvalue := length_textNode Tag.octetString value
      show (do
        let (attr, r) ← decodeTextAt Tag.octetString (Node.bytesOf _)
        let (value, r) ← decodeTextAt Tag.octetString r
        finish r (.equalityMatch attr value) : Result Filter) = _
      rw [Node.bytesOf, decodeTextAt_node (by omega)]
      show (do
        let (value, r) ← decodeTextAt Tag.octetString (Node.bytesOf [textNode Tag.octetString value])
        finish r (.equalityMatch attr value) : Result Filter) = _
      rw [bytesOf_singleton, ← List.append_nil (textNode Tag.octetString value).bytes,
        decodeTextAt_node (by omega)]
      rfl
  | substrings attr initial any final =>
      refine ⟨_, readTlv_node hsize rest, ?_⟩
      have hbody := (length_lt_tlv _ _).trans hsize
      rw [Node.bytesOf, bytesOf_singleton, List.length_append, Node.bytes] at hbody
      have hattr := length_textNode Tag.octetString attr
      have hsegments := length_lt_tlv Tag.sequence (Node.bytesOf (segmentNodes initial any final))
      show (do
        let (attr, r) ← decodeTextAt Tag.octetString (Node.bytesOf _)
        let (subs, r) ← readExpect Tag.sequence r
        let (initial, any, final) ← decodeSegments subs
        finish r (.substrings attr initial any final) : Result Filter) = _
      rw [Node.bytesOf, bytesOf_singleton, Node.bytes]
      have hsmall : (Node.bytesOf (segmentNodes initial any final)).length < usizeLimit := by omega
      simp only [decodeTextAt_node (show attr.utf8.length < usizeLimit by omega), Result.ok_bind,
        readExpect_tlv_end hsmall, decodeSegments_nodes hsmall]
      rfl
  | present attr =>
      have hattr : attr.utf8.length < usizeLimit := (length_lt_tlv _ _).trans hsize
      refine ⟨_, readTlv_tlv hattr rest, ?_⟩
      show (do return .present (← decodeText attr.utf8) : Result Filter) = _
      rw [decodeText_utf8]
      rfl
  | extensibleMatch matchingRule attrType matchValue dnAttributes =>
      refine ⟨_, readTlv_node hsize rest, ?_⟩
      have hbody := (length_lt_tlv _ _).trans hsize
      have hmarker : decodeMarker (Node.bytesOf
          (if dnAttributes then [.primitive (Tag.ctx 4 false) [0xff]] else [])) = .ok dnAttributes := by
        cases dnAttributes <;> rfl
      have hvalue := length_textNode (Tag.ctx 3 false) matchValue
      rw [ruleNodes, bytesOf_append, bytesOf_append, Node.bytesOf] at hbody ⊢
      simp only [List.length_append] at hbody
      show (do
        let (matchingRule, r) ← decodeOpt (Tag.ctx 1 false) _
        let (attrType, r) ← decodeOpt (Tag.ctx 2 false) r
        let (matchValue, r) ← decodeTextAt (Tag.ctx 3 false) r
        return .extensibleMatch matchingRule attrType matchValue (← decodeMarker r) :
          Result Filter) = _
      have hthird : ∀ tag : UInt8, Tag.ctx 3 false ≠ tag → ((textNode (Tag.ctx 3 false) matchValue).bytes ++
          Node.bytesOf (if dnAttributes then [.primitive (Tag.ctx 4 false) [0xff]] else [])).head? ≠
            some tag := fun tag hne h => hne (Option.some.inj h)
      have hrule : (Node.bytesOf (optNodes (Tag.ctx 1 false) matchingRule)).length < usizeLimit := by
        omega
      have htype : (Node.bytesOf (optNodes (Tag.ctx 2 false) attrType)).length < usizeLimit := by omega
      have hnext := head_optNodes (show Tag.ctx 2 false ≠ Tag.ctx 1 false by decide) attrType
        (hthird (Tag.ctx 1 false) (by decide))
      simp only [decodeOpt_nodes hrule hnext, Result.ok_bind,
        decodeOpt_nodes htype (hthird (Tag.ctx 2 false) (by decide)),
        decodeTextAt_node (show matchValue.utf8.length < usizeLimit by omega), hmarker]
      rfl

theorem decodeFilter_node {levels : Nat} (f : Filter) (hsize : f.node.bytes.length < usizeLimit)
    (hlevels : f.node.bytes.length ≤ levels) (rest : Bytes) :
    decodeFilter levels (f.node.bytes ++ rest) = .ok (f, rest) := by
  induction levels generalizing f rest with
  | zero =>
      have hpos : 0 < f.node.bytes.length := by cases f.node <;> exact Nat.succ_pos _
      omega
  | succ levels ih =>
      have hitem : ∀ g : Filter, g.node.bytes.length < f.node.bytes.length →
          ∀ rest, decodeFilter levels (g.node.bytes ++ rest) = .ok (g, rest) :=
        fun g hg rest => ih g (hg.trans hsize) (by omega) rest
      obtain ⟨t, hread, hchoice⟩ := decodeChoice_node f hsize hitem rest
      rw [decodeFilter, hread]
      show (do return (← decodeChoice (decodeFilter levels) t, rest) : Result (Filter × Bytes)) = _
      rw [hchoice]
      rfl

/-! ## The search request -/

/-- An integer as the value of a primitive tag. -/
def intNode (tag : UInt8) (v : Int) : Node := .primitive tag (dropRedundant (toBeBytes v))

/-- The fields of a search request: the limits and flags are the client's own. -/
def searchNodes (q : ParsedUrlQuery) (f : Filter) : List Node :=
  [textNode Tag.octetString q.dn, intNode Tag.enumerated q.scope.asInt, intNode Tag.enumerated 0,
    intNode Tag.integer 100, intNode Tag.integer 30, .primitive Tag.boolean [0x00], f.node,
    .constructed Tag.sequence (q.attrs.map (textNode Tag.octetString))]

def requestNode (messageId : Int32) (q : ParsedUrlQuery) (f : Filter) : Node :=
  .constructed Tag.sequence [intNode Tag.integer messageId.toInt,
    .constructed (Tag.app appSearchRequest true) (searchNodes q f)]

theorem writeInteger_eq (out : Bytes) (v : Int) :
    writeInteger out v = out ++ (intNode Tag.integer v).bytes := by
  rw [writeInteger, writeTlv_eq, intNode, Node.bytes]

theorem writeEnumerated_eq (out : Bytes) (v : Int) :
    writeEnumerated out v = out ++ (intNode Tag.enumerated v).bytes := by
  rw [writeEnumerated, writeTlv_eq, intNode, Node.bytes]

theorem buildSearchRequest_eq (messageId : Int32) {q : ParsedUrlQuery} {f : Filter}
    (hparse : parseFilter q.filter = .ok f) :
    buildSearchRequest messageId q = .ok (requestNode messageId q f).bytes := by
  rw [buildSearchRequest, hparse, Result.ok_bind, requestNode, Node.bytes]
  refine congrArg Except.ok ((writeConstructed_eq (fun w => ?_) [] _).trans (List.nil_append _))
  rw [Node.bytesOf, bytesOf_singleton, Node.bytes, ← List.append_assoc, ← writeInteger_eq]
  refine writeConstructed_eq (fun s => ?_) _ _
  dsimp only
  have hattrs : ∀ a : Bytes, q.attrs.foldl (fun a attr => writeOctetString a attr.utf8) a =
      a ++ Node.bytesOf (q.attrs.map (textNode Tag.octetString)) :=
    fun a => foldl_writeTlv a Tag.octetString q.attrs
  rw [writeConstructed_eq hattrs, encodeFilter_eq, writeBoolean, writeTlv_eq, writeInteger_eq,
    writeInteger_eq, writeEnumerated_eq, writeEnumerated_eq, writeOctetString, writeTlv_text,
    searchNodes]
  simp only [Node.bytesOf, Node.bytes, List.append_assoc, List.append_nil]
  rfl

structure SearchRequest where
  messageId : Int
  dn : Text
  scope : Int
  derefAliases : Int
  sizeLimit : Int
  timeLimit : Int
  typesOnly : Bool
  filter : Filter
  attrs : List Text

def decodeBoolean (r : Bytes) : Result (Bool × Bytes) := do
  let (value, r) ← readExpect Tag.boolean r
  match value with
  | [b] => return (b ≠ 0, r)
  | _ => malformed

/-- A search request that fills the message. -/
def decodeSearch (msg : Bytes) : Result SearchRequest := do
  let (body, end₀) ← readExpect Tag.sequence msg
  let (messageId, r) ← readInteger body
  let (op, end₁) ← readExpect (Tag.app appSearchRequest true) r
  let (dn, r) ← decodeTextAt Tag.octetString op
  let (scope, r) ← readEnumerated r
  let (derefAliases, r) ← readEnumerated r
  let (sizeLimit, r) ← readInteger r
  let (timeLimit, r) ← readInteger r
  let (typesOnly, r) ← decodeBoolean r
  let (filter, r) ← decodeFilter r.length r
  let (selection, end₂) ← readExpect Tag.sequence r
  let (attrs, end₃) ← decodeTexts Tag.octetString selection.length selection
  finish (end₀ ++ end₁ ++ end₂ ++ end₃) {
    messageId, dn, scope, derefAliases, sizeLimit, timeLimit, typesOnly, filter, attrs }

theorem length_intNode (v : Int) : (dropRedundant (toBeBytes v)).length < usizeLimit := by
  have hne : toBeBytes v ≠ [] := List.cons_ne_nil _ _
  exact (dropRedundant_ne_nil hne).2.trans_lt (show 8 < 2 ^ 64 by decide)

theorem readInteger_node {v : Int} (hlow : -(2 ^ 63) ≤ v) (hhigh : v < 2 ^ 63) (rest : Bytes) :
    readInteger ((intNode Tag.integer v).bytes ++ rest) = .ok (v, rest) := by
  simp only [readInteger, intNode, Node.bytes, readExpect_tlv (length_intNode v), Result.ok_bind,
    decodeInteger_toBeBytes hlow hhigh]
  rfl

theorem readEnumerated_node {v : Int} (hlow : -(2 ^ 63) ≤ v) (hhigh : v < 2 ^ 63) (rest : Bytes) :
    readEnumerated ((intNode Tag.enumerated v).bytes ++ rest) = .ok (v, rest) := by
  simp only [readEnumerated, intNode, Node.bytes, readExpect_tlv (length_intNode v), Result.ok_bind,
    decodeInteger_toBeBytes hlow hhigh]
  rfl

theorem asInt_range (s : Scope) : -(2 ^ 63) ≤ s.asInt ∧ s.asInt < 2 ^ 63 := by
  cases s <;> decide

/-- The request gives its parameters and its filter back, and nothing is left. -/
theorem decodeSearch_node (messageId : Int32) (q : ParsedUrlQuery) (f : Filter)
    (h : (requestNode messageId q f).bytes.length < usizeLimit) :
    decodeSearch (requestNode messageId q f).bytes = .ok {
      messageId := messageId.toInt
      dn := q.dn
      scope := q.scope.asInt
      derefAliases := 0
      sizeLimit := 100
      timeLimit := 30
      typesOnly := false
      filter := f
      attrs := q.attrs } := by
  rw [requestNode, Node.bytes] at h ⊢
  have hbody := (length_lt_tlv _ _).trans h
  have hop : (Node.bytesOf (searchNodes q f)).length < usizeLimit := by
    refine Nat.lt_of_le_of_lt ?_ hbody
    rw [Node.bytesOf, bytesOf_singleton, Node.bytes, List.length_append]
    exact (Nat.le_of_lt (length_lt_tlv _ _)).trans (Nat.le_add_left _ _)
  have hfields : Node.bytesOf (searchNodes q f) = (textNode Tag.octetString q.dn).bytes ++
      ((intNode Tag.enumerated q.scope.asInt).bytes ++ ((intNode Tag.enumerated 0).bytes ++
        ((intNode Tag.integer 100).bytes ++ ((intNode Tag.integer 30).bytes ++
          ((Node.primitive Tag.boolean [0x00]).bytes ++ (f.node.bytes ++
            (Node.constructed Tag.sequence (q.attrs.map (textNode Tag.octetString))).bytes)))))) := by
    simp only [searchNodes, Node.bytesOf, List.append_nil]
  have hparts := hop
  rw [hfields] at hparts
  simp only [List.length_append] at hparts
  have hdn := length_textNode Tag.octetString q.dn
  have hlist : (Node.bytesOf (q.attrs.map (textNode Tag.octetString))).length <
      (Node.constructed Tag.sequence (q.attrs.map (textNode Tag.octetString))).bytes.length :=
    length_lt_tlv _ _
  have hfilter : f.node.bytes.length < usizeLimit := by omega
  have hattrs : (Node.bytesOf (q.attrs.map (textNode Tag.octetString))).length < usizeLimit := by omega
  have hid : ∀ rest, readInteger ((intNode Tag.integer messageId.toInt).bytes ++ rest) =
      .ok (messageId.toInt, rest) := by
    have hlow := messageId.le_toInt
    have hhigh := messageId.toInt_lt
    exact fun rest => readInteger_node (by omega) (by omega) rest
  obtain ⟨hlow, hhigh⟩ := asInt_range q.scope
  have hboolean : ∀ rest, decodeBoolean ((Node.primitive Tag.boolean [0x00]).bytes ++ rest) =
      .ok (false, rest) := fun rest => rfl
  have hcount : q.attrs.length ≤ (Node.bytesOf (q.attrs.map (textNode Tag.octetString))).length := by
    have hle := length_le_bytesOf (q.attrs.map (textNode Tag.octetString))
    rwa [List.length_map] at hle
  have hselection : decodeTexts Tag.octetString
      (Node.bytesOf (q.attrs.map (textNode Tag.octetString))).length
      (Node.bytesOf (q.attrs.map (textNode Tag.octetString)) ++ []) = .ok (q.attrs, []) :=
    decodeTexts_nodes hattrs nofun hcount
  rw [List.append_nil] at hselection
  have hread : ∀ rest, decodeFilter (f.node.bytes ++ rest).length (f.node.bytes ++ rest) =
      .ok (f, rest) := by
    intro rest
    refine decodeFilter_node f hfilter ?_ rest
    rw [List.length_append]
    exact Nat.le_add_right _ _
  rw [decodeSearch]
  simp only [readExpect_tlv_end hbody, Result.ok_bind]
  rw [Node.bytesOf, bytesOf_singleton, Node.bytes]
  simp only [hid, Result.ok_bind, readExpect_tlv_end hop]
  rw [hfields]
  simp only [Result.ok_bind, decodeTextAt_node (show q.dn.utf8.length < usizeLimit by omega),
    readEnumerated_node hlow hhigh, readEnumerated_node (show -(2 ^ 63) ≤ (0 : Int) by decide)
      (show (0 : Int) < 2 ^ 63 by decide), readInteger_node (show -(2 ^ 63) ≤ (100 : Int) by decide)
      (show (100 : Int) < 2 ^ 63 by decide), readInteger_node (show -(2 ^ 63) ≤ (30 : Int) by decide)
      (show (30 : Int) < 2 ^ 63 by decide), hboolean, hread]
  rw [Node.bytes, readExpect_tlv_end hattrs]
  simp only [Result.ok_bind, hselection]
  rfl

/-! ## Both together -/

/-- A filter, and every request with it, is read back as it was; the lengths at every level are
exact and the shortest there are, and nothing is left over. -/
theorem written_read_back {f : Filter} (hf : (encodeFilter f []).length < usizeLimit) :
    (decodeFilter (encodeFilter f []).length (encodeFilter f []) = .ok (f, []) ∧
      IsNode f.node (encodeFilter f [])) ∧
    ∀ (messageId : Int32) (q : ParsedUrlQuery), parseFilter q.filter = .ok f →
      ∃ msg, buildSearchRequest messageId q = .ok msg ∧ (msg.length < usizeLimit →
        decodeSearch msg = .ok {
          messageId := messageId.toInt
          dn := q.dn
          scope := q.scope.asInt
          derefAliases := 0
          sizeLimit := 100
          timeLimit := 30
          typesOnly := false
          filter := f
          attrs := q.attrs } ∧
        IsNode (requestNode messageId q f) msg) := by
  have hlimit : usizeLimit < 256 ^ 126 := by decide
  rw [encodeFilter_eq, List.nil_append] at hf ⊢
  have hread := decodeFilter_node f hf (Nat.le_refl _) []
  rw [List.append_nil] at hread
  refine ⟨⟨hread, isNode_bytes _ (hf.trans hlimit)⟩, fun messageId q hparse =>
    ⟨_, buildSearchRequest_eq messageId hparse, fun hmsg => ?_⟩⟩
  exact ⟨decodeSearch_node messageId q f hmsg, isNode_bytes _ (hmsg.trans hlimit)⟩

/-- A search for one attribute of the entries without a common name. -/
def sampleQuery : ParsedUrlQuery :=
  ⟨"dc=x".toList, ["sn".toList], .subtree, "(!(cn=*))".toList⟩

theorem written_read_back_sample :
    decodeFilter (encodeFilter (.not (.present "cn".toList)) []).length
        (encodeFilter (.not (.present "cn".toList)) []) = .ok (.not (.present "cn".toList), []) ∧
      ∃ msg, buildSearchRequest 2 sampleQuery = .ok msg ∧ decodeSearch msg = .ok {
        messageId := 2
        dn := "dc=x".toList
        scope := Scope.subtree.asInt
        derefAliases := 0
        sizeLimit := 100
        timeLimit := 30
        typesOnly := false
        filter := .not (.present "cn".toList)
        attrs := ["sn".toList] } := by
  have hsize : (encodeFilter (.not (.present "cn".toList)) []).length < usizeLimit := by decide
  have hparse : parseFilter sampleQuery.filter = .ok (.not (.present "cn".toList)) := rfl
  obtain ⟨⟨hfilter, -⟩, hrequest⟩ := written_read_back hsize
  obtain ⟨msg, hmsg, hread⟩ := hrequest 2 sampleQuery hparse
  have hlength : ((buildSearchRequest 2 sampleQuery).toOption.all fun msg =>
      msg.length < usizeLimit) = true := by
    decide +kernel
  rw [hmsg] at hlength
  exact ⟨hfilter, msg, hmsg, (hread (of_decide_eq_true hlength)).1⟩

end Rsurl.Ldap
