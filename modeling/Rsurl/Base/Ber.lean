/-
# `Rsurl.Base.Ber` — definite-length BER

Length octets with the values they have, the shortest of them, and trees of
tagged values in which every length is the exact length of what it encloses,
written the shortest way.
-/
import Mathlib.Data.Nat.Digits.Lemmas

namespace Rsurl.Base

/-- The value of big-endian bytes. -/
def beValue (bytes : List UInt8) : Nat := bytes.foldl (fun acc b => acc * 256 + b.toNat) 0

theorem beValue_reverse (l : List UInt8) : beValue l.reverse = Nat.ofDigits 256 (l.map UInt8.toNat) := by
  rw [beValue, List.foldl_reverse]
  induction l with
  | nil => rfl
  | cons b l ih =>
      rw [List.foldr_cons, ih, List.map_cons, Nat.ofDigits_cons]
      omega

theorem beValue_lt (l : List UInt8) : beValue l < 256 ^ l.length := by
  rw [← List.reverse_reverse l, beValue_reverse, List.length_reverse]
  have hlt : ∀ d ∈ l.reverse.map UInt8.toNat, d < 256 := by
    intro d hd
    obtain ⟨b, -, rfl⟩ := List.mem_map.mp hd
    exact b.toNat_lt
  have h := Nat.ofDigits_lt_base_pow_length (by decide) hlt
  rwa [List.length_map] at h

theorem beValue_cons (b : UInt8) (l : List UInt8) :
    beValue (b :: l) = b.toNat * 256 ^ l.length + beValue l := by
  have hrev : beValue (b :: l) = beValue (l.reverse ++ [b]).reverse := by simp
  rw [hrev, beValue_reverse, List.map_append, Nat.ofDigits_append, List.length_map,
    List.length_reverse, ← beValue_reverse, List.reverse_reverse]
  simp [Nat.ofDigits_cons, Nat.mul_comm, Nat.add_comm]

/-- The last `width` base-256 digits of a number, the most significant first. -/
def beBytes : Nat → Nat → List UInt8
  | 0, _ => []
  | width + 1, n => UInt8.ofNat (n / 256 ^ width) :: beBytes width n

@[simp] theorem length_beBytes (width n : Nat) : (beBytes width n).length = width := by
  induction width with
  | zero => rfl
  | succ width ih => rw [beBytes, List.length_cons, ih]

theorem beValue_beBytes (width n : Nat) : beValue (beBytes width n) = n % 256 ^ width := by
  induction width with
  | zero => rw [beBytes, pow_zero, Nat.mod_one]; rfl
  | succ width ih =>
      have hsplit : n % 256 ^ (width + 1) = n % 256 ^ width + 256 ^ width * (n / 256 ^ width % 256) :=
        Nat.mod_pow_succ
      rw [beBytes, beValue_cons, ih, length_beBytes, UInt8.toNat_ofNat', hsplit, Nat.mul_comm,
        Nat.add_comm]

namespace Ber

/-! ## Length octets -/

/-- Length octets and the length they stand for: the short form, or the number of octets of a
long one and these. -/
inductive IsLength : List UInt8 → Nat → Prop
  | short {n : Nat} (h : n < 128) : IsLength [UInt8.ofNat n] n
  | long {octets : List UInt8} (hpos : octets ≠ []) (hlen : octets.length < 127) :
      IsLength ((0x80 ||| UInt8.ofNat octets.length) :: octets) (beValue octets)

/-- The shortest octets of a length. -/
structure Minimal (octets : List UInt8) (n : Nat) : Prop where
  is_length : IsLength octets n
  shortest : ∀ octets', IsLength octets' n → octets.length ≤ octets'.length

/-- The base-256 digits of a number, the most significant first. -/
def octets (n : Nat) : List UInt8 := ((Nat.digits 256 n).map UInt8.ofNat).reverse

def lengthBytes (n : Nat) : List UInt8 :=
  if n < 0x80 then [UInt8.ofNat n] else (0x80 ||| UInt8.ofNat (octets n).length) :: octets n

theorem beValue_octets (n : Nat) : beValue (octets n) = n := by
  rw [octets, beValue_reverse, List.map_map]
  have hmap : (Nat.digits 256 n).map (UInt8.toNat ∘ UInt8.ofNat) = Nat.digits 256 n := by
    refine (List.map_congr_left fun d hd => ?_).trans (List.map_id _)
    have hlt : d < 256 := Nat.digits_lt_base (by decide) hd
    show (UInt8.ofNat d).toNat = d
    rw [UInt8.toNat_ofNat']
    exact Nat.mod_eq_of_lt hlt
  rw [hmap, Nat.ofDigits_digits]

theorem length_octets_le {n k : Nat} (h : n < 256 ^ k) : (octets n).length ≤ k := by
  rw [octets, List.length_reverse, List.length_map]
  exact (Nat.digits_length_le_iff (by decide) n).mpr h

theorem octets_ne_nil {n : Nat} (h : n ≠ 0) : octets n ≠ [] := by
  simp [octets, Nat.digits_ne_nil_iff_ne_zero, h]

theorem isLength_lengthBytes {n : Nat} (h : n < 256 ^ 126) : IsLength (lengthBytes n) n := by
  rw [lengthBytes]
  split
  · next hshort => exact .short hshort
  · next hlong =>
      have hlen := length_octets_le h
      have hval := beValue_octets n
      have his := IsLength.long (octets_ne_nil (n := n) (by omega)) (by omega)
      rwa [hval] at his

theorem minimal_lengthBytes {n : Nat} (h : n < 256 ^ 126) : Minimal (lengthBytes n) n where
  is_length := isLength_lengthBytes h
  shortest octets' his := by
    rw [lengthBytes]
    split
    · cases his <;> simp
    · next hlong =>
        cases his with
        | short hshort => exact absurd hshort hlong
        | long hpos hlen =>
            rw [List.length_cons, List.length_cons]
            exact Nat.succ_le_succ (length_octets_le (beValue_lt _))

/-! ## Trees -/

/-- A tagged value: bytes, or further tagged values. -/
inductive Node where
  | primitive (tag : UInt8) (value : List UInt8)
  | constructed (tag : UInt8) (items : List Node)

/-- A tag, the length and the value. -/
def tlv (tag : UInt8) (value : List UInt8) : List UInt8 :=
  tag :: lengthBytes value.length ++ value

mutual

def Node.bytes : Node → List UInt8
  | .primitive tag value => tlv tag value
  | .constructed tag items => tlv tag (Node.bytesOf items)

def Node.bytesOf : List Node → List UInt8
  | [] => []
  | n :: ns => n.bytes ++ Node.bytesOf ns

end

mutual

/-- Bytes that are a tree, every length in them exact and minimal. -/
inductive IsNode : Node → List UInt8 → Prop
  | primitive {tag : UInt8} {value hdr : List UInt8} (h : Minimal hdr value.length) :
      IsNode (.primitive tag value) (tag :: hdr ++ value)
  | constructed {tag : UInt8} {items : List Node} {body hdr : List UInt8} (hitems : IsNodes items body)
      (h : Minimal hdr body.length) : IsNode (.constructed tag items) (tag :: hdr ++ body)

inductive IsNodes : List Node → List UInt8 → Prop
  | nil : IsNodes [] []
  | cons {n : Node} {ns : List Node} {bytes rest : List UInt8} (h : IsNode n bytes)
      (hs : IsNodes ns rest) : IsNodes (n :: ns) (bytes ++ rest)

end

theorem bytesOf_append (ns ms : List Node) :
    Node.bytesOf (ns ++ ms) = Node.bytesOf ns ++ Node.bytesOf ms := by
  induction ns with
  | nil => rfl
  | cons n ns ih => rw [List.cons_append, Node.bytesOf, Node.bytesOf, ih, List.append_assoc]

theorem length_lt_tlv (tag : UInt8) (value : List UInt8) : value.length < (tlv tag value).length := by
  rw [tlv, List.length_append, List.length_cons]
  omega

mutual

theorem isNode_bytes : ∀ n : Node, n.bytes.length < 256 ^ 126 → IsNode n n.bytes
  | .primitive tag value, h => by
      rw [Node.bytes] at h ⊢
      exact .primitive (minimal_lengthBytes ((length_lt_tlv tag value).trans h))
  | .constructed tag items, h => by
      rw [Node.bytes] at h ⊢
      have hbody := (length_lt_tlv tag (Node.bytesOf items)).trans h
      exact .constructed (isNodes_bytes items hbody) (minimal_lengthBytes hbody)

theorem isNodes_bytes : ∀ ns : List Node, (Node.bytesOf ns).length < 256 ^ 126 →
    IsNodes ns (Node.bytesOf ns)
  | [], _ => .nil
  | n :: ns, h => by
      rw [Node.bytesOf, List.length_append] at h
      rw [Node.bytesOf]
      exact .cons (isNode_bytes n (by omega)) (isNodes_bytes ns (by omega))

end

/-! ## A tree is read one way

Whether a value is bytes or further values is in its tag. -/

mutual

/-- The bit for further values is set in the tags that have them, and in no other. -/
def Node.Tagged : Node → Prop
  | .primitive tag _ => tag &&& 0x20 = 0
  | .constructed tag items => tag &&& 0x20 ≠ 0 ∧ Node.AllTagged items

def Node.AllTagged : List Node → Prop
  | [] => True
  | n :: ns => n.Tagged ∧ Node.AllTagged ns

end

theorem allTagged_append {ns ms : List Node} (hn : Node.AllTagged ns) (hm : Node.AllTagged ms) :
    Node.AllTagged (ns ++ ms) := by
  induction ns with
  | nil => exact hm
  | cons n ns ih => exact ⟨hn.1, ih hn.2⟩

theorem allTagged_of_forall {ns : List Node} (h : ∀ n ∈ ns, n.Tagged) : Node.AllTagged ns := by
  induction ns with
  | nil => trivial
  | cons n ns ih =>
      exact ⟨h n List.mem_cons_self, ih fun m hm => h m (List.mem_cons_of_mem _ hm)⟩

theorem toNat_long {count : Nat} (h : count < 127) :
    (0x80 ||| UInt8.ofNat count).toNat = 128 + count := by
  have hall : ∀ k : Fin 127, (0x80 ||| UInt8.ofNat k.val).toNat = 128 + k.val := by decide
  exact hall ⟨count, h⟩

theorem toNat_short {n : Nat} (h : n < 128) : (UInt8.ofNat n).toNat = n := by
  rw [UInt8.toNat_ofNat']
  exact Nat.mod_eq_of_lt (by omega)

/-- The first octet says how many there are. -/
theorem IsLength.unique {hdr hdr' rest rest' : List UInt8} {n n' : Nat} (h : IsLength hdr n)
    (h' : IsLength hdr' n') (heq : hdr ++ rest = hdr' ++ rest') : n = n' ∧ rest = rest' := by
  cases h with
  | short hn =>
      cases h' with
      | short hn' =>
          obtain ⟨hfirst, hrest⟩ := List.cons.inj heq
          have hval := congrArg UInt8.toNat hfirst
          rw [toNat_short hn, toNat_short hn'] at hval
          exact ⟨hval, hrest⟩
      | long hpos' hlen' =>
          have hval := congrArg UInt8.toNat (List.cons.inj heq).1
          rw [toNat_short hn, toNat_long hlen'] at hval
          omega
  | long hpos hlen =>
      cases h' with
      | short hn' =>
          have hval := congrArg UInt8.toNat (List.cons.inj heq).1
          rw [toNat_short hn', toNat_long hlen] at hval
          omega
      | long hpos' hlen' =>
          obtain ⟨hfirst, hoctets⟩ := List.cons.inj heq
          have hval := congrArg UInt8.toNat hfirst
          rw [toNat_long hlen, toNat_long hlen'] at hval
          obtain ⟨rfl, hrest⟩ := List.append_inj hoctets (by omega)
          exact ⟨rfl, hrest⟩

/-- The value ends where the length says. -/
theorem unique_value {tag tag' : UInt8} {hdr hdr' value value' rest rest' : List UInt8}
    (h : Minimal hdr value.length) (h' : Minimal hdr' value'.length)
    (heq : (tag :: hdr ++ value) ++ rest = (tag' :: hdr' ++ value') ++ rest') :
    tag = tag' ∧ value = value' ∧ rest = rest' := by
  rw [List.append_assoc, List.append_assoc, List.cons_append, List.cons_append] at heq
  obtain ⟨htag, hbytes⟩ := List.cons.inj heq
  obtain ⟨hlen, hvalue⟩ := h.is_length.unique h'.is_length hbytes
  exact ⟨htag, List.append_inj hvalue hlen⟩

theorem IsNode.ne_nil {n : Node} {bytes : List UInt8} (h : IsNode n bytes) : bytes ≠ [] := by
  cases h <;> exact List.cons_ne_nil _ _

mutual

/-- Bytes begin with one tree at most. -/
theorem IsNode.unique : ∀ {n m : Node} {bytes bytes' rest rest' : List UInt8}, IsNode n bytes →
    IsNode m bytes' → n.Tagged → m.Tagged → bytes ++ rest = bytes' ++ rest' → n = m ∧ rest = rest'
  | .primitive _ _, .primitive _ _, _, _, _, _, .primitive h, .primitive h', _, _, heq => by
      obtain ⟨rfl, rfl, hrest⟩ := unique_value h h' heq
      exact ⟨rfl, hrest⟩
  | .primitive _ _, .constructed _ _, _, _, _, _, .primitive h, .constructed _ h', ht, ht', heq => by
      obtain ⟨rfl, -, -⟩ := unique_value h h' heq
      exact absurd ht ht'.1
  | .constructed _ _, .primitive _ _, _, _, _, _, .constructed _ h, .primitive h', ht, ht', heq => by
      obtain ⟨rfl, -, -⟩ := unique_value h h' heq
      exact absurd ht' ht.1
  | .constructed _ _, .constructed _ _, _, _, _, _, .constructed hitems h, .constructed hitems' h',
      ht, ht', heq => by
      obtain ⟨rfl, rfl, hrest⟩ := unique_value h h' heq
      exact ⟨congrArg _ (IsNodes.unique hitems hitems' ht.2 ht'.2), hrest⟩

theorem IsNodes.unique : ∀ {ns ms : List Node} {bytes : List UInt8}, IsNodes ns bytes →
    IsNodes ms bytes → Node.AllTagged ns → Node.AllTagged ms → ns = ms
  | [], [], _, _, _, _, _ => rfl
  | [], m :: ms, _, .nil, h', _, _ => by
      generalize hbytes : ([] : List UInt8) = bytes at h'
      cases h' with
      | cons hm hms => exact absurd (List.append_eq_nil_iff.mp hbytes.symm).1 hm.ne_nil
  | n :: ns, [], _, h, h', _, _ => by
      cases h'
      generalize hbytes : ([] : List UInt8) = bytes at h
      cases h with
      | cons hn hns => exact absurd (List.append_eq_nil_iff.mp hbytes.symm).1 hn.ne_nil
  | n :: ns, m :: ms, bytes, h, h', ht, ht' => by
      generalize hbytes : bytes = bytes' at h'
      cases h with
      | cons hn hns =>
          cases h' with
          | cons hm hms =>
              obtain ⟨rfl, rfl⟩ := hn.unique hm ht.1 ht'.1 hbytes
              rw [IsNodes.unique hns hms ht.2 ht'.2]

end

end Ber

end Rsurl.Base
