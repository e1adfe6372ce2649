/-
# `Rsurl.Ldap.Ldif` — the records a search result is printed as

The text of an entry read back by the grammar of RFC 2849: lines, unfolded and
without comments, records up to an empty line, values plain, in Base64 or by
reference.  Whatever bytes the server puts in the name, the attribute names
and the values, there is one record an entry, with its own values in it.
-/
import Rsurl.Base.Base64
import Rsurl.Ldap

namespace Rsurl.Ldap

open Base.Base64 (sextet decode decode_group decode_one decode_two)

/-! ## The Base64 encoder -/

theorem sextet_base64Char {i : UInt8} (h : i.toNat < 64) : sextet (base64Char i) = some i.toNat := by
  have hall : ∀ n : Fin 64, sextet (base64Char (UInt8.ofNat n.val)) = some n.val := by decide +kernel
  have hi := hall ⟨i.toNat, h⟩
  rwa [UInt8.ofNat_toNat] at hi

theorem toNat_shiftRight {b : UInt8} {k : UInt8} (hk : k.toNat < 8) :
    (b >>> k).toNat = b.toNat / 2 ^ k.toNat := by
  rw [UInt8.toNat_shiftRight, Nat.mod_eq_of_lt hk, Nat.shiftRight_eq_div_pow]

theorem toNat_and_mask {b m : UInt8} {k : Nat} (hm : m.toNat = 2 ^ k - 1) :
    (b &&& m).toNat = b.toNat % 2 ^ k := by
  rw [UInt8.toNat_and, hm, Nat.and_two_pow_sub_one_eq_mod]

/-- The low bits of one byte above the high bits of the next. -/
theorem toNat_shiftLeft_or {u v k : UInt8} (hk : k.toNat < 8) (hu : u.toNat * 2 ^ k.toNat < 256)
    (hv : v.toNat < 2 ^ k.toNat) : (u <<< k ||| v).toNat = u.toNat * 2 ^ k.toNat + v.toNat := by
  rw [UInt8.toNat_or, UInt8.toNat_shiftLeft, Nat.mod_eq_of_lt hk, Nat.shiftLeft_eq,
    Nat.mod_eq_of_lt hu, ← Nat.shiftLeft_eq, Nat.shiftLeft_add_eq_or_of_lt hv]

theorem toNat_high (b : UInt8) : (b >>> 2).toNat = b.toNat / 4 := toNat_shiftRight (by decide)

theorem toNat_second (b₀ b₁ : UInt8) :
    (((b₀ &&& 0x03) <<< 4) ||| (b₁ >>> 4)).toNat = b₀.toNat % 4 * 16 + b₁.toNat / 16 := by
  have hand : (b₀ &&& 0x03).toNat = b₀.toNat % 4 := toNat_and_mask (k := 2) rfl
  have hshift : (b₁ >>> 4).toNat = b₁.toNat / 16 := toNat_shiftRight (by decide)
  have h₁ := b₁.toNat_lt
  rw [toNat_shiftLeft_or (by decide), hand, hshift]
  · rfl
  · rw [hand]
    show _ * 16 < 256
    omega
  · rw [hshift]
    show _ < 16
    omega

theorem toNat_third (b₁ b₂ : UInt8) :
    (((b₁ &&& 0x0f) <<< 2) ||| (b₂ >>> 6)).toNat = b₁.toNat % 16 * 4 + b₂.toNat / 64 := by
  have hand : (b₁ &&& 0x0f).toNat = b₁.toNat % 16 := toNat_and_mask (k := 4) rfl
  have hshift : (b₂ >>> 6).toNat = b₂.toNat / 64 := toNat_shiftRight (by decide)
  have h₂ := b₂.toNat_lt
  rw [toNat_shiftLeft_or (by decide), hand, hshift]
  · rfl
  · rw [hand]
    show _ * 4 < 256
    omega
  · rw [hshift]
    show _ < 4
    omega

theorem toNat_low (b : UInt8) : (b &&& 0x3f).toNat = b.toNat % 64 := toNat_and_mask (k := 6) rfl

theorem toNat_second_alone (b : UInt8) : ((b &&& 0x03) <<< 4).toNat = b.toNat % 4 * 16 := by
  have h := toNat_second b 0
  rwa [show (0 : UInt8) >>> 4 = 0 from rfl, UInt8.or_zero] at h

theorem toNat_third_alone (b : UInt8) : ((b &&& 0x0f) <<< 2).toNat = b.toNat % 16 * 4 := by
  have h := toNat_third b 0
  rwa [show (0 : UInt8) >>> 6 = 0 from rfl, UInt8.or_zero] at h

theorem ofNat_eq {b : UInt8} {n : Nat} (h : n = b.toNat) : UInt8.ofNat n = b := by
  rw [h, UInt8.ofNat_toNat]

theorem decode_base64Encode (bytes : Bytes) : decode (base64Encode bytes) = some bytes := by
  fun_induction base64Encode bytes with
  | case1 b₀ b₁ b₂ rest ih =>
      have h₀ := b₀.toNat_lt
      have h₁ := b₁.toNat_lt
      have h₂ := b₂.toNat_lt
      rw [decode_group (sextet_base64Char (by rw [toNat_high]; omega))
        (sextet_base64Char (by rw [toNat_second]; omega))
        (sextet_base64Char (by rw [toNat_third]; omega))
        (sextet_base64Char (by rw [toNat_low]; omega)) ih, toNat_high, toNat_second, toNat_third,
        toNat_low, ofNat_eq (b := b₀) (by omega), ofNat_eq (b := b₁) (by omega),
        ofNat_eq (b := b₂) (by omega)]
  | case2 b₀ b₁ =>
      have h₀ := b₀.toNat_lt
      have h₁ := b₁.toNat_lt
      have hlast := toNat_third_alone b₁
      rw [decode_two (sextet_base64Char (by rw [toNat_high]; omega))
        (sextet_base64Char (by rw [toNat_second]; omega))
        (sextet_base64Char (by rw [hlast]; omega)) (by rw [hlast]; omega), toNat_high, toNat_second,
        hlast, ofNat_eq (b := b₀) (by omega), ofNat_eq (b := b₁) (by omega)]
  | case3 b₀ =>
      have h₀ := b₀.toNat_lt
      have hlast := toNat_second_alone b₀
      rw [decode_one (sextet_base64Char (by rw [toNat_high]; omega))
        (sextet_base64Char (by rw [hlast]; omega)) (by rw [hlast]; omega), toNat_high, hlast,
        ofNat_eq (b := b₀) (by omega)]
  | case4 => rfl

/-! ## Reading LDIF

The content records of RFC 2849: a `dn` line, lines of attribute values, an empty line. -/

structure Record where
  dn : Bytes
  attrs : List (Bytes × Bytes)
deriving DecidableEq, Repr

/-- The lines of a text, without their line feeds. -/
def toLines : Bytes → List Bytes
  | [] => []
  | b :: bs =>
      if b = 10 then [] :: toLines bs
      else match toLines bs with
        | [] => [[b]]
        | l :: ls => (b :: l) :: ls

/-- A line that ended in CR LF. -/
def chomp (l : Bytes) : Bytes := if l.getLast? = some 13 then l.dropLast else l

/-- A line that starts with a space continues the one before. -/
def unfoldLines : List Bytes → List Bytes
  | [] => []
  | l :: ls =>
      match unfoldLines ls with
      | (32 :: more) :: rest => (l ++ more) :: rest
      | rest => l :: rest

def isComment (l : Bytes) : Bool := l.head? = some 35

/-- SAFE-STRING, or nothing. -/
def isSafeString : Bytes → Bool
  | [] => true
  | first :: rest =>
      (first ≠ 32 && first ≠ 58 && first ≠ 60) &&
        (first :: rest).all fun b => b ≠ 0 && b ≠ 10 && b ≠ 13 && b < 0x80

/-- The value behind the first colon of a line. -/
def readLdifValue : Bytes → Option Bytes
  | 58 :: code => decode ((code.dropWhile (· = 32)).map fun b => Char.ofNat b.toNat)
  | 60 :: _ => none
  | v =>
      let v := v.dropWhile (· = 32)
      if isSafeString v then some v else none

/-- A line: a name, a colon, a value. -/
def readLdifLine (l : Bytes) : Option (Bytes × Bytes) :=
  let name := l.takeWhile (· ≠ 58)
  if name ≠ [] && name.all isNameByte then
    match l.dropWhile (· ≠ 58) with
    | _ :: value => (readLdifValue value).map fun v => (name, v)
    | [] => none
  else none

/-- The records of the lines, with the one that is being read. -/
def readRecords : Option Record → List Bytes → Option (List Record)
  | none, [] => some []
  | some r, [] => some [r]
  | none, [] :: ls => readRecords none ls
  | some r, [] :: ls => (readRecords none ls).map (r :: ·)
  | none, (b :: l) :: ls => do
      let (name, v) ← readLdifLine (b :: l)
      if name = Text.utf8 "dn".toList then readRecords (some ⟨v, []⟩) ls else none
  | some r, (b :: l) :: ls => do
      let line ← readLdifLine (b :: l)
      readRecords (some ⟨r.dn, r.attrs ++ [line]⟩) ls

/-- The records of a text. -/
def readLdif (text : Bytes) : Option (List Record) :=
  readRecords none ((unfoldLines ((toLines text).map chomp)).filter fun l => !isComment l)

/-! ## One line -/

/-- A line the writer makes: no line feed, no CR at its end, and it neither continues a line nor
is a comment. -/
structure Plain (l : Bytes) : Prop where
  no_lf : 10 ∉ l
  no_cr : l.getLast? ≠ some 13
  start : l.head? ≠ some 32 ∧ l.head? ≠ some 35

/-- What a value is written as, behind the name. -/
def ldifValue (value : Bytes) : Bytes :=
  if ldifIsSafe value then 58 :: 32 :: value
  else 58 :: 58 :: 32 :: (base64Encode value).utf8

def ldifLine (name : Text) (value : Bytes) : Bytes := name.utf8 ++ ldifValue value

theorem writeLdifLine_eq (out : Bytes) (name : Text) (value : Bytes) :
    writeLdifLine out name value = out ++ (ldifLine name value ++ [10]) := by
  have hplain : Text.utf8 ": ".toList = [58, 32] := by decide
  have hcoded : Text.utf8 ":: ".toList = [58, 58, 32] := by decide
  rw [writeLdifLine, ldifLine, ldifValue]
  split
  · rw [hplain]
    simp only [List.append_assoc, List.cons_append, List.nil_append]
  · rw [hcoded]
    simp only [List.append_assoc, List.cons_append, List.nil_append]

theorem mem_base64Encode {bytes : Bytes} {c : Char} (h : c ∈ base64Encode bytes) :
    c = '=' ∨ ∃ i, c = base64Char i := by
  fun_induction base64Encode bytes with
  | case1 b₀ b₁ b₂ rest ih =>
      simp only [List.mem_cons] at h
      rcases h with h | h | h | h | h
      · exact .inr ⟨_, h⟩
      · exact .inr ⟨_, h⟩
      · exact .inr ⟨_, h⟩
      · exact .inr ⟨_, h⟩
      · exact ih h
  | case2 b₀ b₁ =>
      simp only [List.mem_cons, List.not_mem_nil, or_false] at h
      rcases h with h | h | h | h
      · exact .inr ⟨_, h⟩
      · exact .inr ⟨_, h⟩
      · exact .inr ⟨_, h⟩
      · exact .inl h
  | case3 b₀ =>
      simp only [List.mem_cons, List.not_mem_nil, or_false] at h
      rcases h with h | h | h | h
      · exact .inr ⟨_, h⟩
      · exact .inr ⟨_, h⟩
      · exact .inl h
      · exact .inl h
  | case4 => cases h

/-- A character that is ASCII and neither ends a line nor is a space. -/
def IsInk (c : Char) : Prop := c.toNat < 128 ∧ c.toNat ≠ 10 ∧ c.toNat ≠ 13 ∧ c.toNat ≠ 32

instance (c : Char) : Decidable (IsInk c) := inferInstanceAs (Decidable (_ ∧ _))

theorem isInk_base64 {bytes : Bytes} {c : Char} (h : c ∈ base64Encode bytes) : IsInk c := by
  have hall : ∀ n : Fin 256, IsInk (base64Char (UInt8.ofNat n.val)) := by decide +kernel
  rcases mem_base64Encode h with rfl | ⟨i, rfl⟩
  · decide
  · have hi := hall ⟨i.toNat, i.toNat_lt⟩
    rwa [UInt8.ofNat_toNat] at hi

theorem utf8_of_ascii {t : Text} (h : ∀ c ∈ t, c.toNat < 128) :
    t.utf8 = t.map fun c => UInt8.ofNat c.toNat := by
  induction t with
  | nil => rfl
  | cons c t ih =>
      have hone : String.utf8EncodeChar c = [UInt8.ofNat c.toNat] := by
        refine String.utf8EncodeChar_eq_singleton ?_
        rw [Char.utf8Size_eq_one_iff]
        have hc := h c List.mem_cons_self
        exact UInt32.le_iff_toNat_le.mpr (Nat.le_of_lt_succ hc)
      rw [Text.utf8_cons, hone, ih fun d hd => h d (List.mem_cons_of_mem _ hd), List.map_cons,
        List.singleton_append]

theorem toNat_ofNat_ink {c : Char} (h : IsInk c) : (UInt8.ofNat c.toNat).toNat = c.toNat := by
  rw [UInt8.toNat_ofNat']
  exact Nat.mod_eq_of_lt (h.1.trans (by decide))

/-- The encoding, as the characters its bytes are. -/
theorem map_utf8_ink {t : Text} (h : ∀ c ∈ t, IsInk c) :
    t.utf8.map (fun b => Char.ofNat b.toNat) = t := by
  rw [utf8_of_ascii fun c hc => (h c hc).1, List.map_map]
  refine (List.map_congr_left fun c hc => ?_).trans (List.map_id t)
  show Char.ofNat (UInt8.ofNat c.toNat).toNat = c
  rw [toNat_ofNat_ink (h c hc), Char.ofNat_toNat]

/-- A byte of such a text. -/
theorem mem_utf8_ink {t : Text} (h : ∀ c ∈ t, IsInk c) {b : UInt8} (hb : b ∈ t.utf8) :
    b ≠ 10 ∧ b ≠ 13 ∧ b ≠ 32 := by
  rw [utf8_of_ascii fun c hc => (h c hc).1] at hb
  obtain ⟨c, hc, rfl⟩ := List.mem_map.mp hb
  have hval := toNat_ofNat_ink (h c hc)
  obtain ⟨-, h10, h13, h32⟩ := h c hc
  refine ⟨fun he => h10 ?_, fun he => h13 ?_, fun he => h32 ?_⟩ <;> rw [← hval, he] <;> rfl

/-! ## What a line is read as -/

theorem isNameByte_ne {b : UInt8} (h : isNameByte b = true) :
    b ≠ 58 ∧ b ≠ 10 ∧ b ≠ 13 ∧ b ≠ 32 ∧ b ≠ 35 := by
  refine ⟨?_, ?_, ?_, ?_, ?_⟩ <;> rintro rfl <;> exact absurd h (by decide)

/-- A name that may stand in front of a value. -/
def SafeName (name : Bytes) : Prop := name ≠ [] ∧ ∀ b ∈ name, isNameByte b = true

theorem ldifIsSafe_cons {first : UInt8} {rest : Bytes} (h : ldifIsSafe (first :: rest) = true) :
    (first ≠ 32 ∧ first ≠ 58 ∧ first ≠ 60) ∧
      ∀ b ∈ first :: rest, b ≠ 0 ∧ b ≠ 10 ∧ b ≠ 13 ∧ b < 0x80 := by
  rw [ldifIsSafe] at h
  split at h
  · cases h
  · next hfirst =>
      refine ⟨⟨fun he => hfirst (.inl he), fun he => hfirst (.inr (.inl he)),
        fun he => hfirst (.inr (.inr he))⟩, fun b hb => ?_⟩
      have hbyte := List.all_eq_true.mp h b hb
      simp only [Bool.not_eq_true', Bool.or_eq_false_iff, beq_eq_false_iff_ne, ne_eq,
        decide_eq_false_iff_not] at hbyte
      obtain ⟨⟨⟨h0, h13⟩, h10⟩, h80⟩ := hbyte
      exact ⟨h0, h10, h13, UInt8.not_le.mp h80⟩

theorem readLdifValue_plain {value : Bytes} (h : ldifIsSafe value = true) :
    readLdifValue (32 :: value) = some value := by
  have hdrop : (32 :: value).dropWhile (· = (32 : UInt8)) = value := by
    cases value with
    | nil => rfl
    | cons first rest => simp [(ldifIsSafe_cons h).1.1]
  have hsafe : isSafeString value = true := by
    cases value with
    | nil => rfl
    | cons first rest =>
        obtain ⟨⟨h32, h58, h60⟩, hall⟩ := ldifIsSafe_cons h
        simp only [isSafeString, h32, h58, h60, ne_eq, not_false_eq_true, decide_true, Bool.and_self,
          Bool.true_and, List.all_eq_true, Bool.and_eq_true, decide_eq_true_eq]
        exact fun b hb => ⟨⟨⟨(hall b hb).1, (hall b hb).2.1⟩, (hall b hb).2.2.1⟩, (hall b hb).2.2.2⟩
  show (if isSafeString ((32 :: value).dropWhile (· = 32)) then some _ else none) = _
  rw [hdrop, if_pos hsafe]

theorem readLdifValue_coded (value : Bytes) :
    readLdifValue (58 :: 32 :: (base64Encode value).utf8) = some value := by
  have hink : ∀ c ∈ base64Encode value, IsInk c := fun c hc => isInk_base64 hc
  have hdrop : (32 :: (base64Encode value).utf8).dropWhile (· = (32 : UInt8)) =
      (base64Encode value).utf8 := by
    rw [List.dropWhile_cons_of_pos (by decide)]
    cases hcode : (base64Encode value).utf8 with
    | nil => rfl
    | cons b bs =>
        have hb := mem_utf8_ink hink (hcode ▸ List.mem_cons_self)
        rw [List.dropWhile_cons_of_neg (by simpa using hb.2.2)]
  show decode ((((32 :: (base64Encode value).utf8).dropWhile (· = 32))).map _) = _
  rw [hdrop, map_utf8_ink hink, decode_base64Encode]

/-- A line gives its name and its value back, whatever the value. -/
theorem readLdifLine_ldifLine {name : Text} (hname : SafeName name.utf8) (value : Bytes) :
    readLdifLine (ldifLine name value) = some (name.utf8, value) := by
  have hbyte : ∀ b ∈ name.utf8, decide (b ≠ 58) = true := fun b hb =>
    decide_eq_true (isNameByte_ne (hname.2 b hb)).1
  have hgood : (name.utf8 ≠ [] && name.utf8.all isNameByte) = true := by
    rw [Bool.and_eq_true, decide_eq_true_iff, List.all_eq_true]
    exact hname
  have hread : ∀ tail v, ldifValue value = 58 :: tail → readLdifValue tail = some v →
      readLdifLine (ldifLine name value) = some (name.utf8, v) := by
    intro tail v htail hv
    rw [readLdifLine, ldifLine, htail, List.takeWhile_append_of_pos hbyte,
      List.dropWhile_append_of_pos hbyte]
    rw [List.takeWhile_cons_of_neg (by decide), List.dropWhile_cons_of_neg (by decide),
      List.append_nil]
    dsimp only
    rw [if_pos hgood, hv]
    rfl
  by_cases hsafe : ldifIsSafe value = true
  · exact hread _ _ (by rw [ldifValue, if_pos hsafe]) (readLdifValue_plain hsafe)
  · exact hread _ _ (by rw [ldifValue, if_neg hsafe]) (readLdifValue_coded value)

/-- No value makes a second line. -/
theorem plain_ldifLine {name : Text} (hname : SafeName name.utf8) (value : Bytes) :
    Plain (ldifLine name value) := by
  have hvalue : ∀ b ∈ ldifValue value, b ≠ 10 ∧ b ≠ 13 := by
    intro b hb
    rw [ldifValue] at hb
    split at hb
    · next hsafe =>
        simp only [List.mem_cons] at hb
        rcases hb with rfl | rfl | hb
        · decide
        · decide
        · cases value with
          | nil => cases hb
          | cons first rest =>
              have hall := (ldifIsSafe_cons hsafe).2 b hb
              exact ⟨hall.2.1, hall.2.2.1⟩
    · simp only [List.mem_cons] at hb
      rcases hb with rfl | rfl | rfl | hb
      · decide
      · decide
      · decide
      · have hink := mem_utf8_ink (fun c hc => isInk_base64 hc) hb
        exact ⟨hink.1, hink.2.1⟩
  have hall : ∀ b ∈ ldifLine name value, b ≠ 10 ∧ b ≠ 13 := by
    intro b hb
    rcases List.mem_append.mp hb with hb | hb
    · have hne := isNameByte_ne (hname.2 b hb)
      exact ⟨hne.2.1, hne.2.2.1⟩
    · exact hvalue b hb
  refine ⟨fun h => (hall 10 h).1 rfl, fun h => (hall 13 (List.mem_of_getLast? h)).2 rfl, ?_⟩
  cases hcons : name.utf8 with
  | nil => exact absurd hcons hname.1
  | cons b bs =>
      have hne := isNameByte_ne (hname.2 b (hcons ▸ List.mem_cons_self))
      rw [ldifLine, hcons, List.cons_append, List.head?_cons]
      exact ⟨fun h => hne.2.2.2.1 (Option.some.inj h), fun h => hne.2.2.2.2 (Option.some.inj h)⟩

/-! ## Lines and records -/

theorem toLines_cons {l : Bytes} (h : 10 ∉ l) (rest : Bytes) :
    toLines (l ++ 10 :: rest) = l :: toLines rest := by
  induction l with
  | nil => rw [List.nil_append, toLines, if_pos rfl]
  | cons b l ih =>
      have hb : b ≠ 10 := fun he => h (he ▸ List.mem_cons_self)
      rw [List.cons_append, toLines, if_neg hb, ih fun hl => h (List.mem_cons_of_mem _ hl)]

/-- The text of lines. -/
def ofLines (ls : List Bytes) : Bytes := ls.flatMap fun l => l ++ [10]

theorem ofLines_append (ls ms : List Bytes) : ofLines (ls ++ ms) = ofLines ls ++ ofLines ms := by
  rw [ofLines, List.flatMap_append]
  rfl

theorem ofLines_singleton (l : Bytes) : ofLines [l] = l ++ [10] := by
  rw [ofLines, List.flatMap_singleton]

/-- Plain lines and empty ones are the lines of their text, and stay as they are. -/
theorem logicalLines_ofLines {ls : List Bytes} (h : ∀ l ∈ ls, Plain l) :
    (unfoldLines ((toLines (ofLines ls)).map chomp)).filter (fun l => !isComment l) = ls := by
  have hlines : toLines (ofLines ls) = ls := by
    induction ls with
    | nil => rfl
    | cons l ls ih =>
        rw [ofLines, List.flatMap_cons, List.append_assoc, List.singleton_append,
          toLines_cons (h l List.mem_cons_self).no_lf]
        exact congrArg (l :: ·) (ih fun m hm => h m (List.mem_cons_of_mem _ hm))
  have hchomp : ls.map chomp = ls := by
    refine (List.map_congr_left fun l hl => ?_).trans (List.map_id ls)
    exact if_neg (h l hl).no_cr
  have hunfold : ∀ ms : List Bytes, (∀ l ∈ ms, Plain l) → unfoldLines ms = ms := by
    intro ms hms
    induction ms with
    | nil => rfl
    | cons l ms ih =>
        rw [unfoldLines, ih fun m hm => hms m (List.mem_cons_of_mem _ hm)]
        split
        · next more rest =>
            exact absurd rfl (hms (32 :: more) (List.mem_cons_of_mem _ List.mem_cons_self)).start.1
        · rfl
  rw [hlines, hchomp, hunfold ls h]
  refine List.filter_eq_self.mpr fun l hl => ?_
  rw [isComment, Bool.not_eq_true', decide_eq_false_iff_not]
  exact (h l hl).start.2

theorem plain_nil : Plain [] := ⟨List.not_mem_nil, nofun, nofun, nofun⟩

/-- The attribute values of an entry whose names are safe, in order. -/
def safeValues (attrs : List LdapAttr) : List (Text × Bytes) :=
  attrs.flatMap fun attr => if ldifNameIsSafe attr.1 then attr.2.map fun v => (attr.1, v) else []

theorem safeValues_cons (attr : LdapAttr) (attrs : List LdapAttr) :
    safeValues (attr :: attrs) =
      (if ldifNameIsSafe attr.1 then attr.2.map fun v => (attr.1, v) else []) ++ safeValues attrs :=
  rfl

/-- The record an entry stands for. -/
def entryRecord (entry : Text × List LdapAttr) : Record where
  dn := entry.1.utf8
  attrs := (safeValues entry.2).map fun value => (value.1.utf8, value.2)

/-- The lines of an entry. -/
def entryLines (entry : Text × List LdapAttr) : List Bytes :=
  ldifLine "dn".toList entry.1.utf8 ::
    ((safeValues entry.2).map fun value => ldifLine value.1 value.2) ++ [[]]

theorem foldl_writeLdifLine (out : Bytes) (name : Text) (values : List Bytes) :
    values.foldl (fun out v => writeLdifLine out name v) out =
      out ++ ofLines (values.map fun v => ldifLine name v) := by
  induction values generalizing out with
  | nil => exact (List.append_nil out).symm
  | cons v values ih =>
      rw [List.foldl_cons, ih, writeLdifLine_eq, List.map_cons, ← ofLines_singleton,
        List.append_assoc, ← ofLines_append]
      rfl

/-- The writer appends the lines of the entry. -/
theorem writeLdifEntry_eq (out : Bytes) (dn : Text) (attrs : List LdapAttr) :
    writeLdifEntry out dn attrs = out ++ ofLines (entryLines (dn, attrs)) := by
  have hattrs : ∀ (attrs : List LdapAttr) (out : Bytes), attrs.foldl (fun out attr =>
      if !ldifNameIsSafe attr.1 then out
      else attr.2.foldl (fun out v => writeLdifLine out attr.1 v) out) out =
        out ++ ofLines ((safeValues attrs).map fun value => ldifLine value.1 value.2) := by
    intro attrs
    induction attrs with
    | nil => exact fun out => (List.append_nil out).symm
    | cons attr attrs ih =>
        intro out
        rw [List.foldl_cons, ih, safeValues_cons, List.map_append, ofLines_append]
        by_cases hsafe : ldifNameIsSafe attr.1 = true
        · rw [if_neg (by simp [hsafe]), if_pos hsafe, foldl_writeLdifLine, List.append_assoc,
            List.map_map]
          rfl
        · rw [if_pos (by simpa using hsafe), if_neg hsafe]
          rfl
  rw [writeLdifEntry, hattrs, writeLdifLine_eq, entryLines, ofLines_append]
  simp only [ofLines, List.flatMap_cons, List.flatMap_nil, List.append_assoc, List.nil_append,
    List.append_nil]

theorem safeName_of_isSafe {name : Text} (h : ldifNameIsSafe name = true) : SafeName name.utf8 := by
  rw [ldifNameIsSafe, Bool.and_eq_true, decide_eq_true_iff, List.all_eq_true] at h
  exact ⟨fun hnil => h.1 (Text.utf8_eq_nil.mp hnil), h.2⟩

theorem safeName_dn : SafeName (Text.utf8 "dn".toList) := by
  have hutf8 : Text.utf8 "dn".toList = [100, 110] := by decide
  rw [hutf8]
  exact ⟨nofun, by decide +kernel⟩

theorem safeName_of_mem {attrs : List LdapAttr} {value : Text × Bytes}
    (h : value ∈ safeValues attrs) : SafeName value.1.utf8 := by
  obtain ⟨attr, -, hvalue⟩ := List.mem_flatMap.mp h
  split at hvalue
  · next hsafe =>
      obtain ⟨v, -, rfl⟩ := List.mem_map.mp hvalue
      exact safeName_of_isSafe hsafe
  · cases hvalue

theorem plain_entryLines (entry : Text × List LdapAttr) : ∀ l ∈ entryLines entry, Plain l := by
  intro l hl
  rcases List.mem_append.mp hl with hl | hl
  · rcases List.mem_cons.mp hl with rfl | hl
    · exact plain_ldifLine safeName_dn _
    · obtain ⟨value, hvalue, rfl⟩ := List.mem_map.mp hl
      exact plain_ldifLine (safeName_of_mem hvalue) _
  · rw [List.mem_singleton.mp hl]
    exact plain_nil

theorem ldifLine_ne_nil {name : Text} (hname : SafeName name.utf8) (value : Bytes) :
    ∃ b bs, ldifLine name value = b :: bs := by
  cases hcons : name.utf8 with
  | nil => exact absurd hcons hname.1
  | cons b bs => exact ⟨b, bs ++ ldifValue value, by rw [ldifLine, hcons, List.cons_append]⟩

/-- Attribute lines extend the record that is being read, and the empty line ends it. -/
theorem readRecords_values {values : List (Text × Bytes)}
    (h : ∀ value ∈ values, SafeName value.1.utf8) (r : Record) (rest : List Bytes) :
    readRecords (some r) ((values.map fun value => ldifLine value.1 value.2) ++ [] :: rest) =
      (readRecords none rest).map
        (⟨r.dn, r.attrs ++ values.map fun value => (value.1.utf8, value.2)⟩ :: ·) := by
  induction values generalizing r with
  | nil => rw [List.map_nil, List.map_nil, List.append_nil]; rfl
  | cons value values ih =>
      have hname := h value List.mem_cons_self
      obtain ⟨b, bs, hcons⟩ := ldifLine_ne_nil hname value.2
      have hline := readLdifLine_ldifLine hname value.2
      rw [List.map_cons, List.cons_append, hcons, readRecords, ← hcons, hline]
      show readRecords (some ⟨r.dn, r.attrs ++ [(value.1.utf8, value.2)]⟩) _ = _
      rw [ih (fun v hv => h v (List.mem_cons_of_mem _ hv)), List.append_assoc]
      rfl

theorem readRecords_entry (entry : Text × List LdapAttr) (rest : List Bytes) :
    readRecords none (entryLines entry ++ rest) =
      (readRecords none rest).map (entryRecord entry :: ·) := by
  obtain ⟨b, bs, hcons⟩ := ldifLine_ne_nil safeName_dn entry.1.utf8
  have hline := readLdifLine_ldifLine safeName_dn entry.1.utf8
  rw [entryLines, List.append_assoc, List.cons_append, hcons, readRecords, ← hcons, hline]
  show (if Text.utf8 "dn".toList = Text.utf8 "dn".toList then
    readRecords (some ⟨entry.1.utf8, []⟩) _ else none) = _
  rw [if_pos rfl]
  exact readRecords_values (fun value hvalue => safeName_of_mem hvalue) _ _

/-- What the writer appends for an entry is one record, with its own name and its own safe
values; the text of several entries is a record for each. -/
theorem readLdif_writeLdifEntry (out : Bytes) (dn : Text) (attrs : List LdapAttr)
    (entries : List (Text × List LdapAttr)) :
    (∃ text, writeLdifEntry out dn attrs = out ++ text ∧
      readLdif text = some [⟨dn.utf8, (safeValues attrs).map fun value => (value.1.utf8, value.2)⟩]) ∧
    readLdif (entries.foldl (fun out entry => writeLdifEntry out entry.1 entry.2) []) =
      some (entries.map entryRecord) := by
  have hlines : ∀ entries : List (Text × List LdapAttr),
      readLdif (ofLines (entries.flatMap entryLines)) = some (entries.map entryRecord) := by
    intro entries
    have hplain : ∀ l ∈ entries.flatMap entryLines, Plain l := by
      intro l hl
      obtain ⟨entry, -, hentry⟩ := List.mem_flatMap.mp hl
      exact plain_entryLines entry l hentry
    rw [readLdif, logicalLines_ofLines hplain]
    induction entries with
    | nil => rfl
    | cons entry entries ih =>
        have hrest := ih fun l hl => hplain l (List.mem_append_right _ hl)
        rw [List.flatMap_cons, readRecords_entry, hrest]
        rfl
  have hfold : ∀ (entries : List (Text × List LdapAttr)) (out : Bytes),
      entries.foldl (fun out entry => writeLdifEntry out entry.1 entry.2) out =
        out ++ ofLines (entries.flatMap entryLines) := by
    intro entries
    induction entries with
    | nil => exact fun out => (List.append_nil out).symm
    | cons entry entries ih =>
        intro out
        rw [List.foldl_cons, ih, writeLdifEntry_eq, List.flatMap_cons, ofLines_append,
          List.append_assoc]
  constructor
  · refine ⟨_, writeLdifEntry_eq out dn attrs, ?_⟩
    have hone := hlines [(dn, attrs)]
    rwa [List.flatMap_cons, List.flatMap_nil, List.append_nil] at hone
  · rw [hfold, List.nil_append]
    exact hlines entries

end Rsurl.Ldap
