/-
# `Rsurl.Cli.FormEscape` — the parts that come back

In the default mode every part comes back.  With `--form-escape` one comes back
just if its name and file name are ASCII without an escape in them
(`formLaw_iff`): a percent sign is not escaped, and the bytes of a character
that is not ASCII are pushed as characters of their own.
-/
import Rsurl.Cli.FormData

namespace Rsurl.Cli.Multipart

/-! ## Escaping and reading, in one pass -/

/-- The bytes of what a byte is escaped to. -/
def escaped (b : UInt8) : Bytes := (escapeByte b).utf8

/-- What the bytes of an attribute are read as. -/
def unescape : Bytes → Bytes
  | 37 :: h :: l :: rest =>
      match hexVal h, hexVal l with
      | some h, some l => ((h <<< 4) ||| l) :: unescape rest
      | _, _ => 37 :: unescape (h :: l :: rest)
  | b :: rest => (if b < 128 then [b] else Text.utf8 [Char.ofNat b.toNat]) ++ unescape rest
  | [] => []

/-- An escaped byte begins as a hexadecimal digit just if it is one, and is that alone then. -/
theorem escaped_head (b : UInt8) : ∃ a tail, escaped b = a :: tail ∧ hexVal a = hexVal b ∧
    (hexVal b = none ∨ tail = [] ∧ a = b) := by
  have hall : ∀ n : Fin 256, (escaped (UInt8.ofNat n.val)).head?.map hexVal =
      some (hexVal (UInt8.ofNat n.val)) ∧ (hexVal (UInt8.ofNat n.val) = none ∨
        escaped (UInt8.ofNat n.val) = [UInt8.ofNat n.val]) := by decide +kernel
  have hb := hall ⟨b.toNat, b.toNat_lt⟩
  rw [UInt8.ofNat_toNat] at hb
  cases he : escaped b with
  | nil => rw [he] at hb; cases hb.1
  | cons a tail =>
      rw [he, List.head?_cons, Option.map_some, Option.some.injEq, List.cons_eq_cons] at hb
      exact ⟨a, tail, rfl, hb.1, hb.2.imp_right And.symm⟩

/-- A percent sign in front of no escape is still one behind the escaping. -/
theorem percentDecodeBytes_kept {rest : Bytes}
    (h : ∀ a b back, rest = a :: b :: back → hexVal a = none ∨ hexVal b = none) :
    percentDecodeBytes (37 :: rest.flatMap escaped) =
      37 :: percentDecodeBytes (rest.flatMap escaped) := by
  have hfront : ∀ a b back, rest.flatMap escaped = a :: b :: back →
      hexVal a = none ∨ hexVal b = none := by
    intro a b back heq
    cases rest with
    | nil => cases heq
    | cons x rest =>
        obtain ⟨a', tail, hx, hval, hdigit⟩ := escaped_head x
        rw [List.flatMap_cons, hx] at heq
        obtain ⟨rfl, hbehind⟩ := List.cons_eq_cons.mp heq
        rcases hdigit with hnone | ⟨rfl, rfl⟩
        · exact .inl (hval.trans hnone)
        cases rest with
        | nil => cases hbehind
        | cons y rest =>
            obtain ⟨b', tail, hy, hval', -⟩ := escaped_head y
            rw [List.flatMap_cons, hy] at hbehind
            obtain ⟨rfl, -⟩ := List.cons_eq_cons.mp hbehind
            rw [hval']
            exact h _ _ _ rfl
  generalize rest.flatMap escaped = bs at hfront
  match bs with
  | [] => rfl
  | [_] => rfl
  | a :: b :: back =>
      rw [percentDecodeBytes]
      rcases hfront a b back rfl with hnone | hnone
      · rw [hnone]
      · rw [hnone]
        cases hexVal a <;> rfl

theorem percentDecodeBytes_append {bs : Bytes} (h : 37 ∉ bs) (rest : Bytes) :
    percentDecodeBytes (bs ++ rest) = bs ++ percentDecodeBytes rest := by
  induction bs with
  | nil => rfl
  | cons b bs ih =>
      simp only [List.mem_cons, not_or] at h
      rw [List.cons_append, percentDecodeBytes_plain (Ne.symm h.1), ih h.2, List.cons_append]

theorem toNat_pushed (b : UInt8) : (Char.ofNat b.toNat).toNat = b.toNat := by
  have hlt := b.toNat_lt
  have hvalid : b.toNat.isValidChar := .inl (by omega)
  rw [Char.ofNat, dif_pos hvalid]
  rfl

theorem utf8_ofNat {b : UInt8} (h : b < 128) : Text.utf8 [Char.ofNat b.toNat] = [b] := by
  have hlt : b.toNat < 128 := UInt8.lt_iff_toNat_lt.mp h
  have hchar := toNat_pushed b
  rw [utf8_cons_ascii (hchar.symm ▸ hlt), hchar, UInt8.ofNat_toNat, Text.utf8_nil]

/-- Any other byte is read as itself if it is ASCII, and as the character of its number if not. -/
theorem percentDecodeBytes_escaped {b : UInt8} (h : b ≠ 37) (rest : Bytes) :
    percentDecodeBytes (escaped b ++ rest) =
      (if b < 128 then [b] else Text.utf8 [Char.ofNat b.toNat]) ++ percentDecodeBytes rest := by
  unfold escaped escapeByte
  by_cases hcr : b = 13
  · rw [if_pos hcr, hcr]
    exact percentDecodeBytes_escape (b := 0) (c := 13) rfl rfl rest
  by_cases hlf : b = 10
  · rw [if_neg hcr, if_pos hlf, hlf]
    exact percentDecodeBytes_escape (b := 0) (c := 10) rfl rfl rest
  by_cases hquote : b = 34
  · rw [if_neg hcr, if_neg hlf, if_pos hquote, hquote]
    exact percentDecodeBytes_escape (b := 2) (c := 2) rfl rfl rest
  by_cases hslash : b = 92
  · rw [if_neg hcr, if_neg hlf, if_neg hquote, if_pos hslash, hslash]
    exact percentDecodeBytes_escape (b := 5) (c := 12) rfl rfl rest
  rw [if_neg hcr, if_neg hlf, if_neg hquote, if_neg hslash]
  have hpercent : 37 ∉ Text.utf8 [Char.ofNat b.toNat] := by
    refine Text.not_mem_utf8 (c := '%') (by decide) ?_
    rw [List.mem_singleton]
    intro hchar
    have hnat : ('%').toNat = b.toNat := (congrArg Char.toNat hchar).trans (toNat_pushed b)
    exact h (UInt8.toNat_inj.mp hnat.symm)
  rw [percentDecodeBytes_append hpercent]
  split
  · next hascii => rw [utf8_ofNat hascii]
  · rfl

theorem percentDecodeBytes_flatMap (bs : Bytes) :
    percentDecodeBytes (bs.flatMap escaped) = unescape bs := by
  fun_induction unescape bs with
  | case1 h l rest d e hl hh ih =>
      have hone : ∀ {b d : UInt8}, hexVal b = some d → escaped b = [b] := by
        intro b d hb
        obtain ⟨a, tail, he, -, hdigit⟩ := escaped_head b
        rcases hdigit with hnone | ⟨rfl, rfl⟩
        · rw [hnone] at hb
          cases hb
        · exact he
      have hsign : escaped 37 = [37] := rfl
      rw [List.flatMap_cons, List.flatMap_cons, List.flatMap_cons, hsign, hone hh, hone hl, ← ih]
      exact percentDecodeBytes_escape hh hl _
  | case2 h l rest hnone ih =>
      have hsign : escaped 37 = [37] := rfl
      rw [← ih, List.flatMap_cons, hsign]
      refine percentDecodeBytes_kept ?_
      rintro a b back heq
      cases heq
      cases hh : hexVal h with
      | none => exact .inl rfl
      | some d =>
          cases hl : hexVal l with
          | none => exact .inr rfl
          | some e => exact (hnone d e hh hl).elim
  | case3 b rest hno ih =>
      rw [List.flatMap_cons, ← ih]
      by_cases hb : b = 37
      · have hsign : escaped 37 = [37] := rfl
        rw [hb, hsign]
        refine percentDecodeBytes_kept ?_
        rintro h l back heq
        exact (hno h l back hb heq).elim
      · exact percentDecodeBytes_escaped hb _
  | case4 => rfl

/-! ## When nothing changes

Every escape lowers the number of ASCII bytes; where there is none, every other byte adds to the
length. -/

/-- No percent sign with two digits behind it. -/
def NoEscape (bs : Bytes) : Prop :=
  ∀ front h l back, bs = front ++ 37 :: h :: l :: back → hexVal h = none ∨ hexVal l = none

theorem noEscape_cons {b : UInt8} {bs : Bytes} (hrest : NoEscape bs)
    (hfront : b = 37 → ∀ h l back, bs = h :: l :: back → hexVal h = none ∨ hexVal l = none) :
    NoEscape (b :: bs) := by
  rintro (_ | ⟨c, front⟩) h l back heq
  · obtain ⟨rfl, rfl⟩ := List.cons_eq_cons.mp heq
    exact hfront rfl h l back rfl
  · obtain ⟨rfl, rfl⟩ := List.cons_eq_cons.mp heq
    exact hrest front h l back rfl

theorem NoEscape.of_cons {b : UInt8} {bs : Bytes} (h : NoEscape (b :: bs)) : NoEscape bs :=
  fun front x y back heq => h (b :: front) x y back (congrArg (b :: ·) heq)

/-- The bytes of a character that is pushed for a byte that is not ASCII. -/
theorem pushed_bytes {b : UInt8} (h : ¬ b < 128) :
    (Text.utf8 [Char.ofNat b.toNat]).length = 2 ∧
      (Text.utf8 [Char.ofNat b.toNat]).countP (· < 128) = 0 := by
  have hall : ∀ n : Fin 256, ¬ UInt8.ofNat n.val < 128 →
      (Text.utf8 [Char.ofNat n.val]).length = 2 ∧
        (Text.utf8 [Char.ofNat n.val]).countP (· < 128) = 0 := by decide +kernel
  have hb := hall ⟨b.toNat, b.toNat_lt⟩
  rw [UInt8.ofNat_toNat] at hb
  exact hb h

theorem hexVal_ascii {b d : UInt8} (h : hexVal b = some d) : b < 128 := by
  rw [hexVal] at h
  split at h
  · next hb => exact UInt8.lt_of_le_of_lt hb.2 (by decide)
  split at h
  · next hb => exact UInt8.lt_of_le_of_lt hb.2 (by decide)
  split at h
  · next hb => exact UInt8.lt_of_le_of_lt hb.2 (by decide)
  · cases h

theorem unescape_counts (bs : Bytes) :
    (unescape bs).countP (· < 128) ≤ bs.countP (· < 128) ∧
      ((unescape bs).countP (· < 128) = bs.countP (· < 128) →
        NoEscape bs ∧ (unescape bs).length = bs.length + bs.countP (fun b => ¬ b < 128)) := by
  have hsign : (37 : UInt8) < 128 := by decide
  fun_induction unescape bs with
  | case1 h l rest d e hl hh ih =>
      have hascii := hexVal_ascii hl
      have hascii' := hexVal_ascii hh
      have hle := ih.1
      have hone : ∀ b : UInt8, (b :: unescape rest).countP (· < 128) ≤
          (unescape rest).countP (· < 128) + 1 := by
        intro b
        rw [List.countP_cons]
        split <;> omega
      have hbyte := hone ((d <<< 4) ||| e)
      have hall : (37 :: h :: l :: rest).countP (· < 128) = rest.countP (· < 128) + 3 := by
        simp [hascii, hascii', hsign]
      rw [hall]
      exact ⟨by omega, fun heq => by omega⟩
  | case2 h l rest hnone ih =>
      obtain ⟨hle, heq⟩ := ih
      have hcount : ∀ tail : Bytes, (37 :: tail).countP (· < 128) = tail.countP (· < 128) + 1 :=
        fun tail => List.countP_cons_of_pos (by decide)
      have hother : (37 :: h :: l :: rest).countP (fun b => ¬ b < 128) =
          (h :: l :: rest).countP (fun b => ¬ b < 128) := List.countP_cons_of_neg (by decide)
      rw [hcount, hcount, hother]
      refine ⟨by omega, fun hcounts => ?_⟩
      obtain ⟨hno, hlength⟩ := heq (by omega)
      refine ⟨noEscape_cons hno fun _ a b back hback => ?_, ?_⟩
      · cases hback
        cases hh : hexVal h with
        | none => exact .inl rfl
        | some d =>
            cases hl : hexVal l with
            | none => exact .inr rfl
            | some e => exact (hnone d e hh hl).elim
      · have hpercent : (37 :: h :: l :: rest).length = (h :: l :: rest).length + 1 := rfl
        rw [List.length_cons, hlength, hpercent]
        omega
  | case3 b rest hno ih =>
      obtain ⟨hle, heq⟩ := ih
      have hfront : b = 37 → ∀ h l back, rest = h :: l :: back → hexVal h = none ∨ hexVal l = none :=
        fun hb h l back hrest => (hno h l back hb hrest).elim
      by_cases hascii : b < 128
      · rw [if_pos hascii, List.singleton_append, List.countP_cons_of_pos (by simpa using hascii),
          List.countP_cons_of_pos (by simpa using hascii)]
        refine ⟨by omega, fun hcounts => ?_⟩
        obtain ⟨hno, hlength⟩ := heq (by omega)
        refine ⟨noEscape_cons hno hfront, ?_⟩
        rw [List.length_cons, hlength, List.length_cons,
          List.countP_cons_of_neg (by simpa using hascii)]
        omega
      · obtain ⟨hlength, hzero⟩ := pushed_bytes hascii
        rw [if_neg hascii, List.countP_append, hzero, Nat.zero_add,
          List.countP_cons_of_neg (by simpa using hascii)]
        refine ⟨hle, fun hcounts => ?_⟩
        obtain ⟨hno, hlength'⟩ := heq hcounts
        refine ⟨noEscape_cons hno hfront, ?_⟩
        rw [List.length_append, hlength, hlength', List.length_cons,
          List.countP_cons_of_pos (by simpa using hascii)]
        omega
  | case4 =>
      refine ⟨le_rfl, fun _ => ⟨fun front h l back heq => ?_, rfl⟩⟩
      exact absurd heq (by simp)

theorem unescape_of_plain {bs : Bytes} (hascii : ∀ b ∈ bs, b < 128) (h : NoEscape bs) :
    unescape bs = bs := by
  fun_induction unescape bs with
  | case1 h' l rest d e hl hh ih =>
      rcases h [] h' l rest rfl with hnone | hnone
      · rw [hnone] at hh
        cases hh
      · rw [hnone] at hl
        cases hl
  | case2 h' l rest hnone ih =>
      rw [ih (fun b hb => hascii b (List.mem_cons_of_mem _ hb)) h.of_cons]
  | case3 b rest hno ih =>
      rw [if_pos (hascii b List.mem_cons_self),
        ih (fun b hb => hascii b (List.mem_cons_of_mem _ hb)) h.of_cons, List.singleton_append]
  | case4 => rfl

theorem unescape_eq_self_iff (bs : Bytes) : unescape bs = bs ↔ (∀ b ∈ bs, b < 128) ∧ NoEscape bs := by
  constructor
  · intro h
    obtain ⟨-, hcounts⟩ := unescape_counts bs
    obtain ⟨hno, hlength⟩ := hcounts (by rw [h])
    refine ⟨?_, hno⟩
    rw [h] at hlength
    have hzero : bs.countP (fun b => ¬ b < 128) = 0 := by omega
    intro b hb
    have hb' := List.countP_eq_zero.mp hzero b hb
    simpa using hb'
  · rintro ⟨hascii, hno⟩
    exact unescape_of_plain hascii hno

/-! ## The law of the form options -/

/-- ASCII without an escape in it. -/
def IsPlain (t : Text) : Prop := (∀ b ∈ t.utf8, b < 128) ∧ NoEscape t.utf8

theorem received_iff (t : Text) : received true t = some t ↔ IsPlain t := by
  have hbytes : (encodeAttr t true).utf8 = t.utf8.flatMap escaped := by
    rw [encodeAttr, if_pos rfl, Text.utf8, List.flatMap_assoc]
    rfl
  have hsome : ∀ bs, fromUtf8 bs = some t ↔ bs = t.utf8 := fun bs =>
    ⟨fun h => (utf8_of_fromUtf8 h).symm, fun h => h ▸ fromUtf8_utf8 t⟩
  rw [received, if_pos rfl, hbytes, percentDecodeBytes_flatMap, hsome, unescape_eq_self_iff, IsPlain]

theorem mapM_eq_some_map {α β : Type} {f : α → Option β} {g : α → β} {l : List α} :
    l.mapM f = some (l.map g) ↔ ∀ a ∈ l, f a = some (g a) := by
  induction l with
  | nil => exact iff_of_true rfl nofun
  | cons a l ih =>
      rw [List.forall_mem_cons, ← ih, List.mapM_cons, List.map_cons]
      cases f a with
      | none => simp
      | some b => cases l.mapM f <;> simp

/-- The parts come back just if each one is received as it was sent. -/
theorem comesBack_iff {read : Text → Except Text Bytes} {escape : Bool} {buf : Bytes}
    {parts : List FormPart} (h : ∀ part ∈ parts, Sendable escape (makeBoundary buf).utf8 part) :
    (∃ boundary body, build read buf parts escape = .ok (boundary, body) ∧
        readForm escape boundary.utf8 body = some (parts.map sent)) ↔
      ∀ part ∈ parts, receivedPart escape part = some (sent part) := by
  rw [← mapM_eq_some_map, ← readForm_framed (not_mem_makeBoundary buf) h, build_eq h]
  constructor
  · rintro ⟨boundary, body, heq, hread⟩
    cases heq
    exact hread
  · exact fun hread => ⟨_, _, rfl, hread⟩

theorem receivedPart_iff {escape : Bool} {part : FormPart} :
    receivedPart escape part = some (sent part) ↔
      received escape part.name = some part.name ∧
        ∀ f, filename part = some f → received escape f = some f := by
  have hfile : (filename part).mapM (received escape) = some (filename part) ↔
      ∀ f, filename part = some f → received escape f = some f := by
    cases filename part with
    | none => exact iff_of_true rfl nofun
    | some f =>
        rw [Option.mapM_some]
        cases hf : received escape f <;> simp [hf, eq_comm]
  rw [receivedPart, sent, ← hfile]
  cases received escape part.name with
  | none => simp
  | some name => cases (filename part).mapM (received escape) <;> simp

/-- The parts come back just if the mode is the default, or their names are plain. -/
theorem formLaw_iff {read : Text → Except Text Bytes} {escape : Bool} {buf : Bytes}
    {parts : List FormPart} (h : ∀ part ∈ parts, Sendable escape (makeBoundary buf).utf8 part) :
    (∃ boundary body, build read buf parts escape = .ok (boundary, body) ∧
        readForm escape boundary.utf8 body = some (parts.map sent)) ↔
      (escape = true → ∀ part ∈ parts,
        IsPlain part.name ∧ ∀ f, filename part = some f → IsPlain f) := by
  rw [comesBack_iff h]
  cases escape with
  | false => exact iff_of_true (fun part _ => receivedPart_iff.mpr ⟨rfl, fun _ _ => rfl⟩) nofun
  | true => simp only [receivedPart_iff, received_iff, true_imp_iff]

/-- A file with a quote in its name and a field with a line break in its own. -/
theorem formLaw_iff_sample :
    (∃ boundary body, build (fun _ => .error []) [0, 1, 2, 3, 4, 5, 6, 7]
          [⟨"g\r\n".toList, .literal "a".toList, [.filename "a\"b".toList, .type "x/y".toList]⟩]
          true = .ok (boundary, body) ∧
        readForm true boundary.utf8 body = some ([⟨"g\r\n".toList, .literal "a".toList,
          [.filename "a\"b".toList, .type "x/y".toList]⟩].map sent)) ↔
      (true = true → ∀ part ∈ [(⟨"g\r\n".toList, .literal "a".toList,
            [.filename "a\"b".toList, .type "x/y".toList]⟩ : FormPart)],
        IsPlain part.name ∧ ∀ f, filename part = some f → IsPlain f) := by
  refine formLaw_iff (List.forall_mem_singleton.mpr
    { body := ⟨_, rfl, by decide⟩
      names := nofun
      types := fun t ht => ?_
      filenames := fun _ _ => nofun
      headersFiles := by simp })
  obtain rfl : t = "x/y".toList := by simpa using ht
  exact ⟨by decide, by decide⟩

/-- With `--form-escape` the name `é` is sent as the two characters of its bytes. -/
theorem name_garbled :
    ¬ ∃ boundary body, build (fun _ => .error []) [0, 1, 2, 3, 4, 5, 6, 7]
          [⟨['é'], .literal ['v'], []⟩] true = .ok (boundary, body) ∧
        readForm true boundary.utf8 body = some ([⟨['é'], .literal ['v'], []⟩].map sent) := by
  have hsend : ∀ part ∈ [(⟨['é'], .literal ['v'], []⟩ : FormPart)],
      Sendable true (makeBoundary [0, 1, 2, 3, 4, 5, 6, 7]).utf8 part :=
    List.forall_mem_singleton.mpr
      { body := ⟨_, rfl, by decide⟩
        names := nofun
        types := nofun
        filenames := nofun
        headersFiles := nofun }
  intro h
  have hpart := (comesBack_iff hsend).mp h _ List.mem_cons_self
  have hname := (received_iff ['é']).mp (receivedPart_iff.mp hpart).1
  exact absurd (hname.1 195 (by decide)) (by decide)

end Rsurl.Cli.Multipart
