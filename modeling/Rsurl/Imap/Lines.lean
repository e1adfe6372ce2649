/-
# `Rsurl.Imap.Lines` — lines of text and of bytes

Where a text that ends in a line end is cut into lines, the cut goes through
concatenation.  Lossy decoding keeps every CR and LF where it is, so a text has
as many lines as the bytes it was decoded from, and the same line ends.
-/
import Rsurl.Imap.Literals
import Rsurl.Text.Utf8

namespace Rsurl

/-! ## Line ends -/

/-- What a character or a byte is to the lines. -/
inductive LineMark where
  | cr
  | lf
  | other
deriving DecidableEq, Repr

def LineMark.ofByte (b : UInt8) : LineMark :=
  if b = 13 then .cr else if b = 10 then .lf else .other

def LineMark.ofChar (c : Char) : LineMark :=
  if c = '\r' then .cr else if c = '\n' then .lf else .other

/-- A sequence that has begun ends in no control character. -/
def Begun.Wide (s : Begun) : Prop :=
  0x80 ≤ s.low.toNat ∧ s.high.toNat ≤ 0xBF ∧ 16 ≤ s.bits * 64 + (s.low.toNat - 0x80)

instance (s : Begun) : Decidable s.Wide := inferInstanceAs (Decidable (_ ∧ _))

theorem startSequence_all : ∀ n : Fin 256,
    (match startSequence (UInt8.ofNat n.val) with
      | .inl c => decide (LineMark.ofChar c = LineMark.ofByte (UInt8.ofNat n.val))
      | .inr s => decide (s.Wide ∧ LineMark.ofByte (UInt8.ofNat n.val) = .other)) = true := by
  decide +kernel

/-- A first byte is a character of its own kind, or begins a sequence and is no line end. -/
theorem startSequence_marks (b : UInt8) :
    (∀ c, startSequence b = .inl c → LineMark.ofChar c = LineMark.ofByte b) ∧
    ∀ s, startSequence b = .inr s → s.Wide ∧ LineMark.ofByte b = .other := by
  have hb := startSequence_all ⟨b.toNat, b.toNat_lt⟩
  rw [UInt8.ofNat_toNat] at hb
  refine ⟨fun c hc => ?_, fun s hs => ?_⟩
  · rw [hc] at hb
    exact of_decide_eq_true hb
  · rw [hs] at hb
    exact of_decide_eq_true hb

theorem ofChar_ofNat {n : Nat} (h : 16 ≤ n) : LineMark.ofChar (Char.ofNat n) = .other := by
  have hne : ∀ c : Char, c.toNat < 16 → c ≠ '\x00' → Char.ofNat n ≠ c := by
    rintro c hc hzero rfl
    by_cases hvalid : n.isValidChar
    · rw [Char.ofNat, dif_pos hvalid] at hc
      have hval : (Char.ofNatAux n hvalid).toNat = n := rfl
      omega
    · exact hzero (dif_neg hvalid)
  rw [LineMark.ofChar, if_neg (hne _ (by decide) (by decide)), if_neg (hne _ (by decide) (by decide))]

theorem ofByte_high {b : UInt8} (h : 0x80 ≤ b.toNat) : LineMark.ofByte b = .other := by
  have hne : ∀ c : UInt8, c.toNat < 0x80 → b ≠ c := by
    rintro c hc rfl
    omega
  rw [LineMark.ofByte, if_neg (hne _ (by decide)), if_neg (hne _ (by decide))]

section Fold

-- A step that does not see how often something other than a line end is repeated.
variable {σ : Type} {f : σ → LineMark → σ} (hf : ∀ s, f (f s .other) .other = f s .other)
include hf

/-- The step goes over lossily decoded text as over the bytes. -/
theorem foldl_lossyFrom (bs : Bytes) : (∀ s, (lossyFrom none bs).foldl (fun s c => f s (.ofChar c)) s =
      bs.foldl (fun s b => f s (.ofByte b)) s) ∧
    ∀ begun : Begun, begun.Wide → ∀ s, (lossyFrom (some begun) bs).foldl (fun s c => f s (.ofChar c)) s =
      bs.foldl (fun s b => f s (.ofByte b)) (f s .other) := by
  induction bs with
  | nil => exact ⟨fun s => rfl, fun begun _ s => rfl⟩
  | cons b bs ih =>
      obtain ⟨hchar, hbegun⟩ := startSequence_marks b
      have hstart : ∀ s, (lossyFrom none (b :: bs)).foldl (fun s c => f s (.ofChar c)) s =
          (b :: bs).foldl (fun s b => f s (.ofByte b)) s := by
        intro s
        rw [lossyFrom]
        cases hb : startSequence b with
        | inl c =>
            rw [List.foldl_cons, List.foldl_cons, hchar c hb]
            exact ih.1 _
        | inr begun =>
            rw [List.foldl_cons, (hbegun begun hb).2]
            exact ih.2 begun (hbegun begun hb).1 s
      refine ⟨hstart, fun begun hwide s => ?_⟩
      obtain ⟨hlow, hhigh, hbits⟩ := hwide
      rw [lossyFrom]
      by_cases hin : begun.low ≤ b ∧ b ≤ begun.high
      · have hge := UInt8.le_iff_toNat_le.mp hin.1
        have hle := UInt8.le_iff_toNat_le.mp hin.2
        have hmod : b.toNat % 64 = b.toNat - 128 := by omega
        rw [if_pos hin, List.foldl_cons, ofByte_high (by omega), hf]
        dsimp only
        by_cases hlast : begun.missing ≤ 1
        · rw [if_pos hlast, List.foldl_cons, ofChar_ofNat (by omega)]
          exact ih.1 _
        · rw [if_neg hlast]
          refine ih.2 _ ⟨(by decide : 128 ≤ (0x80 : UInt8).toNat), (by decide : (0xBF : UInt8).toNat ≤ 191), ?_⟩ s
          show 16 ≤ (begun.bits * 64 + b.toNat % 64) * 64 + _
          omega
      · rw [if_neg hin, List.foldl_cons]
        exact hstart (f s .other)

theorem foldl_fromUtf8Lossy (bs : Bytes) (s : σ) :
    (fromUtf8Lossy bs).foldl (fun s c => f s (.ofChar c)) s =
      bs.foldl (fun s b => f s (.ofByte b)) s := (foldl_lossyFrom hf bs).1 s

theorem foldl_utf8 (t : Text) (s : σ) :
    t.utf8.foldl (fun s b => f s (.ofByte b)) s = t.foldl (fun s c => f s (.ofChar c)) s := by
  rw [← foldl_fromUtf8Lossy hf, fromUtf8Lossy_utf8]

end Fold

/-! ## Counting -/

/-- The lines that have ended, and how many of them without a CR. -/
structure Scan where
  cr : Bool
  lf : Nat
  bare : Nat
deriving DecidableEq, Repr

def Scan.step (s : Scan) : LineMark → Scan
  | .cr => ⟨true, s.lf, s.bare⟩
  | .lf => ⟨false, s.lf + 1, if s.cr then s.bare else s.bare + 1⟩
  | .other => ⟨false, s.lf, s.bare⟩

def scanText (s : Scan) (t : Text) : Scan := t.foldl (fun s c => s.step (.ofChar c)) s

def scanBytes (s : Scan) (bs : Bytes) : Scan := bs.foldl (fun s b => s.step (.ofByte b)) s

theorem scanText_append (s : Scan) (t u : Text) : scanText s (t ++ u) = scanText (scanText s t) u :=
  List.foldl_append

theorem scanBytes_append (s : Scan) (bs cs : Bytes) :
    scanBytes s (bs ++ cs) = scanBytes (scanBytes s bs) cs := List.foldl_append

theorem scanText_fromUtf8Lossy (s : Scan) (bs : Bytes) :
    scanText s (fromUtf8Lossy bs) = scanBytes s bs := foldl_fromUtf8Lossy (fun _ => rfl) bs s

theorem scanBytes_utf8 (s : Scan) (t : Text) : scanBytes s t.utf8 = scanText s t :=
  foldl_utf8 (fun _ => rfl) t s

/-- A piece of a line leaves behind whether it ends in a CR. -/
theorem scanText_piece {p : Text} (hp : '\n' ∉ p) (lf bare : Nat) :
    scanText ⟨false, lf, bare⟩ p = ⟨p.getLast? == some '\r', lf, bare⟩ := by
  induction p using List.reverseRecOn with
  | nil => rfl
  | append_singleton p c ih =>
      have hc : c ≠ '\n' := fun he => hp (he ▸ List.mem_append_right _ List.mem_cons_self)
      rw [scanText_append, ih fun h => hp (List.mem_append_left _ h), List.getLast?_concat]
      show Scan.step _ (LineMark.ofChar c) = _
      by_cases hcr : c = '\r'
      · rw [LineMark.ofChar, if_pos hcr, hcr]
        rfl
      · rw [LineMark.ofChar, if_neg hcr, if_neg hc]
        simp [Scan.step, hcr]

theorem scanText_line {p : Text} (hp : '\n' ∉ p) (lf bare : Nat) :
    scanText ⟨false, lf, bare⟩ (p ++ ['\n']) =
      ⟨false, lf + 1, if p.getLast? = some '\r' then bare else bare + 1⟩ := by
  rw [scanText_append, scanText_piece hp]
  show Scan.step _ .lf = _
  simp [Scan.step]

/-! ## Texts of whole lines -/

/-- The text of pieces, each with a line feed behind it. -/
def joinLines (ps : List Text) : Text := ps.flatMap (· ++ ['\n'])

/-- A piece without the CR at its end. -/
def stripCr (p : Text) : Text := (Text.stripLast '\r' p).getD p

theorem joinLines_cons (p : Text) (ps : List Text) :
    joinLines (p :: ps) = p ++ '\n' :: joinLines ps := by
  rw [joinLines, List.flatMap_cons, List.append_assoc]
  rfl

theorem joinLines_append (ps qs : List Text) :
    joinLines (ps ++ qs) = joinLines ps ++ joinLines qs := List.flatMap_append

theorem lines_cons {p : Text} (hp : '\n' ∉ p) (t : Text) :
    Text.lines (p ++ '\n' :: t) = stripCr p :: t.lines := by
  have hsplit : (p ++ '\n' :: t).splitOn '\n' = p :: t.splitOn '\n' :=
    List.splitOn_append_cons_self_of_not_mem hp t
  obtain ⟨q, qs, hq⟩ := List.exists_cons_of_ne_nil (List.splitOn_ne_nil '\n' t)
  rw [Text.lines, Text.lines, hsplit, hq, List.getLast?_cons_cons, List.dropLast_cons_cons]
  have hfirst : ∀ rest : List Text, List.mapIdx (fun i line =>
      if i + 1 < (p :: q :: qs).length then (Text.stripLast '\r' line).getD line else line)
        (p :: rest) =
      stripCr p :: List.mapIdx (fun i line =>
        if i + 1 < (q :: qs).length then (Text.stripLast '\r' line).getD line else line) rest := by
    intro rest
    rw [List.mapIdx_cons, if_pos (by simp)]
    simp only [List.length_cons, Nat.add_lt_add_iff_right]
    rfl
  split
  · exact hfirst _
  · exact hfirst _

theorem lines_joinLines {ps : List Text} (hps : ∀ p ∈ ps, '\n' ∉ p) (t : Text) :
    Text.lines (joinLines ps ++ t) = ps.map stripCr ++ t.lines := by
  induction ps with
  | nil => rfl
  | cons p ps ih =>
      rw [joinLines_cons, List.append_assoc, List.cons_append,
        lines_cons (hps p List.mem_cons_self), ih fun q hq => hps q (List.mem_cons_of_mem _ hq)]
      rfl

theorem exists_pieces (t : Text) :
    ∃ ps last, (∀ p ∈ ps, '\n' ∉ p) ∧ '\n' ∉ last ∧ t = joinLines ps ++ last := by
  induction t using List.reverseRecOn with
  | nil => exact ⟨[], [], by simp, List.not_mem_nil, rfl⟩
  | append_singleton t c ih =>
      obtain ⟨ps, last, hps, hlast, rfl⟩ := ih
      by_cases hc : c = '\n'
      · refine ⟨ps ++ [last], [], ?_, List.not_mem_nil, ?_⟩
        · rintro p hp
          rcases List.mem_append.mp hp with hp | hp
          · exact hps p hp
          · rwa [List.mem_singleton.mp hp]
        · rw [joinLines_append, joinLines_cons, List.append_nil, List.append_assoc, hc]
          rfl
      · refine ⟨ps, last ++ [c], hps, fun hmem => ?_, List.append_assoc _ _ _⟩
        rcases List.mem_append.mp hmem with hmem | hmem
        · exact hlast hmem
        · exact hc (List.mem_singleton.mp hmem).symm

/-- A text that ends where a line does. -/
theorem exists_joinLines (t : Text) :
    ∃ ps, (∀ p ∈ ps, '\n' ∉ p) ∧ t ++ ['\n'] = joinLines ps := by
  obtain ⟨ps, last, hps, hlast, rfl⟩ := exists_pieces t
  refine ⟨ps ++ [last], fun p hp => ?_, ?_⟩
  · rcases List.mem_append.mp hp with hp | hp
    · exact hps p hp
    · rwa [List.mem_singleton.mp hp]
  · rw [joinLines_append, joinLines_cons, List.append_assoc]
    rfl

/-- The lines of two texts, the first of which ends where a line does. -/
theorem lines_append (t u : Text) :
    Text.lines (t ++ ['\n'] ++ u) = Text.lines (t ++ ['\n']) ++ u.lines := by
  obtain ⟨ps, hps, ht⟩ := exists_joinLines t
  have hnil : Text.lines [] = [] := by decide
  have hall := lines_joinLines hps []
  rw [List.append_nil, hnil, List.append_nil] at hall
  rw [ht, lines_joinLines hps, hall]

theorem scanText_joinLines {ps : List Text} (hps : ∀ p ∈ ps, '\n' ∉ p) (lf bare : Nat) :
    scanText ⟨false, lf, bare⟩ (joinLines ps) =
      ⟨false, lf + ps.length, bare + ps.countP (·.getLast? ≠ some '\r')⟩ := by
  induction ps generalizing lf bare with
  | nil => rfl
  | cons p ps ih =>
      rw [joinLines, List.flatMap_cons, scanText_append, scanText_line (hps p List.mem_cons_self),
        ← joinLines, ih fun q hq => hps q (List.mem_cons_of_mem _ hq), List.length_cons,
        List.countP_cons]
      by_cases hcr : p.getLast? = some '\r'
      · simp [hcr]
        omega
      · simp [hcr]
        omega

/-! ## Lines that end in CRLF -/

/-- Lines, each with its CRLF. -/
def crlfLines (ls : List Text) : Text := ls.flatMap (· ++ "\r\n".toList)

theorem crlfLines_eq (ls : List Text) : crlfLines ls = joinLines (ls.map (· ++ ['\r'])) := by
  rw [crlfLines, joinLines, List.flatMap_map]
  refine congrArg (ls.flatMap ·) (funext fun l => ?_)
  rw [List.append_assoc]
  rfl

theorem stripCr_append {p : Text} (h : p.getLast? = some '\r') : stripCr p ++ ['\r'] = p := by
  rw [stripCr, Text.stripLast, if_pos h, Option.getD_some, List.dropLast_append_getLast? _ h]

theorem not_mem_stripCr {p : Text} (h : '\n' ∉ p) : '\n' ∉ stripCr p := by
  rw [stripCr, Text.stripLast]
  split
  · exact fun hmem => h (List.dropLast_subset _ hmem)
  · exact h

theorem scanText_crlfLines {ls : List Text} (hls : ∀ l ∈ ls, '\n' ∉ l) :
    scanText ⟨false, 0, 0⟩ (crlfLines ls) = ⟨false, ls.length, 0⟩ := by
  rw [crlfLines_eq, scanText_joinLines, List.length_map, Nat.zero_add, Nat.zero_add,
    List.countP_eq_zero.mpr]
  · simp
  · intro p hp hmem
    obtain ⟨l, hl, rfl⟩ := List.mem_map.mp hp
    rcases List.mem_append.mp hmem with hmem | hmem
    · exact hls l hl hmem
    · exact absurd (List.mem_singleton.mp hmem) (by decide)

/-- Where no line ends without a CR, the lines have only lost their CRLFs. -/
theorem crlfLines_stripCr {ps : List Text} (h : ∀ p ∈ ps, p.getLast? = some '\r') :
    crlfLines (ps.map stripCr) = joinLines ps := by
  rw [crlfLines_eq, List.map_map]
  congr 1
  refine (List.map_congr_left fun p hp => ?_).trans (List.map_id ps)
  exact stripCr_append (h p hp)

theorem crlfLines_filter_eq {ps : List Text} (hps : ∀ p ∈ ps, '\n' ∉ p) {keep : Text → Bool}
    {bs : Bytes} (hscan : scanBytes ⟨false, 0, 0⟩ bs = scanText ⟨false, 0, 0⟩ (joinLines ps))
    (h : (crlfLines ((ps.map stripCr).filter keep)).utf8 = bs) :
    (∀ l ∈ ps.map stripCr, keep l = true) ∧ crlfLines (ps.map stripCr) = joinLines ps := by
  have hclean : ∀ l ∈ (ps.map stripCr).filter keep, '\n' ∉ l := by
    intro l hl
    obtain ⟨p, hp, rfl⟩ := List.mem_map.mp (List.mem_of_mem_filter hl)
    exact not_mem_stripCr (hps p hp)
  rw [← h, scanBytes_utf8, scanText_crlfLines hclean, scanText_joinLines hps] at hscan
  obtain ⟨-, hlf, hbare⟩ := Scan.mk.inj hscan
  constructor
  · have hlen : ((ps.map stripCr).filter keep).length = (ps.map stripCr).length := by
      rw [hlf, List.length_map, Nat.zero_add]
    exact List.length_filter_eq_length_iff.mp hlen
  · refine crlfLines_stripCr fun p hp => ?_
    rw [Nat.zero_add] at hbare
    have hno := List.countP_eq_zero.mp hbare.symm p hp
    simpa using hno

end Rsurl
