/-
# `Rsurl.Pop3.Stuffing` — a message behind its stuffed dots

A message is lines that end with CR LF, and a line may have a CR or an LF of its
own.  The client looks for lines behind every LF, so the message comes back as it
was sent unless a dot follows an LF that ends no line.
-/
import Mathlib.Data.List.Infix
import Mathlib.Data.Bool.AllAny
import Rsurl.Pop3

namespace Rsurl.Pop3

def crlf : Bytes := [13, 10]

/-- A line of a message, without its end: whatever does not end a line. -/
abbrev Line := {l : Bytes // ¬crlf <:+: l}

def message (lines : List Line) : Bytes := lines.flatMap fun l => l.val ++ crlf

/-- RFC 1939: a dot more in front of a line that begins with one. -/
def stuff (l : Bytes) : Bytes := if l.head? = some 46 then 46 :: l else l

def stuffed (lines : List Line) : Bytes := lines.flatMap fun l => stuff l.val ++ crlf

/-- What a server sends. -/
def transmitted (lines : List Line) : Bytes := stuffed lines ++ [46, 13, 10]

/-- A dot behind an LF; within a line, this LF ends no line. -/
def DotBehindLf (l : Bytes) : Prop := [10, 46] <:+: l

instance (l : Bytes) : Decidable (DotBehindLf l) := inferInstanceAs (Decidable (_ <:+: _))

theorem DotBehindLf.tail {l : Bytes} (h : DotBehindLf l) (b : UInt8) : DotBehindLf (b :: l) :=
  h.trans (List.suffix_cons b l).isInfix

/-! ## The dots taken out -/

theorem unDotStuffFrom_sublist (start : Bool) (l : Bytes) : (unDotStuffFrom start l).Sublist l := by
  induction l generalizing start with
  | nil => exact List.nil_sublist _
  | cons b l ih =>
      rw [unDotStuffFrom]
      split
      · exact (ih false).trans (List.sublist_cons_self b l)
      · exact (ih _).cons_cons b

/-- An LF ends whatever line the loop is in. -/
theorem unDotStuffFrom_lf (start : Bool) (l rest : Bytes) :
    unDotStuffFrom start (l ++ 10 :: rest) =
      unDotStuffFrom start l ++ 10 :: unDotStuffFrom true rest := by
  induction l generalizing start with
  | nil => cases start <;> rfl
  | cons b l ih =>
      rw [List.cons_append, unDotStuffFrom, unDotStuffFrom]
      split
      · exact ih false
      · rw [ih, List.cons_append]

theorem unDotStuffFrom_cr (start : Bool) (l : Bytes) :
    unDotStuffFrom start (l ++ [13]) = unDotStuffFrom start l ++ [13] := by
  induction l generalizing start with
  | nil => cases start <;> rfl
  | cons b l ih =>
      rw [List.cons_append, unDotStuffFrom, unDotStuffFrom]
      split
      · exact ih false
      · rw [ih, List.cons_append]

/-- Taken out of a stuffed line, only the dots inside the line are missing. -/
theorem unDotStuffFrom_stuff (l : Bytes) :
    unDotStuffFrom true (stuff l) = unDotStuffFrom false l := by
  cases l with
  | nil => rfl
  | cons b l =>
      rw [stuff]
      by_cases hdot : b = 46
      · subst hdot
        rfl
      · have hhead : ¬(b :: l).head? = some 46 := fun h => hdot (Option.some.inj h)
        rw [if_neg hhead, unDotStuffFrom, unDotStuffFrom]
        simp [hdot]

theorem unDotStuff_stuffed (lines : List Line) :
    unDotStuff (stuffed lines) = lines.flatMap fun l => unDotStuffFrom false l.val ++ crlf := by
  rw [unDotStuff]
  induction lines with
  | nil => rfl
  | cons l lines ih =>
      have hsplit : stuffed (l :: lines) = (stuff l.val ++ [13]) ++ 10 :: stuffed lines := by
        simp [stuffed, crlf]
      rw [hsplit, unDotStuffFrom_lf, unDotStuffFrom_cr, unDotStuffFrom_stuff, ih,
        List.flatMap_cons]
      simp [crlf]

/-- The inside of a line is left alone exactly if no dot is behind an LF. -/
theorem unDotStuffFrom_eq_self {l : Bytes} (h : ¬DotBehindLf l) : unDotStuffFrom false l = l := by
  have hgen : ∀ (l : Bytes) (start : Bool), ¬DotBehindLf l → (start = true → l.head? ≠ some 46) →
      unDotStuffFrom start l = l := by
    intro l
    induction l with
    | nil => exact fun _ _ _ => rfl
    | cons b l ih =>
        intro start hdot hhead
        have hkeep : ¬(start && b == 46) = true := by
          intro hboth
          rw [Bool.and_eq_true, beq_iff_eq] at hboth
          exact hhead hboth.1 (congrArg some hboth.2)
        rw [unDotStuffFrom, if_neg hkeep]
        refine congrArg (b :: ·) (ih (b == 10) (fun hin => hdot (hin.tail b)) fun hlf hnext => hdot ?_)
        obtain ⟨rest, rfl⟩ : ∃ rest, l = 46 :: rest := List.head?_eq_some_iff.mp hnext
        obtain rfl : b = 10 := beq_iff_eq.mp hlf
        exact ⟨[], rest, rfl⟩
  exact hgen l false h nofun

theorem not_dotBehindLf_of_eq_self {l : Bytes} (h : unDotStuffFrom false l = l) :
    ¬DotBehindLf l := by
  rintro ⟨front, rest, rfl⟩
  have hsplit : front ++ [10, 46] ++ rest = front ++ 10 :: 46 :: rest := by simp
  rw [hsplit, unDotStuffFrom_lf] at h
  have hfront := (unDotStuffFrom_sublist false front).length_le
  have hrest := (unDotStuffFrom_sublist false rest).length_le
  have hlength := congrArg List.length h
  have hdrop : unDotStuffFrom true (46 :: rest) = unDotStuffFrom false rest := rfl
  rw [hdrop] at hlength
  simp only [List.length_append, List.length_cons] at hlength
  omega

theorem unstuffed_sublist (lines : List Line) :
    (lines.flatMap fun l => unDotStuffFrom false l.val ++ crlf).Sublist (message lines) := by
  rw [message]
  induction lines with
  | nil => exact List.nil_sublist _
  | cons l lines ih =>
      rw [List.flatMap_cons, List.flatMap_cons]
      exact ((unDotStuffFrom_sublist false l.val).append (List.Sublist.refl _)).append ih

/-- The dots come out right for the message if they do for each of its lines. -/
theorem unDotStuff_stuffed_eq_message {lines : List Line} :
    unDotStuff (stuffed lines) = message lines ↔ ∀ l ∈ lines, ¬DotBehindLf l.val := by
  rw [unDotStuff_stuffed]
  constructor
  · intro h
    induction lines with
    | nil => exact nofun
    | cons l lines ih =>
        rw [message, List.flatMap_cons, List.flatMap_cons] at h
        -- no line can make up for what another one has lost
        have hfirst := (unDotStuffFrom_sublist false l.val).length_le
        have hrest := (unstuffed_sublist lines).length_le
        have hlength := congrArg List.length h
        rw [message] at hrest
        simp only [List.length_append] at hlength
        obtain ⟨hline, hlines⟩ := List.append_inj h (by simp only [List.length_append]; omega)
        intro m hm
        rcases List.mem_cons.mp hm with rfl | hm
        · exact not_dotBehindLf_of_eq_self (List.append_cancel_right hline)
        · exact ih hlines m hm
  · exact fun h => List.flatMap_congr fun l hl => by rw [unDotStuffFrom_eq_self (h l hl)]

/-! ## The end of the response -/

theorem multilineLoop_terminator {b : Buffered} {line rest : Bytes}
    (h : Base.Segment.through (· == 10) b.pending = some (line, rest))
    (hend : isTerminator line = true) (out : Bytes) :
    ∃ b', multilineLoop out b = (.ok out, b') ∧ b'.pending = rest := by
  obtain ⟨b', hread, hrest⟩ := readUntil_of_through h
  have hne : line ≠ [] := by rintro rfl; cases hend
  refine ⟨b', ?_, hrest⟩
  rw [multilineLoop]
  split
  · next hline => rw [hread] at hline; cases hline
  · next hline =>
      rw [hread] at hline ⊢
      obtain rfl := Except.ok.inj hline
      rw [dif_neg hne, if_pos hend]

theorem multilineLoop_line {b : Buffered} {line rest : Bytes}
    (h : Base.Segment.through (· == 10) b.pending = some (line, rest))
    (hend : isTerminator line = false) (out : Bytes) :
    ∃ b', multilineLoop out b = multilineLoop (out ++ line) b' ∧ b'.pending = rest := by
  obtain ⟨b', hread, hrest⟩ := readUntil_of_through h
  have hne : line ≠ [] := by
    obtain ⟨-, front, x, rfl, -⟩ := Base.Segment.through_eq_some h
    exact List.append_ne_nil_of_right_ne_nil _ (List.cons_ne_nil _ _)
  refine ⟨b', ?_, hrest⟩
  rw [multilineLoop]
  split
  · next hline => rw [hread] at hline; cases hline
  · next hline =>
      rw [hread] at hline ⊢
      obtain rfl := Except.ok.inj hline
      rw [dif_neg hne, if_neg (by rw [hend]; exact Bool.false_ne_true)]

/-- What was collected stands in front of the line that ended it. -/
theorem multilineLoop_eq_ok {out raw : Bytes} {b b' : Buffered}
    (h : multilineLoop out b = (.ok raw, b')) :
    ∃ more line, raw = out ++ more ∧ isTerminator line = true ∧
      b.pending = more ++ line ++ b'.pending := by
  fun_induction multilineLoop out b with
  | case1 out b e hline => cases h
  | case2 out b hline => cases h
  | case3 out b line hline hend hterm =>
      obtain ⟨hout, rfl⟩ := Prod.mk.inj h
      obtain rfl := Except.ok.inj hout
      exact ⟨[], line, (List.append_nil _).symm, hterm, readUntil_append hline⟩
  | case4 out b line hline hend hterm ih =>
      obtain ⟨more, last, rfl, hlast, hpending⟩ := ih h
      refine ⟨line ++ more, last, List.append_assoc _ _ _, hlast, ?_⟩
      rw [readUntil_append hline, hpending]
      simp only [List.append_assoc]

theorem length_of_isTerminator {line : Bytes} (h : isTerminator line = true) : line.length ≤ 3 := by
  rw [isTerminator, Bool.or_eq_true, beq_iff_eq, beq_iff_eq] at h
  rcases h with rfl | rfl <;> decide

/-- Of a line that begins with no dot, or with two, and has none behind an LF, all is collected. -/
theorem multilineLoop_stuffed {l : Bytes} (hdot : ¬DotBehindLf l)
    (hfirst : l.head? = some 46 → l.tail.head? = some 46) {b : Buffered} {rest : Bytes}
    (h : b.pending = l ++ crlf ++ rest) (out : Bytes) :
    ∃ b', multilineLoop out b = multilineLoop (out ++ (l ++ crlf)) b' ∧ b'.pending = rest := by
  induction hn : l.length using Nat.strong_induction_on generalizing l b out with
  | _ n ih =>
      cases hcut : Base.cut (· == 10) l with
      | none =>
          have hclean := Base.cut_eq_none.mp hcut
          have hthrough : Base.Segment.through (· == 10) b.pending = some (l ++ crlf, rest) := by
            have hsplit : l ++ crlf ++ rest = (l ++ [13]) ++ 10 :: rest := by simp [crlf]
            have hline : l ++ crlf = (l ++ [13]) ++ [10] := by simp [crlf]
            rw [h, hsplit, hline]
            refine Base.Segment.through_append (fun y hy => ?_) rfl
            rcases List.mem_append.mp hy with hy | hy
            · exact hclean y hy
            · rw [List.mem_singleton.mp hy]
              rfl
          have hterm : isTerminator (l ++ crlf) = false := by
            match l, hfirst with
            | [], _ => rfl
            | [x], hfirst =>
                have hx : x ≠ 46 := fun hx => by cases hfirst (congrArg some hx)
                simp [isTerminator, crlf, hx]
            | x :: y :: l, _ =>
                rw [← Bool.not_eq_true]
                intro hterm
                have hlength := length_of_isTerminator hterm
                simp only [crlf, List.length_append, List.length_cons] at hlength
                omega
          exact multilineLoop_line hthrough hterm out
      | some found =>
          obtain ⟨piece, x, more⟩ := found
          obtain ⟨rfl, hx, hclean⟩ := Base.cut_eq_some.mp hcut
          obtain rfl : x = 10 := beq_iff_eq.mp hx
          have hthrough : Base.Segment.through (· == 10) b.pending =
              some (piece ++ [10], more ++ crlf ++ rest) := by
            have hsplit : piece ++ 10 :: more ++ crlf ++ rest =
                piece ++ 10 :: (more ++ crlf ++ rest) := by simp
            rw [h, hsplit]
            exact Base.Segment.through_append hclean rfl
          have hterm : isTerminator (piece ++ [10]) = false := by
            match piece, hfirst with
            | [], _ => rfl
            | [x], hfirst =>
                have hx : x ≠ 46 := fun hx => by cases hfirst (congrArg some hx)
                simp [isTerminator, hx]
            | [x, y], hfirst =>
                have hxy : ¬(x = 46 ∧ y = 13) := by
                  rintro ⟨rfl, rfl⟩
                  cases hfirst rfl
                simp only [isTerminator, List.cons_append, List.nil_append, Bool.or_eq_false_iff,
                  beq_eq_false_iff_ne, ne_eq, List.cons.injEq, not_and]
                exact ⟨fun hx hy => absurd ⟨hx, hy⟩ hxy, fun _ _ h => nomatch h⟩
            | x :: y :: z :: piece, _ => simp [isTerminator]
          obtain ⟨b₁, hfirstLine, hpending⟩ := multilineLoop_line hthrough hterm out
          have hmore : ¬DotBehindLf more := fun hin => hdot <| by
            refine hin.trans ⟨piece ++ [10], [], ?_⟩
            simp
          have hhead : more.head? = some 46 → more.tail.head? = some 46 := by
            intro hhead
            obtain ⟨rest', rfl⟩ := List.head?_eq_some_iff.mp hhead
            exact absurd ⟨piece, rest', by simp⟩ hdot
          obtain ⟨b₂, hrestLine, hrest⟩ := ih more.length
            (by simp only [← hn, List.length_append, List.length_cons]; omega) hmore hhead hpending
            (out ++ (piece ++ [10])) rfl
          refine ⟨b₂, ?_, hrest⟩
          rw [hfirstLine, hrestLine]
          simp

theorem multilineLoop_lines {lines : List Line} (hdot : ∀ l ∈ lines, ¬DotBehindLf l.val)
    {b : Buffered} {rest : Bytes} (h : b.pending = stuffed lines ++ rest) (out : Bytes) :
    ∃ b', multilineLoop out b = multilineLoop (out ++ stuffed lines) b' ∧ b'.pending = rest := by
  induction lines generalizing b out with
  | nil => exact ⟨b, by simp [stuffed], h⟩
  | cons l lines ih =>
      have hsplit : stuffed (l :: lines) = stuff l.val ++ crlf ++ stuffed lines := List.flatMap_cons
      have hstuff : ¬DotBehindLf (stuff l.val) ∧
          ((stuff l.val).head? = some 46 → (stuff l.val).tail.head? = some 46) := by
        have hl := hdot l List.mem_cons_self
        rw [stuff]
        split
        · next hhead =>
            refine ⟨fun hin => hl ?_, fun _ => hhead⟩
            rcases List.infix_cons_iff.mp hin with hpre | hin
            · cases (List.cons_prefix_cons.mp hpre).1
            · exact hin
        · next hhead => exact ⟨hl, fun hdot => absurd hdot hhead⟩
      rw [hsplit, List.append_assoc] at h
      obtain ⟨b₁, hline, hpending⟩ := multilineLoop_stuffed hstuff.1 hstuff.2 h out
      obtain ⟨b₂, hlines, hrest⟩ := ih (fun m hm => hdot m (List.mem_cons_of_mem _ hm)) hpending
        (out ++ (stuff l.val ++ crlf))
      exact ⟨b₂, by rw [hline, hlines, hsplit, List.append_assoc], hrest⟩

/-! ## Both together -/

/-- If a response is read up to where it ends, what was collected is all that was sent. -/
theorem raw_eq_stuffed {lines : List Line} {b b' : Buffered} {raw rest : Bytes}
    (h : b.pending = transmitted lines ++ rest) (hread : readMultiline b = (.ok raw, b'))
    (hrest : b'.pending = rest) : raw = stuffed lines := by
  obtain ⟨more, line, hraw, hterm, hpending⟩ := multilineLoop_eq_ok hread
  rw [List.nil_append] at hraw
  subst hraw
  rw [h, hrest] at hpending
  have hfront := List.append_cancel_right hpending
  rw [isTerminator, Bool.or_eq_true, beq_iff_eq, beq_iff_eq] at hterm
  rcases hterm with rfl | rfl
  · exact (List.append_cancel_right hfront).symm
  · -- a terminator without a CR is not what was sent
    have hlast : (stuffed lines ++ [46]) ++ [13] ++ [10] = (raw ++ [46]) ++ [10] := by
      simpa [transmitted] using hfront
    have hcr := (List.append_inj' (List.append_cancel_right hlast) rfl).2
    cases hcr

theorem readMultiline_transmitted {lines : List Line} (hdot : ∀ l ∈ lines, ¬DotBehindLf l.val)
    {b : Buffered} {rest : Bytes} (h : b.pending = transmitted lines ++ rest) :
    ∃ b', readMultiline b = (.ok (stuffed lines), b') ∧ b'.pending = rest := by
  rw [transmitted, List.append_assoc] at h
  obtain ⟨b₁, hlines, hpending⟩ := multilineLoop_lines hdot h []
  have hthrough : Base.Segment.through (· == 10) b₁.pending = some ([46, 13, 10], rest) := by
    have hclean : ∀ y ∈ ([46, 13] : Bytes), (y == 10) = false :=
      List.all_iff_forall_prop.mp (by decide)
    rw [hpending]
    exact Base.Segment.through_append hclean rfl
  obtain ⟨b₂, hend, hrest⟩ := multilineLoop_terminator hthrough rfl (stuffed lines)
  exact ⟨b₂, by rw [readMultiline, hlines, List.nil_append, hend], hrest⟩

/-- A message comes back, and the reader stands behind it, exactly if none of its lines has a dot
behind an LF of its own. -/
theorem retrieved_iff {lines : List Line} {b : Buffered} {rest : Bytes}
    (h : b.pending = transmitted lines ++ rest) :
    (∃ raw b', readMultiline b = (.ok raw, b') ∧ unDotStuff raw = message lines ∧
        b'.pending = rest) ↔
      ∀ l ∈ lines, ¬DotBehindLf l.val := by
  rw [← unDotStuff_stuffed_eq_message]
  constructor
  · rintro ⟨raw, b', hread, hmessage, hrest⟩
    rwa [← raw_eq_stuffed h hread hrest]
  · intro hmessage
    obtain ⟨b', hread, hrest⟩ :=
      readMultiline_transmitted (unDotStuff_stuffed_eq_message.mp hmessage) h
    exact ⟨stuffed lines, b', hread, hmessage, hrest⟩

/-- Two lines that begin with a dot, the second with nothing else. -/
theorem retrieved_dotted :
    let lines : List Line := [⟨[46, 97], by decide⟩, ⟨[46], by decide⟩]
    let b : Buffered := ⟨[46, 46, 97, 13, 10, 46, 46, 13, 10, 46, 13, 10, 43], [], none⟩
    ∃ raw b', readMultiline b = (.ok raw, b') ∧ unDotStuff raw = message lines ∧
      b'.pending = [43] :=
  (retrieved_iff rfl).mpr (by decide)

/-- One line, `a` LF `.b`: the dot behind the LF gets lost. -/
theorem not_retrieved_dotBehindLf : ∃ (lines : List Line) (b : Buffered),
    b.pending = transmitted lines ++ [43] ∧
      ¬∃ raw b', readMultiline b = (.ok raw, b') ∧ unDotStuff raw = message lines ∧
        b'.pending = [43] := by
  refine ⟨[⟨[97, 10, 46, 98], by decide⟩], ⟨[97, 10, 46, 98, 13, 10, 46, 13, 10, 43], [], none⟩,
    rfl, ?_⟩
  rintro ⟨raw, b', hread, hmessage, hrest⟩
  rw [@raw_eq_stuffed [⟨[97, 10, 46, 98], by decide⟩] _ _ _ _ rfl hread hrest] at hmessage
  exact absurd hmessage (by decide)

end Rsurl.Pop3
