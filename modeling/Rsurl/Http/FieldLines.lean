/-
# `Rsurl.Http.FieldLines` — the header lines of a response

The header loop cuts every line at its first colon and trims both sides.  A field
line of RFC 9112 is a token, the colon, and a value in blanks.  The loop reads
the lines up to one of CRs alone (`readHeaders_iff`); `fieldLines_iff` says
which of them make the header list the list of the fields.
-/
import Rsurl.Http.Complete

namespace Rsurl.Http

/-! ## The loop -/

/-- The field that is made of a line. -/
def readField (line : Bytes) : Header :=
  match (fromUtf8Lossy line).trimEndCrlf.splitOnce ':' with
  | some (k, v) => (k.trim, v.trim)
  | none => ([], [])

/-- Lines with a colon, and a last one that is empty. -/
inductive HeaderLines : Source → List Bytes → Bytes → Source → Prop
  | done {last bytes : Bytes} {tail : Option IoKind} (hline : IsLine last)
      (hempty : IsEmptyLine last) : HeaderLines ⟨last ++ bytes, tail⟩ [] last ⟨bytes, tail⟩
  | stop {last : Bytes} (hlf : 10 ∉ last) (hlimit : last.length ≤ maxHeaderBytes) (hne : last ≠ [])
      (hempty : IsEmptyLine last) : HeaderLines ⟨last, none⟩ [] last ⟨[], none⟩
  | field {line bytes last : Bytes} {tail : Option IoKind} {lines : List Bytes} {s : Source}
      (hline : IsLine line) (hcolon : ':' ∈ fromUtf8Lossy line)
      (hrest : HeaderLines ⟨bytes, tail⟩ lines last s) :
      HeaderLines ⟨line ++ bytes, tail⟩ (line :: lines) last s

theorem mem_trimEndCrlf {t : Text} {c : Char} (hc : (c == '\r' || c == '\n') = false) (h : c ∈ t) :
    c ∈ t.trimEndCrlf := by
  obtain ⟨w, hw, hends⟩ := rdropWhile_back (p := fun c => c == '\r' || c == '\n') t
  rw [hw] at h
  rcases List.mem_append.mp h with h | h
  · exact h
  · have hend := hends c h
    rw [hc] at hend
    cases hend

theorem trimEndCrlf_subset {t : Text} {c : Char} (h : c ∈ t.trimEndCrlf) : c ∈ t :=
  (List.rdropWhile_prefix _ t).subset h

theorem not_empty_of_colon {line : Bytes} (h : ':' ∈ fromUtf8Lossy line) : ¬ IsEmptyLine line := by
  intro hempty
  have hmem := mem_trimEndCrlf (by decide) h
  rw [show (fromUtf8Lossy line).trimEndCrlf = [] from hempty] at hmem
  cases hmem

theorem readHeaders_line {line : Bytes} {s : Source} {size : Nat} {headers : List Header}
    (s₀ : Source) (hread : readLineCapped s₀ maxHeaderBytes = (.ok line, s)) (hne : line ≠ [])
    (fuel : Nat) :
    readHeaders (fuel + 1) s₀ headers size =
      if maxHeaderBytes < size + line.length then
        (.error (.badResponse [.str "headers exceed 64 KiB"]), s)
      else if IsEmptyLine line then (.ok headers, s)
      else if ':' ∈ fromUtf8Lossy line then
        readHeaders fuel s (headers ++ [readField line]) (size + line.length)
      else
        (.error (.badResponse [.str "malformed header line: ",
          .debug (fromUtf8Lossy line).trimEndCrlf]), s) := by
  rw [readHeaders, hread]
  dsimp only
  rw [if_neg hne]
  by_cases hlong : maxHeaderBytes < size + line.length
  · rw [if_pos hlong, if_pos hlong]
  rw [if_neg hlong, if_neg hlong]
  by_cases hempty : IsEmptyLine line
  · rw [if_pos hempty]
    exact if_pos hempty
  rw [if_neg hempty, readField]
  refine (if_neg hempty).trans ?_
  cases hcut : (fromUtf8Lossy line).trimEndCrlf.splitOnce ':' with
  | none =>
      have hnone : ':' ∉ fromUtf8Lossy line := fun hmem =>
        Text.splitOnce_eq_none.mp hcut (mem_trimEndCrlf (by decide) hmem)
      rw [if_neg hnone]
  | some p =>
      obtain ⟨k, v⟩ := p
      have hmem : ':' ∈ (fromUtf8Lossy line).trimEndCrlf := by
        rw [(Text.splitOnce_eq_some.mp hcut).1]
        exact List.mem_append_right _ List.mem_cons_self
      rw [if_pos (trimEndCrlf_subset hmem)]

theorem readHeaders_end (fuel : Nat) (headers : List Header) (size : Nat) :
    ∃ e, readHeaders fuel ⟨[], none⟩ headers size = (.error e, ⟨[], none⟩) := by
  cases fuel with
  | zero => exact ⟨_, rfl⟩
  | succ fuel =>
      rw [readHeaders, readLineCapped_of_end List.not_mem_nil (Nat.zero_le _)]
      exact ⟨_, rfl⟩

/-- What the header loop returns: a field for every line in front of the empty one. -/
theorem readHeaders_iff {fuel : Nat} {s s' : Source} {headers fields : List Header} {size : Nat}
    (hfuel : s.bytes.length < fuel) :
    readHeaders fuel s headers size = (.ok fields, s') ↔
      ∃ lines last, HeaderLines s lines last s' ∧
        size + (lines.flatten ++ last).length ≤ maxHeaderBytes ∧
        fields = headers ++ lines.map readField := by
  induction fuel generalizing s headers size with
  | zero => exact absurd hfuel (Nat.not_lt_zero _)
  | succ fuel ih =>
      constructor
      · intro h
        have hread : ∃ line s₁, readLineCapped s maxHeaderBytes = (.ok line, s₁) ∧ line ≠ [] := by
          rw [readHeaders] at h
          split at h
          · cases (Prod.mk.inj h).1
          next line s₁ hread =>
          split at h
          · cases (Prod.mk.inj h).1
          · next hne => exact ⟨line, s₁, hread, hne⟩
        obtain ⟨line, ⟨bytes₁, tail₁⟩, hread, hne⟩ := hread
        rw [readHeaders_line s hread hne] at h
        by_cases hlong : maxHeaderBytes < size + line.length
        · rw [if_pos hlong] at h
          cases (Prod.mk.inj h).1
        rw [if_neg hlong] at h
        by_cases hempty : IsEmptyLine line
        · rw [if_pos hempty] at h
          obtain ⟨hfields, rfl⟩ := Prod.mk.inj h
          obtain rfl := Except.ok.inj hfields
          refine ⟨[], line, ?_, Nat.not_lt.mp hlong, (List.append_nil _).symm⟩
          rcases readLineCapped_eq_ok.mp hread with ⟨hline, hbytes, htail⟩ | ⟨hlf, hlimit, rfl, hs₁⟩
          · obtain ⟨bytes, tail⟩ := s
            obtain rfl : bytes = line ++ bytes₁ := hbytes
            obtain rfl : tail = tail₁ := htail
            exact .done hline hempty
          · rw [hs₁]
            exact .stop hlf hlimit hne hempty
        rw [if_neg hempty] at h
        by_cases hcolon : ':' ∈ fromUtf8Lossy line
        · rw [if_pos hcolon] at h
          rcases readLineCapped_eq_ok.mp hread with ⟨hline, hbytes, htail⟩ | ⟨hlf, hlimit, rfl, hs₁⟩
          · obtain ⟨bytes, tail⟩ := s
            obtain rfl : bytes = line ++ bytes₁ := hbytes
            obtain rfl : tail = tail₁ := htail
            have hpos := List.length_pos_of_ne_nil hne
            have hshort : bytes₁.length < fuel := by
              simp only [List.length_append] at hfuel
              omega
            obtain ⟨lines, last, hlines, hsize, rfl⟩ := (ih hshort).mp h
            refine ⟨line :: lines, last, .field hline hcolon hlines, ?_, ?_⟩
            · rwa [List.flatten_cons, List.append_assoc, List.length_append, ← Nat.add_assoc]
            · rw [List.append_assoc]
              rfl
          · obtain ⟨e, hend⟩ := readHeaders_end fuel (headers ++ [readField line])
              (size + line.length)
            rw [hs₁, hend] at h
            cases (Prod.mk.inj h).1
        · rw [if_neg hcolon] at h
          cases (Prod.mk.inj h).1
      · rintro ⟨lines, last, hlines, hsize, rfl⟩
        cases hlines with
        | @done last bytes tail hline hempty =>
            have hread := readLineCapped_of_isLine hline bytes tail
            have hroom : ¬ maxHeaderBytes < size + last.length := Nat.not_lt.mpr hsize
            rw [readHeaders_line _ hread hline.ne_nil, if_neg hroom, if_pos hempty,
              List.map_nil, List.append_nil]
        | @stop last hlf hlimit hne hempty =>
            have hread := readLineCapped_of_end hlf hlimit
            have hroom : ¬ maxHeaderBytes < size + last.length := Nat.not_lt.mpr hsize
            rw [readHeaders_line _ hread hne, if_neg hroom, if_pos hempty,
              List.map_nil, List.append_nil]
        | @field line bytes last tail lines s hline hcolon hrest =>
            have hread := readLineCapped_of_isLine hline bytes tail
            have hpos := List.length_pos_of_ne_nil hline.ne_nil
            rw [List.flatten_cons, List.append_assoc, List.length_append, ← Nat.add_assoc] at hsize
            have hshort : bytes.length < fuel := by
              simp only [List.length_append] at hfuel
              omega
            have hroom : ¬ maxHeaderBytes < size + line.length := by omega
            rw [readHeaders_line _ hread hline.ne_nil, if_neg hroom,
              if_neg (not_empty_of_colon hcolon), if_pos hcolon]
            refine (ih hshort).mpr ⟨lines, last, hrest, hsize, ?_⟩
            rw [List.append_assoc]
            rfl

/-! ## Field lines -/

/-- A character of a field value: a tab, or anything that is no control. -/
def isFieldChar (c : Char) : Bool := c == '\t' || (0x20 ≤ c.toNat && c.toNat != 0x7f)

/-- `field-name ":" OWS field-value OWS`, and the field it is. -/
structure IsFieldLine (content : Text) (f : Header) : Prop where
  name : isValidHeaderName f.1 = true
  value : f.2.all isFieldChar = true
  front : ∀ c ∈ f.2.head?, isBlank c = false
  back : ∀ c ∈ f.2.getLast?, isBlank c = false
  line : ∃ w w', content = f.1 ++ ':' :: (w ++ (f.2 ++ w')) ∧ (∀ c ∈ w, isBlank c = true) ∧
    ∀ c ∈ w', isBlank c = true

/-- What stands on a line. -/
def contentOf (line : Bytes) : Text := lineContent (fromUtf8Lossy line)

/-- Field lines, in order, through an empty line. -/
inductive FieldSection : Source → List Header → Source → Prop
  | done {last bytes : Bytes} {tail : Option IoKind} (hline : IsLine last)
      (hempty : contentOf last = []) : FieldSection ⟨last ++ bytes, tail⟩ [] ⟨bytes, tail⟩
  | field {line bytes : Bytes} {tail : Option IoKind} {f : Header} {fields : List Header}
      {s : Source} (hline : IsLine line) (hfield : IsFieldLine (contentOf line) f)
      (hrest : FieldSection ⟨bytes, tail⟩ fields s) :
      FieldSection ⟨line ++ bytes, tail⟩ (f :: fields) s

/-- A field line whose value has no white space of another kind at its ends. -/
def IsStrictLine (line : Bytes) : Prop :=
  ∃ f : Header, IsFieldLine (contentOf line) f ∧ f.2.trim = f.2

theorem token_char {c : Char} (h : isTokenChar c = true) :
    c ≠ ':' ∧ isWhitespace c = false ∧ (c == '\r' || c == '\n') = false := by
  have hvisible : isWhitespace c = false := by
    rcases (Bool.or_eq_true _ _).mp h with h | h
    · rw [Bool.eq_false_iff]
      intro hspace
      simp only [isWhitespace, Bool.or_eq_true, Bool.and_eq_true, decide_eq_true_eq,
        beq_iff_eq] at hspace
      rw [isAlphanum_iff, isAlpha_iff, isDigit_iff] at h
      omega
    · have hall : "!#$%&'*+-.^_`|~".toList.all (fun c => !isWhitespace c) = true := by decide
      exact Bool.not_eq_true' _ ▸ List.all_eq_true.mp hall c (of_decide_eq_true h)
  refine ⟨?_, hvisible, ?_⟩
  · rintro rfl
    exact absurd h (by decide)
  · rw [Bool.eq_false_iff]
    intro hend
    rcases (Bool.or_eq_true _ _).mp hend with heq | heq
    · rw [beq_iff_eq.mp heq] at h
      exact absurd h (by decide)
    · rw [beq_iff_eq.mp heq] at h
      exact absurd h (by decide)

theorem trim_trim (t : Text) : t.trim.trim = t.trim := by
  refine trim_of_ends (fun c hc => ?_) fun c hc => ?_
  · have hd : (t.dropWhile isWhitespace).head? = some c := by
      obtain ⟨r, hr⟩ := List.rdropWhile_prefix isWhitespace (t.dropWhile isWhitespace)
      rw [← hr, List.head?_append, show (t.dropWhile isWhitespace).rdropWhile isWhitespace = t.trim
        from rfl, hc]
      rfl
    have hnot := List.head?_dropWhile_not isWhitespace t
    rw [hd] at hnot
    simpa using hnot
  · have hne : t.trim ≠ [] := by
      intro hnil
      rw [hnil] at hc
      cases hc
    have hlast := List.rdropWhile_last_not isWhitespace (t.dropWhile isWhitespace) hne
    rw [List.getLast?_eq_some_getLast hne] at hc
    obtain rfl : _ = c := Option.some.inj hc
    exact Bool.eq_false_iff.mpr hlast

/-- On a field line nothing is a line end. -/
theorem IsFieldLine.not_end {content : Text} {f : Header} (h : IsFieldLine content f) :
    ∀ c ∈ content, (c == '\r' || c == '\n') = false := by
  obtain ⟨w, w', rfl, hw, hw'⟩ := h.line
  have hname : ∀ c ∈ f.1, isTokenChar c = true :=
    List.all_eq_true.mp ((Bool.and_eq_true _ _).mp h.name).2
  have hblank : ∀ c, isBlank c = true → (c == '\r' || c == '\n') = false := by
    intro c hc
    rcases (Bool.or_eq_true _ _).mp hc with heq | heq
    · rw [beq_iff_eq.mp heq]
      decide
    · rw [beq_iff_eq.mp heq]
      decide
  intro c hc
  rcases List.mem_append.mp hc with hc | hc
  · exact (token_char (hname c hc)).2.2
  rcases List.mem_cons.mp hc with rfl | hc
  · decide
  rcases List.mem_append.mp hc with hc | hc
  · exact hblank c (hw c hc)
  rcases List.mem_append.mp hc with hc | hc
  · have hchar := List.all_eq_true.mp h.value c hc
    rw [Bool.eq_false_iff]
    intro hend
    rcases (Bool.or_eq_true _ _).mp hend with heq | heq
    · rw [beq_iff_eq.mp heq] at hchar
      exact absurd hchar (by decide)
    · rw [beq_iff_eq.mp heq] at hchar
      exact absurd hchar (by decide)
  · exact hblank c (hw' c hc)

theorem trimEndCrlf_eq_contentOf {line : Bytes}
    (h : ∀ c ∈ contentOf line, (c == '\r' || c == '\n') = false) :
    (fromUtf8Lossy line).trimEndCrlf = contentOf line := by
  obtain ⟨e, he, hends⟩ := lineContent_spec (fromUtf8Lossy line)
  have hall : ∀ c ∈ e, (c == '\r' || c == '\n') = true := fun c hc => by
    rcases hends c hc with rfl | rfl
    · rfl
    · rfl
  have hsplit : fromUtf8Lossy line = contentOf line ++ e := he
  rw [hsplit, Text.trimEndCrlf, rdropWhile_append_of_all hall]
  refine List.rdropWhile_eq_self_iff.mpr fun hne hlast => ?_
  rw [h _ (List.getLast_mem hne)] at hlast
  cases hlast

theorem readField_of_strict {line : Bytes} {f : Header} (h : IsFieldLine (contentOf line) f)
    (htrim : f.2.trim = f.2) : readField line = f := by
  obtain ⟨w, w', hline, hw, hw'⟩ := h.line
  have hname : ∀ c ∈ f.1, isTokenChar c = true :=
    List.all_eq_true.mp ((Bool.and_eq_true _ _).mp h.name).2
  have hcolon : ':' ∉ f.1 := fun hc => (token_char (hname _ hc)).1 rfl
  have hcut : (contentOf line).splitOnce ':' = some (f.1, w ++ (f.2 ++ w')) :=
    Text.splitOnce_eq_some.mpr ⟨hline, hcolon⟩
  have hkey : f.1.trim = f.1 :=
    trim_of_ends (fun c hc => (token_char (hname c (List.mem_of_mem_head? hc))).2.1)
      fun c hc => (token_char (hname c (List.mem_of_mem_getLast? hc))).2.1
  have hvalue : Text.trim (w ++ (f.2 ++ w')) = f.2 := by
    rw [trim_space_append fun c hc => isWhitespace_of_isBlank (hw c hc),
      trim_append_space fun c hc => isWhitespace_of_isBlank (hw' c hc), htrim]
  rw [readField, trimEndCrlf_eq_contentOf h.not_end, hcut]
  dsimp only
  rw [hkey, hvalue]

/-- Both sides of a field have been trimmed. -/
theorem trim_readField (line : Bytes) : (readField line).2.trim = (readField line).2 := by
  unfold readField
  split
  · exact trim_trim _
  · rfl

/-! ## Sections -/

theorem fieldSection_of_strict {s s' : Source} {lines : List Bytes} {last : Bytes}
    (h : HeaderLines s lines last s') (hlast : IsLine last) (hend : contentOf last = [])
    (hstrict : ∀ line ∈ lines, IsStrictLine line) : FieldSection s (lines.map readField) s' := by
  induction h with
  | done hline _ => exact .done hline hend
  | stop hlf =>
      exact absurd (List.append_nil _) (hlast.ne_of_not_mem hlf)
  | @field line bytes last tail lines s hline _ _ ih =>
      obtain ⟨f, hfield, htrim⟩ := hstrict line List.mem_cons_self
      rw [List.map_cons, readField_of_strict hfield htrim]
      exact .field hline hfield
        (ih hlast hend fun line' hline' => hstrict line' (List.mem_cons_of_mem _ hline'))

theorem strict_of_fieldSection {s s' s'' : Source} {lines : List Bytes} {last : Bytes}
    (h : HeaderLines s lines last s') (hsection : FieldSection s (lines.map readField) s'') :
    IsLine last ∧ contentOf last = [] ∧ ∀ line ∈ lines, IsStrictLine line := by
  induction h with
  | @done last bytes tail hline _ =>
      generalize hs : (⟨last ++ bytes, tail⟩ : Source) = t at hsection
      cases hsection with
      | done hline' hend =>
          obtain ⟨heq, -⟩ := Source.mk.inj hs
          obtain ⟨rfl, -⟩ := hline.unique hline' heq
          exact ⟨hline, hend, nofun⟩
  | @stop last hlf =>
      generalize hs : (⟨last, none⟩ : Source) = t at hsection
      cases hsection with
      | done hline' =>
          obtain ⟨heq, -⟩ := Source.mk.inj hs
          exact absurd heq.symm (hline'.ne_of_not_mem hlf)
  | @field line bytes last tail lines s hline _ _ ih =>
      rw [List.map_cons] at hsection
      generalize hs : (⟨line ++ bytes, tail⟩ : Source) = t at hsection
      cases hsection with
      | field hline' hfield hrest =>
          obtain ⟨heq, rfl⟩ := Source.mk.inj hs
          obtain ⟨rfl, rfl⟩ := hline.unique hline' heq
          obtain ⟨hlast, hend, hstrict⟩ := ih hrest
          refine ⟨hlast, hend, fun line' hmem => ?_⟩
          rcases List.mem_cons.mp hmem with rfl | hmem
          · exact ⟨_, hfield, trim_readField _⟩
          · exact hstrict line' hmem

/-- For every stream behind a status line: the header list is the list of the field lines if and
only if the lines that are accepted are field lines, their values without other white space at the
ends, and the last line is empty. -/
theorem fieldLines_iff (s : Source) :
    (∀ fields s', readHeaders (s.bytes.length + 1) s [] 0 = (.ok fields, s') →
      FieldSection s fields s') ↔
    ∀ lines last s', HeaderLines s lines last s' →
      (lines.flatten ++ last).length ≤ maxHeaderBytes →
        IsLine last ∧ contentOf last = [] ∧ ∀ line ∈ lines, IsStrictLine line := by
  have hread : ∀ fields s', readHeaders (s.bytes.length + 1) s [] 0 = (.ok fields, s') ↔
      ∃ lines last, HeaderLines s lines last s' ∧
        (lines.flatten ++ last).length ≤ maxHeaderBytes ∧ fields = lines.map readField := by
    intro fields s'
    rw [readHeaders_iff (Nat.lt_succ_self _)]
    simp only [Nat.zero_add, List.nil_append]
  constructor
  · intro hlaw lines last s' hlines hsize
    exact strict_of_fieldSection hlines
      (hlaw _ s' ((hread _ _).mpr ⟨lines, last, hlines, hsize, rfl⟩))
  · intro hstrict fields s' hok
    obtain ⟨lines, last, hlines, hsize, rfl⟩ := (hread fields s').mp hok
    obtain ⟨hlast, hend, hall⟩ := hstrict lines last s' hlines hsize
    exact fieldSection_of_strict hlines hlast hend hall

/-- A folded line makes a field of its own, here one that frames the body. -/
theorem fieldLines_fold :
    ¬ ∀ s fields s', readHeaders (s.bytes.length + 1) s [] 0 = (.ok fields, s') →
      FieldSection s fields s' := by
  intro hlaw
  have hline : IsLine (Text.utf8 " Content-Length: 5\r\n".toList) :=
    ⟨⟨Text.utf8 " Content-Length: 5\r".toList, by decide, by decide⟩, by decide⟩
  have hsection := hlaw ⟨Text.utf8 " Content-Length: 5\r\n\r\n".toList, none⟩
    [("Content-Length".toList, "5".toList)] ⟨[], none⟩ (by decide +kernel)
  have hlines : HeaderLines ⟨Text.utf8 " Content-Length: 5\r\n\r\n".toList, none⟩
      [Text.utf8 " Content-Length: 5\r\n".toList] [13, 10] ⟨[], none⟩ :=
    @HeaderLines.field _ [13, 10] _ _ _ _ hline (by decide +kernel)
      (@HeaderLines.done _ [] _ ⟨⟨[13], rfl, by decide⟩, by decide⟩ (by decide +kernel))
  obtain ⟨f, hfield, -⟩ := (strict_of_fieldSection hlines hsection).2.2 _ List.mem_cons_self
  obtain ⟨w, w', hcontent, -⟩ := hfield.line
  have hspace : (contentOf (Text.utf8 " Content-Length: 5\r\n".toList)).head? = some ' ' := by
    decide +kernel
  obtain ⟨hne, hname⟩ := (Bool.and_eq_true _ _).mp hfield.name
  have hfirst : f.1 ≠ [] := by
    intro hnil
    rw [hnil] at hne
    cases hne
  obtain ⟨c, k, hck⟩ := List.exists_cons_of_ne_nil hfirst
  rw [hcontent, hck] at hspace
  obtain rfl : c = ' ' := Option.some.inj hspace
  exact absurd (List.all_eq_true.mp hname ' ' (hck ▸ List.mem_cons_self)) (by decide)

end Rsurl.Http
