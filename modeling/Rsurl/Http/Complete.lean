/-
# `Rsurl.Http.Complete` — bodies that are cut short

What a stream gives is compared with what the head announces: chunks through the
end of the trailer section, so many bytes, or all there is up to the close.  The
chunk reader takes the end of the stream for the end of the trailer section, and
the reader to the close stops at the cap; `untruncated_iff` says what has to
stand behind a head for a shortened body to be returned.
-/
import Rsurl.Http.Bodies

namespace Rsurl.Http

/-! ## Trailer sections -/

/-- A line with nothing in it. -/
def IsEmptyLine (line : Bytes) : Prop := (fromUtf8Lossy line).trimEndCrlf = []

instance (line : Bytes) : Decidable (IsEmptyLine line) := by
  unfold IsEmptyLine
  infer_instance

/-- Lines through the empty one, and what is behind it. -/
inductive Trailers : Source → Source → Prop
  | done {line bytes : Bytes} {tail : Option IoKind} (hline : IsLine line)
      (hempty : IsEmptyLine line) : Trailers ⟨line ++ bytes, tail⟩ ⟨bytes, tail⟩
  | field {line bytes : Bytes} {tail : Option IoKind} {s : Source} (hline : IsLine line)
      (hfield : ¬ IsEmptyLine line) (hrest : Trailers ⟨bytes, tail⟩ s) :
      Trailers ⟨line ++ bytes, tail⟩ s

/-- Lines that the end of the stream comes in. -/
inductive BreaksOff : Source → Source → Prop
  | stop {last : Bytes} (hlf : 10 ∉ last) (hlimit : last.length ≤ maxHeaderBytes) :
      BreaksOff ⟨last, none⟩ ⟨[], none⟩
  | field {line bytes : Bytes} {tail : Option IoKind} {s : Source} (hline : IsLine line)
      (hfield : ¬ IsEmptyLine line) (hrest : BreaksOff ⟨bytes, tail⟩ s) :
      BreaksOff ⟨line ++ bytes, tail⟩ s

theorem Trailers.shorter {s s' : Source} (h : Trailers s s') : s'.bytes.length < s.bytes.length := by
  induction h with
  | done hline =>
      have hpos := List.length_pos_of_ne_nil hline.ne_nil
      simp only [List.length_append]
      omega
  | field hline _ _ ih =>
      simp only [List.length_append]
      exact Nat.lt_of_lt_of_le ih (Nat.le_add_left _ _)

theorem BreaksOff.end_eq {s s' : Source} (h : BreaksOff s s') : s' = ⟨[], none⟩ := by
  induction h with
  | stop => rfl
  | field _ _ _ ih => exact ih

/-- A section that ends does not break off. -/
theorem Trailers.not_breaksOff {s s' s'' : Source} (h : Trailers s s') : ¬ BreaksOff s s'' := by
  generalize hs : s = t
  intro hbreak
  induction h generalizing t with
  | done hline hempty =>
      cases hbreak with
      | stop hlf =>
          obtain ⟨heq, -⟩ := Source.mk.inj hs
          exact hline.ne_of_not_mem hlf heq
      | field hline' hfield =>
          obtain ⟨heq, -⟩ := Source.mk.inj hs
          obtain ⟨rfl, -⟩ := hline.unique hline' heq
          exact hfield hempty
  | field hline hfield _ ih =>
      cases hbreak with
      | stop hlf =>
          obtain ⟨heq, -⟩ := Source.mk.inj hs
          exact hline.ne_of_not_mem hlf heq
      | field hline' hfield' hrest =>
          obtain ⟨heq, rfl⟩ := Source.mk.inj hs
          obtain ⟨rfl, rfl⟩ := hline.unique hline' heq
          exact ih _ rfl hrest

theorem readTrailers_end (fuel : Nat) :
    readTrailers fuel ⟨[], none⟩ = (.ok (), ⟨[], none⟩) := by
  cases fuel with
  | zero => rfl
  | succ fuel =>
      rw [readTrailers, readLineCapped_of_end List.not_mem_nil (Nat.zero_le _)]
      rfl

theorem readTrailers_line {line : Bytes} (hline : IsLine line) (fuel : Nat) (bytes : Bytes)
    (tail : Option IoKind) :
    readTrailers (fuel + 1) ⟨line ++ bytes, tail⟩ =
      if IsEmptyLine line then (.ok (), ⟨bytes, tail⟩) else readTrailers fuel ⟨bytes, tail⟩ := by
  rw [readTrailers, readLineCapped_of_isLine hline]
  by_cases hempty : IsEmptyLine line
  · rw [if_pos hempty]
    exact if_pos (.inr hempty)
  · rw [if_neg hempty]
    exact if_neg (not_or.mpr ⟨hline.ne_nil, hempty⟩)

theorem readTrailers_stop {last : Bytes} (hlf : 10 ∉ last) (hlimit : last.length ≤ maxHeaderBytes)
    (fuel : Nat) : readTrailers (fuel + 1) ⟨last, none⟩ = (.ok (), ⟨[], none⟩) := by
  rw [readTrailers, readLineCapped_of_end hlf hlimit]
  dsimp only
  rw [readTrailers_end, ite_self]

/-- The trailer loop ends behind the empty line, or where the stream does. -/
theorem readTrailers_iff {fuel : Nat} {s s' : Source} (hfuel : s.bytes.length < fuel) :
    readTrailers fuel s = (.ok (), s') ↔ Trailers s s' ∨ BreaksOff s s' := by
  induction fuel generalizing s with
  | zero => exact absurd hfuel (Nat.not_lt_zero _)
  | succ fuel ih =>
      have hmore : ∀ {line bytes : Bytes}, IsLine line →
          (line ++ bytes).length < fuel + 1 → bytes.length < fuel := by
        intro line bytes hline hlength
        have hpos := List.length_pos_of_ne_nil hline.ne_nil
        rw [List.length_append] at hlength
        omega
      constructor
      · intro h
        have hread : ∃ line s₁, readLineCapped s maxHeaderBytes = (.ok line, s₁) := by
          rw [readTrailers] at h
          split at h
          · cases (Prod.mk.inj h).1
          · next line s₁ hread => exact ⟨line, s₁, hread⟩
        obtain ⟨line, ⟨bytes₁, tail₁⟩, hread⟩ := hread
        rcases readLineCapped_eq_ok.mp hread with ⟨hline, hbytes, htail⟩ | ⟨hlf, hlimit, rfl, -⟩
        · obtain ⟨bytes, tail⟩ := s
          obtain rfl : bytes = line ++ bytes₁ := hbytes
          obtain rfl : tail = tail₁ := htail
          rw [readTrailers_line hline] at h
          by_cases hempty : IsEmptyLine line
          · rw [if_pos hempty] at h
            obtain rfl := (Prod.mk.inj h).2
            exact .inl (.done hline hempty)
          · rw [if_neg hempty] at h
            exact ((ih (hmore hline hfuel)).mp h).imp (.field hline hempty) (.field hline hempty)
        · rw [readTrailers_stop hlf hlimit] at h
          obtain rfl := (Prod.mk.inj h).2
          exact .inr (.stop hlf hlimit)
      · rintro (h | h)
        · cases h with
          | done hline hempty => rw [readTrailers_line hline, if_pos hempty]
          | field hline hfield hrest =>
              rw [readTrailers_line hline, if_neg hfield]
              exact (ih (hmore hline hfuel)).mpr (.inl hrest)
        · cases h with
          | stop hlf hlimit => exact readTrailers_stop hlf hlimit fuel
          | field hline hfield hrest =>
              rw [readTrailers_line hline, if_neg hfield]
              exact (ih (hmore hline hfuel)).mpr (.inr hrest)

/-! ## Chunks -/

/-- The last chunk, and a trailer section behind it. -/
inductive EndsWell : Source → Source → Prop
  | last {line bytes : Bytes} {tail : Option IoKind} {s : Source} (hline : IsLine line)
      (hsize : chunkSize (fromUtf8Lossy line) = .ok 0) (hrest : Trailers ⟨bytes, tail⟩ s) :
      EndsWell ⟨line ++ bytes, tail⟩ s

/-- The last chunk, and the end of the stream behind it, or in it: what is there of a size
line may be a zero. -/
inductive EndsEarly : Source → Source → Prop
  | trailers {line bytes : Bytes} {tail : Option IoKind} {s : Source} (hline : IsLine line)
      (hsize : chunkSize (fromUtf8Lossy line) = .ok 0) (hrest : BreaksOff ⟨bytes, tail⟩ s) :
      EndsEarly ⟨line ++ bytes, tail⟩ s
  | size {last : Bytes} (hlf : 10 ∉ last) (hlimit : last.length ≤ maxHeaderBytes)
      (hsize : chunkSize (fromUtf8Lossy last) = .ok 0) : EndsEarly ⟨last, none⟩ ⟨[], none⟩

/-- Chunks up to an end of a kind: the data in them, and what is left behind it. -/
inductive Chunks (End : Source → Source → Prop) : Source → Bytes → Source → Prop
  | last {s s' : Source} (h : End s s') : Chunks End s [] s'
  | chunk {line data wire body : Bytes} {tail : Option IoKind} {s' : Source} (hline : IsLine line)
      (hsize : chunkSize (fromUtf8Lossy line) = .ok data.length) (hdata : data ≠ [])
      (hrest : Chunks End ⟨wire, tail⟩ body s') :
      Chunks End ⟨line ++ (data ++ 13 :: 10 :: wire), tail⟩ (data ++ body) s'

theorem Chunks.mono {End End' : Source → Source → Prop} {s s' : Source} {body : Bytes}
    (h : Chunks End s body s') (himp : ∀ {s s'}, End s s' → End' s s') : Chunks End' s body s' := by
  induction h with
  | last h => exact .last (himp h)
  | chunk hline hsize hdata _ ih => exact .chunk hline hsize hdata ih

theorem Chunks.or {A B : Source → Source → Prop} {s s' : Source} {body : Bytes} :
    Chunks (fun s s' => A s s' ∨ B s s') s body s' ↔ Chunks A s body s' ∨ Chunks B s body s' := by
  constructor
  · intro h
    induction h with
    | last h => exact h.imp .last .last
    | chunk hline hsize hdata _ ih =>
        exact ih.imp (.chunk hline hsize hdata) (.chunk hline hsize hdata)
  · rintro (h | h)
    · exact h.mono .inl
    · exact h.mono .inr

/-- Sizes and line ends are not part of the data. -/
theorem Chunks.shorter {End : Source → Source → Prop}
    (hend : ∀ {s s'}, End s s' → s'.bytes.length < s.bytes.length) {s s' : Source} {body : Bytes}
    (h : Chunks End s body s') : body.length + s'.bytes.length < s.bytes.length := by
  induction h with
  | last h =>
      rw [List.length_nil, Nat.zero_add]
      exact hend h
  | chunk _ _ _ _ ih =>
      simp only [List.length_append, List.length_cons] at ih ⊢
      omega

theorem chunkSize_nil : chunkSize (fromUtf8Lossy []) ≠ .ok 0 := by decide

theorem EndsWell.shorter {s s' : Source} (h : EndsWell s s') :
    s'.bytes.length < s.bytes.length := by
  cases h with
  | last _ _ hrest =>
      rw [List.length_append]
      exact Nat.lt_of_lt_of_le hrest.shorter (Nat.le_add_left _ _)

theorem EndsEarly.shorter {s s' : Source} (h : EndsEarly s s') :
    s'.bytes.length < s.bytes.length := by
  cases h with
  | trailers hline _ hrest =>
      rw [hrest.end_eq, List.length_append]
      have hpos := List.length_pos_of_ne_nil hline.ne_nil
      show 0 < _
      omega
  | size _ _ hsize =>
      refine List.length_pos_of_ne_nil ?_
      rintro rfl
      exact chunkSize_nil hsize

theorem EndsWell.not_early {s s' s'' : Source} (h : EndsWell s s') : ¬ EndsEarly s s'' := by
  generalize hs : s = t
  intro hearly
  cases h with
  | last hline _ hrest =>
      cases hearly with
      | trailers hline' _ hrest' =>
          obtain ⟨heq, rfl⟩ := Source.mk.inj hs
          obtain ⟨rfl, rfl⟩ := hline.unique hline' heq
          exact hrest.not_breaksOff hrest'
      | size hlf =>
          obtain ⟨heq, -⟩ := Source.mk.inj hs
          exact hline.ne_of_not_mem hlf heq

theorem EndsWell.size {line bytes : Bytes} {tail : Option IoKind} {s : Source} (hline : IsLine line)
    (h : EndsWell ⟨line ++ bytes, tail⟩ s) : chunkSize (fromUtf8Lossy line) = .ok 0 := by
  generalize hs : (⟨line ++ bytes, tail⟩ : Source) = t at h
  cases h with
  | last hline' hsize =>
      obtain ⟨heq, -⟩ := Source.mk.inj hs
      obtain ⟨rfl, -⟩ := hline.unique hline' heq
      exact hsize

theorem EndsEarly.size_eq {line bytes : Bytes} {tail : Option IoKind} {s : Source}
    (hline : IsLine line) (h : EndsEarly ⟨line ++ bytes, tail⟩ s) :
    chunkSize (fromUtf8Lossy line) = .ok 0 := by
  generalize hs : (⟨line ++ bytes, tail⟩ : Source) = t at h
  cases h with
  | trailers hline' hsize =>
      obtain ⟨heq, -⟩ := Source.mk.inj hs
      obtain ⟨rfl, -⟩ := hline.unique hline' heq
      exact hsize
  | size hlf =>
      obtain ⟨heq, -⟩ := Source.mk.inj hs
      exact absurd heq (hline.ne_of_not_mem hlf)

theorem not_last_of_data {line data : Bytes} (hdata : data ≠ [])
    (hsize : chunkSize (fromUtf8Lossy line) = .ok data.length) :
    chunkSize (fromUtf8Lossy line) ≠ .ok 0 := by
  intro hzero
  rw [hsize] at hzero
  exact hdata (List.length_eq_zero_iff.mp (Except.ok.inj hzero))

/-- The same stream does not end both ways. -/
theorem Chunks.not_early {s s' s'' : Source} {body body' : Bytes} (h : Chunks EndsWell s body s') :
    ¬ Chunks EndsEarly s body' s'' := by
  induction h generalizing body' with
  | last h =>
      intro hearly
      cases hearly with
      | last hearly => exact h.not_early hearly
      | chunk hline hsize hdata => exact not_last_of_data hdata hsize (h.size hline)
  | @chunk line data wire body tail s' hline hsize hdata hrest ih =>
      intro hearly
      generalize hs : (⟨line ++ (data ++ 13 :: 10 :: wire), tail⟩ : Source) = t at hearly
      cases hearly with
      | last hearly =>
          rw [← hs] at hearly
          exact not_last_of_data hdata hsize (hearly.size_eq hline)
      | chunk hline' hsize' _ hrest' =>
          obtain ⟨heq, rfl⟩ := Source.mk.inj hs
          obtain ⟨rfl, hmore⟩ := hline.unique hline' heq
          rw [hsize] at hsize'
          obtain ⟨-, hwire⟩ := List.append_inj hmore (Except.ok.inj hsize')
          obtain ⟨-, hwire⟩ := List.cons.inj hwire
          obtain ⟨-, rfl⟩ := List.cons.inj hwire
          exact ih hrest'

/-! ## Reading chunks -/

theorem readExact_eq_ok {s s' : Source} {n : Nat} {data : Bytes} :
    s.readExact n = (.ok data, s') ↔
      s.bytes = data ++ s'.bytes ∧ data.length = n ∧ s'.tail = s.tail := by
  obtain ⟨bytes, tail⟩ := s
  obtain ⟨bytes', tail'⟩ := s'
  constructor
  · intro h
    rw [Source.readExact] at h
    split at h
    · next hle =>
        obtain ⟨hdata, hs⟩ := Prod.mk.inj h
        obtain rfl := Except.ok.inj hdata
        obtain ⟨rfl, rfl⟩ := Source.mk.inj hs
        exact ⟨(List.take_append_drop n bytes).symm, List.length_take_of_le hle, rfl⟩
    · cases (Prod.mk.inj h).1
  · rintro ⟨hbytes, rfl, htail⟩
    obtain rfl : bytes = data ++ bytes' := hbytes
    obtain rfl : tail' = tail := htail
    exact Source.readExact_append tail'

/-- The loop of `read_chunked` behind a size line. -/
def readChunk (fuel : Nat) (s : Source) (body : Bytes) (size : Nat) : Result Bytes × Source :=
  if Compress.maxBodyBytes < body.length + size then
    (.error (.badResponse [.str "body too large"]), s)
  else if size = 0 then
    match readTrailers (s.bytes.length + 1) s with
    | (.error e, s) => (.error e, s)
    | (.ok (), s) => (.ok body, s)
  else
    match s.readExact size with
    | (.error kind, s) => (.error (.io kind), s)
    | (.ok chunk, s) =>
        match s.readExact 2 with
        | (.error kind, s) => (.error (.io kind), s)
        | (.ok crlf, s) =>
            if crlf = [13, 10] then readChunked fuel s (body ++ chunk)
            else (.error (.badResponse [.str "missing CRLF after chunk"]), s)

theorem readChunked_line {line : Bytes} (hline : IsLine line) (fuel : Nat) (bytes : Bytes)
    (tail : Option IoKind) (acc : Bytes) :
    readChunked (fuel + 1) ⟨line ++ bytes, tail⟩ acc =
      match chunkSize (fromUtf8Lossy line) with
      | .error e => (.error e, ⟨bytes, tail⟩)
      | .ok size => readChunk fuel ⟨bytes, tail⟩ acc size := by
  rw [readChunked, readLineCapped_of_isLine hline]
  dsimp only
  rw [if_neg hline.ne_nil]
  rfl

theorem readChunked_stop {last : Bytes} (hlf : 10 ∉ last) (hlimit : last.length ≤ maxHeaderBytes)
    (fuel : Nat) (acc : Bytes) :
    readChunked (fuel + 1) ⟨last, none⟩ acc =
      if last = [] then (.error .unexpectedEof, ⟨[], none⟩)
      else
        match chunkSize (fromUtf8Lossy last) with
        | .error e => (.error e, ⟨[], none⟩)
        | .ok size => readChunk fuel ⟨[], none⟩ acc size := by
  rw [readChunked, readLineCapped_of_end hlf hlimit]
  rfl

section

variable {fuel : Nat} {s s' : Source} {acc b : Bytes}

theorem readChunk_zero_iff (hacc : acc.length ≤ Compress.maxBodyBytes) :
    readChunk fuel s acc 0 = (.ok b, s') ↔ b = acc ∧ (Trailers s s' ∨ BreaksOff s s') := by
  rw [readChunk, Nat.add_zero, if_neg (Nat.not_lt.mpr hacc), if_pos rfl,
    ← readTrailers_iff (Nat.lt_succ_self _)]
  constructor
  · intro h
    split at h
    · cases (Prod.mk.inj h).1
    next s₁ hread =>
    obtain ⟨hb, rfl⟩ := Prod.mk.inj h
    exact ⟨(Except.ok.inj hb).symm, hread⟩
  · rintro ⟨rfl, hread⟩
    rw [hread]

theorem readChunk_iff {size : Nat} (hsize : size ≠ 0) :
    readChunk fuel s acc size = (.ok b, s') ↔
      acc.length + size ≤ Compress.maxBodyBytes ∧ ∃ data wire, s.bytes = data ++ 13 :: 10 :: wire ∧
        data.length = size ∧ readChunked fuel ⟨wire, s.tail⟩ (acc ++ data) = (.ok b, s') := by
  rw [readChunk]
  by_cases hroom : Compress.maxBodyBytes < acc.length + size
  · rw [if_pos hroom]
    constructor
    · intro h
      cases (Prod.mk.inj h).1
    · rintro ⟨hle, -⟩
      exact absurd hroom (Nat.not_lt.mpr hle)
  rw [if_neg hroom, if_neg hsize]
  constructor
  · intro h
    refine ⟨Nat.not_lt.mp hroom, ?_⟩
    split at h
    · cases (Prod.mk.inj h).1
    next data s₁ hdata =>
    split at h
    · cases (Prod.mk.inj h).1
    next crlf s₂ hcrlf =>
    obtain ⟨hbytes, hlength, htail⟩ := readExact_eq_ok.mp hdata
    obtain ⟨hbytes₁, -, htail₁⟩ := readExact_eq_ok.mp hcrlf
    split at h
    · next hends =>
        refine ⟨data, s₂.bytes, by rw [hbytes, hbytes₁, hends]; rfl, hlength, ?_⟩
        rwa [← htail, ← htail₁]
    · cases (Prod.mk.inj h).1
  · rintro ⟨-, data, wire, hbytes, hlength, hmore⟩
    have hdata : s.readExact size = (.ok data, ⟨13 :: 10 :: wire, s.tail⟩) :=
      readExact_eq_ok.mpr ⟨hbytes, hlength, rfl⟩
    have hcrlf : Source.readExact ⟨13 :: 10 :: wire, s.tail⟩ 2 = (.ok [13, 10], ⟨wire, s.tail⟩) :=
      readExact_eq_ok.mpr ⟨rfl, rfl, rfl⟩
    rw [hdata]
    dsimp only
    rw [hcrlf]
    exact (if_pos rfl).trans hmore

/-- What `read_chunked` returns: the data of chunks within the cap, with an end of either kind. -/
theorem readChunked_iff (hfuel : s.bytes.length < fuel)
    (hacc : acc.length ≤ Compress.maxBodyBytes) :
    readChunked fuel s acc = (.ok b, s') ↔ ∃ data, b = acc ++ data ∧
      b.length ≤ Compress.maxBodyBytes ∧
        Chunks (fun s s' => EndsWell s s' ∨ EndsEarly s s') s data s' := by
  induction fuel generalizing s acc with
  | zero => exact absurd hfuel (Nat.not_lt_zero _)
  | succ fuel ih =>
      constructor
      · intro h
        have hread : ∃ line s₁, readLineCapped s maxHeaderBytes = (.ok line, s₁) := by
          rw [readChunked] at h
          split at h
          · cases (Prod.mk.inj h).1
          · next line s₁ hread => exact ⟨line, s₁, hread⟩
        obtain ⟨line, ⟨bytes₁, tail₁⟩, hread⟩ := hread
        rcases readLineCapped_eq_ok.mp hread with ⟨hline, hbytes, htail⟩ | ⟨hlf, hlimit, rfl, -⟩
        · obtain ⟨bytes, tail⟩ := s
          obtain rfl : bytes = line ++ bytes₁ := hbytes
          obtain rfl : tail = tail₁ := htail
          rw [readChunked_line hline] at h
          cases hsize : chunkSize (fromUtf8Lossy line) with
          | error e =>
              rw [hsize] at h
              cases (Prod.mk.inj h).1
          | ok size =>
              rw [hsize] at h
              by_cases hzero : size = 0
              · subst hzero
                obtain ⟨rfl, hend⟩ := (readChunk_zero_iff hacc).mp h
                exact ⟨[], (List.append_nil _).symm, hacc,
                  .last (hend.imp (.last hline hsize) (.trailers hline hsize))⟩
              · obtain ⟨hroom, data, wire, hwire, rfl, hmore⟩ := (readChunk_iff hzero).mp h
                obtain rfl : bytes₁ = data ++ 13 :: 10 :: wire := hwire
                have hpos := List.length_pos_of_ne_nil hline.ne_nil
                have hshort : wire.length < fuel := by
                  simp only [List.length_append, List.length_cons] at hfuel
                  omega
                have hacc' : (acc ++ data).length ≤ Compress.maxBodyBytes := by
                  rwa [List.length_append]
                obtain ⟨data', rfl, hcap, hchunks⟩ := (ih hshort hacc').mp hmore
                exact ⟨data ++ data', List.append_assoc .., hcap, .chunk hline hsize
                  (fun hnil => hzero (List.length_eq_zero_iff.mpr hnil)) hchunks⟩
        · rw [readChunked_stop hlf hlimit] at h
          split at h
          · cases (Prod.mk.inj h).1
          next hne =>
          cases hsize : chunkSize (fromUtf8Lossy line) with
          | error e =>
              rw [hsize] at h
              cases (Prod.mk.inj h).1
          | ok size =>
              rw [hsize] at h
              by_cases hzero : size = 0
              · subst hzero
                obtain ⟨rfl, hend | hend⟩ := (readChunk_zero_iff hacc).mp h
                · exact absurd hend.shorter (Nat.not_lt_zero _)
                · obtain rfl := hend.end_eq
                  exact ⟨[], (List.append_nil _).symm, hacc,
                    .last (.inr (.size hlf hlimit hsize))⟩
              · obtain ⟨-, data, wire, hwire, -⟩ := (readChunk_iff hzero).mp h
                exact absurd hwire.symm (by simp)
      · rintro ⟨data, rfl, hcap, h⟩
        cases h with
        | last h =>
            rw [List.append_nil]
            rcases h with h | h
            · cases h with
              | last hline hsize hrest =>
                  rw [readChunked_line hline, hsize]
                  exact (readChunk_zero_iff hacc).mpr ⟨rfl, .inl hrest⟩
            · cases h with
              | trailers hline hsize hrest =>
                  rw [readChunked_line hline, hsize]
                  exact (readChunk_zero_iff hacc).mpr ⟨rfl, .inr hrest⟩
              | size hlf hlimit hsize =>
                  have hne : ¬ _ = [] := fun hnil => chunkSize_nil (hnil ▸ hsize)
                  rw [readChunked_stop hlf hlimit, if_neg hne, hsize]
                  exact (readChunk_zero_iff hacc).mpr
                    ⟨rfl, .inr (.stop List.not_mem_nil (Nat.zero_le _))⟩
        | @chunk line data wire body tail s' hline hsize hdata hrest =>
            have hroom : acc.length + data.length ≤ Compress.maxBodyBytes := by
              rw [List.length_append, List.length_append] at hcap
              omega
            have hpos := List.length_pos_of_ne_nil hline.ne_nil
            have hshort : wire.length < fuel := by
              simp only [List.length_append, List.length_cons] at hfuel
              omega
            have hacc' : (acc ++ data).length ≤ Compress.maxBodyBytes := by
              rwa [List.length_append]
            have hmore := (@ih ⟨wire, tail⟩ (acc ++ data) hshort hacc').mpr
              ⟨body, (List.append_assoc ..).symm, hcap, hrest⟩
            have hsome : data.length ≠ 0 := fun hzero => hdata (List.length_eq_zero_iff.mp hzero)
            rw [readChunked_line hline, hsize]
            exact (readChunk_iff hsome).mpr ⟨hroom, data, wire, rfl, rfl, hmore⟩

end

/-! ## Whole bodies -/

theorem readToEnd_eq_ok {s s' : Source} {n : Nat} {body : Bytes} :
    Source.readToEnd s n = (.ok body, s') ↔
      (n ≤ s.bytes.length ∧ body = s.bytes.take n ∧ s' = ⟨s.bytes.drop n, s.tail⟩) ∨
        (s.bytes.length < n ∧ s.tail = none ∧ body = s.bytes ∧ s' = ⟨[], none⟩) := by
  obtain ⟨bytes, tail⟩ := s
  rw [Source.readToEnd]
  by_cases hle : n ≤ bytes.length
  · rw [if_pos hle]
    constructor
    · intro h
      obtain ⟨hbody, rfl⟩ := Prod.mk.inj h
      exact .inl ⟨hle, (Except.ok.inj hbody).symm, rfl⟩
    · rintro (⟨-, rfl, rfl⟩ | ⟨hlt, -⟩)
      · rfl
      · exact absurd hle (Nat.not_le.mpr hlt)
  · rw [if_neg hle]
    cases tail with
    | some kind =>
        constructor
        · intro h
          cases (Prod.mk.inj h).1
        · rintro (⟨hle', -⟩ | ⟨-, htail, -⟩)
          · exact absurd hle' hle
          · cases htail
    | none =>
        constructor
        · intro h
          obtain ⟨hbody, rfl⟩ := Prod.mk.inj h
          exact .inr ⟨Nat.not_le.mp hle, rfl, (Except.ok.inj hbody).symm, rfl⟩
        · rintro (⟨hle', -⟩ | ⟨-, -, rfl, rfl⟩)
          · exact absurd hle' hle
          · rfl

/-- All there is, up to the close of the connection. -/
def UpToClose (s : Source) (body : Bytes) (s' : Source) : Prop :=
  s = ⟨body, none⟩ ∧ s' = ⟨[], none⟩

/-- `chunked` is the coding that was applied last. -/
def endsInChunked (headers : List Header) : Bool := (transferCodings headers).getLast?.any isChunked

/-- The body that a head announces, and what stands behind it: nothing, where there can be none;
chunks, where they are the last transfer coding; under any other, what comes up to the close; so
many bytes as the length says; and without one, up to the close. -/
def IsBody (head : Head) (method : Text) (s : Source) (body : Bytes) (s' : Source) : Prop :=
  if isBodiless method head.status = true then body = [] ∧ s' = s
  else if named head.headers "Transfer-Encoding" ≠ [] then
    if endsInChunked head.headers = true then Chunks EndsWell s body s' else UpToClose s body s'
  else
    match parseContentLength none head.headers with
    | .ok (some n) => s = ⟨body ++ s'.bytes, s'.tail⟩ ∧ body.length = n
    | .ok none => UpToClose s body s'
    | .error _ => False

/-- What is read is a body as announced, and within the cap. -/
def Gives (read : Result Bytes × Source) (announced : Bytes → Source → Prop) : Prop :=
  ∀ body s', read = (.ok body, s') → announced body s' ∧ body.length ≤ Compress.maxBodyBytes

/-- The stream ends before the cap is reached, in whatever way, or closes right there. -/
def EndsInReach (s : Source) : Prop :=
  s.bytes.length < Compress.maxBodyBytes ∨
    s.bytes.length = Compress.maxBodyBytes ∧ s.tail = none

section

variable {s : Source}

theorem gives_close_iff :
    Gives (Source.readToEnd s Compress.maxBodyBytes) (UpToClose s) ↔ EndsInReach s := by
  obtain ⟨bytes, tail⟩ := s
  constructor
  · intro h
    by_cases hlt : bytes.length < Compress.maxBodyBytes
    · exact .inl hlt
    have hle := Nat.not_lt.mp hlt
    obtain ⟨⟨hs, hs'⟩, -⟩ := h _ _ (readToEnd_eq_ok.mpr (.inl ⟨hle, rfl, rfl⟩))
    have hdrop : bytes.drop Compress.maxBodyBytes = [] := (Source.mk.inj hs').1
    exact .inr ⟨Nat.le_antisymm (List.drop_eq_nil_iff.mp hdrop) hle, (Source.mk.inj hs').2⟩
  · intro hreach body s' hread
    rcases readToEnd_eq_ok.mp hread with ⟨hle, rfl, rfl⟩ | ⟨hlt, htail, rfl, rfl⟩
    · rcases hreach with hlt | ⟨heq, htail⟩
      · exact absurd hle (Nat.not_le.mpr hlt)
      · obtain rfl : tail = none := htail
        have hall : bytes.take Compress.maxBodyBytes = bytes := List.take_of_length_le heq.le
        have hnone : bytes.drop Compress.maxBodyBytes = [] := List.drop_of_length_le heq.le
        refine ⟨⟨?_, ?_⟩, List.length_take_le _ _⟩
        · exact congrArg (Source.mk · none) hall.symm
        · exact congrArg (Source.mk · none) hnone
    · obtain rfl : tail = none := htail
      exact ⟨⟨rfl, rfl⟩, hlt.le⟩

/-- Chunks are not what comes up to the close. -/
theorem gives_unread_iff :
    Gives (Source.readToEnd s Compress.maxBodyBytes) (Chunks EndsWell s) ↔
      s.bytes.length < Compress.maxBodyBytes ∧ s.tail ≠ none := by
  constructor
  · intro h
    have hno : ∀ body s', Source.readToEnd s Compress.maxBodyBytes = (.ok body, s') →
        body.length + s'.bytes.length ≠ s.bytes.length := fun body s' hread =>
      Nat.ne_of_lt ((h body s' hread).1.shorter EndsWell.shorter)
    by_cases hlt : s.bytes.length < Compress.maxBodyBytes
    · refine ⟨hlt, fun htail => ?_⟩
      exact hno _ _ (readToEnd_eq_ok.mpr (.inr ⟨hlt, htail, rfl, rfl⟩)) (Nat.add_zero _)
    · refine absurd ?_ (hno _ _ (readToEnd_eq_ok.mpr (.inl ⟨Nat.not_lt.mp hlt, rfl, rfl⟩)))
      show (s.bytes.take _).length + (s.bytes.drop _).length = _
      rw [← List.length_append, List.take_append_drop]
  · rintro ⟨hlt, htail⟩ body s' hread
    rcases readToEnd_eq_ok.mp hread with ⟨hle, -⟩ | ⟨-, hnone, -⟩
    · exact absurd hle (Nat.not_le.mpr hlt)
    · exact absurd hnone htail

theorem readChunked_eq_ok {body : Bytes} {s' : Source} :
    readChunked (s.bytes.length + 1) s [] = (.ok body, s') ↔
      body.length ≤ Compress.maxBodyBytes ∧
        (Chunks EndsWell s body s' ∨ Chunks EndsEarly s body s') := by
  rw [readChunked_iff (Nat.lt_succ_self _) (Nat.zero_le _), ← Chunks.or]
  constructor
  · rintro ⟨data, rfl, hcap, h⟩
    exact ⟨hcap, h⟩
  · rintro ⟨hcap, h⟩
    exact ⟨body, rfl, hcap, h⟩

theorem gives_chunked_iff :
    Gives (readChunked (s.bytes.length + 1) s []) (Chunks EndsWell s) ↔
      ∀ body s', Chunks EndsEarly s body s' → Compress.maxBodyBytes < body.length := by
  constructor
  · intro h body s' hearly
    by_contra hcap
    have hread := readChunked_eq_ok.mpr ⟨Nat.not_lt.mp hcap, .inr hearly⟩
    exact (h body s' hread).1.not_early hearly
  · intro h body s' hread
    obtain ⟨hcap, hwell | hearly⟩ := readChunked_eq_ok.mp hread
    · exact ⟨hwell, hcap⟩
    · exact absurd hcap (Nat.not_le.mpr (h body s' hearly))

/-- What comes up to the close is not chunks. -/
theorem gives_unchunked_iff :
    Gives (readChunked (s.bytes.length + 1) s []) (UpToClose s) ↔
      ∀ body s', Chunks EndsWell s body s' ∨ Chunks EndsEarly s body s' →
        Compress.maxBodyBytes < body.length := by
  constructor
  · intro h body s' hchunks
    by_contra hcap
    obtain ⟨rfl, -⟩ := (h body s' (readChunked_eq_ok.mpr ⟨Nat.not_lt.mp hcap, hchunks⟩)).1
    have hshort : body.length + s'.bytes.length < body.length :=
      hchunks.elim (fun h => h.shorter EndsWell.shorter) fun h => h.shorter EndsEarly.shorter
    exact absurd hshort (Nat.not_lt.mpr (Nat.le_add_right _ _))
  · intro h body s' hread
    obtain ⟨hcap, hchunks⟩ := readChunked_eq_ok.mp hread
    exact absurd hcap (Nat.not_le.mpr (h body s' hchunks))

/-- A body of an announced length is read whole or not at all. -/
theorem gives_length {headers : List Header} (h : named headers "Content-Length" ≠ []) :
    Gives (readPlain s headers) fun body s' =>
      match parseContentLength none headers with
      | .ok (some n) => s = ⟨body ++ s'.bytes, s'.tail⟩ ∧ body.length = n
      | .ok none => UpToClose s body s'
      | .error _ => False := by
  intro body s' hread
  rw [readPlain] at hread
  cases hparse : parseContentLength none headers with
  | error e =>
      rw [hparse] at hread
      cases (Prod.mk.inj hread).1
  | ok r =>
      rw [hparse] at hread
      cases r with
      | none => exact absurd (parseContentLength_eq_ok.mp hparse) h
      | some n =>
          dsimp only at hread ⊢
          split at hread
          · cases (Prod.mk.inj hread).1
          next hcap =>
          split at hread
          · cases (Prod.mk.inj hread).1
          next body₁ s₁ htake =>
          split at hread
          · cases (Prod.mk.inj hread).1
          next hlong =>
          obtain ⟨hbody, rfl⟩ := Prod.mk.inj hread
          obtain rfl := Except.ok.inj hbody
          obtain ⟨bytes, tail⟩ := s
          rcases readToEnd_eq_ok.mp htake with ⟨hle, rfl, rfl⟩ | ⟨hlt, -, rfl, -⟩
          · have hlength : (bytes.take n).length = n := List.length_take_of_le hle
            refine ⟨⟨?_, hlength⟩, hlength.trans_le (Nat.not_lt.mp hcap)⟩
            exact congrArg (Source.mk · tail) (List.take_append_drop n bytes).symm
          · exact absurd hlt hlong

end

/-! ## Responses -/

/-- Whenever a response is returned, whatever the decoders do, its body in front of them is the one
that the head announces, within the cap. -/
def Untruncated (s : Source) (method : Text) : Prop :=
  ∀ codec resp s₃, readResponse codec s method = (.ok resp, s₃) →
    ∀ head s₁ body s₂, readHead s = (.ok head, s₁) →
      readBody s₁ head.headers head.status method = (.ok body, s₂) →
        IsBody head method s₁ body s₂ ∧ body.length ≤ Compress.maxBodyBytes

/-- More codings than are decoded: no response. -/
def HasManyCodings (headers : List Header) : Prop :=
  ∃ first ∈ (Compress.codingFields headers).head?,
    Compress.maxEncodingLayers < (Compress.tokens first).length

/-- What stands behind a head is not cut short unnoticed: a length is announced; without transfer
codings, the stream ends in reach; with them, where chunks are read, the chunks within the cap do
not break off behind the last one, or are none when another coding came behind; and where chunks
are not read, the stream ends in reach, or with an error when they should have been. -/
def StandsWhole (headers : List Header) (s : Source) : Prop :=
  named headers "Content-Length" ≠ [] ∨
    if named headers "Transfer-Encoding" = [] then EndsInReach s
    else
      match (named headers "Transfer-Encoding").any fun f => isChunked f.2,
        endsInChunked headers with
      | true, true =>
          ∀ body s', Chunks EndsEarly s body s' → Compress.maxBodyBytes < body.length
      | true, false =>
          ∀ body s', Chunks EndsWell s body s' ∨ Chunks EndsEarly s body s' →
            Compress.maxBodyBytes < body.length
      | false, true => s.bytes.length < Compress.maxBodyBytes ∧ s.tail ≠ none
      | false, false => EndsInReach s

theorem gives_body_iff {head : Head} {method : Text} (hbody : isBodiless method head.status = false)
    (s : Source) :
    Gives (readBody s head.headers head.status method) (IsBody head method s) ↔
      StandsWhole head.headers s := by
  unfold IsBody StandsWhole
  rw [readBody_eq hbody, hbody]
  simp only [Bool.false_eq_true, if_false]
  by_cases hlength : named head.headers "Content-Length" = []
  · have hnone : parseContentLength none head.headers = .ok none :=
      parseContentLength_eq_ok.mpr hlength
    have hplain : readPlain s head.headers = Source.readToEnd s Compress.maxBodyBytes := by
      rw [readPlain, hnone]
    rw [if_neg fun hc => hc.2 hlength, hplain, hnone, or_iff_right (not_not.mpr hlength)]
    by_cases hcoding : named head.headers "Transfer-Encoding" = []
    · rw [if_pos hcoding, hcoding, List.any_nil, if_neg Bool.false_ne_true]
      simp only [ne_eq, not_true_eq_false, if_false]
      exact gives_close_iff
    · rw [if_neg hcoding]
      simp only [ne_eq, hcoding, not_false_eq_true, if_true]
      cases (named head.headers "Transfer-Encoding").any fun f => isChunked f.2 with
      | true =>
          cases endsInChunked head.headers with
          | true => exact gives_chunked_iff
          | false => exact gives_unchunked_iff
      | false =>
          cases endsInChunked head.headers with
          | true => exact gives_unread_iff
          | false => exact gives_close_iff
  · refine iff_of_true ?_ (.inl hlength)
    by_cases hcoding : named head.headers "Transfer-Encoding" = []
    · rw [if_neg fun hc => hc.1 hcoding, hcoding, List.any_nil, if_neg Bool.false_ne_true]
      simp only [ne_eq, not_true_eq_false, if_false]
      exact gives_length hlength
    · rw [if_pos ⟨hcoding, hlength⟩]
      intro body s' hread
      cases (Prod.mk.inj hread).1

/-- Decodes everything. -/
def acceptAll : Codec := fun _ _ _ => .ok []

theorem peelAll_acceptAll (ts : List Text) (body : Bytes) (budget : Nat) (peeled : Bool) :
    ∃ out, Compress.peelAll acceptAll ts body budget peeled = .ok out := by
  induction ts generalizing body budget peeled with
  | nil => exact ⟨_, rfl⟩
  | cons t ts ih =>
      rw [Compress.peelAll]
      cases Compress.Layer.parse t with
      | none => exact ⟨_, rfl⟩
      | some layer =>
          have hpeel : ∃ inner, Compress.peel acceptAll layer body budget = .ok inner := by
            cases layer with
            | gzip => exact ⟨[], rfl⟩
            | deflate => exact ⟨[], rfl⟩
            | zstd => exact ⟨[], rfl⟩
            | brotli => exact ⟨[], rfl⟩
            | compress => exact ⟨[], rfl⟩
            | identity => exact ⟨body, rfl⟩
          obtain ⟨inner, hinner⟩ := hpeel
          dsimp only
          rw [hinner]
          exact ih ..

/-- The number of codings is all that every decoder fails at. -/
theorem maybeDecodeBody_acceptAll {headers : List Header} (h : ¬ HasManyCodings headers)
    (body : Bytes) : ∃ out, Compress.maybeDecodeBody acceptAll headers body = .ok out := by
  cases hfields : Compress.codingFields headers with
  | nil =>
      rw [Compress.maybeDecodeBody, Compress.findHeader_coding, hfields]
      exact ⟨_, rfl⟩
  | cons first others =>
      have hfew : ¬ Compress.maxEncodingLayers < (Compress.tokens first).length :=
        fun hmany => h ⟨first, by rw [hfields]; rfl, hmany⟩
      rw [Compress.maybeDecodeBody_of_fields hfields, Compress.decodeBody_eq, if_neg hfew]
      split
      · exact ⟨_, rfl⟩
      · obtain ⟨out, hout⟩ := peelAll_acceptAll (Compress.tokens first).reverse body
          Compress.maxBodyBytes false
        rw [hout]
        exact ⟨_, rfl⟩

theorem maybeDecodeBody_many {codec : Codec} {headers : List Header} (h : HasManyCodings headers)
    (body : Bytes) (out : List Header × Bytes) :
    Compress.maybeDecodeBody codec headers body ≠ .ok out := by
  obtain ⟨first, hfirst, hmany⟩ := h
  obtain ⟨others, hfields⟩ := List.head?_eq_some_iff.mp hfirst
  have hne : ¬ Compress.tokens first = [] := by
    intro hnil
    rw [hnil] at hmany
    cases hmany
  rw [Compress.maybeDecodeBody_of_fields hfields, Compress.decodeBody_eq, if_neg hne, if_pos hmany]
  intro h
  cases h

/-- Which responses are never returned with a shortened body: those without a body, those with more
codings than are decoded, and those whose body stands whole behind their head. -/
theorem untruncated_iff {s s₁ : Source} {head : Head} (method : Text)
    (hhead : readHead s = (.ok head, s₁)) :
    Untruncated s method ↔ isBodiless method head.status = true ∨ HasManyCodings head.headers ∨
      StandsWhole head.headers s₁ := by
  have hsame : ∀ {head' s'}, readHead s = (.ok head', s') → head' = head ∧ s' = s₁ := by
    intro head' s' hhead'
    obtain ⟨hhead', hs⟩ := Prod.mk.inj (hhead.symm.trans hhead')
    exact ⟨(Except.ok.inj hhead').symm, hs.symm⟩
  constructor
  · intro h
    by_contra hnot
    rw [not_or, not_or, Bool.not_eq_true] at hnot
    obtain ⟨hbody, hfew, hcut⟩ := hnot
    refine hcut ((gives_body_iff hbody s₁).mp fun body s₂ hread => ?_)
    obtain ⟨⟨headers, body'⟩, hdecode⟩ := maybeDecodeBody_acceptAll hfew body
    have hresp : readResponse acceptAll s method = (.ok (head.response headers body'), s₂) := by
      rw [readResponse_of_head method hhead]
      exact readRest_eq_ok.mpr ⟨body, headers, body', hread, hdecode, rfl⟩
    exact h acceptAll _ _ hresp head s₁ body s₂ hhead hread
  · intro h codec resp s₃ hresp head' s' body s₂ hhead' hread
    obtain ⟨rfl, rfl⟩ := hsame hhead'
    rcases h with hbody | hmany | hwhole
    · rw [Compress.readBody_of_bodiless hbody] at hread
      obtain ⟨hnil, hs⟩ := Prod.mk.inj hread
      rw [← Except.ok.inj hnil, IsBody, if_pos hbody]
      exact ⟨⟨rfl, hs.symm⟩, Nat.zero_le _⟩
    · rw [readResponse_of_head method hhead] at hresp
      obtain ⟨body', headers, body'', -, hdecode, -⟩ := readRest_eq_ok.mp hresp
      exact absurd hdecode (maybeDecodeBody_many hmany body' _)
    · by_cases hbody : isBodiless method head'.status = true
      · rw [Compress.readBody_of_bodiless hbody] at hread
        obtain ⟨hnil, hs⟩ := Prod.mk.inj hread
        rw [← Except.ok.inj hnil, IsBody, if_pos hbody]
        exact ⟨⟨rfl, hs.symm⟩, Nat.zero_le _⟩
      · rw [Bool.not_eq_true] at hbody
        exact (gives_body_iff hbody s').mpr hwhole body s₂ hread

/-- A body of three octets by its length. -/
theorem untruncated_length :
    Untruncated ⟨Text.utf8 "HTTP/1.1 200 OK\r\nContent-Length: 3\r\n\r\nabcHTTP".toList, none⟩
      "GET".toList :=
  (@untruncated_iff _ ⟨Text.utf8 "abcHTTP".toList, none⟩
    ⟨"HTTP/1.1".toList, 200, "OK".toList, [("Content-Length".toList, "3".toList)]⟩ _
    (by decide +kernel)).mpr (.inr (.inr (.inl (by decide))))

/-- A chunked body that is cut off in the size line of its second chunk, `05`, is returned as
if it were all. -/
theorem untruncated_fails : ¬ ∀ s method, Untruncated s method := by
  intro hclaim
  have hread : ∃ resp, readResponse acceptAll ⟨Text.utf8
      "HTTP/1.1 200 OK\r\nTransfer-Encoding: chunked\r\n\r\n3\r\nabc\r\n0".toList, none⟩ "GET".toList =
        (.ok resp, ⟨[], none⟩) := ⟨⟨200, "OK".toList, "HTTP/1.1".toList,
      [("Transfer-Encoding".toList, "chunked".toList)], Text.utf8 "abc".toList⟩, by decide +kernel⟩
  obtain ⟨resp, hread⟩ := hread
  have hbody := (hclaim _ _ _ _ _ hread ⟨"HTTP/1.1".toList, 200, "OK".toList,
    [("Transfer-Encoding".toList, "chunked".toList)]⟩ ⟨Text.utf8 "3\r\nabc\r\n0".toList, none⟩
    (Text.utf8 "abc".toList) ⟨[], none⟩ (by decide +kernel) (by decide +kernel)).1
  have hchunks : Chunks EndsWell ⟨Text.utf8 "3\r\nabc\r\n0".toList, none⟩ (Text.utf8 "abc".toList)
      ⟨[], none⟩ := hbody
  have hzero : chunkSize (fromUtf8Lossy [0x30]) = .ok 0 := by decide
  have hthree : chunkSize (fromUtf8Lossy [0x33, 13, 10]) = .ok 3 := by decide
  have hline : IsLine [0x33, 13, 10] := ⟨⟨[0x33, 13], rfl, by decide⟩, by decide⟩
  have hearly : Chunks EndsEarly ⟨[0x33, 13, 10] ++ ([97, 98, 99] ++ 13 :: 10 :: [0x30]), none⟩
      ([97, 98, 99] ++ []) ⟨[], none⟩ :=
    .chunk hline hthree (List.cons_ne_nil _ _) (.last (.size (by decide) (by decide) hzero))
  exact hchunks.not_early hearly

end Rsurl.Http
