/-
# `Rsurl.Http.LineReader` — `read_line_capped` over the buffered reader

The loop of `read_line_capped` with the calls it makes: `take` re-armed from
what is left of the budget, `read_until` over what the reader holds and the
segments behind that.  Where the budget and its one byte more fit a `u64`, the
line is exactly the one in the stream, wherever the segments end
(`readLine_iff`), and the reading of a source is what this comes to
(`readLine_source`).
-/
import Rsurl.Http.Head
import Rsurl.Socket

namespace Rsurl.Http.LineReader

open Base.Segment (through)

/-! ## The reader -/

/-- `fill_buf`: what is held, or the next segment. -/
def fillBuf (b : Buffered) : Except IoKind Bytes × Buffered :=
  if b.held ≠ [] then (.ok b.held, b)
  else match b.socket.segments, b.socket.tail with
    | p :: ps, tail => (.ok p.val, ⟨p.val, ⟨ps, tail⟩⟩)
    | [], some kind => (.error kind, b)
    | [], none => (.ok [], b)

def consume (n : Nat) (b : Buffered) : Buffered := { b with held := b.held.drop n }

/-- `Take`. -/
structure Take where
  inner : Buffered
  limit : Nat

/-- `fill_buf` of a `Take`: nothing behind its limit. -/
def Take.fillBuf (t : Take) : Except IoKind Bytes × Take :=
  if t.limit = 0 then (.ok [], t)
  else match LineReader.fillBuf t.inner with
    | (.error kind, inner) => (.error kind, { t with inner })
    | (.ok buf, inner) => (.ok (buf.take t.limit), { t with inner })

def Take.consume (n : Nat) (t : Take) : Take :=
  let n := min n t.limit
  ⟨LineReader.consume n t.inner, t.limit - n⟩

theorem Take.fillBuf_limit {t t' : Take} {buf : Bytes} (h : t.fillBuf = (.ok buf, t')) :
    t'.limit = t.limit ∧ buf.length ≤ t.limit := by
  unfold Take.fillBuf at h
  split at h
  · cases h
    exact ⟨rfl, Nat.zero_le _⟩
  · split at h
    · cases h
    · cases h
      exact ⟨rfl, List.length_take_le _ _⟩

/-- `read_until` of an LF: an error, and the bytes that are appended. -/
def readUntil (t : Take) : Option IoKind × Bytes × Take :=
  match _h : t.fillBuf with
  | (.error kind, t) => (some kind, [], t)
  | (.ok available, t) =>
      match through (· == 10) available with
      | some (line, _) => (none, line, t.consume line.length)
      | none =>
          if _hused : available = [] then (none, [], t)
          else
            let (e, more, t) := readUntil (t.consume available.length)
            (e, available ++ more, t)
termination_by t.limit
decreasing_by
  obtain ⟨hlimit, hlength⟩ := Take.fillBuf_limit _h
  have hpos := List.length_pos_of_ne_nil _hused
  show t.limit - min available.length t.limit < _
  omega

/-- The loop of `read_line_capped`: the bytes read so far, and more. -/
def readLoop (max : UInt64) (raw : Bytes) (b : Buffered) : Option (Result Bytes × Buffered) :=
  let remaining := max.toNat - raw.length
  -- `remaining as u64 + 1`
  if 2 ^ 64 ≤ remaining + 1 then none
  else
    match readUntil ⟨b, remaining + 1⟩ with
    | (some kind, _, t) => some (.error (.io kind), t.inner)
    | (none, got, t) =>
        if _hgot : got = [] then some (.ok raw, t.inner)
        else if (raw ++ got).getLast? = some 10 then some (.ok (raw ++ got), t.inner)
        else if _hmax : max.toNat < (raw ++ got).length then
          some (.error (.badResponse [.str "response line exceeds 64 KiB"]), t.inner)
        else readLoop max (raw ++ got) t.inner
termination_by max.toNat + 1 - raw.length
decreasing_by
  have hpos := List.length_pos_of_ne_nil _hgot
  rw [List.length_append] at _hmax ⊢
  omega

/-- `read_line_capped`: the count, the text with the line appended, and the reader; none is a
panic. -/
def readLineCapped (buf : Text) (max : UInt64) (b : Buffered) :
    Option (Result Nat × Text × Buffered) :=
  (readLoop max [] b).map fun (out, b) =>
    match out with
    | .error e => (.error e, buf, b)
    | .ok raw =>
        if raw = [] then (.ok 0, buf, b) else (.ok raw.length, buf ++ fromUtf8Lossy raw, b)

/-! ## What one call reads -/

/-- What `read_until` makes of the bytes to come, up to a limit. -/
inductive Until (limit : Nat) (b : Buffered) : Option IoKind → Bytes → Buffered → Prop
  | line {a : Bytes} {b' : Buffered} (ha : 10 ∉ a) (hroom : a.length < limit)
      (hpending : b.pending = a ++ 10 :: b'.pending) (htail : b'.tail = b.tail) :
      Until limit b none (a ++ [10]) b'
  | full {a : Bytes} {b' : Buffered} (ha : 10 ∉ a) (hlength : a.length = limit)
      (hpending : b.pending = a ++ b'.pending) (htail : b'.tail = b.tail) :
      Until limit b none a b'
  | rest {b' : Buffered} (hnot : 10 ∉ b.pending) (hshort : b.pending.length < limit)
      (hpending : b'.pending = []) (htail : b'.tail = b.tail) : Until limit b b.tail b.pending b'

/-- Bytes without an LF in front. -/
theorem Until.append {limit : Nat} {b b₁ b' : Buffered} {e : Option IoKind} {front got : Bytes}
    (hfront : 10 ∉ front) (hroom : front.length ≤ limit) (hpending : b.pending = front ++ b₁.pending)
    (htail : b₁.tail = b.tail) (h : Until (limit - front.length) b₁ e got b') :
    Until limit b e (front ++ got) b' := by
  have happend : ∀ {a : Bytes}, 10 ∉ a → 10 ∉ front ++ a := fun ha hmem =>
    (List.mem_append.mp hmem).elim hfront ha
  cases h with
  | @line a _ ha hlt hp ht =>
      rw [← List.append_assoc]
      refine .line (happend ha) ?_ ?_ (ht.trans htail)
      · rw [List.length_append]
        omega
      · rw [hpending, hp, List.append_assoc]
  | full ha hlength hp ht =>
      refine .full (happend ha) ?_ ?_ (ht.trans htail)
      · rw [List.length_append]
        omega
      · rw [hpending, hp, List.append_assoc]
  | rest hnot hlt hp ht =>
      rw [← hpending, htail]
      refine .rest ?_ ?_ hp (ht.trans htail)
      · rw [hpending]
        exact happend hnot
      · rw [hpending, List.length_append]
        omega

/-- What is consumed was in front. -/
theorem pending_consume {b : Buffered} {front : Bytes} (h : front <+: b.held) :
    b.pending = front ++ (consume front.length b).pending := by
  obtain ⟨more, hmore⟩ := h
  rw [Buffered.pending, Buffered.pending, consume, ← hmore, List.drop_left, List.append_assoc]

/-- `fill_buf` has reached the end of what comes, and says how it ends. -/
structure AtEnd (b : Buffered) (out : Except IoKind Bytes) : Prop where
  pending : b.pending = []
  out : (∃ kind, b.tail = some kind ∧ out = .error kind) ∨ (b.tail = none ∧ out = .ok [])

/-- `fill_buf` shows bytes that come next. -/
structure Shows (b b' : Buffered) (available : Bytes) : Prop where
  ne_nil : available ≠ []
  held : available <+: b'.held
  pending : b'.pending = b.pending
  tail : b'.tail = b.tail

theorem fillBuf_cases (b : Buffered) :
    (∃ available b', fillBuf b = (.ok available, b') ∧ Shows b b' available) ∨
      ∃ out, fillBuf b = (out, b) ∧ AtEnd b out := by
  obtain ⟨held, segments, tail⟩ := b
  by_cases hheld : held = []
  · cases segments with
    | nil =>
        have hpending : Buffered.pending ⟨held, [], tail⟩ = [] := by rw [hheld]; rfl
        rw [fillBuf, if_neg (not_not.mpr hheld)]
        cases tail with
        | none => exact .inr ⟨_, rfl, hpending, .inr ⟨rfl, rfl⟩⟩
        | some kind => exact .inr ⟨_, rfl, hpending, .inl ⟨kind, rfl, rfl⟩⟩
    | cons p ps =>
        refine .inl ⟨p.val, ⟨p.val, ps, tail⟩, ?_, p.property, List.prefix_rfl, ?_, rfl⟩
        · rw [fillBuf, if_neg (not_not.mpr hheld)]
        · rw [hheld]
          rfl
  · exact .inl ⟨held, _, if_pos hheld, hheld, List.prefix_rfl, rfl, rfl⟩

theorem Take.fillBuf_cases (t : Take) :
    (t.limit = 0 ∧ t.fillBuf = (.ok [], t)) ∨
      (∃ available t', t.fillBuf = (.ok available, t') ∧ Shows t.inner t'.inner available) ∨
      (0 < t.limit ∧ ∃ out, t.fillBuf = (out, t) ∧ AtEnd t.inner out) := by
  by_cases hlimit : t.limit = 0
  · exact .inl ⟨hlimit, if_pos hlimit⟩
  refine .inr ?_
  rcases LineReader.fillBuf_cases t.inner with ⟨available, b', hfill, hshows⟩ | ⟨out, hfill, hend⟩
  · refine .inl ⟨available.take t.limit, ⟨b', t.limit⟩, ?_, ?_⟩
    · rw [Take.fillBuf, if_neg hlimit, hfill]
    · refine ⟨?_, (List.take_prefix _ _).trans hshows.held, hshows.pending, hshows.tail⟩
      rw [ne_eq, List.take_eq_nil_iff, not_or]
      exact ⟨hlimit, hshows.ne_nil⟩
  · refine .inr ⟨Nat.pos_of_ne_zero hlimit, ?_⟩
    rw [Take.fillBuf, if_neg hlimit, hfill]
    rcases hend with ⟨hpending, ⟨kind, htail, rfl⟩ | ⟨htail, rfl⟩⟩
    · exact ⟨_, rfl, hpending, .inl ⟨kind, htail, rfl⟩⟩
    · refine ⟨.ok [], ?_, hpending, .inr ⟨htail, rfl⟩⟩
      show (Except.ok (List.take t.limit []), _) = _
      rw [List.take_nil]

theorem not_mem_of_through {bs : Bytes} (h : through (· == 10) bs = none) : 10 ∉ bs := by
  have hnone := Base.cut_eq_none.mp (Option.map_eq_none_iff.mp h)
  intro hmem
  exact absurd (hnone 10 hmem) (by decide)

/-- Nothing to come, and some room. -/
theorem Until.of_atEnd {limit : Nat} {b : Buffered} (hlimit : 0 < limit) (h : b.pending = []) :
    Until limit b b.tail [] b := by
  have hrest : Until limit b b.tail b.pending b :=
    .rest (by rw [h]; exact List.not_mem_nil) (by rw [h]; exact hlimit) h rfl
  rwa [h] at hrest

theorem readUntil_spec (t : Take) :
    Until t.limit t.inner (readUntil t).1 (readUntil t).2.1 (readUntil t).2.2.inner := by
  fun_induction readUntil t with
  | case1 t kind t' h =>
      rcases t.fillBuf_cases with ⟨-, hfill⟩ | ⟨_, _, hfill, -⟩ | ⟨hpos, out, hfill, hend⟩
      · rw [hfill] at h
        cases h
      · rw [hfill] at h
        cases h
      · rw [hfill] at h
        cases h
        rcases hend with ⟨hpending, ⟨_, htail, hout⟩ | ⟨-, hout⟩⟩
        · cases hout
          rw [← htail]
          exact .of_atEnd hpos hpending
        · cases hout
  | case2 t available t' h line rest hline =>
      obtain ⟨hlimit, hroom⟩ := Take.fillBuf_limit h
      obtain ⟨rfl, a, x, rfl, hx, ha⟩ := Base.Segment.through_eq_some hline
      obtain rfl := eq_of_beq hx
      have hnot : 10 ∉ a := fun hmem => absurd (ha 10 hmem) (by decide)
      have hne : a ++ [10] ++ rest ≠ [] := by simp
      rcases t.fillBuf_cases with ⟨-, hfill⟩ | ⟨available, t'', hfill, hshows⟩ | ⟨-, out, hfill, hend⟩
      · rw [hfill] at h
        exact absurd (Except.ok.inj (Prod.mk.inj h).1).symm hne
      · rw [hfill] at h
        obtain ⟨havailable, rfl⟩ := Prod.mk.inj h
        rw [Except.ok.inj havailable] at hshows
        have hconsume := pending_consume ((List.prefix_append (a ++ [10]) rest).trans hshows.held)
        simp only [List.length_append, List.length_singleton] at hroom
        have hfits : min (a ++ [10]).length t''.limit = (a ++ [10]).length := by
          rw [List.length_append, List.length_singleton]
          omega
        rw [Take.consume, hfits]
        refine .line hnot (by omega) ?_ hshows.tail
        rw [← hshows.pending, hconsume, List.append_assoc, List.singleton_append]
      · rw [hfill] at h
        rcases hend with ⟨-, ⟨_, -, rfl⟩ | ⟨-, rfl⟩⟩
        · cases h
        · exact absurd (Except.ok.inj (Prod.mk.inj h).1).symm hne
  | case3 t t' h hnone =>
      rcases t.fillBuf_cases with ⟨hlimit, hfill⟩ | ⟨_, _, hfill, hshows⟩ | ⟨hpos, out, hfill, hend⟩
      · rw [hfill] at h
        cases h
        exact .full List.not_mem_nil hlimit.symm rfl rfl
      · rw [hfill] at h
        exact absurd (Except.ok.inj (Prod.mk.inj h).1) hshows.ne_nil
      · rw [hfill] at h
        cases h
        rcases hend with ⟨hpending, ⟨_, -, hout⟩ | ⟨htail, -⟩⟩
        · cases hout
        · have hrest := Until.of_atEnd hpos hpending
          rwa [htail] at hrest
  | case4 t available t' h hnone hused e more t'' hrec ih =>
      obtain ⟨hlimit, hroom⟩ := Take.fillBuf_limit h
      rcases t.fillBuf_cases with ⟨-, hfill⟩ | ⟨_, _, hfill, hshows⟩ | ⟨-, out, hfill, hend⟩
      · rw [hfill] at h
        exact absurd (Except.ok.inj (Prod.mk.inj h).1).symm hused
      · rw [hfill] at h
        cases h
        have hfits : min available.length t'.limit = available.length := by omega
        rw [hrec, Take.consume, hfits, hlimit] at ih
        have hconsume := pending_consume hshows.held
        rw [hshows.pending] at hconsume
        exact Until.append (not_mem_of_through hnone) hroom hconsume hshows.tail ih
      · rw [hfill] at h
        rcases hend with ⟨-, ⟨_, -, rfl⟩ | ⟨-, rfl⟩⟩
        · cases h
        · exact absurd (Except.ok.inj (Prod.mk.inj h).1).symm hused

/-! ## What the loop reads -/

def tooLong : Error := .badResponse [.str "response line exceeds 64 KiB"]

/-- A line of a stream: through the first LF within the budget, or all that comes before the end. -/
inductive Line (max : Nat) (b : Buffered) : Result Bytes → Buffered → Prop
  | line {a : Bytes} {b' : Buffered} (ha : 10 ∉ a) (hroom : a.length ≤ max)
      (hpending : b.pending = a ++ 10 :: b'.pending) (htail : b'.tail = b.tail) :
      Line max b (.ok (a ++ [10])) b'
  | last {b' : Buffered} (hnot : 10 ∉ b.pending) (hroom : b.pending.length ≤ max)
      (hend : b.tail = none) (hpending : b'.pending = []) (htail : b'.tail = b.tail) :
      Line max b (.ok b.pending) b'
  | tooLong {a : Bytes} {b' : Buffered} (ha : 10 ∉ a) (hlength : a.length = max + 1)
      (hpending : b.pending = a ++ b'.pending) (htail : b'.tail = b.tail) :
      Line max b (.error tooLong) b'
  | broken {kind : IoKind} {b' : Buffered} (hnot : 10 ∉ b.pending) (hroom : b.pending.length ≤ max)
      (hend : b.tail = some kind) (hpending : b'.pending = []) (htail : b'.tail = b.tail) :
      Line max b (.error (.io kind)) b'

/-- No more than the budget and one byte is consumed. -/
theorem Line.consumed {max : Nat} {b b' : Buffered} {out : Result Bytes} (h : Line max b out b') :
    ∃ used, b.pending = used ++ b'.pending ∧ used.length ≤ max + 1 := by
  cases h with
  | @line a _ ha hroom hpending htail =>
      refine ⟨a ++ [10], by rw [hpending, List.append_assoc, List.singleton_append], ?_⟩
      rw [List.length_append]
      exact Nat.add_le_add_right hroom 1
  | last hnot hroom hend hpending htail =>
      exact ⟨b.pending, by rw [hpending, List.append_nil], by omega⟩
  | tooLong ha hlength hpending htail => exact ⟨_, hpending, le_of_eq hlength⟩
  | broken hnot hroom hend hpending htail =>
      exact ⟨b.pending, by rw [hpending, List.append_nil], by omega⟩

theorem getLast?_ne {a : Bytes} (h : 10 ∉ a) : a.getLast? ≠ some 10 :=
  fun hlast => h (List.mem_of_getLast? hlast)

theorem exists_readUntil (b : Buffered) (limit : Nat) :
    ∃ e got t, readUntil ⟨b, limit⟩ = (e, got, t) ∧ Until limit b e got t.inner :=
  ⟨_, _, _, rfl, readUntil_spec ⟨b, limit⟩⟩

section

variable {max : UInt64} (raw : Bytes) {got : Bytes} {b : Buffered} {t : Take}

theorem readLoop_broken {kind : IoKind} (hfits : max.toNat - raw.length + 1 < 2 ^ 64)
    (hread : readUntil ⟨b, max.toNat - raw.length + 1⟩ = (some kind, got, t)) :
    readLoop max raw b = some (.error (.io kind), t.inner) := by
  rw [readLoop, if_neg (Nat.not_le.mpr hfits)]
  simp only [hread]

/-- One turn of the loop, while the budget and its one byte fit. -/
theorem readLoop_turn (hfits : max.toNat - raw.length + 1 < 2 ^ 64)
    (hread : readUntil ⟨b, max.toNat - raw.length + 1⟩ = (none, got, t)) :
    readLoop max raw b =
      if got = [] then some (.ok raw, t.inner)
      else if (raw ++ got).getLast? = some 10 then some (.ok (raw ++ got), t.inner)
      else if max.toNat < (raw ++ got).length then some (.error tooLong, t.inner)
      else readLoop max (raw ++ got) t.inner := by
  rw [readLoop, if_neg (Nat.not_le.mpr hfits)]
  simp only [hread]
  rfl

/-- At the end of the stream the loop stops with what it has. -/
theorem readLoop_of_end (hpending : b.pending = []) (htail : b.tail = none)
    (hfits : max.toNat - raw.length + 1 < 2 ^ 64) :
    ∃ b', readLoop max raw b = some (.ok raw, b') ∧ b'.pending = [] ∧ b'.tail = none := by
  obtain ⟨e, got, t, hread, huntil⟩ := exists_readUntil b (max.toNat - raw.length + 1)
  cases huntil with
  | line ha hroom hp htail' => rw [hpending] at hp; exact absurd hp.symm (by simp)
  | full ha hlength hp htail' =>
      have hgot : got = [] := (List.append_eq_nil_iff.mp (hp.symm.trans hpending)).1
      rw [hgot] at hlength
      cases hlength
  | rest hnot hshort hp htail' =>
      rw [htail] at hread htail'
      have hturn := readLoop_turn raw hfits hread
      rw [if_pos hpending] at hturn
      exact ⟨t.inner, hturn, hp, htail'⟩

theorem readLoop_spec (hmax : max.toNat + 1 < 2 ^ 64) (b : Buffered) :
    ∃ out b', readLoop max [] b = some (out, b') ∧ Line max.toNat b out b' := by
  obtain ⟨e, got, t, hread, huntil⟩ := exists_readUntil b (max.toNat + 1)
  cases huntil with
  | @line a _ ha hroom hpending htail =>
      have hturn := readLoop_turn [] hmax hread
      have hlast : ([] ++ (a ++ [10])).getLast? = some 10 := List.getLast?_concat
      rw [if_neg (List.append_ne_nil_of_right_ne_nil _ (List.cons_ne_nil _ _)), if_pos hlast] at hturn
      exact ⟨_, _, hturn, .line ha (Nat.le_of_lt_succ hroom) hpending htail⟩
  | full ha hlength hpending htail =>
      have hturn := readLoop_turn [] hmax hread
      have hne : got ≠ [] := by
        rintro rfl
        cases hlength
      rw [List.nil_append, if_neg hne, if_neg (getLast?_ne ha), if_pos (by omega)] at hturn
      exact ⟨_, _, hturn, .tooLong ha hlength hpending htail⟩
  | rest hnot hshort hpending htail =>
      have hroom : b.pending.length ≤ max.toNat := Nat.le_of_lt_succ hshort
      cases hend : b.tail with
      | some kind =>
          rw [hend] at hread
          exact ⟨_, _, readLoop_broken [] hmax hread, .broken hnot hroom hend hpending htail⟩
      | none =>
          rw [hend] at hread htail
          have hturn := readLoop_turn [] hmax hread
          by_cases hnil : b.pending = []
          · have hlast := Line.last hnot hroom hend hpending (htail.trans hend.symm)
            rw [if_pos hnil] at hturn
            rw [hnil] at hlast
            exact ⟨_, _, hturn, hlast⟩
          · rw [List.nil_append, if_neg hnil, if_neg (getLast?_ne hnot),
              if_neg (Nat.not_lt.mpr hroom)] at hturn
            have hfits : max.toNat - b.pending.length + 1 < 2 ^ 64 := by omega
            obtain ⟨b', hrest, hpending', htail'⟩ :=
              readLoop_of_end b.pending hpending htail hfits
            exact ⟨_, _, hturn.trans hrest, .last hnot hroom hend hpending' (htail'.trans hend.symm)⟩

end

/-! ## The law of the lines -/

/-- What a caller gets of a line: the count, or the error, and the line behind the text. -/
def delivered (buf : Text) : Result Bytes → Result Nat × Text
  | .ok line => (.ok line.length, buf ++ fromUtf8Lossy line)
  | .error e => (.error e, buf)

/-- A line of the stream is read, and no more than the budget and one byte is consumed. -/
def ReadsLine (buf : Text) (max : UInt64) (b : Buffered) : Prop :=
  ∃ out b', readLineCapped buf max b = some ((delivered buf out).1, (delivered buf out).2, b') ∧
    Line max.toNat b out b' ∧ ∃ used, b.pending = used ++ b'.pending ∧ used.length ≤ max.toNat + 1

theorem readLineCapped_eq {buf : Text} {max : UInt64} {b b' : Buffered} {out : Result Bytes}
    (h : readLoop max [] b = some (out, b')) :
    readLineCapped buf max b = some ((delivered buf out).1, (delivered buf out).2, b') := by
  rw [readLineCapped, h]
  cases out with
  | error e => rfl
  | ok raw =>
      by_cases hraw : raw = []
      · have hnone : buf ++ fromUtf8Lossy [] = buf := List.append_nil buf
        rw [hraw, delivered, hnone]
        rfl
      · exact congrArg some (if_neg hraw)

theorem readLineCapped_overflow {max : UInt64} (hmax : ¬ max.toNat + 1 < 2 ^ 64) (buf : Text)
    (b : Buffered) : readLineCapped buf max b = none := by
  have hpanic : readLoop max [] b = none := by
    rw [readLoop]
    exact if_pos (Nat.not_lt.mp hmax)
  rw [readLineCapped, hpanic]
  rfl

/-- A line is read exactly just if the budget leaves room for its one byte more. -/
theorem readLine_iff (buf : Text) (max : UInt64) (b : Buffered) :
    ReadsLine buf max b ↔ max.toNat + 1 < 2 ^ 64 := by
  constructor
  · rintro ⟨out, b', hread, -⟩
    by_contra hmax
    rw [readLineCapped_overflow hmax] at hread
    cases hread
  · intro hmax
    obtain ⟨out, b', hloop, hline⟩ := readLoop_spec hmax b
    exact ⟨out, b', readLineCapped_eq hloop, hline, hline.consumed⟩

/-- The largest budget has no room for one byte more. -/
theorem budget_overflows : ¬ ReadsLine [] 0xFFFFFFFFFFFFFFFF ⟨[], [⟨[97, 10], by decide⟩], none⟩ := by
  rintro ⟨out, b', hread, -⟩
  rw [readLineCapped_overflow (lt_irrefl (2 ^ 64))] at hread
  cases hread

/-! ## The reading of a source -/

/-- What a line is in a stream is what the reading of a source makes of its bytes. -/
theorem Line.source {max : Nat} {b b' : Buffered} {out : Result Bytes} (h : Line max b out b') :
    Http.readLineCapped ⟨b.pending, b.tail⟩ max = (out, ⟨b'.pending, b'.tail⟩) := by
  cases h with
  | line ha hroom hpending htail =>
      rw [hpending, htail]
      exact readLineCapped_line ha hroom _ _
  | last hnot hroom hend hpending htail =>
      rw [readLineCapped_last hnot hroom, hpending, htail, hend]
  | @tooLong a _ ha hlength hpending htail =>
      have htake : (a ++ b'.pending).take (max + 1) = a := by rw [← hlength, List.take_left]
      have hdrop : (a ++ b'.pending).drop (max + 1) = b'.pending := by rw [← hlength, List.drop_left]
      have hlong : max < (a ++ b'.pending).length := by
        rw [List.length_append]
        omega
      rw [hpending, htail, Http.readLineCapped]
      simp only [htake, hdrop, throughLf_eq_none.mpr ha, if_pos hlong]
      rfl
  | broken hnot hroom hend hpending htail =>
      rw [readLineCapped_last hnot hroom, hpending, htail, hend]

/-- The loop over a buffered reader refines the reading of a source. -/
theorem readLine_source {max : UInt64} (hmax : max.toNat + 1 < 2 ^ 64) (buf : Text) (b : Buffered) :
    ∃ out b', Http.readLineCapped ⟨b.pending, b.tail⟩ max.toNat = (out, ⟨b'.pending, b'.tail⟩) ∧
      readLineCapped buf max b = some ((delivered buf out).1, (delivered buf out).2, b') := by
  obtain ⟨out, b', hloop, hline⟩ := readLoop_spec hmax b
  exact ⟨out, b', hline.source, readLineCapped_eq hloop⟩

end Rsurl.Http.LineReader
