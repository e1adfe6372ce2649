/-
# `Rsurl.Http.Head` — the head of a response, and what is made of it

`read_response` reads a head, then the body that the head announces, and
decodes it.  Here the three are taken apart (`readResponse_eq_ok`), and the
reader of lines gets its specification: a line through its LF, within the
limit, or what a stream that is at its end still has (`readLineCapped_eq_ok`).
-/
import Rsurl.Http.Read

namespace Rsurl.Http

/-! ## Lines -/

theorem throughLf_append {line : Bytes} (h : 10 ∉ line) (rest : Bytes) :
    throughLf (line ++ 10 :: rest) = some (line ++ [10], rest) := by
  induction line with
  | nil => rfl
  | cons b line ih =>
      rw [List.mem_cons, not_or] at h
      rw [List.cons_append, throughLf, if_neg (Ne.symm h.1), ih h.2]
      rfl

theorem throughLf_eq_none {bs : Bytes} : throughLf bs = none ↔ 10 ∉ bs := by
  constructor
  · intro h hmem
    obtain ⟨front, rest, rfl, hfront⟩ := List.eq_append_cons_of_mem hmem
    rw [throughLf_append hfront] at h
    cases h
  · intro h
    induction bs with
    | nil => rfl
    | cons b bs ih =>
        rw [List.mem_cons, not_or] at h
        rw [throughLf, if_neg (Ne.symm h.1), ih h.2]
        rfl

theorem throughLf_eq_some {bs line rest : Bytes} (h : throughLf bs = some (line, rest)) :
    ∃ front, line = front ++ [10] ∧ 10 ∉ front ∧ bs = line ++ rest := by
  have hmem : 10 ∈ bs := by
    by_contra hnone
    rw [throughLf_eq_none.mpr hnone] at h
    cases h
  obtain ⟨front, rest, rfl, hfront⟩ := List.eq_append_cons_of_mem hmem
  rw [throughLf_append hfront] at h
  obtain ⟨rfl, rfl⟩ := Prod.mk.inj (Option.some.inj h)
  exact ⟨front, rfl, hfront, by rw [List.append_assoc]; rfl⟩

/-- A line through its LF, of a length that `read_line_capped` admits. -/
structure IsLine (line : Bytes) : Prop where
  ends : ∃ front, line = front ++ [10] ∧ 10 ∉ front
  limit : line.length ≤ maxHeaderBytes + 1

theorem IsLine.ne_nil {line : Bytes} (h : IsLine line) : line ≠ [] := by
  obtain ⟨front, rfl, -⟩ := h.ends
  exact List.append_ne_nil_of_right_ne_nil _ (List.cons_ne_nil _ _)

/-- Where a line ends is in the line. -/
theorem IsLine.unique {line line' rest rest' : Bytes} (h : IsLine line) (h' : IsLine line')
    (heq : line ++ rest = line' ++ rest') : line = line' ∧ rest = rest' := by
  obtain ⟨front, rfl, hfront⟩ := h.ends
  obtain ⟨front', rfl, hfront'⟩ := h'.ends
  rw [List.append_assoc, List.append_assoc] at heq
  have hcut := congrArg throughLf heq
  rw [List.singleton_append, List.singleton_append, throughLf_append hfront,
    throughLf_append hfront'] at hcut
  exact Prod.mk.inj (Option.some.inj hcut)

/-- No line begins in bytes without an LF. -/
theorem IsLine.ne_of_not_mem {line rest last : Bytes} (h : IsLine line) (hlast : 10 ∉ last) :
    line ++ rest ≠ last := by
  rintro rfl
  obtain ⟨front, rfl, -⟩ := h.ends
  simp at hlast

/-- A line within the budget is read, and what is behind it is left. -/
theorem readLineCapped_line {front : Bytes} {max : Nat} (hfront : 10 ∉ front)
    (hroom : front.length ≤ max) (rest : Bytes) (tail : Option IoKind) :
    readLineCapped ⟨front ++ 10 :: rest, tail⟩ max = (.ok (front ++ [10]), ⟨rest, tail⟩) := by
  have htake : (front ++ 10 :: rest).take (max + 1) = front ++ 10 :: rest.take (max - front.length) := by
    rw [List.take_append, List.take_of_length_le (by omega), Nat.sub_add_comm hroom,
      List.take_succ_cons]
  have hdrop : (front ++ 10 :: rest).drop (max + 1) = rest.drop (max - front.length) := by
    rw [List.drop_append, List.drop_of_length_le (by omega), List.nil_append,
      Nat.sub_add_comm hroom, List.drop_succ_cons]
  rw [readLineCapped]
  simp only [htake, hdrop, throughLf_append hfront, List.take_append_drop]

theorem readLineCapped_of_isLine {line : Bytes} (h : IsLine line) (rest : Bytes)
    (tail : Option IoKind) :
    readLineCapped ⟨line ++ rest, tail⟩ maxHeaderBytes = (.ok line, ⟨rest, tail⟩) := by
  obtain ⟨front, rfl, hfront⟩ := h.ends
  have hroom : front.length + 1 ≤ maxHeaderBytes + 1 := by
    have hlimit := h.limit
    rwa [List.length_append] at hlimit
  rw [List.append_assoc, List.singleton_append]
  exact readLineCapped_line hfront (Nat.le_of_succ_le_succ hroom) rest tail

/-- What is left at the end of the stream is a line too. -/
theorem readLineCapped_last {last : Bytes} {max : Nat} (hlf : 10 ∉ last) (hroom : last.length ≤ max)
    (tail : Option IoKind) :
    readLineCapped ⟨last, tail⟩ max =
      (match tail with
        | some kind => .error (.io kind)
        | none => .ok last, ⟨[], tail⟩) := by
  have hnone : throughLf (last.take (max + 1)) = none :=
    throughLf_eq_none.mpr fun hmem => hlf (List.mem_of_mem_take hmem)
  rw [readLineCapped]
  simp only [hnone, if_neg (Nat.not_lt.mpr hroom)]
  cases tail <;> rfl

theorem readLineCapped_of_end {last : Bytes} (hlf : 10 ∉ last)
    (hlimit : last.length ≤ maxHeaderBytes) :
    readLineCapped ⟨last, none⟩ maxHeaderBytes = (.ok last, ⟨[], none⟩) :=
  readLineCapped_last hlf hlimit none

theorem readLineCapped_eq_ok {s s' : Source} {line : Bytes} :
    readLineCapped s maxHeaderBytes = (.ok line, s') ↔
      (IsLine line ∧ s.bytes = line ++ s'.bytes ∧ s.tail = s'.tail) ∨
        (10 ∉ line ∧ line.length ≤ maxHeaderBytes ∧ s = ⟨line, none⟩ ∧ s' = ⟨[], none⟩) := by
  obtain ⟨bytes, tail⟩ := s
  obtain ⟨bytes', tail'⟩ := s'
  constructor
  · intro h
    rw [readLineCapped] at h
    split at h
    · next front rest hcut =>
        obtain ⟨hline, hs⟩ := Prod.mk.inj h
        obtain rfl := Except.ok.inj hline
        obtain ⟨rfl, rfl⟩ := Source.mk.inj hs
        obtain ⟨front', hfront, hnot, htake⟩ := throughLf_eq_some hcut
        refine .inl ⟨⟨⟨front', hfront, hnot⟩, ?_⟩, ?_, rfl⟩
        · have hlength := congrArg List.length htake
          rw [List.length_take, List.length_append] at hlength
          omega
        · rw [← List.append_assoc, ← htake, List.take_append_drop]
    · next hcut =>
        split at h
        · cases (Prod.mk.inj h).1
        next hroom =>
        cases tail with
        | some kind => cases (Prod.mk.inj h).1
        | none =>
            obtain ⟨hline, hs⟩ := Prod.mk.inj h
            obtain rfl := Except.ok.inj hline
            obtain ⟨rfl, rfl⟩ := Source.mk.inj hs
            rw [List.take_of_length_le (by omega)] at hcut
            exact .inr ⟨throughLf_eq_none.mp hcut, Nat.not_lt.mp hroom, rfl, rfl⟩
  · rintro (⟨hline, hbytes, htail⟩ | ⟨hlf, hlimit, heq, heq'⟩)
    · obtain rfl : bytes = line ++ bytes' := hbytes
      obtain rfl : tail = tail' := htail
      exact readLineCapped_of_isLine hline bytes' tail
    · rw [heq, heq']
      exact readLineCapped_of_end hlf hlimit

/-! ## Head, body, response -/

/-- What the status line and the header lines say. -/
structure Head where
  version : Text
  status : UInt16
  reason : Text
  headers : List Header
deriving DecidableEq, Repr

/-- The part of `read_response` in front of the body. -/
def readHead (s : Source) : Result Head × Source :=
  match readLineCapped s maxHeaderBytes with
  | (.error e, s) => (.error e, s)
  | (.ok line, s) =>
      if line = [] then (.error .unexpectedEof, s)
      else
        match parseStatusLine (fromUtf8Lossy line).trimEndCrlf with
        | .error e => (.error e, s)
        | .ok (version, status, reason) =>
            match readHeaders (s.bytes.length + 1) s [] 0 with
            | (.error e, s) => (.error e, s)
            | (.ok headers, s) => (.ok ⟨version, status, reason, headers⟩, s)

/-- The response with other headers, and a body. -/
def Head.response (head : Head) (headers : List Header) (body : Bytes) : Response :=
  { status := head.status, reason := head.reason, version := head.version, headers, body }

/-- The part of `read_response` behind the head. -/
def readRest (codec : Codec) (head : Head) (s : Source) (method : Text) :
    Result Response × Source :=
  match readBody s head.headers head.status method with
  | (.error e, s) => (.error e, s)
  | (.ok body, s) =>
      match Compress.maybeDecodeBody codec head.headers body with
      | .error e => (.error e, s)
      | .ok (headers, body) => (.ok (head.response headers body), s)

theorem readResponse_eq (codec : Codec) (s : Source) (method : Text) :
    readResponse codec s method =
      match readHead s with
      | (.error e, s) => (.error e, s)
      | (.ok head, s) => readRest codec head s method := by
  unfold readResponse readHead
  rcases readLineCapped s maxHeaderBytes with ⟨e | line, s⟩
  · rfl
  dsimp only
  by_cases hline : line = []
  · rw [if_pos hline, if_pos hline]
  rw [if_neg hline, if_neg hline]
  rcases parseStatusLine (fromUtf8Lossy line).trimEndCrlf with e | ⟨version, status, reason⟩
  · rfl
  dsimp only
  rcases readHeaders (s.bytes.length + 1) s [] 0 with ⟨e | headers, s⟩
  · rfl
  · rfl

theorem readRest_eq_ok {codec : Codec} {head : Head} {s s' : Source} {method : Text}
    {resp : Response} :
    readRest codec head s method = (.ok resp, s') ↔
      ∃ body headers body', readBody s head.headers head.status method = (.ok body, s') ∧
        Compress.maybeDecodeBody codec head.headers body = .ok (headers, body') ∧
        resp = head.response headers body' := by
  unfold readRest
  constructor
  · intro h
    split at h
    · cases (Prod.mk.inj h).1
    next body s₁ hbody =>
    split at h
    · cases (Prod.mk.inj h).1
    next headers body' hdecode =>
    obtain ⟨hresp, rfl⟩ := Prod.mk.inj h
    exact ⟨body, headers, body', hbody, hdecode, (Except.ok.inj hresp).symm⟩
  · rintro ⟨body, headers, body', hbody, hdecode, rfl⟩
    simp only [hbody, hdecode]

theorem readResponse_of_head {codec : Codec} {s s₁ : Source} {head : Head} (method : Text)
    (h : readHead s = (.ok head, s₁)) :
    readResponse codec s method = readRest codec head s₁ method := by
  rw [readResponse_eq, h]

theorem readResponse_eq_ok {codec : Codec} {s s' : Source} {method : Text} {resp : Response} :
    readResponse codec s method = (.ok resp, s') ↔
      ∃ head s₁, readHead s = (.ok head, s₁) ∧ readRest codec head s₁ method = (.ok resp, s') := by
  constructor
  · intro h
    rw [readResponse_eq] at h
    split at h
    · cases (Prod.mk.inj h).1
    next head s₁ hhead => exact ⟨head, s₁, hhead, h⟩
  · rintro ⟨head, s₁, hhead, hrest⟩
    rw [readResponse_of_head method hhead, hrest]

end Rsurl.Http
