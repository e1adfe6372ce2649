/-
# `Rsurl.Http.Bodies` — how a body is framed, and when it is all there

`read_body` chooses between three framings.  With a `Transfer-Encoding` it takes
the chunked one if some field is `chunked` and nothing else, and the framing by
the close of the connection if none is (`transferHonoured_iff`).
-/
import Rsurl.Compress.Layers
import Rsurl.Http.Lengths

namespace Rsurl.Http

/-! ## The choice -/

/-- The elements of a list value. -/
def listElements (v : Text) : List Text := ((v.splitOn ',').map trimBlanks).filter (!·.isEmpty)

/-- The transfer codings of a message, over all fields, in the order they were applied. -/
def transferCodings (headers : List Header) : List Text :=
  (named headers "Transfer-Encoding").flatMap fun f => listElements f.2

def isChunked (coding : Text) : Bool := coding.eqIgnoreAsciiCase "chunked".toList

/-- One `Transfer-Encoding` field, and `chunked` its only coding. -/
def OnlyChunked (headers : List Header) : Prop :=
  (named headers "Transfer-Encoding").length = 1 ∧
    (transferCodings headers).map isChunked = [true]

/-- The part of `read_body` for a message without a transfer coding. -/
def readPlain (s : Source) (headers : List Header) : Result Bytes × Source :=
  match parseContentLength none headers with
  | .error e => (.error e, s)
  | .ok (some len) =>
      if Compress.maxBodyBytes < len then
        (.error (.badResponse [.str "body too large: ", .num len]), s)
      else
        match Source.readToEnd s len with
        | (.error e, s) => (.error e, s)
        | (.ok body, s) => if body.length < len then (.error .unexpectedEof, s) else (.ok body, s)
  | .ok none => Source.readToEnd s Compress.maxBodyBytes

theorem hasHeader_named {headers : List Header} {name : String} {name' : Text}
    (h : Text.toAsciiLowercase name' = Text.toAsciiLowercase name.toList) :
    hasHeader headers name' = true ↔ named headers name ≠ [] := by
  have hname : hasHeader headers name' = hasHeader headers name.toList := by
    rw [hasHeader, hasHeader]
    congr 1
    funext f
    exact eqIgnoreAsciiCase_congr h
  rw [hname, ne_eq, named_eq_nil, Bool.not_eq_false]

theorem any_chunked {headers : List Header} :
    (headers.any fun (k, v) => k.eqIgnoreAsciiCase "transfer-encoding".toList &&
      v.eqIgnoreAsciiCase "chunked".toList) =
        (named headers "Transfer-Encoding").any fun f => isChunked f.2 := by
  have hname : ∀ k : Text, k.eqIgnoreAsciiCase "transfer-encoding".toList =
      k.eqIgnoreAsciiCase "Transfer-Encoding".toList :=
    fun k => eqIgnoreAsciiCase_congr (by decide)
  simp only [named, List.any_filter, hname, isChunked]

/-- The framing that the header fields select. -/
theorem readBody_eq {headers : List Header} {status : UInt16} {method : Text}
    (h : isBodiless method status = false) (s : Source) :
    readBody s headers status method =
      if named headers "Transfer-Encoding" ≠ [] ∧ named headers "Content-Length" ≠ [] then
        (.error (.badResponse [.str "both Transfer-Encoding and Content-Length present"]), s)
      else if (named headers "Transfer-Encoding").any fun f => isChunked f.2 then
        readChunked (s.bytes.length + 1) s []
      else readPlain s headers := by
  have hboth : (hasHeader headers "transfer-encoding".toList &&
      hasHeader headers "content-length".toList) = true ↔
      named headers "Transfer-Encoding" ≠ [] ∧ named headers "Content-Length" ≠ [] := by
    rw [Bool.and_eq_true, @hasHeader_named headers "Transfer-Encoding" _ (by decide),
      @hasHeader_named headers "Content-Length" _ (by decide)]
  rw [readBody, h, any_chunked, if_neg Bool.false_ne_true]
  by_cases hcond : named headers "Transfer-Encoding" ≠ [] ∧ named headers "Content-Length" ≠ []
  · rw [if_pos hcond, if_pos (hboth.mpr hcond)]
  · rw [if_neg hcond, if_neg fun hb => hcond (hboth.mp hb)]
    rfl

/-- A message that may have a body is read as chunked when that is its one transfer coding, and
not when it has none; every other transfer coding is an error, and so is one beside a length: there
is no response to frame by the length or to keep the connection after. -/
structure TransferHonoured (head : Head) (method : Text) : Prop where
  chunked : OnlyChunked head.headers → named head.headers "Content-Length" = [] →
    ∀ s, readBody s head.headers head.status method = readChunked (s.bytes.length + 1) s []
  plain : named head.headers "Transfer-Encoding" = [] →
    ∀ s, readBody s head.headers head.status method = readPlain s head.headers
  refused : named head.headers "Transfer-Encoding" ≠ [] → ¬ OnlyChunked head.headers →
    ∀ s, ∃ e s', readBody s head.headers head.status method = (.error e, s')
  both : named head.headers "Transfer-Encoding" ≠ [] → named head.headers "Content-Length" ≠ [] →
    ∀ codec s, ∃ e s', readRest codec head s method = (.error e, s')

/-- One field, and its value is `chunked` as it stands. -/
def IsBareChunked (headers : List Header) : Prop :=
  ∃ f, named headers "Transfer-Encoding" = [f] ∧ isChunked f.2 = true

theorem listElements_chunked {v : Text} (h : isChunked v = true) : listElements v = [v] := by
  have hlow : v.toAsciiLowercase = "chunked".toList := beq_iff_eq.mp h
  have hletter : ∀ c ∈ v, c.isAlpha = true := by
    intro c hc
    have hmem : c.toLower ∈ "chunked".toList := hlow ▸ List.mem_map_of_mem hc
    have hall : ∀ d ∈ "chunked".toList, d.isAlpha = true := List.all_eq_true.mp (by decide)
    exact isAlpha_of_toLower (hall _ hmem)
  have hcomma : ',' ∉ v := fun hc => absurd (hletter ',' hc) (by decide)
  have hblank : ∀ c ∈ v, ¬ isBlank c = true := by
    intro c hc hblank
    rcases (Bool.or_eq_true _ _).mp hblank with heq | heq
    · rw [beq_iff_eq.mp heq] at hc
      exact absurd (hletter ' ' hc) (by decide)
    · rw [beq_iff_eq.mp heq] at hc
      exact absurd (hletter '\t' hc) (by decide)
  have htrim : trimBlanks v = v := by
    have hfront : v.dropWhile isBlank = v :=
      List.dropWhile_eq_self_iff.mpr fun _ => hblank _ (List.getElem_mem _)
    rw [trimBlanks, hfront]
    exact List.rdropWhile_eq_self_iff.mpr fun hne => hblank _ (List.getLast_mem hne)
  have hne : v.isEmpty = false := by
    rw [List.isEmpty_eq_false_iff]
    rintro rfl
    cases hlow
  have hsplit : v.splitOn ',' = [v] := split_last hcomma
  rw [listElements, hsplit, List.map_singleton, htrim, List.filter_cons_of_pos]
  · rfl
  · rw [hne]
    rfl

theorem IsBareChunked.only {headers : List Header} (h : IsBareChunked headers) :
    OnlyChunked headers := by
  obtain ⟨f, hf, hchunked⟩ := h
  refine ⟨by rw [hf]; rfl, ?_⟩
  rw [transferCodings, hf, List.flatMap_singleton, listElements_chunked hchunked,
    List.map_singleton, hchunked]

/-- Without a length and with a stream that has ended there is an empty body. -/
theorem readPlain_end {headers : List Header} (h : named headers "Content-Length" = []) :
    readPlain ⟨[], none⟩ headers = (.ok [], ⟨[], none⟩) := by
  have hnone : parseContentLength none headers = .ok none := parseContentLength_eq_ok.mpr h
  rw [readPlain, hnone]
  rfl

theorem transferHonoured_of {head : Head} {method : Text}
    (hbody : isBodiless method head.status = false)
    (h : named head.headers "Transfer-Encoding" = [] ∨ named head.headers "Content-Length" ≠ [] ∨
      IsBareChunked head.headers) : TransferHonoured head method where
  chunked := by
    intro honly hlength s
    rcases h with hnone | hboth | ⟨f, hf, hchunked⟩
    · have hone := honly.1
      rw [hnone] at hone
      cases hone
    · exact absurd hlength hboth
    · rw [readBody_eq hbody, if_neg fun hc => hc.2 hlength, hf, List.any_cons, hchunked,
        Bool.true_or, if_pos rfl]
  plain := by
    intro hnone s
    rw [readBody_eq hbody, if_neg fun hc => hc.1 hnone, hnone]
    rfl
  refused := by
    intro hcoding honly s
    rcases h with hnone | hboth | hbare
    · exact absurd hnone hcoding
    · rw [readBody_eq hbody, if_pos ⟨hcoding, hboth⟩]
      exact ⟨_, _, rfl⟩
    · exact absurd hbare.only honly
  both := by
    intro hcoding hlength codec s
    rw [readRest, readBody_eq hbody, if_pos ⟨hcoding, hlength⟩]
    exact ⟨_, _, rfl⟩

theorem of_transferHonoured {head : Head} {method : Text}
    (hbody : isBodiless method head.status = false) (h : TransferHonoured head method) :
    named head.headers "Transfer-Encoding" = [] ∨ named head.headers "Content-Length" ≠ [] ∨
      IsBareChunked head.headers := by
  by_contra hnot
  rw [not_or, not_or, not_not] at hnot
  obtain ⟨hcoding, hlength, hbare⟩ := hnot
  -- a stream that is at its end, for the readers of everything but chunks
  have hend : ((named head.headers "Transfer-Encoding").any fun f => isChunked f.2) = false →
      readBody ⟨[], none⟩ head.headers head.status method = (.ok [], ⟨[], none⟩) := by
    intro hno
    rw [readBody_eq hbody, if_neg fun hc => hc.2 hlength, hno, if_neg Bool.false_ne_true,
      readPlain_end hlength]
  by_cases honly : OnlyChunked head.headers
  · have hno : ((named head.headers "Transfer-Encoding").any fun f => isChunked f.2) = false := by
      rw [List.any_eq_false]
      intro f hf hchunked
      obtain ⟨g, hg⟩ := List.length_eq_one_iff.mp honly.1
      rw [hg, List.mem_singleton] at hf
      exact hbare ⟨g, hg, hf ▸ hchunked⟩
    have hread := h.chunked honly hlength ⟨[], none⟩
    rw [hend hno] at hread
    exact absurd (Prod.mk.inj hread).1 (by decide)
  · by_cases hsome : ((named head.headers "Transfer-Encoding").any fun f => isChunked f.2) = true
    · obtain ⟨e, s', hread⟩ := h.refused hcoding honly ⟨Text.utf8 "0\r\n\r\n".toList, none⟩
      rw [readBody_eq hbody, if_neg fun hc => hc.2 hlength, if_pos hsome] at hread
      have hempty : (readChunked 6 ⟨Text.utf8 "0\r\n\r\n".toList, none⟩ []).1 = .ok [] := by
        decide +kernel
      have herror : (readChunked 6 ⟨Text.utf8 "0\r\n\r\n".toList, none⟩ []).1 = .error e :=
        congrArg Prod.fst hread
      rw [hempty] at herror
      cases herror
    · rw [Bool.not_eq_true] at hsome
      obtain ⟨e, s', hread⟩ := h.refused hcoding honly ⟨[], none⟩
      rw [hend hsome] at hread
      cases (Prod.mk.inj hread).1

/-- For every head that may have a body, over all that can follow it: the transfer codings are
honoured or refused where there are none, or a length beside them, or one field that is `chunked`
as it stands. -/
theorem transferHonoured_iff {head : Head} {method : Text}
    (hbody : isBodiless method head.status = false) :
    TransferHonoured head method ↔
      named head.headers "Transfer-Encoding" = [] ∨ named head.headers "Content-Length" ≠ [] ∨
        IsBareChunked head.headers :=
  ⟨of_transferHonoured hbody, transferHonoured_of hbody⟩

/-- A response that is chunked, in capitals. -/
theorem transferHonoured_capitals :
    TransferHonoured ⟨"HTTP/1.1".toList, 200, "OK".toList,
      [("TRANSFER-ENCODING".toList, "Chunked".toList)]⟩ "GET".toList :=
  (transferHonoured_iff (by decide)).mpr
    (.inr (.inr ⟨("TRANSFER-ENCODING".toList, "Chunked".toList), by decide, by decide⟩))

/-- Two codings in one field: the body is read to the close of the connection, chunk sizes and
all. -/
theorem transferHonoured_fails :
    ¬ ∀ head method, isBodiless method head.status = false → TransferHonoured head method := by
  intro hclaim
  have h := hclaim ⟨"HTTP/1.1".toList, 200, "OK".toList,
    [("Transfer-Encoding".toList, "gzip, chunked".toList)]⟩ "GET".toList (by decide)
  obtain ⟨e, s', hread⟩ := h.refused (by decide) (by unfold OnlyChunked; decide)
    ⟨Text.utf8 "2\r\nab\r\n0\r\n\r\n".toList, none⟩
  have hclose : (readBody ⟨Text.utf8 "2\r\nab\r\n0\r\n\r\n".toList, none⟩
      [("Transfer-Encoding".toList, "gzip, chunked".toList)] 200 "GET".toList).1 =
      .ok (Text.utf8 "2\r\nab\r\n0\r\n\r\n".toList) := by
    decide +kernel
  rw [hread] at hclose
  cases hclose

end Rsurl.Http
