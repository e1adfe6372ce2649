/-
# `Rsurl.H3.Reassembly` — reads do not matter to the frames

A request stream arrives in reads that may cut it anywhere: inside a type, a
length or a payload.  A parse that does not ask for more is not changed by
bytes behind it, so a buffer that is peeled and then appended to is peeled to
the same end as the buffer appended to at once.

The loop is followed over turns in which nothing but the read happens, so the
dynamic table stays what it is.
-/
import Rsurl.Base.Incremental
import Rsurl.H3.Response

namespace Rsurl.H3

open Http (Response)
open Qpack (DynamicTable Fields bad)

/-! ## The frame header -/

theorem varintDecode_eq_ok {buf : Bytes} {x : Nat × Nat} (h : varintDecode buf = .ok x) :
    ∃ b rest, buf = b :: rest ∧ x.2 = 2 ^ (b.toNat / 64) ∧ x.2 ≤ buf.length ∧
      x.1 = (rest.take (x.2 - 1)).foldl (fun v b => v * 256 + b.toNat) (b.toNat % 64) := by
  cases buf with
  | nil => cases h
  | cons b rest =>
      simp only [varintDecode] at h
      split at h
      · cases h
      · rename_i hlen
        cases h
        exact ⟨b, rest, rfl, rfl, Nat.not_lt.mp hlen, rfl⟩

theorem varintDecode_used {buf : Bytes} {x : Nat × Nat} (h : varintDecode buf = .ok x) :
    1 ≤ x.2 ∧ x.2 ≤ buf.length := by
  obtain ⟨b, rest, -, hn, hle, -⟩ := varintDecode_eq_ok h
  exact ⟨hn ▸ Nat.one_le_two_pow, hle⟩

theorem varintDecode_append {buf : Bytes} {x : Nat × Nat} (h : varintDecode buf = .ok x)
    (more : Bytes) : varintDecode (buf ++ more) = .ok x := by
  obtain ⟨b, rest, rfl, hn, hle, hv⟩ := varintDecode_eq_ok h
  have hle' : ¬(b :: (rest ++ more)).length < 2 ^ (b.toNat / 64) := by
    rw [← hn, ← List.cons_append, List.length_append]
    omega
  have htake : (rest ++ more).take (x.2 - 1) = rest.take (x.2 - 1) :=
    List.take_append_of_le_length (by simp only [List.length_cons] at hle; omega)
  rw [List.cons_append, varintDecode, if_neg hle', ← hn, htake, ← hv]

/-- The bytes that an integer takes are enough. -/
theorem varintDecode_take {buf : Bytes} {x : Nat × Nat} (h : varintDecode buf = .ok x) {m : Nat}
    (hm : x.2 ≤ m) : varintDecode (buf.take m) = .ok x := by
  obtain ⟨b, rest, rfl, hn, hle, hv⟩ := varintDecode_eq_ok h
  have hpos := (varintDecode_used h).1
  obtain ⟨m, rfl⟩ := Nat.exists_eq_add_of_le' (Nat.le_trans hpos hm)
  have hle' : ¬(b :: rest.take m).length < 2 ^ (b.toNat / 64) := by
    rw [← hn, List.length_cons, List.length_take]
    rw [List.length_cons] at hle
    omega
  have htake : (rest.take m).take (x.2 - 1) = rest.take (x.2 - 1) := by
    rw [List.take_take, Nat.min_eq_left (by omega)]
  rw [List.take_succ_cons, varintDecode, if_neg hle', ← hn, htake, ← hv]

theorem Frame.decodeHeader_eq_ok {buf : Bytes} {x : Frame × Nat}
    (h : Frame.decodeHeader buf = .ok x) :
    ∃ n₁ n₂, varintDecode buf = .ok (x.1.ty, n₁) ∧
      varintDecode (buf.drop n₁) = .ok (x.1.len, n₂) ∧ x.2 = n₁ + n₂ := by
  cases hty : varintDecode buf with
  | error e => rw [Frame.decodeHeader, hty] at h; cases h
  | ok y =>
      cases hlen : varintDecode (buf.drop y.2) with
      | error e => rw [Frame.decodeHeader, hty] at h; simp only [bind, Except.bind, hlen] at h; cases h
      | ok z =>
          rw [Frame.decodeHeader, hty] at h
          simp only [bind, Except.bind, hlen] at h
          cases h
          exact ⟨y.2, z.2, rfl, hlen, rfl⟩

theorem Frame.decodeHeader_used {buf : Bytes} {x : Frame × Nat}
    (h : Frame.decodeHeader buf = .ok x) : 2 ≤ x.2 ∧ x.2 ≤ buf.length := by
  obtain ⟨n₁, n₂, hty, hlen, hn⟩ := Frame.decodeHeader_eq_ok h
  have h₁ := varintDecode_used hty
  have h₂ := varintDecode_used hlen
  rw [List.length_drop] at h₂
  omega

theorem Frame.decodeHeader_append {buf : Bytes} {x : Frame × Nat}
    (h : Frame.decodeHeader buf = .ok x) (more : Bytes) :
    Frame.decodeHeader (buf ++ more) = .ok x := by
  obtain ⟨n₁, n₂, hty, hlen, hn⟩ := Frame.decodeHeader_eq_ok h
  have hdrop : (buf ++ more).drop n₁ = buf.drop n₁ ++ more :=
    List.drop_append_of_le_length (varintDecode_used hty).2
  have hlen' : varintDecode ((buf ++ more).drop n₁) = .ok (x.1.len, n₂) := by
    rw [hdrop]
    exact varintDecode_append hlen more
  rw [Frame.decodeHeader, varintDecode_append hty more]
  simp only [bind, Except.bind, hlen', ← hn]

theorem Frame.decodeHeader_take {buf : Bytes} {x : Frame × Nat}
    (h : Frame.decodeHeader buf = .ok x) {m : Nat} (hm : x.2 ≤ m) :
    Frame.decodeHeader (buf.take m) = .ok x := by
  obtain ⟨n₁, n₂, hty, hlen, hn⟩ := Frame.decodeHeader_eq_ok h
  have hlen' : varintDecode ((buf.take m).drop n₁) = .ok (x.1.len, n₂) := by
    rw [List.drop_take]
    exact varintDecode_take hlen (by dsimp only; omega)
  rw [Frame.decodeHeader, varintDecode_take hty (by dsimp only; omega)]
  simp only [bind, Except.bind, hlen', ← hn]

/-! ## One frame -/

/-- What `try_consume_frame` says when the header of the frame is all there. -/
theorem tryConsumeFrame_of_header {buf : Bytes} {headers : Option Fields} {body : Bytes}
    {dynTable : DynamicTable} {frame : Frame} {hdrLen : Nat}
    (h : Frame.decodeHeader buf = .ok (frame, hdrLen)) :
    tryConsumeFrame buf headers body dynTable =
      match checkLength frame body with
      | .error e => .err e
      | .ok () =>
          if buf.length < hdrLen + frame.len then .needMore
          else takeFrame frame.ty (hdrLen + frame.len)
            ((buf.take (hdrLen + frame.len)).drop hdrLen) headers body dynTable := by
  unfold tryConsumeFrame
  split
  · next e he =>
      rw [h] at he
      cases he
  · next frame' hdrLen' hok =>
      rw [h] at hok
      obtain ⟨rfl, rfl⟩ := Prod.mk.inj (Except.ok.inj hok)
      rfl

theorem tryConsumeFrame_of_no_header {buf : Bytes} {headers : Option Fields} {body : Bytes}
    {dynTable : DynamicTable} {e : Error} (h : Frame.decodeHeader buf = .error e) :
    tryConsumeFrame buf headers body dynTable = .needMore := by
  rw [tryConsumeFrame, h]

/-- A verdict stands, whatever comes behind. -/
theorem tryConsumeFrame_append {buf : Bytes} {headers : Option Fields} {body : Bytes}
    {dynTable : DynamicTable} (h : tryConsumeFrame buf headers body dynTable ≠ .needMore)
    (more : Bytes) :
    tryConsumeFrame (buf ++ more) headers body dynTable =
      tryConsumeFrame buf headers body dynTable := by
  cases hhdr : Frame.decodeHeader buf with
  | error e => exact absurd (tryConsumeFrame_of_no_header hhdr) h
  | ok x =>
      rw [tryConsumeFrame_of_header (Frame.decodeHeader_append hhdr more)]
      rw [tryConsumeFrame_of_header hhdr] at h ⊢
      cases hcheck : checkLength x.1 body with
      | error e => rfl
      | ok u =>
          simp only [hcheck] at h ⊢
          have hle : ¬buf.length < x.2 + x.1.len := fun hlt => h (if_pos hlt)
          have hle' : ¬(buf ++ more).length < x.2 + x.1.len := by
            rw [List.length_append]
            omega
          rw [if_neg hle, if_neg hle',
            List.take_append_of_le_length (Nat.not_lt.mp hle)]

theorem takeFrame_consumed {ty total : Nat} {payload : Bytes} {headers headers' : Option Fields}
    {body body' : Bytes} {dynTable : DynamicTable} {n : Nat} {ack : Bool}
    (h : takeFrame ty total payload headers body dynTable = .consumed n ack headers' body') :
    n = total := by
  unfold takeFrame at h
  split at h
  · split at h
    · cases h
    · cases h; rfl
  · split at h
    · cases h; rfl
    · cases h; rfl

theorem tryConsumeFrame_consumed {buf : Bytes} {headers headers' : Option Fields}
    {body body' : Bytes} {dynTable : DynamicTable} {n : Nat} {ack : Bool}
    (h : tryConsumeFrame buf headers body dynTable = .consumed n ack headers' body') :
    2 ≤ n ∧ n ≤ buf.length := by
  cases hhdr : Frame.decodeHeader buf with
  | error e => rw [tryConsumeFrame_of_no_header hhdr] at h; cases h
  | ok x =>
      rw [tryConsumeFrame_of_header hhdr] at h
      split at h
      · cases h
      · split at h
        · cases h
        · rename_i hle
          have hn := takeFrame_consumed h
          have hused := Frame.decodeHeader_used hhdr
          omega

/-- What has been consumed does not depend on what comes behind it. -/
theorem tryConsumeFrame_take {buf : Bytes} {headers headers' : Option Fields}
    {body body' : Bytes} {dynTable : DynamicTable} {n : Nat} {ack : Bool}
    (h : tryConsumeFrame buf headers body dynTable = .consumed n ack headers' body') :
    tryConsumeFrame (buf.take n) headers body dynTable = .consumed n ack headers' body' := by
  cases hhdr : Frame.decodeHeader buf with
  | error e => rw [tryConsumeFrame_of_no_header hhdr] at h; cases h
  | ok x =>
      rw [tryConsumeFrame_of_header hhdr] at h
      split at h
      · cases h
      · rename_i hcheck
        split at h
        · cases h
        · rename_i hle
          have hn := takeFrame_consumed h
          have hle' : ¬(buf.take n).length < x.2 + x.1.len := by
            rw [List.length_take]
            omega
          rw [tryConsumeFrame_of_header (Frame.decodeHeader_take hhdr (by omega)), hcheck]
          dsimp only
          rw [if_neg hle', hn, List.take_take, Nat.min_self]
          exact hn ▸ h

/-! ## The frames of a buffer -/

/-- What the frames leave: the headers, the body and the acknowledgements owed. -/
abbrev Gathered := Option Fields × Bytes × Nat

/-- One frame, as a step of the gathering. -/
def frameStep (dynTable : DynamicTable) (s : Gathered) (buf : Bytes) :
    Result (Option (Nat × Gathered)) :=
  match tryConsumeFrame buf s.1 s.2.1 dynTable with
  | .needMore => .ok none
  | .err e => .error e
  | .consumed n ackOwed headers body =>
      .ok (some (n, headers, body, s.2.2 + if ackOwed then 1 else 0))

/-- The frames of a request stream, read against a table. -/
def frameReader (dynTable : DynamicTable) : Base.Reader UInt8 Gathered Error where
  step := frameStep dynTable
  idle _ := rfl
  takes {s buf n s'} h := by
    cases hcons : tryConsumeFrame buf s.1 s.2.1 dynTable with
    | needMore => rw [frameStep, hcons] at h; cases h
    | err e => rw [frameStep, hcons] at h; cases h
    | consumed m ack headers body =>
        rw [frameStep, hcons] at h
        cases h
        have hused := tryConsumeFrame_consumed hcons
        omega
  front {s buf n s'} h more := by
    cases hcons : tryConsumeFrame buf s.1 s.2.1 dynTable with
    | needMore => rw [frameStep, hcons] at h; cases h
    | err e => rw [frameStep, hcons] at h; cases h
    | consumed m ack headers body =>
        rw [frameStep, hcons] at h
        cases h
        have htake := tryConsumeFrame_take hcons
        rw [frameStep, tryConsumeFrame_append (fun hn => nomatch htake.symm.trans hn), htake]

/-- Every error of a frame is one for good. -/
theorem frameReader_firm (dynTable : DynamicTable) (s : Gathered) (buf : Bytes) :
    (frameReader dynTable).Firm s buf := by
  intro e herr more
  change frameStep dynTable s buf = .error e at herr
  show frameStep dynTable s (buf ++ more) = .error e
  have hsome : tryConsumeFrame buf s.1 s.2.1 dynTable ≠ .needMore := fun hn => by
    rw [frameStep, hn] at herr
    cases herr
  rw [frameStep, tryConsumeFrame_append hsome]
  exact herr

/-- What an assembly has gathered. -/
def Assembly.gathered (a : Assembly) : Gathered := (a.headers, a.body, a.acks)

/-- The inner loop of `read_response` is a run of the reader. -/
theorem loop_frameReader (dynTable : DynamicTable) (fuel : Nat) (a : Assembly) :
    (frameReader dynTable).loop fuel a.gathered a.streamBuf =
      ((peel dynTable fuel a).1.map fun _ => (peel dynTable fuel a).2.streamBuf,
        (peel dynTable fuel a).2.gathered) := by
  induction fuel generalizing a with
  | zero => rfl
  | succ fuel ih =>
      have hstep : (frameReader dynTable).step a.gathered a.streamBuf =
          match tryConsumeFrame a.streamBuf a.headers a.body dynTable with
          | .needMore => .ok none
          | .err e => .error e
          | .consumed n ackOwed headers body =>
              .ok (some (n, headers, body, a.acks + if ackOwed then 1 else 0)) := rfl
      rw [Base.Reader.loop, peel, hstep]
      cases tryConsumeFrame a.streamBuf a.headers a.body dynTable with
      | needMore => rfl
      | err e => rfl
      | consumed n ack headers body =>
          dsimp only
          by_cases hnil : a.streamBuf.drop n = []
          · rw [if_pos hnil, hnil, Base.Reader.loop_nil]
            rfl
          · rw [if_neg hnil]
            exact ih ⟨a.streamBuf.drop n, headers, body, a.acks + if ack then 1 else 0⟩

theorem run_frameReader (dynTable : DynamicTable) (a : Assembly) :
    (frameReader dynTable).run a.gathered a.streamBuf =
      ((peel dynTable a.streamBuf.length a).1.map fun _ =>
          (peel dynTable a.streamBuf.length a).2.streamBuf,
        (peel dynTable a.streamBuf.length a).2.gathered) :=
  loop_frameReader dynTable a.streamBuf.length a

/-! ## The reads of a stream -/

/-- A turn in which nothing but the read happens. -/
def Turn.quiet (bytes : Bytes) (fin : Bool) : Turn where
  expired := false
  closed := false
  uni := []
  read := .ok (bytes, fin)
  pumped := .ok ()

/-- The turns of a stream that arrives in pieces; FIN comes with the last. -/
def quietTurns (pieces : List Bytes) (last : Bytes) : List Turn :=
  pieces.map (Turn.quiet · false) ++ [Turn.quiet last true]

/-- What an ended loop leaves: whether it failed, and what it has gathered. -/
def Progress.outcome : Progress → Option (Result Unit × Gathered)
  | .waiting _ _ => none
  | .ended res _ a => some (res, a.gathered)

/-- What FIN says of a run of the reader. -/
def verdict : Except Error Bytes × Gathered → Result Unit × Gathered
  | (.error e, s) => (.error e, s)
  | (.ok rest, s) =>
      (if rest ≠ [] then .error (bad [.str "http3: stream FIN with partial frame in buffer"])
        else .ok (), s)

theorem run_quiet (st : Http3State) {a : Assembly} {bytes : Bytes}
    (h : a.streamBuf.length + bytes.length ≤ maxResponseBytes) (fin : Bool) :
    (Turn.quiet bytes fin).run st a =
      settle (.quiet bytes fin) fin st { a with streamBuf := a.streamBuf ++ bytes } := by
  have hfits : ¬(bytes ≠ [] ∧ maxResponseBytes < a.streamBuf.length + bytes.length) :=
    fun hover => Nat.not_lt.mpr h hover.2
  show (if bytes ≠ [] ∧ maxResponseBytes < a.streamBuf.length + bytes.length then _ else _) = _
  rw [if_neg hfits]

/-- The last read. -/
theorem settle_fin (st : Http3State) (bytes : Bytes) (a : Assembly) :
    (settle (.quiet bytes true) true st a).outcome =
      some (verdict ((frameReader st.dynTable).run a.gathered a.streamBuf)) := by
  rw [run_frameReader, settle]
  cases peel st.dynTable a.streamBuf.length a with
  | mk res a' =>
      cases res with
      | error e => rfl
      | ok u =>
          dsimp only [Except.map, verdict]
          rw [if_pos rfl]
          split <;> rfl

theorem readLoop_quietTurns_nil (st : Http3State) (last : Bytes) (a : Assembly) :
    readLoop (quietTurns [] last) st a =
      match (Turn.quiet last true).run st a with
      | .waiting st a => .waiting st a
      | p => p :=
  rfl

theorem readLoop_quietTurns_cons (st : Http3State) (piece : Bytes) (pieces : List Bytes)
    (last : Bytes) (a : Assembly) :
    readLoop (quietTurns (piece :: pieces) last) st a =
      match (Turn.quiet piece false).run st a with
      | .waiting st a => readLoop (quietTurns pieces last) st a
      | p => p :=
  rfl

/-- The loop over the reads of a stream comes to what the reader is fed to. -/
theorem readLoop_quietTurns (st : Http3State) (pieces : List Bytes) (last : Bytes) (a : Assembly)
    (h : a.streamBuf.length + (pieces.flatten ++ last).length ≤ maxResponseBytes) :
    (readLoop (quietTurns pieces last) st a).outcome =
      some (verdict ((frameReader st.dynTable).feed (pieces ++ [last]) a.gathered a.streamBuf)) := by
  induction pieces generalizing a with
  | nil =>
      rw [List.flatten_nil, List.nil_append] at h
      have hfeed : (frameReader st.dynTable).feed [last] a.gathered a.streamBuf =
          (frameReader st.dynTable).run a.gathered (a.streamBuf ++ last) := by
        rw [Base.Reader.feed]
        cases (frameReader st.dynTable).run a.gathered (a.streamBuf ++ last) with
        | mk res s => cases res <;> rfl
      rw [List.nil_append, hfeed, readLoop_quietTurns_nil, run_quiet st h]
      refine Eq.trans ?_ (settle_fin st last { a with streamBuf := a.streamBuf ++ last })
      cases settle (.quiet last true) true st { a with streamBuf := a.streamBuf ++ last } <;> rfl
  | cons piece pieces ih =>
      rw [List.flatten_cons, List.append_assoc, List.length_append] at h
      rw [readLoop_quietTurns_cons, run_quiet st (by omega), List.cons_append, Base.Reader.feed]
      have hrun : (frameReader st.dynTable).run a.gathered (a.streamBuf ++ piece) = _ :=
        run_frameReader st.dynTable { a with streamBuf := a.streamBuf ++ piece }
      obtain ⟨taken, rest, s', heq, -, hend⟩ :=
        (frameReader st.dynTable).run_cases a.gathered (a.streamBuf ++ piece)
      rw [settle]
      cases hpeel : peel st.dynTable (a.streamBuf ++ piece).length
          { a with streamBuf := a.streamBuf ++ piece } with
      | mk res a' =>
          rw [hpeel] at hrun
          cases res with
          | error e =>
              rw [hrun]
              rfl
          | ok u =>
              -- what is left is no longer than what was there
              have hlen : a'.streamBuf.length ≤ (a.streamBuf ++ piece).length := by
                have hrest : rest = a'.streamBuf := by
                  rcases hend with ⟨-, hok⟩ | ⟨e, -, herr⟩
                  · exact Except.ok.inj (congrArg Prod.fst (hok.symm.trans hrun))
                  · cases congrArg Prod.fst (herr.symm.trans hrun)
                rw [← hrest, heq, List.length_append]
                exact Nat.le_add_left _ _
              rw [List.length_append] at hlen
              rw [hrun]
              exact ih a' (by omega)

/-- What `read_response` makes of what the loop leaves. -/
def responseOf (codec : Codec) : Result Unit × Gathered → Result Response
  | (.error e, _) => .error e
  | (.ok (), none, _, _) => .error (bad [.str "http3: no HEADERS frame"])
  | (.ok (), some fields, body, _) => finalizeResponse codec fields body

theorem response_eq (codec : Codec) (p : Progress) :
    p.response codec = p.outcome.map (responseOf codec) := by
  cases p with
  | waiting st a => rfl
  | ended res st a =>
      cases res with
      | error e => rfl
      | ok u =>
          obtain ⟨buf, headers, body, acks⟩ := a
          cases headers <;> rfl

/-- The loop over the reads of a whole stream comes to a run over all of it. -/
theorem readLoop_eq_run (st : Http3State) (pieces : List Bytes) (last : Bytes)
    (h : (pieces.flatten ++ last).length ≤ maxResponseBytes) :
    (readLoop (quietTurns pieces last) st .init).outcome =
      some (verdict ((frameReader st.dynTable).run (none, [], 0) (pieces.flatten ++ last))) := by
  have hle : Assembly.init.streamBuf.length + (pieces.flatten ++ last).length ≤
      maxResponseBytes := by
    rw [show Assembly.init.streamBuf.length = 0 from rfl, Nat.zero_add]
    exact h
  have hfeed : (frameReader st.dynTable).feed (pieces ++ [last]) Assembly.init.gathered
      Assembly.init.streamBuf =
        (frameReader st.dynTable).run Assembly.init.gathered (pieces ++ [last]).flatten :=
    Base.Reader.feed_eq_run ((frameReader st.dynTable).idle _)
      fun _ _ rest s' _ _ => frameReader_firm st.dynTable s' rest
  rw [readLoop_quietTurns st pieces last .init hle, hfeed, List.flatten_append, List.flatten_cons,
    List.flatten_nil, List.append_nil]
  rfl

/-- However a stream of less than the limit is cut into reads, the loop ends as it does when
the whole stream is in the buffer at once: with the same error or none, the same headers, body
and acknowledgements, and so with the same response. -/
theorem reads_immaterial (codec : Codec) (st : Http3State) (pieces : List Bytes) (last : Bytes)
    (h : (pieces.flatten ++ last).length < maxResponseBytes) :
    (readLoop (quietTurns pieces last) st .init).outcome =
        (readLoop (quietTurns [] (pieces.flatten ++ last)) st .init).outcome ∧
      (readLoop (quietTurns pieces last) st .init).outcome ≠ none ∧
      readResponse codec (quietTurns pieces last) st =
        readResponse codec (quietTurns [] (pieces.flatten ++ last)) st := by
  have hcut := readLoop_eq_run st pieces last (Nat.le_of_lt h)
  have hwhole := readLoop_eq_run st [] (pieces.flatten ++ last) (Nat.le_of_lt h)
  have hsame := hcut.trans hwhole.symm
  refine ⟨hsame, ?_, ?_⟩
  · rw [hcut]
    exact Option.some_ne_none _
  · rw [readResponse, readResponse, response_eq, response_eq, hsame]

/-- A codec that takes every coding for the plain bytes. -/
def passCodec : Codec := fun _ bytes _ => .ok bytes

/-- A HEADERS frame of `:status 200` and a DATA frame, cut inside a length and a payload. -/
theorem reads_immaterial_sample :
    ([[1], [3, 0, 0], [0xd9, 0, 2, 0x6f]].flatten ++ [0x6b] : Bytes).length < maxResponseBytes ∧
      readResponse passCodec (quietTurns [[1], [3, 0, 0], [0xd9, 0, 2, 0x6f]] [0x6b]) (.new none) =
        readResponse passCodec (quietTurns [] [1, 3, 0, 0, 0xd9, 0, 2, 0x6f, 0x6b]) (.new none) :=
  ⟨by decide, (reads_immaterial passCodec (.new none) [[1], [3, 0, 0], [0xd9, 0, 2, 0x6f]] [0x6b]
    (by decide)).2.2⟩

end Rsurl.H3
