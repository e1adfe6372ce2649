/-
# `Rsurl.H3.Accepted` — what a response was read from

The converse of the assembly: when a response comes back, the bytes read up to
FIN are whole frames, each HEADERS frame of them was decoded under a table that
the connection came to, and the response is made of the first section and all
content.  Nothing is said of the order they come in.
-/
import Rsurl.H3.Assembly

namespace Rsurl.H3

open Message (Event)
open Http (Response)
open Qpack (DynamicTable Fields)

/-! ## Whole frames -/

theorem isVarint_of_decode {buf : Bytes} {x : Nat × Nat} (h : varintDecode buf = .ok x) :
    IsVarint (buf.take x.2) x.1 := by
  obtain ⟨b, rest, rfl, hn, hle, hv⟩ := varintDecode_eq_ok h
  have hpos := (varintDecode_used h).1
  have htake : (b :: rest).take x.2 = b :: rest.take (x.2 - 1) := by
    obtain ⟨m, hm⟩ := Nat.exists_eq_add_of_le' hpos
    rw [hm]
    rfl
  rw [htake, hv]
  refine .intro ?_
  rw [← htake, List.length_take, Nat.min_eq_left hle, hn]

theorem isFrame_of_decodeHeader {buf : Bytes} {frame : Frame} {hdrLen : Nat}
    (h : Frame.decodeHeader buf = .ok (frame, hdrLen)) (hle : hdrLen + frame.len ≤ buf.length) :
    IsFrame frame.ty ((buf.take (hdrLen + frame.len)).drop hdrLen)
      (buf.take (hdrLen + frame.len)) := by
  obtain ⟨n₁, n₂, hty, hlen, hn⟩ := Frame.decodeHeader_eq_ok h
  change hdrLen = n₁ + n₂ at hn
  have hpayload : (buf.take (hdrLen + frame.len)).drop hdrLen = (buf.drop hdrLen).take frame.len := by
    rw [List.drop_take, Nat.add_sub_cancel_left]
  have hlength : ((buf.take (hdrLen + frame.len)).drop hdrLen).length = frame.len := by
    rw [List.length_drop, List.length_take, Nat.min_eq_left hle, Nat.add_sub_cancel_left]
  have hbytes : buf.take (hdrLen + frame.len) =
      buf.take n₁ ++ ((buf.drop n₁).take n₂ ++ (buf.take (hdrLen + frame.len)).drop hdrLen) := by
    rw [hpayload, hn, Nat.add_assoc, List.take_add, List.take_add, List.drop_drop]
  generalize (buf.take (hdrLen + frame.len)).drop hdrLen = payload at hbytes hlength ⊢
  have hlenBytes : IsVarint ((buf.drop n₁).take n₂) payload.length :=
    hlength ▸ isVarint_of_decode hlen
  rw [hbytes]
  exact .intro (isVarint_of_decode hty) hlenBytes

/-- What the reader takes is a frame, and leaves what the frame brings. -/
theorem brings_of_step {table : DynamicTable} {s s' : Gathered} {buf : Bytes} {n : Nat}
    (h : (frameReader table).step s buf = .ok (some (n, s'))) :
    ∃ e, Brings table (buf.take n) e ∧ s'.1 = s.1.or e.section? ∧
      s'.2.1 = s.2.1 ++ e.payload := by
  change frameStep table s buf = .ok (some (n, s')) at h
  cases hcons : tryConsumeFrame buf s.1 s.2.1 table with
  | needMore => rw [frameStep, hcons] at h; cases h
  | err e => rw [frameStep, hcons] at h; cases h
  | consumed m ack headers body =>
  rw [frameStep, hcons] at h
  cases h
  cases hhdr : Frame.decodeHeader buf with
  | error e => rw [tryConsumeFrame_of_no_header hhdr] at hcons; cases hcons
  | ok x =>
  obtain ⟨frame, hdrLen⟩ := x
  rw [tryConsumeFrame_of_header hhdr] at hcons
  split at hcons
  · cases hcons
  · rename_i hcheck
    split at hcons
    · cases hcons
    · rename_i hle
      obtain rfl := takeFrame_consumed hcons
      have hframe := isFrame_of_decodeHeader hhdr (Nat.not_lt.mp hle)
      have hlength : ((buf.take (hdrLen + frame.len)).drop hdrLen).length = frame.len := by
        rw [List.length_drop, List.length_take, Nat.min_eq_left (Nat.not_lt.mp hle),
          Nat.add_sub_cancel_left]
      rw [takeFrame] at hcons
      split at hcons
      · rename_i hheaders
        split at hcons
        · cases hcons
        · rename_i fields hdecode
          cases hcons
          refine ⟨.headers fields, .headers (hheaders ▸ hframe) ?_ hdecode, rfl,
            (List.append_nil _).symm⟩
          -- a longer one was refused by its length
          rw [hlength]
          refine Nat.not_lt.mp fun hover => ?_
          rw [checkLength, if_pos ⟨hheaders, hover⟩] at hcheck
          cases hcheck
      · rename_i hheaders
        split at hcons
        · rename_i hdata
          cases hcons
          exact ⟨.data _, .data (hdata ▸ hframe), Option.or_none.symm, rfl⟩
        · rename_i hdata
          cases hcons
          exact ⟨.other, .other hheaders hdata hframe, Option.or_none.symm,
            (List.append_nil _).symm⟩

/-! ## A stream of them -/

/-- Whole frames, each taken under a table that there was. -/
inductive Taken (tables : DynamicTable → Prop) : Bytes → List Event → Prop
  | nil : Taken tables [] []
  | cons {table : DynamicTable} {bytes rest : Bytes} {e : Event} {events : List Event}
      (htable : tables table) (hfirst : Brings table bytes e) (hrest : Taken tables rest events) :
      Taken tables (bytes ++ rest) (e :: events)

section

variable {tables tables' : DynamicTable → Prop} {bytes bytes' : Bytes} {events events' : List Event}

theorem Taken.mono (h : Taken tables bytes events) (hle : ∀ t, tables t → tables' t) :
    Taken tables' bytes events := by
  induction h with
  | nil => exact .nil
  | cons htable hfirst _ ih => exact .cons (hle _ htable) hfirst ih

theorem Taken.append (h : Taken tables bytes events) (h' : Taken tables bytes' events') :
    Taken tables (bytes ++ bytes') (events ++ events') := by
  induction h with
  | nil => exact h'
  | cons htable hfirst _ ih =>
      rw [List.append_assoc]
      exact .cons htable hfirst ih

theorem head_of_section (headers : Option Fields) (e : Event) (events : List Event) :
    (headers.or e.section?).or (Message.sections events).head? =
      headers.or (Message.sections (e :: events)).head? := by
  cases hsection : e.section? with
  | none =>
      rw [Option.or_none, Message.sections, Message.sections, List.filterMap_cons_none hsection]
  | some fields =>
      rw [Message.sections, Message.sections, List.filterMap_cons_some hsection, List.head?_cons,
        Option.or_assoc, Option.some_or]

/-- What a run of the reader takes is a stream of frames. -/
theorem taken_of_takes {table : DynamicTable} {s s' : Gathered}
    (h : (frameReader table).Takes s bytes s') (htable : tables table) :
    ∃ events, Taken tables bytes events ∧ s'.1 = s.1.or (Message.sections events).head? ∧
      s'.2.1 = s.2.1 ++ Message.content events := by
  induction h with
  | nil s => exact ⟨[], .nil, Option.or_none.symm, (List.append_nil _).symm⟩
  | @cons s₁ s₂ s₃ bytes rest hstep _ ih =>
      obtain ⟨e, hbrings, hheaders, hbody⟩ := brings_of_step hstep
      rw [List.take_length] at hbrings
      obtain ⟨events, htaken, hheaders', hbody'⟩ := ih
      refine ⟨e :: events, .cons htable hbrings htaken, ?_, ?_⟩
      · rw [hheaders', hheaders, head_of_section]
      · rw [hbody', hbody, List.append_assoc]
        rfl

/-! ## The turns of the loop -/

/-- The bytes read up to FIN. -/
inductive Reads : List Turn → Bytes → Prop
  | fin {t : Turn} {ts : List Turn} {bytes : Bytes} (hread : t.read = .ok (bytes, true)) :
      Reads (t :: ts) bytes
  | more {t : Turn} {ts : List Turn} {bytes rest : Bytes} (hread : t.read = .ok (bytes, false))
      (hrest : Reads ts rest) : Reads (t :: ts) (bytes ++ rest)

/-- A table that the connection comes to once the streams of a turn are drained. -/
inductive Comes : Http3State → List Turn → DynamicTable → Prop
  | now {st st' : Http3State} {t : Turn} {ts : List Turn}
      (hdrain : st.drainUniStreams t.uni = (.ok (), st')) : Comes st (t :: ts) st'.dynTable
  | later {st st' : Http3State} {t : Turn} {ts : List Turn} {table : DynamicTable}
      (hdrain : st.drainUniStreams t.uni = (.ok (), st')) (hlater : Comes st' ts table) :
      Comes st (t :: ts) table

variable {st st' : Http3State} {a a' : Assembly} {t : Turn} {ts : List Turn}

/-- Peeling takes frames off the front of the buffer. -/
theorem takes_of_peel {table : DynamicTable}
    (h : peel table a.streamBuf.length a = (.ok (), a')) :
    ∃ taken, a.streamBuf = taken ++ a'.streamBuf ∧
      (frameReader table).Takes a.gathered taken a'.gathered := by
  have hrun := run_frameReader table a
  rw [h] at hrun
  obtain ⟨taken, rest, s', heq, htakes, ⟨-, hok⟩ | ⟨e, -, herr⟩⟩ :=
    (frameReader table).run_cases a.gathered a.streamBuf
  · obtain ⟨hrest, hs⟩ := Prod.mk.inj (hok.symm.trans hrun)
    obtain rfl : rest = a'.streamBuf := Except.ok.inj hrest
    exact ⟨taken, heq, hs ▸ htakes⟩
  · exact nomatch congrArg Prod.fst (herr.symm.trans hrun)

/-- A turn without an error: the streams are drained, and the read is appended and peeled. -/
theorem run_peels {p : Progress} (h : t.run st a = p)
    (hp : p = .waiting st' a' ∨ p = .ended (.ok ()) st' a') :
    st.drainUniStreams t.uni = (.ok (), st') ∧ ∃ bytes fin, t.read = .ok (bytes, fin) ∧
      peel st'.dynTable (a.streamBuf ++ bytes).length { a with streamBuf := a.streamBuf ++ bytes } =
        (.ok (), a') ∧
      (fin = false ∧ p = .waiting st' a' ∨
        fin = true ∧ p = .ended (.ok ()) st' a' ∧ a'.streamBuf = []) := by
  have herror : ∀ {e st₁ a₁}, ¬Progress.ended (.error e) st₁ a₁ = p := by
    rintro e st₁ a₁ rfl
    rcases hp with hp | hp <;> cases hp
  rw [Turn.run] at h
  split at h
  · exact absurd h herror
  split at h
  · exact absurd h herror
  split at h
  · exact absurd h herror
  rename_i st₁ hdrain
  split at h
  · exact absurd h herror
  rename_i bytes fin hread
  split at h
  · exact absurd h herror
  rw [settle] at h
  split at h
  · exact absurd h herror
  rename_i a₁ hpeel
  split at h
  · rename_i hfin
    split at h
    · exact absurd h herror
    · rename_i hempty
      obtain ⟨rfl, rfl⟩ : st₁ = st' ∧ a₁ = a' := by
        subst h
        rcases hp with hp | hp <;> cases hp
        exact ⟨rfl, rfl⟩
      exact ⟨hdrain, bytes, fin, hread, hpeel, .inr ⟨hfin, h.symm, not_not.mp hempty⟩⟩
  · rename_i hfin
    split at h
    · exact absurd h herror
    · obtain ⟨rfl, rfl⟩ : st₁ = st' ∧ a₁ = a' := by
        subst h
        rcases hp with hp | hp <;> cases hp
        exact ⟨rfl, rfl⟩
      exact ⟨hdrain, bytes, fin, hread, hpeel, .inl ⟨Bool.not_eq_true _ ▸ hfin, h.symm⟩⟩

/-- What was in the buffer and what is read up to FIN are whole frames. -/
theorem taken_of_readLoop (h : readLoop ts st a = .ended (.ok ()) st' a') :
    ∃ bytes events, Reads ts bytes ∧ Taken (Comes st ts) (a.streamBuf ++ bytes) events ∧
      a'.headers = a.headers.or (Message.sections events).head? ∧
      a'.body = a.body ++ Message.content events := by
  induction ts generalizing st a with
  | nil => cases h
  | cons t ts ih =>
      cases hrun : t.run st a with
      | waiting st₁ a₁ =>
          rw [readLoop, hrun] at h
          obtain ⟨hdrain, bytes, fin, hread, hpeel, ⟨rfl, -⟩ | ⟨-, hend, -⟩⟩ :=
            run_peels hrun (.inl rfl)
          · obtain ⟨taken, heq, htakes⟩ := takes_of_peel (a := { a with streamBuf := a.streamBuf ++ bytes }) hpeel
            have hnow : Comes st (t :: ts) st₁.dynTable := .now hdrain
            obtain ⟨events, htaken, hheaders, hbody⟩ := taken_of_takes htakes hnow
            obtain ⟨rest, events', hreads, htaken', hheaders', hbody'⟩ := ih h
            refine ⟨bytes ++ rest, events ++ events', .more hread hreads, ?_, ?_, ?_⟩
            · change a.streamBuf ++ bytes = taken ++ a₁.streamBuf at heq
              rw [← List.append_assoc, heq, List.append_assoc]
              exact htaken.append (htaken'.mono fun _ => .later hdrain)
            · change a₁.headers = a.headers.or _ at hheaders
              rw [hheaders', hheaders, Option.or_assoc, Message.sections, Message.sections,
                Message.sections, List.filterMap_append, List.head?_append]
            · change a₁.body = a.body ++ _ at hbody
              rw [hbody', hbody, List.append_assoc, Message.content, Message.content,
                Message.content, List.flatMap_append]
          · cases hend
      | ended res st₁ a₁ =>
          rw [readLoop, hrun] at h
          cases h
          obtain ⟨hdrain, bytes, fin, hread, hpeel, ⟨-, hwait⟩ | ⟨rfl, -, hempty⟩⟩ :=
            run_peels hrun (.inr rfl)
          · cases hwait
          · obtain ⟨taken, heq, htakes⟩ := takes_of_peel (a := { a with streamBuf := a.streamBuf ++ bytes }) hpeel
            have hnow : Comes st (t :: ts) st'.dynTable := .now hdrain
            obtain ⟨events, htaken, hheaders, hbody⟩ := taken_of_takes htakes hnow
            rw [hempty, List.append_nil] at heq
            change a.streamBuf ++ bytes = taken at heq
            exact ⟨bytes, events, .fin hread, heq ▸ htaken, hheaders, hbody⟩

/-- A response is made of whole frames up to FIN: of their first section and all content. -/
theorem taken_of_readResponse {codec : Codec} {r : Response}
    (h : readResponse codec ts st = some (.ok r)) :
    ∃ bytes events fields, Reads ts bytes ∧ Taken (Comes st ts) bytes events ∧
      (Message.sections events).head? = some fields ∧
      finalizeResponse codec fields (Message.content events) = .ok r := by
  rw [readResponse] at h
  cases hloop : readLoop ts st .init with
  | waiting st' a' => rw [hloop] at h; cases h
  | ended res st' a' =>
      cases res with
      | error e => rw [hloop] at h; cases h
      | ok u =>
          obtain ⟨bytes, events, hreads, htaken, hheaders, hbody⟩ := taken_of_readLoop hloop
          change Taken _ bytes events at htaken
          change a'.headers = (Message.sections events).head? at hheaders
          change a'.body = Message.content events at hbody
          rw [hloop] at h
          cases hfields : a'.headers with
          | none =>
              simp only [Progress.response, hfields] at h
              cases h
          | some fields =>
              simp only [Progress.response, hfields] at h
              rw [hfields] at hheaders
              exact ⟨bytes, events, fields, hreads, htaken, hheaders.symm,
                hbody ▸ Option.some.inj h⟩

end
end Rsurl.H3
