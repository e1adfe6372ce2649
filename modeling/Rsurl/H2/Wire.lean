/-
# `Rsurl.H2.Wire` — the frames of a run on the wire

What a run of acts has written, when writes may fail: whole frames, among them
those of its events and no other DATA, and then a part of one frame more,
behind which nothing goes out (`Transmitted`).
-/
import Rsurl.H2.Ledger
import Rsurl.H2.Written

namespace Rsurl.H2

open Http (Request)

/-- A DATA frame. -/
def Frame.isData (f : Frame) : Bool := f.typ = fData

/-- What a run with the events `evs` makes of the write half `w`. -/
def Transmitted (w : Sink) (evs : List Event) (w' : Sink) : Prop :=
  ∃ fs part, w'.written = w.written ++ fs.flatMap Frame.bytes ++ part ∧
    (evs.filterMap Event.went).Sublist fs ∧
    fs.filter Frame.isData = (evs.filterMap Event.went).filter Frame.isData ∧
    (part = [] ∨ Broken w' ∧ ∃ f : Frame, Short part f.bytes)

/-- What one act makes of it: frames are written one after another until one cannot be, and those
that go out are those of the events and no other DATA. -/
def Puts (w : Sink) (new : List Event) (w' : Sink) : Prop :=
  ∃ fs, w' = (writeFrames w fs).2 ∧ (new.filterMap Event.went).Sublist (completed w fs) ∧
    (completed w fs).filter Frame.isData = (new.filterMap Event.went).filter Frame.isData

/-! ## Writing frames -/

section

variable {w w' : Sink} {fs : List Frame}

theorem completed_front (w : Sink) (fs : List Frame) : completed w fs <+: fs := by
  have hwrote := writeFrames_wrote w fs
  generalize writeFrames w fs = out at hwrote
  cases hwrote with
  | all hall => rw [hall]
  | tooLong hfront => exact (List.prefix_append _ _).trans hfront
  | broken hfront => exact (List.prefix_append _ _).trans hfront

theorem completed_of_ok (h : writeFrames w fs = (.ok (), w')) : completed w fs = fs := by
  have hwrote := writeFrames_wrote w fs
  rw [h] at hwrote
  cases hwrote with
  | all hall => exact hall

/-- The frames that are completed are on the wire, and perhaps a part of one more. -/
theorem writeFrames_parts (w : Sink) (fs : List Frame) :
    ∃ part, (writeFrames w fs).2.written =
        w.written ++ (completed w fs).flatMap Frame.bytes ++ part ∧
      (part = [] ∨ Broken (writeFrames w fs).2 ∧ ∃ f : Frame, Short part f.bytes) := by
  have hwrote := writeFrames_wrote w fs
  generalize writeFrames w fs = out at hwrote
  cases hwrote with
  | all hall hwritten => exact ⟨[], by rw [List.append_nil, hall]; exact hwritten, .inl rfl⟩
  | tooLong _ _ hwritten => exact ⟨[], by rw [List.append_nil]; exact hwritten, .inl rfl⟩
  | @broken _ _ f part _ hshort hbroken hwritten =>
      exact ⟨part, hwritten, .inr ⟨hbroken, f, hshort⟩⟩

end

/-! ## Runs -/

section

variable {w w' : Sink} {evs new : List Event} {c c' : Connection} {p : Path} {ok : Bool}

theorem Transmitted.nil (w : Sink) : Transmitted w [] w :=
  ⟨[], [], by rw [List.flatMap_nil, List.append_nil, List.append_nil], .slnil, rfl, .inl rfl⟩

theorem Transmitted.step {w₁ : Sink} (h : Transmitted w evs w₁) (hputs : Puts w₁ new w') :
    Transmitted w (evs ++ new) w' := by
  obtain ⟨fs, part, hwritten, hsub, hdata, hpart⟩ := h
  obtain ⟨gs, rfl, hnew, hnewData⟩ := hputs
  rcases hpart with rfl | ⟨hbroken, hshort⟩
  · obtain ⟨part', hwritten', hpart'⟩ := writeFrames_parts w₁ gs
    refine ⟨fs ++ completed w₁ gs, part', ?_, ?_, ?_, hpart'⟩
    · rw [hwritten', hwritten, List.append_nil, List.flatMap_append]
      simp only [List.append_assoc]
    · rw [List.filterMap_append]
      exact hsub.append hnew
    · rw [List.filterMap_append, List.filter_append, List.filter_append, hdata, hnewData]
  · -- nothing more goes out
    obtain ⟨hnone, hbroken', hsame, -⟩ := completed_of_broken hbroken gs
    rw [hnone] at hnew
    have hquiet := List.sublist_nil.mp hnew
    refine ⟨fs, part, hsame.trans hwritten, ?_, ?_, .inr ⟨hbroken', hshort⟩⟩
    · rw [List.filterMap_append, hquiet, List.append_nil]
      exact hsub
    · rw [List.filterMap_append, hquiet, List.append_nil]
      exact hdata

theorem Puts.nothing (h : new.filterMap Event.went = []) : Puts w new w :=
  ⟨[], rfl, by rw [h]; exact .slnil, by rw [h]; rfl⟩

/-- All frames of the events are written. -/
theorem Puts.all {fs : List Frame} (h : writeFrames w fs = (.ok (), w'))
    (hnew : new.filterMap Event.went = fs) : Puts w new w' := by
  refine ⟨fs, by rw [h], ?_, ?_⟩
  · rw [completed_of_ok h, hnew]
  · rw [completed_of_ok h, hnew]

/-- Frames without DATA, of which no event tells. -/
theorem Puts.aside {fs : List Frame} (hquiet : ∀ f ∈ fs, f.typ ≠ fData)
    (hnew : new.filterMap Event.went = []) : Puts w new (writeFrames w fs).2 := by
  refine ⟨fs, rfl, ?_, ?_⟩
  · rw [hnew]
    exact List.nil_sublist _
  · rw [hnew]
    refine List.filter_eq_nil_iff.mpr fun f hf => ?_
    rw [Frame.isData, decide_eq_true_iff]
    exact hquiet f ((completed_front w fs).subset hf)

theorem Puts.chunk {id : Nat} {s : Stream} {chunk : Bytes} {isLast : Bool} {res : Result Stream}
    (hwrite : (writeFrame c.tls.sink (dataFrame id chunk isLast)).1 = .ok ())
    (h : c.sendChunk id s chunk isLast = (res, c')) :
    Puts c.tls.sink [.outbound (dataFrame id chunk isLast)] c'.tls.sink := by
  obtain ⟨state, sink, hsink, rfl, -⟩ := sendChunk_spec hwrite h
  have hall : writeFrames c.tls.sink [dataFrame id chunk isLast] = (.ok (), sink) := by
    rw [writeFrames_singleton, hsink]
  exact .all hall rfl

/-- A failed write puts no DATA on the wire. -/
theorem Breaks.puts {encoder : Encoder} {sink : Sink} (h : Breaks c encoder sink) :
    Puts c.tls.sink [] sink := by
  cases h with
  | heads id req =>
      refine .aside (fun f hf => ?_) rfl
      obtain ⟨-, hshape⟩ := fragmentHeaderBlock_shape hf
      rcases hshape with ⟨htyp, -⟩ | ⟨htyp, -⟩ <;> rw [htyp] <;> decide
  | @chunk id chunk isLast e sink h =>
      refine ⟨[dataFrame id chunk isLast], by rw [writeFrames_singleton, h], ?_, ?_⟩
      · exact List.nil_sublist _
      · rw [completed, h]
        rfl

theorem Acts.puts (h : Acts p ok c new c') : Puts c.tls.sink new c'.tls.sink := by
  cases h with
  | opens h =>
      obtain ⟨-, rfl⟩ := openStream_eq_ok h
      exact .nothing rfl
  | heads _ h =>
      obtain ⟨s, state, sink, -, -, -, hwrite, rfl⟩ := sendHeadersOn_eq_ok h
      exact .all hwrite (by rw [List.filterMap_cons_none rfl, went_of_outbound])
  | starts _ hopen h =>
      obtain ⟨-, rfl⟩ := openStream_eq_ok hopen
      obtain ⟨s, state, sink, pending, -, -, hwrite, -, rfl⟩ := stageRequestOn_eq_ok h
      exact .all hwrite
        (by rw [List.filterMap_cons_none rfl, List.filterMap_cons_none rfl, went_of_outbound])
  | chunk _ _ _ _ hwrite h => exact .chunk hwrite h
  | @pump id n s pb isLast res c' _ _ _ _ _ _ hwrite h =>
      have hputs := Puts.chunk hwrite h
      unfold Connection.afterPump
      cases res <;> exact hputs
  | cleared | drops => exact .nothing rfl
  | @handled source f o c' h =>
      obtain ⟨fs, hfs, hsink⟩ := processFrame_sink (c.receive source f) f
      rw [h] at hsink
      have hwritten := (processFrame_flows h).written
      rw [← hsink] at hwritten
      have hall := completed_of_written hfs hwritten
      refine ⟨fs, hsink.symm, ?_, ?_⟩
      · rw [List.filterMap_cons_none rfl, went_of_outbound]
        exact hall ▸ List.Sublist.refl _
      · rw [List.filterMap_cons_none rfl, went_of_outbound]
        exact congrArg _ hall
  | @refused source f e c' _ h =>
      obtain ⟨fs, hfs, hsink⟩ := processFrame_sink (c.receive source f) f
      rw [h] at hsink
      rw [← hsink]
      exact .aside (fun g hg => answers_typ _ f (hfs.subset hg)) rfl
  | breaks _ h => exact h.puts

theorem Traced.transmitted (h : Traced p ok c evs c') : Transmitted c.tls.sink evs c'.tls.sink :=
  Base.Trace.invariant (I := fun evs c' => Transmitted c.tls.sink evs c'.tls.sink) (.nil _)
    (fun hevs hact => hevs.step (Acts.puts hact)) h

end

end Rsurl.H2
