/-
# `Rsurl.WebSocket.Reassembly` — messages out of frames

Which frames make a message, and where one goes wrong, is a matter of all the
frames before it.  The loop of `read_message` keeps a little of them (the first
opcode and the bytes so far); after every prefix that may go on to be a message
it keeps exactly what the prefix says, and has answered the pings in it.
-/
import Rsurl.WebSocket.Wire

namespace Rsurl.WebSocket

open Base (Program)

/-! ## Legal sequences of frames -/

def ServerFrame.isControl (f : ServerFrame) : Bool := f.opcode ≥ 8

/-- The frames of the message itself. -/
def data (frames : List ServerFrame) : List ServerFrame := frames.filter (!·.isControl)

def concat (frames : List ServerFrame) : Bytes := (data frames).flatMap (·.payload)

/-- The payloads of the pings, in their order. -/
def pings (frames : List ServerFrame) : List Bytes :=
  (frames.filter (·.opcode = opcodePing)).map (·.payload)

def wire (frames : List ServerFrame) : Bytes := frames.flatMap (·.encode)

/-- A control frame by the protocol: in one piece and short. -/
structure ServerFrame.LegalControl (f : ServerFrame) : Prop where
  plain : f.Plain
  whole : f.fin = true
  short : f.payload.length ≤ 125
  known : f.opcode = opcodeClose ∨ f.opcode = opcodePing ∨ f.opcode = opcodePong

/-- A text or binary frame, and then continuations. -/
def Opcodes : List ServerFrame → Prop
  | [] => True
  | f :: fs => (f.opcode = opcodeText ∨ f.opcode = opcodeBinary) ∧ ∀ g ∈ fs, g.opcode = opcodeCont

/-- Frames none of which breaks the protocol or closes the connection, all for one message. -/
structure Legal (frames : List ServerFrame) : Prop where
  control : ∀ f ∈ frames, f.isControl → f.LegalControl ∧ f.opcode ≠ opcodeClose
  plain : ∀ f ∈ data frames, f.Plain
  opcodes : Opcodes (data frames)
  size : (concat frames).length ≤ 64 * 1024 * 1024

/-- They may go on. -/
structure Begins (frames : List ServerFrame) : Prop where
  legal : Legal frames
  unfinished : ∀ f ∈ data frames, f.fin = false

/-- They are a message, and end with it. -/
structure IsMessage (frames : List ServerFrame) (opcode : UInt8) (payload : Bytes) : Prop where
  legal : Legal frames
  ends : ∃ init last, frames = init ++ [last] ∧ last.isControl = false ∧ last.fin = true ∧
    ∀ f ∈ data init, f.fin = false
  opcode_first : (data frames).head?.map (·.opcode) = some opcode
  payload_eq : payload = concat frames

/-- A frame that may not come after these. -/
inductive Violation (fs : List ServerFrame) (f : ServerFrame) : Prop
  | reserved (h : ¬f.Plain)
  | unknown (h : f.opcode ∉ [opcodeCont, opcodeText, opcodeBinary, opcodeClose, opcodePing,
      opcodePong])
  | fragmented (hf : f.isControl) (h : f.fin = false)
  | oversized (hf : f.isControl) (h : 125 < f.payload.length)
  | stray (hf : f.opcode = opcodeCont) (h : data fs = [])
  | nested (hf : f.opcode = opcodeText ∨ f.opcode = opcodeBinary) (h : data fs ≠ [])
  | too_large (hf : f.isControl = false) (h : 64 * 1024 * 1024 < (concat (fs ++ [f])).length)

/-- What was written is one pong for each ping, in their order. -/
def Answered (payloads : List Bytes) (written : Bytes) : Prop :=
  ∃ pongs, List.Forall₂ (IsClientFrame opcodePong) payloads pongs ∧ written = pongs.flatten

/-! ## Prefixes -/

@[simp] theorem data_append (fs gs : List ServerFrame) : data (fs ++ gs) = data fs ++ data gs :=
  List.filter_append ..

@[simp] theorem concat_append (fs gs : List ServerFrame) :
    concat (fs ++ gs) = concat fs ++ concat gs := by
  simp [concat]

theorem pings_append (fs gs : List ServerFrame) : pings (fs ++ gs) = pings fs ++ pings gs := by
  simp [pings]

theorem data_control {f : ServerFrame} (hf : f.isControl = true) : data [f] = [] := by
  simp [data, hf]

theorem data_data {f : ServerFrame} (hf : f.isControl = false) : data [f] = [f] := by
  simp [data, hf]

theorem concat_data {f : ServerFrame} (hf : f.isControl = false) : concat [f] = f.payload := by
  simp [concat, data_data hf]

theorem mem_of_mem_data {f : ServerFrame} {fs : List ServerFrame} (h : f ∈ data fs) : f ∈ fs :=
  (List.mem_filter.mp h).1

theorem Opcodes.of_append {fs gs : List ServerFrame} (h : Opcodes (fs ++ gs)) : Opcodes fs := by
  cases fs with
  | nil => trivial
  | cons f fs => exact ⟨h.1, fun g hg => h.2 g (List.mem_append_left _ hg)⟩

theorem Legal.of_append {fs gs : List ServerFrame} (h : Legal (fs ++ gs)) : Legal fs where
  control f hf := h.control f (List.mem_append_left _ hf)
  plain f hf := h.plain f (by
    rw [data_append]
    exact List.mem_append_left _ hf)
  opcodes := (data_append fs gs ▸ h.opcodes).of_append
  size := by
    have hsize := h.size
    rw [concat_append, List.length_append] at hsize
    exact (Nat.le_add_right _ _).trans hsize

theorem begins_nil : Begins [] where
  legal := {
    control := fun _ hf => nomatch hf
    plain := fun _ hf => nomatch hf
    opcodes := trivial
    size := by decide }
  unfinished := fun _ hf => nomatch hf

theorem Answered.append {a b : List Bytes} {s t : Bytes} (hs : Answered a s) (ht : Answered b t) :
    Answered (a ++ b) (s ++ t) := by
  obtain ⟨pongs, hpongs, rfl⟩ := hs
  obtain ⟨pongs', hpongs', rfl⟩ := ht
  exact ⟨pongs ++ pongs', List.rel_append hpongs hpongs', List.flatten_append.symm⟩

theorem answered_nil : Answered [] [] := ⟨[], .nil, rfl⟩

theorem pings_ping {f : ServerFrame} (hf : f.opcode = opcodePing) : pings [f] = [f.payload] := by
  simp [pings, hf]

theorem pings_other {f : ServerFrame} (hf : f.opcode ≠ opcodePing) : pings [f] = [] := by
  simp [pings, hf]

/-! ## The next frame -/

theorem Legal.snoc_control {fs : List ServerFrame} {f : ServerFrame} (h : Legal fs)
    (hf : f.isControl = true) (hlegal : f.LegalControl) (hopcode : f.opcode ≠ opcodeClose) :
    Legal (fs ++ [f]) := by
  have hdata : data (fs ++ [f]) = data fs := by rw [data_append, data_control hf, List.append_nil]
  refine ⟨?_, hdata ▸ h.plain, hdata ▸ h.opcodes, ?_⟩
  · intro g hg
    rcases List.mem_append.mp hg with hg | hg
    · exact h.control g hg
    · obtain rfl := List.mem_singleton.mp hg
      exact fun _ => ⟨hlegal, hopcode⟩
  · have hsize := h.size
    rwa [concat, ← hdata] at hsize

theorem Legal.snoc_data {fs : List ServerFrame} {f : ServerFrame} (h : Legal fs)
    (hf : f.isControl = false) (hplain : f.Plain) (hopcodes : Opcodes (data fs ++ [f]))
    (hsize : (concat (fs ++ [f])).length ≤ 64 * 1024 * 1024) : Legal (fs ++ [f]) := by
  have hdata : data (fs ++ [f]) = data fs ++ [f] := by rw [data_append, data_data hf]
  refine ⟨?_, ?_, hdata ▸ hopcodes, hsize⟩
  · intro g hg hcontrol
    rcases List.mem_append.mp hg with hg | hg
    · exact h.control g hg hcontrol
    · obtain rfl := List.mem_singleton.mp hg
      rw [hf] at hcontrol
      contradiction
  · intro g hg
    rw [hdata] at hg
    rcases List.mem_append.mp hg with hg | hg
    · exact h.plain g hg
    · obtain rfl := List.mem_singleton.mp hg
      exact hplain

/-- The opcodes that are neither reserved for data nor for control. -/
theorem opcode_cases {f : ServerFrame} (h : f.opcode ∈ [opcodeCont, opcodeText, opcodeBinary,
    opcodeClose, opcodePing, opcodePong]) :
    if f.isControl then
      f.opcode = opcodeClose ∨ f.opcode = opcodePing ∨ f.opcode = opcodePong
    else f.opcode = opcodeCont ∨ f.opcode = opcodeText ∨ f.opcode = opcodeBinary := by
  unfold ServerFrame.isControl
  generalize f.opcode = opcode at h
  revert opcode
  decide +kernel

/-- A data frame's opcode fits those before it, unless it may not come. -/
theorem opcodes_snoc {fs : List ServerFrame} {f : ServerFrame} (h : Opcodes (data fs))
    (hknown : f.opcode = opcodeCont ∨ f.opcode = opcodeText ∨ f.opcode = opcodeBinary)
    (hv : ¬Violation fs f) : Opcodes (data fs ++ [f]) := by
  cases hdata : data fs with
  | nil =>
      refine ⟨hknown.resolve_left fun hcont => hv (.stray hcont hdata), ?_⟩
      intro g hg
      contradiction
  | cons g gs =>
      have hsome : data fs ≠ [] := by
        rw [hdata]
        exact List.cons_ne_nil g gs
      have hcont : f.opcode = opcodeCont :=
        hknown.resolve_right fun hfirst => hv (.nested hfirst hsome)
      rw [hdata] at h
      refine ⟨h.1, ?_⟩
      intro g' hg'
      rcases List.mem_append.mp hg' with hg' | hg'
      · exact h.2 g' hg'
      · rw [List.mem_singleton.mp hg']
        exact hcont

/-- After frames that may go on, the next one goes on, ends the message, closes the connection
or may not come. -/
theorem Begins.next {fs : List ServerFrame} (h : Begins fs) (f : ServerFrame) :
    Begins (fs ++ [f]) ∨ (∃ opcode payload, IsMessage (fs ++ [f]) opcode payload) ∨
      (f.LegalControl ∧ f.opcode = opcodeClose) ∨ Violation fs f := by
  by_cases hv : Violation fs f
  · exact .inr (.inr (.inr hv))
  have hplain : f.Plain := by_contra fun hbad => hv (.reserved hbad)
  have hknown := opcode_cases (by_contra fun hbad => hv (.unknown hbad))
  cases hf : f.isControl with
  | true =>
      rw [if_pos hf] at hknown
      have hwhole : f.fin = true := by
        cases hfin : f.fin with
        | true => rfl
        | false => exact absurd (.fragmented hf hfin) hv
      have hlegal : f.LegalControl :=
        ⟨hplain, hwhole, Nat.le_of_not_lt fun hbad => hv (.oversized hf hbad), hknown⟩
      by_cases hclose : f.opcode = opcodeClose
      · exact .inr (.inr (.inl ⟨hlegal, hclose⟩))
      · refine .inl ⟨h.legal.snoc_control hf hlegal hclose, ?_⟩
        rw [data_append, data_control hf, List.append_nil]
        exact h.unfinished
  | false =>
      rw [if_neg (hf ▸ Bool.false_ne_true)] at hknown
      have hlegal : Legal (fs ++ [f]) :=
        h.legal.snoc_data hf hplain (opcodes_snoc h.legal.opcodes hknown hv)
          (Nat.le_of_not_lt fun hbad => hv (.too_large hf hbad))
      have hdata : data (fs ++ [f]) = data fs ++ [f] := by rw [data_append, data_data hf]
      cases hfin : f.fin with
      | true =>
          refine .inr (.inl ⟨((data fs).head?.getD f).opcode, concat (fs ++ [f]), hlegal,
            ⟨fs, f, rfl, hf, hfin, h.unfinished⟩, ?_, rfl⟩)
          rw [hdata]
          cases data fs <;> rfl
      | false =>
          refine .inl ⟨hlegal, ?_⟩
          intro g hg
          rw [hdata] at hg
          rcases List.mem_append.mp hg with hg | hg
          · exact h.unfinished g hg
          · rw [List.mem_singleton.mp hg]
            exact hfin

/-- Every sequence of frames may go on, or has a first frame at which it is over. -/
theorem begins_or_over (frames : List ServerFrame) :
    Begins frames ∨ ∃ fs f rest, frames = fs ++ f :: rest ∧ Begins fs ∧
      ((∃ opcode payload, IsMessage (fs ++ [f]) opcode payload) ∨
        (f.LegalControl ∧ f.opcode = opcodeClose) ∨ Violation fs f) := by
  induction frames using List.reverseRecOn with
  | nil => exact .inl begins_nil
  | append_singleton frames last ih =>
      rcases ih with hbegins | ⟨fs, f, rest, rfl, hbegins, hover⟩
      · rcases hbegins.next last with hnext | hover
        · exact .inl hnext
        · exact .inr ⟨frames, last, [], rfl, hbegins, hover⟩
      · exact .inr ⟨fs, f, rest ++ [last], by simp, hbegins, hover⟩

/-- A message is frames that may go on and one that ends it. -/
theorem IsMessage.snoc {frames : List ServerFrame} {opcode : UInt8} {payload : Bytes}
    (h : IsMessage frames opcode payload) :
    ∃ init last, frames = init ++ [last] ∧ Begins init ∧ last.isControl = false ∧
      last.fin = true := by
  obtain ⟨init, last, rfl, hdata, hfin, hinit⟩ := h.ends
  exact ⟨init, last, rfl, ⟨h.legal.of_append, hinit⟩, hdata, hfin⟩

/-! ## What the loop keeps -/

/-- The opcode of the first data frame, and the payloads so far. -/
def progress (fs : List ServerFrame) : Fragments :=
  ⟨(data fs).head?.map (·.opcode), false, concat fs⟩

theorem progress_control {fs : List ServerFrame} {f : ServerFrame} (hf : f.isControl = true) :
    progress (fs ++ [f]) = progress fs := by
  rw [progress, concat, data_append, data_control hf, List.append_nil]
  rfl

theorem checkControl_legal {f : ServerFrame} (h : f.LegalControl) :
    checkControl f.frame = .ok (if f.opcode = opcodePing then .answer f.payload
      else if f.opcode = opcodePong then .skip else .close) := by
  obtain ⟨⟨hrsv, -, -⟩, hwhole, hshort, hknown⟩ := h
  have hmax : ¬f.frame.payload.length > maxControlPayload := Nat.not_lt.mpr hshort
  simp only [checkControl, if_neg hmax]
  simp only [ServerFrame.frame, hrsv, hwhole, Bool.not_true, Bool.false_eq_true, if_false]
  rcases hknown with hop | hop | hop
  · rw [hop]
    rfl
  · rw [hop]
    rfl
  · rw [hop]
    rfl

/-- A control frame that passes the checks is one by the protocol. -/
theorem legalControl_of_check {f : ServerFrame} (h₂ : f.rsv2 = false) (h₃ : f.rsv3 = false)
    {c : Control} (h : checkControl f.frame = .ok c) : f.LegalControl := by
  unfold checkControl at h
  split at h
  · contradiction
  next hrsv =>
  split at h
  · contradiction
  next hfin =>
  split at h
  · contradiction
  next hshort =>
  have hwhole : f.fin = true := by simpa [ServerFrame.frame] using hfin
  refine ⟨⟨Bool.eq_false_of_not_eq_true hrsv, h₂, h₃⟩, hwhole, Nat.le_of_not_lt hshort, ?_⟩
  split at h
  · next hping => exact .inr (.inl hping)
  split at h
  · next hpong => exact .inr (.inr hpong)
  split at h
  · next hclose => exact .inl hclose
  · contradiction

theorem accumulate_ok {buf chunk : Bytes} (h : buf.length + chunk.length ≤ maxPayloadBytes) :
    accumulate buf chunk = .ok (buf ++ chunk) := if_neg (Nat.not_lt.mpr h)

theorem addData_legal {fs : List ServerFrame} {f : ServerFrame} (h : Legal (fs ++ [f]))
    (hf : f.isControl = false) :
    ∃ opcode, (data (fs ++ [f])).head?.map (·.opcode) = some opcode ∧
      addData none (progress fs) f.frame = .ok (if f.fin then .inr (.data opcode (concat (fs ++ [f])))
        else .inl (progress (fs ++ [f]))) := by
  have hdata : data (fs ++ [f]) = data fs ++ [f] := by rw [data_append, data_data hf]
  have hconcat : concat (fs ++ [f]) = concat fs ++ f.payload := by
    rw [concat_append, concat_data hf]
  have hrsv : f.rsv1 = false := (h.plain f (hdata ▸ by simp)).1
  have hbuf : accumulate (concat fs) f.payload = .ok (concat (fs ++ [f])) := by
    have hsize := h.size
    rw [hconcat] at hsize ⊢
    exact accumulate_ok (List.length_append ▸ hsize)
  have hopcodes := h.opcodes
  rw [hdata] at hopcodes
  cases hfs : data fs with
  | nil =>
      rw [hfs] at hopcodes
      have hfirst : f.opcode = opcodeText ∨ f.opcode = opcodeBinary := hopcodes.1
      refine ⟨f.opcode, by rw [hdata, hfs]; rfl, ?_⟩
      simp only [addData, if_pos hfirst, progress, hfs, ServerFrame.frame, hrsv, hbuf]
      cases f.fin with
      | true => rfl
      | false =>
          rw [hdata, hfs]
          rfl
  | cons g gs =>
      rw [hfs] at hopcodes
      have hcont : f.opcode = opcodeCont := hopcodes.2 f (by simp)
      have hnot : ¬(f.opcode = opcodeText ∨ f.opcode = opcodeBinary) := by
        rw [hcont]
        decide
      refine ⟨g.opcode, by rw [hdata, hfs]; rfl, ?_⟩
      simp only [addData, if_neg hnot, if_pos hcont, progress, hfs, ServerFrame.frame, hrsv, hbuf]
      cases f.fin with
      | true => rfl
      | false =>
          rw [hdata, hfs]
          rfl

theorem accumulate_le {buf chunk out : Bytes} (h : accumulate buf chunk = .ok out) :
    buf.length + chunk.length ≤ maxPayloadBytes := by
  unfold accumulate at h
  split at h
  · contradiction
  · next hle => exact Nat.le_of_not_lt hle

/-- A data frame that is taken in goes on from those before it. -/
theorem legal_of_addData {fs : List ServerFrame} (hlegal : Legal fs) {f : ServerFrame}
    (hf : f.isControl = false) (h₂ : f.rsv2 = false) (h₃ : f.rsv3 = false)
    {out : Fragments ⊕ Message} (h : addData none (progress fs) f.frame = .ok out) :
    Legal (fs ++ [f]) := by
  have hsnoc (hrsv : f.rsv1 = false) (hopcodes : Opcodes (data fs ++ [f])) {buf : Bytes}
      (hbuf : accumulate (concat fs) f.payload = .ok buf) : Legal (fs ++ [f]) := by
    refine hlegal.snoc_data hf ⟨hrsv, h₂, h₃⟩ hopcodes ?_
    rw [concat_append, concat_data hf, List.length_append]
    exact accumulate_le hbuf
  unfold addData at h
  split at h
  · next hfirst =>
    split at h
    · contradiction
    next hnone =>
    split at h
    · contradiction
    next hrsv =>
    obtain ⟨buf, hbuf, -⟩ := Result.bind_eq_ok.mp h
    refine hsnoc (by simpa [ServerFrame.frame] using hrsv) ?_ hbuf
    cases hfs : data fs with
    | nil => exact ⟨hfirst, fun _ hg => nomatch hg⟩
    | cons g gs =>
        rw [progress, hfs] at hnone
        exact absurd rfl hnone
  split at h
  · next hcont =>
    split at h
    · contradiction
    next opcode hsome =>
    split at h
    · contradiction
    next hrsv =>
    obtain ⟨buf, hbuf, -⟩ := Result.bind_eq_ok.mp h
    refine hsnoc (Bool.eq_false_of_not_eq_true hrsv) ?_ hbuf
    have hopcodes := hlegal.opcodes
    cases hfs : data fs with
    | nil =>
        rw [progress, hfs] at hsome
        contradiction
    | cons g gs =>
        rw [hfs] at hopcodes
        refine ⟨hopcodes.1, ?_⟩
        intro g' hg'
        rcases List.mem_append.mp hg' with hg' | hg'
        · exact hopcodes.2 g' hg'
        · rw [List.mem_singleton.mp hg']
          exact hcont
  · contradiction

theorem ServerFrame.LegalControl.not_violation {fs : List ServerFrame} {f : ServerFrame}
    (h : f.LegalControl) (hf : f.isControl = true) : ¬Violation fs f := by
  intro hv
  cases hv with
  | reserved hbad => exact hbad h.plain
  | unknown hbad =>
      apply hbad
      rcases h.known with hop | hop | hop
      · simp [hop]
      · simp [hop]
      · simp [hop]
  | fragmented _ hbad =>
      rw [h.whole] at hbad
      contradiction
  | oversized _ hbad => exact Nat.not_lt.mpr h.short hbad
  | stray hcont =>
      rw [isControl, hcont] at hf
      contradiction
  | nested hfirst =>
      rcases hfirst with hop | hop
      · rw [isControl, hop] at hf
        contradiction
      · rw [isControl, hop] at hf
        contradiction
  | too_large hdata =>
      rw [hf] at hdata
      contradiction

theorem Legal.not_violation {fs : List ServerFrame} {f : ServerFrame} (h : Legal (fs ++ [f]))
    (hf : f.isControl = false) : ¬Violation fs f := by
  have hdata : data (fs ++ [f]) = data fs ++ [f] := by rw [data_append, data_data hf]
  have hopcodes : Opcodes (data fs ++ [f]) := hdata ▸ h.opcodes
  have hcases : data fs = [] ∧ (f.opcode = opcodeText ∨ f.opcode = opcodeBinary) ∨
      data fs ≠ [] ∧ f.opcode = opcodeCont := by
    cases hfs : data fs with
    | nil =>
        rw [hfs] at hopcodes
        exact .inl ⟨rfl, hopcodes.1⟩
    | cons g gs =>
        rw [hfs] at hopcodes
        exact .inr ⟨List.cons_ne_nil g gs, hopcodes.2 f (by simp)⟩
  intro hv
  cases hv with
  | reserved hbad => exact hbad (h.plain f (hdata ▸ by simp))
  | unknown hbad =>
      apply hbad
      rcases hcases with ⟨-, hop | hop⟩ | ⟨-, hop⟩
      · simp [hop]
      · simp [hop]
      · simp [hop]
  | fragmented hcontrol =>
      rw [hf] at hcontrol
      contradiction
  | oversized hcontrol =>
      rw [hf] at hcontrol
      contradiction
  | stray hcont hnil =>
      rcases hcases with ⟨-, hop⟩ | ⟨hsome, -⟩
      · rw [hcont] at hop
        revert hop
        decide
      · exact hsome hnil
  | nested hfirst hsome =>
      rcases hcases with ⟨hnil, -⟩ | ⟨-, hop⟩
      · exact hsome hnil
      · rw [hop] at hfirst
        revert hfirst
        decide
  | too_large _ hbad => exact Nat.not_lt.mpr h.size hbad

/-! ## One turn of the loop -/

/-- A stream that takes what is written to it. -/
abbrev live (tail : Option IoKind) (bytes written : Bytes) (drawn : Nat) : Stream :=
  ⟨⟨bytes, tail⟩, ⟨written, none, none⟩, drawn⟩

section Turn

variable (entropy : Nat → Option {r : Bytes // r.length = 16}) {fs : List ServerFrame}
  {f : ServerFrame} (turns : Nat) (tail : Option IoKind) (rest written : Bytes) (drawn : Nat)

theorem readFrame_of_fine (h₂ : f.rsv2 = false) (h₃ : f.rsv3 = false)
    (hlen : f.payload.length ≤ maxPayloadBytes) :
    readFrame.exec (live tail (f.encode ++ rest) written drawn) =
      (.ok f.frame, live tail rest written drawn) := by
  rw [readFrame_encode, if_neg, if_neg (Nat.not_lt.mpr hlen)]
  rw [h₂, h₃]
  decide

theorem turn_control (hf : f.isControl = true) (h : f.LegalControl) :
    (readLoop entropy none (turns + 1) (progress fs)).exec
        (live tail (f.encode ++ rest) written drawn) =
      (if f.opcode = opcodePing then do
          let pong ← buildClientFrame entropy opcodePong f.payload
          writeAll pong
          flush
          readLoop entropy none turns (progress fs)
        else if f.opcode = opcodePong then readLoop entropy none turns (progress fs)
        else do
          answerClose entropy
          return .closed : Session Message).exec (live tail rest written drawn) := by
  have hframe : readFrame.exec (live tail (f.encode ++ rest) written drawn) =
      (.ok f.frame, live tail rest written drawn) :=
    readFrame_of_fine tail rest written drawn h.plain.2.1 h.plain.2.2 (h.short.trans (by decide))
  have hop : f.frame.opcode ≥ 8 := of_decide_eq_true hf
  rw [readLoop, Program.exec_bind_ok hframe, if_pos hop, checkControl_legal h, Program.ofExcept,
    Program.exec_bind_ok (Program.exec_pure ..)]
  by_cases hping : f.opcode = opcodePing
  · rw [if_pos hping, if_pos hping]
  rw [if_neg hping, if_neg hping]
  by_cases hpong : f.opcode = opcodePong
  · rw [if_pos hpong, if_pos hpong]
  · rw [if_neg hpong, if_neg hpong]

theorem turn_data (hf : f.isControl = false) (h : Legal (fs ++ [f])) :
    ∃ opcode, (data (fs ++ [f])).head?.map (·.opcode) = some opcode ∧
      (readLoop entropy none (turns + 1) (progress fs)).exec
          (live tail (f.encode ++ rest) written drawn) =
        (if f.fin then return .data opcode (concat (fs ++ [f]))
          else readLoop entropy none turns (progress (fs ++ [f])) : Session Message).exec
            (live tail rest written drawn) := by
  have hplain : f.Plain := h.plain f (by simp [data_data hf])
  have hlen : f.payload.length ≤ maxPayloadBytes := by
    have hsize := h.size
    rw [concat_append, concat_data hf, List.length_append] at hsize
    exact (Nat.le_add_left _ _).trans hsize
  have hframe : readFrame.exec (live tail (f.encode ++ rest) written drawn) =
      (.ok f.frame, live tail rest written drawn) :=
    readFrame_of_fine tail rest written drawn hplain.2.1 hplain.2.2 hlen
  have hop : ¬f.frame.opcode ≥ 8 := of_decide_eq_false hf
  obtain ⟨opcode, hopcode, hadd⟩ := addData_legal h hf
  refine ⟨opcode, hopcode, ?_⟩
  rw [readLoop, Program.exec_bind_ok hframe, if_neg hop, hadd, Program.ofExcept,
    Program.exec_bind_ok (Program.exec_pure ..)]
  cases f.fin with
  | true => rfl
  | false => rfl

/-- A frame that may not come ends the loop, and nothing is written for it. -/
theorem turn_violation (hbegins : Begins fs) (hv : Violation fs f) :
    ∃ e s, (readLoop entropy none (turns + 1) (progress fs)).exec
        (live tail (f.encode ++ rest) written drawn) = (.error e, s) ∧ s.sink.written = written := by
  have hread := readFrame_encode f rest tail ⟨written, none, none⟩ drawn
  by_cases hrsv : f.rsv2 ∨ f.rsv3
  · rw [if_pos hrsv] at hread
    rw [readLoop, Program.exec_bind, hread]
    exact ⟨_, _, rfl, rfl⟩
  by_cases hlen : maxPayloadBytes < f.payload.length
  · rw [if_neg hrsv, if_pos hlen] at hread
    rw [readLoop, Program.exec_bind, hread]
    exact ⟨_, _, rfl, rfl⟩
  rw [if_neg hrsv, if_neg hlen] at hread
  have h₂ : f.rsv2 = false := Bool.eq_false_of_not_eq_true fun h => hrsv (.inl h)
  have h₃ : f.rsv3 = false := Bool.eq_false_of_not_eq_true fun h => hrsv (.inr h)
  rw [readLoop, Program.exec_bind_ok hread]
  cases hf : f.isControl with
  | true =>
      have hop : f.frame.opcode ≥ 8 := of_decide_eq_true hf
      rw [if_pos hop]
      cases hcheck : checkControl f.frame with
      | error e => exact ⟨e, _, rfl, rfl⟩
      | ok c => exact absurd hv ((legalControl_of_check h₂ h₃ hcheck).not_violation hf)
  | false =>
      have hop : ¬f.frame.opcode ≥ 8 := of_decide_eq_false hf
      rw [if_neg hop]
      cases hadd : addData none (progress fs) f.frame with
      | error e => exact ⟨e, _, rfl, rfl⟩
      | ok out => exact absurd hv ((legal_of_addData hbegins.legal hf h₂ h₃ hadd).not_violation hf)

theorem turn_end (frags : Fragments) :
    (readLoop entropy none (turns + 1) frags).exec (live tail [] written drawn) =
      (.error (endError tail), live tail [] written drawn) := by
  rw [readLoop, Program.exec_bind, readFrame, Program.exec_bind, exec_readExact_nil]

theorem turn_message {opcode : UInt8} {payload : Bytes} (h : IsMessage (fs ++ [f]) opcode payload)
    (hf : f.isControl = false) (hfin : f.fin = true) :
    (readLoop entropy none (turns + 1) (progress fs)).exec
        (live tail (f.encode ++ rest) written drawn) =
      (.ok (.data opcode payload), live tail rest written drawn) := by
  obtain ⟨opcode', hfirst, hturn⟩ := turn_data entropy turns tail rest written drawn hf h.legal
  have hopcode : opcode' = opcode := Option.some.inj (hfirst.symm.trans h.opcode_first)
  rw [hturn, if_pos hfin, hopcode, ← h.payload_eq, Program.exec_pure]

section Replies

variable {entropy} (hentropy : ∀ n, (entropy n).isSome)

include hentropy

/-- A turn that goes on: a ping is answered, and what is kept is right again. -/
theorem turn_begins (h : Begins (fs ++ [f])) :
    ∃ reply drawn', Answered (pings [f]) reply ∧
      (readLoop entropy none (turns + 1) (progress fs)).exec
          (live tail (f.encode ++ rest) written drawn) =
        (readLoop entropy none turns (progress (fs ++ [f]))).exec
          (live tail rest (written ++ reply) drawn') := by
  cases hf : f.isControl with
  | true =>
      obtain ⟨hlegal, hclose⟩ := h.legal.control f (by simp) hf
      rw [turn_control _ _ _ _ _ _ hf hlegal, progress_control hf]
      by_cases hping : f.opcode = opcodePing
      · obtain ⟨pong, hpong, hbuild⟩ := exec_buildClientFrame hentropy
          (show opcodePong &&& 0x0F = opcodePong by decide) f.payload (live tail rest written drawn)
        refine ⟨pong, drawn + 1, ⟨[pong], ?_, by simp⟩, ?_⟩
        · rw [pings_ping hping]
          exact .cons hpong .nil
        · rw [if_pos hping, Program.exec_bind_ok hbuild, Program.exec_bind_ok (exec_writeAll ..),
            Program.exec_bind_ok (exec_flush ..)]
      · have hpong : f.opcode = opcodePong :=
          (hlegal.known.resolve_left hclose).resolve_left hping
        refine ⟨[], drawn, pings_other hping ▸ answered_nil, ?_⟩
        rw [if_neg hping, if_pos hpong, List.append_nil]
  | false =>
      obtain ⟨opcode, -, hturn⟩ := turn_data entropy turns tail rest written drawn hf h.legal
      have hping : f.opcode ≠ opcodePing := by
        intro hop
        rw [ServerFrame.isControl, hop] at hf
        contradiction
      have hfin : f.fin = false := h.unfinished f (by simp [data_data hf])
      refine ⟨[], drawn, pings_other hping ▸ answered_nil, ?_⟩
      rw [hturn, if_neg (hfin ▸ Bool.false_ne_true), List.append_nil]

theorem exec_answerClose :
    ∃ close drawn', IsClientFrame opcodeClose [] close ∧
      (answerClose entropy).exec (live tail rest written drawn) =
        (.ok (), live tail rest (written ++ close) drawn') := by
  obtain ⟨close, hclose, hbuild⟩ := exec_buildClientFrame hentropy
    (show opcodeClose &&& 0x0F = opcodeClose by decide) [] (live tail rest written drawn)
  refine ⟨close, drawn + 1, hclose, ?_⟩
  rw [answerClose, Program.exec_bind_ok (Program.exec_attempt ..), hbuild]
  rfl

theorem turn_close (h : f.LegalControl) (hclose : f.opcode = opcodeClose) :
    ∃ close drawn', IsClientFrame opcodeClose [] close ∧
      (readLoop entropy none (turns + 1) (progress fs)).exec
          (live tail (f.encode ++ rest) written drawn) =
        (.ok .closed, live tail rest (written ++ close) drawn') := by
  have hf : f.isControl = true := by
    rw [ServerFrame.isControl, hclose]
    rfl
  obtain ⟨close, drawn', hframe, hanswer⟩ := exec_answerClose tail rest written drawn hentropy
  refine ⟨close, drawn', hframe, ?_⟩
  rw [turn_control _ _ _ _ _ _ hf h, hclose, if_neg (by decide), if_neg (by decide),
    Program.exec_bind_ok hanswer, Program.exec_pure]

/-- Frames that may go on leave the loop with what they say, their pings answered. -/
theorem run_begins (h : Begins fs) :
    ∃ replies drawn', Answered (pings fs) replies ∧
      (readLoop entropy none (turns + fs.length) (progress [])).exec
          (live tail (wire fs ++ rest) written drawn) =
        (readLoop entropy none turns (progress fs)).exec
          (live tail rest (written ++ replies) drawn') := by
  induction fs using List.reverseRecOn generalizing turns rest with
  | nil => exact ⟨[], drawn, answered_nil, by simp [wire]⟩
  | append_singleton fs f ih =>
      have hfs : Begins fs := by
        refine ⟨h.legal.of_append, ?_⟩
        intro g hg
        exact h.unfinished g (by simp [hg])
      obtain ⟨replies, drawn₁, hreplies, hrun⟩ := ih (turns + 1) (f.encode ++ rest) hfs
      obtain ⟨reply, drawn₂, hreply, hturn⟩ := turn_begins turns tail rest
        (written ++ replies) drawn₁ hentropy h
      refine ⟨replies ++ reply, drawn₂, ?_, ?_⟩
      · rw [pings_append]
        exact hreplies.append hreply
      · have hwire : wire (fs ++ [f]) ++ rest = wire fs ++ (f.encode ++ rest) := by simp [wire]
        have hturns : turns + (fs ++ [f]).length = turns + 1 + fs.length := by
          rw [List.length_append, List.length_singleton, Nat.add_right_comm, Nat.add_assoc]
        rw [hwire, hturns, hrun, hturn, List.append_assoc]

end Replies
end Turn

/-! ## A whole message -/

theorem length_le_wire (frames : List ServerFrame) : frames.length ≤ (wire frames).length := by
  induction frames with
  | nil => exact Nat.le_refl 0
  | cons f frames ih =>
      rw [wire, List.flatMap_cons, List.length_append, List.length_cons, Nat.add_comm]
      exact Nat.add_le_add (Nat.le_of_succ_le f.two_le_length_encode) ih

theorem wire_cons (f : ServerFrame) (rest : List ServerFrame) :
    wire (f :: rest) = f.encode ++ wire rest := rfl

section Message

variable {entropy : Nat → Option {r : Bytes // r.length = 16}} {frames fs rest : List ServerFrame}
  {f : ServerFrame} {s : Stream} (hentropy : ∀ n, (entropy n).isSome)
  (hs : s.source.bytes = wire frames) (hfault : s.sink.fault = none)
  (hflush : s.sink.flushFault = none)

include hentropy hs hfault hflush

/-- Behind frames that may go on the loop has what they say, and turns to spare. -/
theorem exec_readMessage (hframes : frames = fs ++ rest) (h : Begins fs) :
    ∃ replies turns drawn, Answered (pings fs) replies ∧
      (readMessage entropy none).exec s = (readLoop entropy none (turns + 1) (progress fs)).exec
        (live s.source.tail (wire rest) (s.sink.written ++ replies) drawn) := by
  obtain ⟨⟨bytes, tail⟩, ⟨written, fault, flushFault⟩, drawn⟩ := s
  obtain rfl : fault = none := hfault
  obtain rfl : flushFault = none := hflush
  obtain rfl : bytes = wire frames := hs
  have hwire : wire frames = wire fs ++ wire rest := by
    rw [hframes, wire, List.flatMap_append]
    rfl
  have hle : fs.length ≤ (wire frames).length := by
    rw [hwire, List.length_append]
    exact (length_le_wire fs).trans (Nat.le_add_right _ _)
  obtain ⟨turns, hturns⟩ := Nat.exists_eq_add_of_le' hle
  obtain ⟨replies, drawn', hreplies, hrun⟩ := run_begins (turns + 1) tail (wire rest)
    written drawn hentropy h
  refine ⟨replies, turns, drawn', hreplies, ?_⟩
  rw [readMessage, Program.exec_bind_ok (Program.exec_get _), hturns, Nat.add_right_comm, hwire]
  exact hrun

theorem readMessage_of_isMessage {opcode : UInt8} {payload : Bytes} (hframes : frames = fs ++ rest)
    (h : IsMessage fs opcode payload) :
    ∃ replies drawn, Answered (pings fs) replies ∧
      (readMessage entropy none).exec s = (.ok (.data opcode payload),
        live s.source.tail (wire rest) (s.sink.written ++ replies) drawn) := by
  obtain ⟨init, last, rfl, hinit, hlast, hfin⟩ := h.snoc
  rw [List.append_assoc] at hframes
  obtain ⟨replies, turns, drawn, hreplies, hrun⟩ :=
    exec_readMessage hentropy hs hfault hflush hframes hinit
  have hnoping : last.opcode ≠ opcodePing := by
    intro hop
    rw [ServerFrame.isControl, hop] at hlast
    contradiction
  have hpings : pings (init ++ [last]) = pings init := by
    rw [pings_append, pings_other hnoping, List.append_nil]
  rw [List.singleton_append, wire_cons, turn_message _ _ _ _ _ _ h hlast hfin] at hrun
  exact ⟨replies, drawn, hpings ▸ hreplies, hrun⟩

theorem readMessage_of_close (hframes : frames = fs ++ f :: rest) (h : Begins fs)
    (hlegal : f.LegalControl) (hclose : f.opcode = opcodeClose) :
    ∃ replies close drawn, Answered (pings fs) replies ∧ IsClientFrame opcodeClose [] close ∧
      (readMessage entropy none).exec s = (.ok .closed,
        live s.source.tail (wire rest) (s.sink.written ++ replies ++ close) drawn) := by
  obtain ⟨replies, turns, drawn, hreplies, hrun⟩ :=
    exec_readMessage hentropy hs hfault hflush hframes h
  obtain ⟨close, drawn', hframe, hturn⟩ := turn_close turns s.source.tail (wire rest)
    (s.sink.written ++ replies) drawn hentropy hlegal hclose
  rw [wire_cons, hturn] at hrun
  exact ⟨replies, close, drawn', hreplies, hframe, hrun⟩

theorem readMessage_of_violation (hframes : frames = fs ++ f :: rest) (h : Begins fs)
    (hv : Violation fs f) :
    ∃ replies e s', Answered (pings fs) replies ∧
      (readMessage entropy none).exec s = (.error e, s') ∧
      s'.sink.written = s.sink.written ++ replies := by
  obtain ⟨replies, turns, drawn, hreplies, hrun⟩ :=
    exec_readMessage hentropy hs hfault hflush hframes h
  obtain ⟨e, s', hturn, hwritten⟩ := turn_violation entropy turns s.source.tail (wire rest)
    (s.sink.written ++ replies) drawn h hv
  rw [wire_cons, hturn] at hrun
  exact ⟨replies, e, s', hreplies, hrun, hwritten⟩

theorem readMessage_of_begins (h : Begins frames) :
    ((readMessage entropy none).exec s).1 = .error (endError s.source.tail) := by
  obtain ⟨replies, turns, drawn, -, hrun⟩ :=
    exec_readMessage hentropy hs hfault hflush (List.append_nil frames).symm h
  rw [hrun]
  exact congrArg Prod.fst (turn_end entropy turns s.source.tail (s.sink.written ++ replies) drawn _)

/-- The message is handed on, and the connection closed from this side. -/
theorem readDataAndClose_of_isMessage {opcode : UInt8} {payload : Bytes}
    (hframes : frames = fs ++ rest) (h : IsMessage fs opcode payload) :
    ∃ replies close drawn, Answered (pings fs) replies ∧ IsClientFrame opcodeClose [] close ∧
      (readDataAndClose entropy none).exec s = (.ok payload,
        live s.source.tail (wire rest) (s.sink.written ++ replies ++ close) drawn) := by
  obtain ⟨replies, drawn, hreplies, hrun⟩ :=
    readMessage_of_isMessage hentropy hs hfault hflush hframes h
  obtain ⟨close, drawn', hframe, hanswer⟩ := exec_answerClose s.source.tail (wire rest)
    (s.sink.written ++ replies) drawn hentropy
  refine ⟨replies, close, drawn', hreplies, hframe, ?_⟩
  rw [readDataAndClose, Program.exec_bind_ok hrun, Program.exec_bind_ok hanswer, Program.exec_pure]

/-- A close that came first has been answered already. -/
theorem readDataAndClose_of_close (hframes : frames = fs ++ f :: rest) (h : Begins fs)
    (hlegal : f.LegalControl) (hclose : f.opcode = opcodeClose) :
    ∃ replies close drawn, Answered (pings fs) replies ∧ IsClientFrame opcodeClose [] close ∧
      (readDataAndClose entropy none).exec s = (.ok [],
        live s.source.tail (wire rest) (s.sink.written ++ replies ++ close) drawn) := by
  obtain ⟨replies, close, drawn, hreplies, hframe, hrun⟩ :=
    readMessage_of_close hentropy hs hfault hflush hframes h hlegal hclose
  refine ⟨replies, close, drawn, hreplies, hframe, ?_⟩
  rw [readDataAndClose, Program.exec_bind_ok hrun, Program.exec_pure]

/-- `read_data_and_close` succeeds exactly where a message comes whole, which it returns, or a close
before one, which returns nothing. -/
theorem readDataAndClose_eq_ok (payload : Bytes) :
    ((readDataAndClose entropy none).exec s).1 = .ok payload ↔
      (∃ fs rest opcode, frames = fs ++ rest ∧ IsMessage fs opcode payload) ∨
        payload = [] ∧ ∃ fs f rest, frames = fs ++ f :: rest ∧ Begins fs ∧ f.LegalControl ∧
          f.opcode = opcodeClose := by
  have herror (e) (h : ((readMessage entropy none).exec s).1 = .error e) :
      ((readDataAndClose entropy none).exec s).1 = .error e := by
    rw [readDataAndClose, Program.exec_bind]
    rcases hrun : (readMessage entropy none).exec s with ⟨_ | _, s'⟩
    · rw [hrun] at h
      exact congrArg Except.error (Except.error.inj h)
    · rw [hrun] at h
      contradiction
  constructor
  · intro hout
    rcases begins_or_over frames with hbegins | ⟨fs, f, rest, hframes, hbegins, hover⟩
    · rw [herror _ (readMessage_of_begins hentropy hs hfault hflush hbegins)] at hout
      contradiction
    rcases hover with ⟨opcode, payload', h⟩ | ⟨hlegal, hclose⟩ | hv
    · have hsplit : frames = (fs ++ [f]) ++ rest := by simp [hframes]
      obtain ⟨_, _, _, -, -, hrun⟩ :=
        readDataAndClose_of_isMessage hentropy hs hfault hflush hsplit h
      rw [hrun] at hout
      obtain rfl := Except.ok.inj hout
      exact .inl ⟨fs ++ [f], rest, opcode, hsplit, h⟩
    · obtain ⟨_, _, _, -, -, hrun⟩ :=
        readDataAndClose_of_close hentropy hs hfault hflush hframes hbegins hlegal hclose
      rw [hrun] at hout
      exact .inr ⟨(Except.ok.inj hout).symm, fs, f, rest, hframes, hbegins, hlegal, hclose⟩
    · obtain ⟨-, e, s', -, hrun, -⟩ :=
        readMessage_of_violation hentropy hs hfault hflush hframes hbegins hv
      rw [herror e (congrArg Prod.fst hrun)] at hout
      contradiction
  · rintro (⟨fs, rest, opcode, hframes, h⟩ | ⟨rfl, fs, f, rest, hframes, hbegins, hlegal, hclose⟩)
    · obtain ⟨_, _, _, -, -, hrun⟩ :=
        readDataAndClose_of_isMessage hentropy hs hfault hflush hframes h
      rw [hrun]
    · obtain ⟨_, _, _, -, -, hrun⟩ :=
        readDataAndClose_of_close hentropy hs hfault hflush hframes hbegins hlegal hclose
      rw [hrun]

end Message

/-- Reassembly: a message is returned exactly when the frames up to there are one, every ping
before its end has had its pong and the rest of the stream is still there; a close is answered
with a close; any other frame that may not come is an error, and so is the end of the stream. -/
theorem readMessage_reassembles {entropy : Nat → Option {r : Bytes // r.length = 16}}
    (hentropy : ∀ n, (entropy n).isSome) (frames : List ServerFrame) {s : Stream}
    (hs : s.source.bytes = wire frames) (hfault : s.sink.fault = none)
    (hflush : s.sink.flushFault = none) :
    let out := (readMessage entropy none).exec s
    (∀ opcode payload, out.1 = .ok (.data opcode payload) ↔
      ∃ fs rest, frames = fs ++ rest ∧ IsMessage fs opcode payload) ∧
    (∀ fs rest opcode payload, frames = fs ++ rest → IsMessage fs opcode payload →
      out.2.source.bytes = wire rest ∧ ∃ replies, Answered (pings fs) replies ∧
        out.2.sink.written = s.sink.written ++ replies) ∧
    (∀ fs f rest, frames = fs ++ f :: rest → Begins fs → f.LegalControl →
      f.opcode = opcodeClose → out.1 = .ok .closed ∧ ∃ replies close, Answered (pings fs) replies ∧
        IsClientFrame opcodeClose [] close ∧
        out.2.sink.written = s.sink.written ++ replies ++ close) ∧
    (∀ fs f rest, frames = fs ++ f :: rest → Begins fs → Violation fs f →
      (∃ e, out.1 = .error e) ∧ ∃ replies, Answered (pings fs) replies ∧
        out.2.sink.written = s.sink.written ++ replies) ∧
    (Begins frames → out.1 = .error (endError s.source.tail)) := by
  intro out
  have hmessage (fs rest opcode payload) (hframes : frames = fs ++ rest)
      (h : IsMessage fs opcode payload) :=
    readMessage_of_isMessage hentropy hs hfault hflush hframes h
  refine ⟨fun opcode payload => ⟨fun hout => ?_, ?_⟩, ?_, ?_, ?_, ?_⟩
  · rcases begins_or_over frames with hbegins | ⟨fs, f, rest, hframes, hbegins, hover⟩
    · rw [readMessage_of_begins hentropy hs hfault hflush hbegins] at hout
      contradiction
    rcases hover with ⟨opcode', payload', h⟩ | ⟨hlegal, hclose⟩ | hv
    · have hsplit : frames = (fs ++ [f]) ++ rest := by simp [hframes]
      obtain ⟨_, _, -, hrun⟩ := hmessage _ _ _ _ hsplit h
      have hfst : out.1 = .ok (.data opcode' payload') := congrArg Prod.fst hrun
      rw [hfst] at hout
      obtain ⟨rfl, rfl⟩ := Message.data.inj (Except.ok.inj hout)
      exact ⟨fs ++ [f], rest, hsplit, h⟩
    · obtain ⟨_, _, _, -, -, hrun⟩ :=
        readMessage_of_close hentropy hs hfault hflush hframes hbegins hlegal hclose
      have hfst : out.1 = .ok .closed := congrArg Prod.fst hrun
      rw [hfst] at hout
      exact Message.noConfusion (Except.ok.inj hout)
    · obtain ⟨-, e, s', -, hrun, -⟩ :=
        readMessage_of_violation hentropy hs hfault hflush hframes hbegins hv
      have hfst : out.1 = .error e := congrArg Prod.fst hrun
      rw [hfst] at hout
      contradiction
  · rintro ⟨fs, rest, hframes, h⟩
    obtain ⟨_, _, -, hrun⟩ := hmessage fs rest opcode payload hframes h
    exact congrArg Prod.fst hrun
  · intro fs rest opcode payload hframes h
    obtain ⟨replies, drawn, hreplies, hrun⟩ := hmessage fs rest opcode payload hframes h
    have hsnd : out.2 = live s.source.tail (wire rest) (s.sink.written ++ replies) drawn :=
      congrArg Prod.snd hrun
    rw [hsnd]
    exact ⟨rfl, replies, hreplies, rfl⟩
  · intro fs f rest hframes hbegins hlegal hclose
    obtain ⟨replies, close, drawn, hreplies, hframe, hrun⟩ :=
      readMessage_of_close hentropy hs hfault hflush hframes hbegins hlegal hclose
    have hsnd : out.2 = live s.source.tail (wire rest) (s.sink.written ++ replies ++ close) drawn :=
      congrArg Prod.snd hrun
    rw [hsnd]
    exact ⟨congrArg Prod.fst hrun, replies, close, hreplies, hframe, rfl⟩
  · intro fs f rest hframes hbegins hv
    obtain ⟨replies, e, s', hreplies, hrun, hwritten⟩ :=
      readMessage_of_violation hentropy hs hfault hflush hframes hbegins hv
    have hsnd : out.2 = s' := congrArg Prod.snd hrun
    rw [hsnd]
    exact ⟨⟨e, congrArg Prod.fst hrun⟩, replies, hreplies, hwritten⟩
  · exact readMessage_of_begins hentropy hs hfault hflush

/-- A text message in two fragments, with a ping in between. -/
def fragmentedHello : List ServerFrame :=
  [⟨false, false, false, false, opcodeText, [0x48, 0x65], by decide, by decide⟩,
    ⟨true, false, false, false, opcodePing, [0x68, 0x69], by decide, by decide⟩,
    ⟨true, false, false, false, opcodeCont, [0x6c, 0x6c, 0x6f], by decide, by decide⟩]

theorem isMessage_fragmentedHello :
    IsMessage fragmentedHello opcodeText [0x48, 0x65, 0x6c, 0x6c, 0x6f] where
  legal := {
    control := by
      intro f hf
      simp only [fragmentedHello, List.mem_cons, List.not_mem_nil, or_false] at hf
      rcases hf with rfl | rfl | rfl
      · intro h
        contradiction
      · exact fun _ => ⟨⟨⟨rfl, rfl, rfl⟩, rfl, by decide, by decide⟩, by decide⟩
      · intro h
        contradiction
    plain := by
      intro f hf
      have hmem := mem_of_mem_data hf
      simp only [fragmentedHello, List.mem_cons, List.not_mem_nil, or_false] at hmem
      rcases hmem with rfl | rfl | rfl
      · exact ⟨rfl, rfl, rfl⟩
      · exact ⟨rfl, rfl, rfl⟩
      · exact ⟨rfl, rfl, rfl⟩
    opcodes := ⟨.inl rfl, by decide⟩
    size := by decide }
  ends := ⟨fragmentedHello.dropLast, fragmentedHello.getLast (by decide), by decide, rfl, rfl,
    by decide⟩
  opcode_first := rfl
  payload_eq := by decide

theorem readMessage_reassembles_hello :
    let out := (readMessage (fun _ => some ⟨List.replicate 16 7, List.length_replicate⟩) none).exec
      ⟨⟨wire fragmentedHello, none⟩, ⟨[], none, none⟩, 0⟩
    out.1 = .ok (.data opcodeText [0x48, 0x65, 0x6c, 0x6c, 0x6f]) ∧ out.2.source.bytes = [] ∧
      Answered [[0x68, 0x69]] out.2.sink.written := by
  intro out
  obtain ⟨hdata, hafter, -⟩ := @readMessage_reassembles
    (fun _ => some ⟨List.replicate 16 7, List.length_replicate⟩) (fun _ => rfl) fragmentedHello
    ⟨⟨wire fragmentedHello, none⟩, ⟨[], none, none⟩, 0⟩ rfl rfl rfl
  have hframes : fragmentedHello = fragmentedHello ++ [] := (List.append_nil _).symm
  obtain ⟨hsource, replies, hreplies, hwritten⟩ :=
    hafter fragmentedHello [] _ _ hframes isMessage_fragmentedHello
  have hwritten : out.2.sink.written = replies := hwritten
  rw [hwritten]
  exact ⟨(hdata _ _).mpr ⟨_, _, hframes, isMessage_fragmentedHello⟩, hsource, hreplies⟩

end Rsurl.WebSocket
