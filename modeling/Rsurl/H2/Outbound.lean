/-
# `Rsurl.H2.Outbound` — what is sent against what can be written

Three limits meet at an outbound frame: the peer's SETTINGS_MAX_FRAME_SIZE,
which cuts header blocks and bodies, the windows, and `MAX_FRAME_PAYLOAD`, the
cap of `write_frame` itself.  The peer may allow frames sixteen times as long
as that cap, so `writable_iff` has a condition.
-/
import Rsurl.Base.Chunks
import Rsurl.H2.Trace

namespace Rsurl.H2

open Http (Request)

/-! ## The peer's limit -/

/-- The peer's settings after payloads that were all accepted. -/
inductive Negotiated : PeerSettings → Prop
  | default : Negotiated .default
  | settings {p p' : PeerSettings} {payload : Bytes} (h : Negotiated p)
      (hok : p.applySettingsPayload payload = (.ok (), p')) : Negotiated p'

/-- A frame size the protocol allows. -/
def PeerSettings.FrameSizeOk (p : PeerSettings) : Prop :=
  16384 ≤ p.maxFrameSize ∧ p.maxFrameSize ≤ 16777215

theorem applySetting_frameSizeOk {p p' : PeerSettings} {id val : Nat} (h : p.FrameSizeOk)
    (hok : p.applySetting id val = .ok p') : p'.FrameSizeOk := by
  unfold PeerSettings.applySetting at hok
  split at hok
  · obtain rfl := Except.ok.inj hok
    exact h
  · split at hok
    · obtain rfl := Except.ok.inj hok
      exact h
    · obtain rfl := Except.ok.inj hok
      exact h
    · cases hok
  · obtain rfl := Except.ok.inj hok
    exact h
  · split at hok
    · cases hok
    · obtain rfl := Except.ok.inj hok
      exact h
  · split at hok
    · next hrange =>
        obtain rfl := Except.ok.inj hok
        exact hrange
    · cases hok
  · obtain rfl := Except.ok.inj hok
    exact h
  · obtain rfl := Except.ok.inj hok
    exact h

theorem applyEntries_frameSizeOk {p p' : PeerSettings} {payload : Bytes} {res : Result Unit}
    (h : p.FrameSizeOk) (happly : p.applyEntries payload = (res, p')) : p'.FrameSizeOk := by
  fun_induction PeerSettings.applyEntries p payload with
  | case1 p i₁ i₀ v₃ v₂ v₁ v₀ payload e he =>
      obtain ⟨-, rfl⟩ := Prod.mk.inj happly
      exact h
  | case2 p i₁ i₀ v₃ v₂ v₁ v₀ payload p₁ hp₁ ih => exact ih (applySetting_frameSizeOk h hp₁) happly
  | case3 p payload =>
      obtain ⟨-, rfl⟩ := Prod.mk.inj happly
      exact h

theorem Negotiated.frameSizeOk {p : PeerSettings} (h : Negotiated p) : p.FrameSizeOk := by
  induction h with
  | default => exact ⟨Nat.le_refl _, by decide⟩
  | settings _ hok ih =>
      unfold PeerSettings.applySettingsPayload at hok
      split at hok
      · cases hok
      · exact applyEntries_frameSizeOk ih hok

/-! ## The frames of the send paths -/

/-- A send path has `ready` bytes that could go out and makes these frames of them: a header
block as `send_request_on` and `stage_request_on` cut it, or the next piece of a body, of
which the windows let `budget` through. -/
inductive Outbound (p : PeerSettings) : Nat → List Frame → Prop
  | headers (id : Nat) (block : Bytes) (endStream : Bool) :
      Outbound p block.length (fragmentHeaderBlock id block p.maxFrameSize endStream)
  | data {id : Nat} {remaining : Bytes} {budget : Int} {isLast : Bool} (hne : remaining ≠ [])
      (hbudget : 0 < budget) :
      Outbound p (min budget remaining.length).toNat
        [dataFrame id (remaining.take (nextDataChunkSize p.maxFrameSize budget remaining.length))
          isLast]

/-! ### On a connection -/

section

variable {p : Path} {ok : Bool} {c c' : Connection} {new evs : List Event} {f : Frame}

/-- A frame that is handled leaves settings that were accepted. -/
theorem negotiated_of_handled {o : DispatchOutcome} (h : c.processFrame f = (.ok o, c'))
    (hpeer : Negotiated c.peer) : Negotiated c'.peer := by
  have hsame := processFrame_peer c f
  rw [h] at hsame
  by_cases hsees : c.seesSettings f
  · rw [if_pos hsees] at hsame
    rw [processFrame_of_settings c f hsees, Connection.processSettings] at h
    obtain ⟨res, peer, happly⟩ : ∃ res peer, c.peer.applySettingsPayload f.payload = (res, peer) :=
      ⟨_, _, rfl⟩
    rw [happly] at h hsame
    cases res with
    | error e => cases (Prod.mk.inj h).1
    | ok u =>
        rw [hsame]
        exact .settings hpeer happly
  · rw [if_neg hsees] at hsame
    rw [hsame]
    exact hpeer

/-- In a run in which nothing goes wrong the settings are always accepted ones. -/
theorem Traced.negotiated (h : Traced p true c evs c') (hpeer : Negotiated c.peer) :
    Negotiated c'.peer := by
  refine Base.Trace.invariant (I := fun _ c => Negotiated c.peer) hpeer ?_ h
  intro evs new c₁ c₂ hbefore hact
  by_cases hno : ∀ f handled, .inbound f handled ∉ new
  · rw [(hact.keepsPeer hno).1]
    exact hbefore
  cases hact with
  | @handled source f o _ h => exact negotiated_of_handled h hbefore
  | refused hok => cases hok
  | _ => exact absurd (by simp) hno

theorem outbound_headerFrames (c : Connection) (id : Nat) (req : Request) :
    ∃ ready, Outbound c.peer ready (c.headerFrames id req) :=
  ⟨_, .headers id (buildHeaderBlock c.encoder req).1 req.body.isEmpty⟩

/-- What an act sends of a request ends with the frames of a send path, with the settings that the
peer has then. -/
theorem Acts.outbound (h : Acts p ok c new c') (hf : .outbound f ∈ new)
    (hsends : f.typ = fHeaders ∨ f.typ = fData ∧ f.payload ≠ []) :
    ∃ ready frames, Outbound c.peer ready frames ∧ f ∈ frames ∧
      frames.map .outbound <:+ new := by
  have hmap : ∀ {frames : List Frame}, .outbound f ∈ frames.map Event.outbound → f ∈ frames := by
    intro frames hmem
    obtain ⟨g, hg, heq⟩ := List.mem_map.mp hmem
    obtain rfl := Event.outbound.inj heq
    exact hg
  cases h with
  | opens => cases List.mem_singleton.mp hf
  | @heads id req =>
      obtain ⟨ready, hout⟩ := outbound_headerFrames c id req
      rcases List.mem_cons.mp hf with heq | hf
      · cases heq
      · exact ⟨ready, _, hout, hmap hf, List.suffix_cons _ _⟩
  | @starts id req c₁ c' _ hopen =>
      obtain ⟨ready, hout⟩ := outbound_headerFrames c₁ id req
      rw [(openStream_keepsPeer hopen).1] at hout
      rcases List.mem_cons.mp hf with heq | hf
      · cases heq
      rcases List.mem_cons.mp hf with heq | hf
      · cases heq
      · exact ⟨ready, _, hout, hmap hf, (List.suffix_cons _ _).trans (List.suffix_cons _ _)⟩
  | @chunk id n s remaining res c' _ hs hbudget hsize =>
      obtain rfl := Event.outbound.inj (List.mem_singleton.mp hf)
      have hne : remaining ≠ [] := by
        rintro rfl
        rcases hsends with htyp | ⟨-, hpayload⟩
        · exact absurd htyp (by decide : fData ≠ fHeaders)
        · exact hpayload List.take_nil
      subst hsize
      exact ⟨_, _, .data hne hbudget, List.mem_singleton_self _, List.suffix_refl _⟩
  | @pump id n s pb isLast res c' _ hs _ hsize hpos =>
      obtain rfl := Event.outbound.inj (List.mem_singleton.mp hf)
      have hlength : pb.bytes.length - pb.sent = (pb.bytes.drop pb.sent).length :=
        List.length_drop.symm
      rw [hlength] at hsize
      have hbudget : 0 < s.sendBudget c.connSendWindow := by
        by_contra hno
        exact hpos (hsize.trans (if_pos (Int.not_lt.mp hno)))
      have hne : pb.bytes.drop pb.sent ≠ [] := by
        intro hnil
        rw [hnil, nextDataChunkSize, if_neg (Int.not_le.mpr hbudget)] at hsize
        simp only [List.length_nil] at hsize
        omega
      subst hsize
      exact ⟨_, _, .data hne hbudget, List.mem_singleton_self _, List.suffix_refl _⟩
  | @handled source g =>
      rcases List.mem_cons.mp hf with heq | hf
      · cases heq
      obtain ⟨hdata, hheaders⟩ := answers_plain c g (hmap hf)
      rcases hsends with htyp | ⟨htyp, -⟩
      · exact absurd htyp hheaders
      · exact absurd htyp hdata
  | refused => cases List.mem_singleton.mp hf
  | cleared | drops | breaks => cases hf

/-- As long as nothing has gone wrong, what goes out of a request are the frames of a send path,
cut by settings that were accepted. -/
theorem Traced.sends {c₀ : Connection} (hnew : c₀.peer = .default) (h : Traced p true c₀ evs c)
    (hact : Acts p ok c new c') (hf : .outbound f ∈ new)
    (hsends : f.typ = fHeaders ∨ f.typ = fData ∧ f.payload ≠ []) :
    Negotiated c.peer ∧ ∃ ready frames, Outbound c.peer ready frames ∧ f ∈ frames ∧
      frames.map .outbound <:+ new := by
  refine ⟨Traced.negotiated h ?_, hact.outbound hf hsends⟩
  rw [hnew]
  exact .default

end

/-! ### Both limits -/

/-- `write_frame` takes the frames, and the peer does too. -/
structure Writable (p : PeerSettings) (frames : List Frame) : Prop where
  accepted : ∀ f ∈ frames, ∀ w : Sink, w.fault = none → (writeFrame w f).1 = .ok ()
  allowed : ∀ f ∈ frames, f.payload.length ≤ p.maxFrameSize

theorem writeAll_of_sound {w : Sink} (h : w.fault = none) (bs : Bytes) :
    w.writeAll bs = (.ok (), { w with written := w.written ++ bs }) := by
  simp only [Sink.writeAll, h]

/-- `write_frame` refuses by the length of the payload only. -/
theorem writeFrame_accepts_iff (f : Frame) :
    (∀ w : Sink, w.fault = none → (writeFrame w f).1 = .ok ()) ↔
      f.payload.length ≤ maxFramePayload := by
  constructor
  · intro h
    by_contra hlong
    have hok := h ⟨[], none, none⟩ rfl
    rw [writeFrame, if_pos (Nat.lt_of_not_le hlong)] at hok
    cases hok
  · intro h w hw
    rw [writeFrame, if_neg (Nat.not_lt_of_le h), writeAll_of_sound hw]
    simp only [Sink.andThen]
    split
    · rfl
    · have hrest : { w with written := w.written ++ frameHeader f }.fault = none := hw
      rw [writeAll_of_sound hrest]

/-- The payload of the first frame is what fits of what is ready, and no other is longer. -/
structure Cuts (max ready : Nat) (frames : List Frame) : Prop where
  first : ∃ f ∈ frames, f.payload.length = min max ready
  le : ∀ f ∈ frames, f.payload.length ≤ min max ready

theorem mem_continuationFrames {id : Nat} {chunks : List Bytes} {f : Frame}
    (h : f ∈ continuationFrames id chunks) : f.payload ∈ chunks := by
  fun_induction continuationFrames id chunks with
  | case1 => cases h
  | case2 chunk =>
      rw [List.mem_singleton.mp h]
      exact List.mem_singleton_self chunk
  | case3 chunk chunks hne ih =>
      rcases List.mem_cons.mp h with rfl | h
      · exact List.mem_cons_self
      · exact List.mem_cons_of_mem chunk (ih h)

theorem fragmentHeaderBlock_cuts {max : Nat} (hmax : 0 < max) (id : Nat) (block : Bytes)
    (endStream : Bool) :
    Cuts max block.length (fragmentHeaderBlock id block max endStream) := by
  have hpiece : ∀ piece ∈ block.toChunks max, piece.length ≤ min max block.length := by
    intro piece hmem
    exact Nat.le_min.mpr (Base.length_of_mem_toChunks hmax hmem)
  unfold fragmentHeaderBlock
  simp only
  by_cases hblock : block = []
  · subst hblock
    refine ⟨⟨_, List.mem_singleton_self _, (Nat.min_zero max).symm⟩, ?_⟩
    intro f hf
    rw [List.mem_singleton.mp hf]
    exact Nat.zero_le _
  · have hfirst : (block.take max).length = min max block.length := List.length_take
    rw [Base.toChunks_eq hmax hblock] at hpiece ⊢
    split
    · next heq => cases heq
    · next chunk heq =>
        obtain ⟨rfl, -⟩ := List.cons.inj heq
        refine ⟨⟨_, List.mem_singleton_self _, hfirst⟩, ?_⟩
        intro f hf
        rw [List.mem_singleton.mp hf]
        exact Nat.le_of_eq hfirst
    · next chunk chunks _ heq =>
        obtain ⟨rfl, rfl⟩ := List.cons.inj heq
        refine ⟨⟨_, List.mem_cons_self, hfirst⟩, ?_⟩
        intro f hf
        rcases List.mem_cons.mp hf with rfl | hf
        · exact Nat.le_of_eq hfirst
        · exact hpiece _ (List.mem_cons_of_mem _ (mem_continuationFrames hf))

theorem nextDataChunkSize_eq {max : Nat} {budget : Int} (hbudget : 0 < budget) (remaining : Nat) :
    nextDataChunkSize max budget remaining = min max (min budget remaining).toNat := by
  rw [nextDataChunkSize, if_neg (Int.not_le.mpr hbudget)]
  omega

theorem Outbound.cuts {p : PeerSettings} {ready : Nat} {frames : List Frame}
    (h : Outbound p ready frames) (hmax : 0 < p.maxFrameSize) :
    Cuts p.maxFrameSize ready frames := by
  cases h with
  | headers id block endStream => exact fragmentHeaderBlock_cuts hmax id block endStream
  | @data id remaining budget isLast hne hbudget =>
      have hlen : (remaining.take
          (nextDataChunkSize p.maxFrameSize budget remaining.length)).length =
            min p.maxFrameSize (min budget remaining.length).toNat := by
        rw [List.length_take, nextDataChunkSize_eq hbudget]
        omega
      refine ⟨⟨_, List.mem_singleton_self _, hlen⟩, ?_⟩
      intro f hf
      rw [List.mem_singleton.mp hf]
      exact Nat.le_of_eq hlen

/-- Every frame keeps to the peer's limit; all are written if and only if the peer allows no
more than `write_frame` does, or there is no more to send than that. -/
theorem writable_iff {p : PeerSettings} {ready : Nat} {frames : List Frame} (h : Negotiated p)
    (hout : Outbound p ready frames) :
    Writable p frames ↔ p.maxFrameSize ≤ maxFramePayload ∨ ready ≤ maxFramePayload := by
  obtain ⟨hmin, -⟩ := h.frameSizeOk
  have hcuts := hout.cuts (by omega)
  constructor
  · intro hwritable
    obtain ⟨f, hf, hlen⟩ := hcuts.first
    have hle := (writeFrame_accepts_iff f).mp (hwritable.accepted f hf)
    omega
  · intro hcond
    refine ⟨fun f hf => (writeFrame_accepts_iff f).mpr ?_, fun f hf => ?_⟩
    · have hle := hcuts.le f hf
      omega
    · exact (hcuts.le f hf).trans (Nat.min_le_left _ _)

/-! ## A peer that allows more than is written -/

/-- SETTINGS_MAX_FRAME_SIZE at its maximum. -/
def roomySettings : Bytes := [0x00, 0x05, 0x00, 0xff, 0xff, 0xff]

/-- The peer's settings after it. -/
def roomyPeer : PeerSettings := { PeerSettings.default with maxFrameSize := 16777215 }

theorem negotiated_roomyPeer : Negotiated roomyPeer := by
  have hok : PeerSettings.default.applySettingsPayload roomySettings = (.ok (), roomyPeer) := by
    decide
  exact .settings .default hok

/-- A body one byte longer than what `write_frame` takes. -/
def longBody : Bytes := List.replicate (2 ^ 20 + 1) 0

/-- With windows for all of it the body goes into one frame, which is refused. -/
theorem longBody_refused :
    ∃ frames, Negotiated roomyPeer ∧
      Outbound roomyPeer (min (2 ^ 20 + 1 : Int) longBody.length).toNat frames ∧
      ¬ Writable roomyPeer frames := by
  have hlen : longBody.length = 2 ^ 20 + 1 := List.length_replicate
  have hne : longBody ≠ [] := by
    rw [← List.length_pos_iff, hlen]
    exact Nat.succ_pos _
  refine ⟨_, negotiated_roomyPeer, @Outbound.data _ 1 _ _ true hne (by decide), ?_⟩
  intro hwritable
  have hsize : nextDataChunkSize roomyPeer.maxFrameSize (2 ^ 20 + 1) longBody.length =
      2 ^ 20 + 1 := by
    rw [hlen]
    decide
  have hle := (writeFrame_accepts_iff _).mp
    (hwritable.accepted _ (List.mem_singleton_self _))
  rw [hsize] at hle
  simp only [dataFrame, List.length_take, hlen, maxFramePayload] at hle
  omega

/-- A body as long as what it takes. -/
def fittingBody : Bytes := List.replicate (2 ^ 20) 0

/-- That one is written, in one frame. -/
theorem writable_fitting :
    Writable roomyPeer [dataFrame 1 (fittingBody.take (nextDataChunkSize roomyPeer.maxFrameSize
      (2 ^ 20) fittingBody.length)) true] := by
  have hlen : fittingBody.length = 2 ^ 20 := List.length_replicate
  have hne : fittingBody ≠ [] := by
    rw [← List.length_pos_iff, hlen]
    exact Nat.two_pow_pos 20
  refine (writable_iff negotiated_roomyPeer (.data hne (by decide))).mpr (.inr ?_)
  rw [hlen]
  decide

end Rsurl.H2
