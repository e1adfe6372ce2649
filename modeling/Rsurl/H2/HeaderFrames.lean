/-
# `Rsurl.H2.HeaderFrames` — a header block as frames

`fragment_header_block` has three shapes: no piece, one piece, more.  In each
of them the payloads are the block and both flags are on exactly one frame.
-/
import Rsurl.Base.Chunks
import Rsurl.H2.Outbound

namespace Rsurl.H2

/-- The frames carry a header block on a stream as RFC 9113 has it. -/
structure CarriesBlock (streamId maxFrameSize : Nat) (block : Bytes) (endStream : Bool)
    (frames : List Frame) : Prop where
  payloads : frames.flatMap (·.payload) = block
  within : ∀ f ∈ frames, f.payload.length ≤ maxFrameSize
  stream : ∀ f ∈ frames, f.streamId = streamId
  first : ∃ f rest, frames = f :: rest ∧ f.typ = fHeaders ∧ f.has flagEndStream = endStream ∧
    ∀ g ∈ rest, g.typ = fContinuation ∧ g.has flagEndStream = false
  last : ∃ init f, frames = init ++ [f] ∧ f.has flagEndHeaders = true ∧
    ∀ g ∈ init, g.has flagEndHeaders = false

/-- Behind the HEADERS frame: all of it CONTINUATION, and END_HEADERS where it ends. -/
structure Continues (streamId : Nat) (chunks : List Bytes) (frames : List Frame) : Prop where
  payloads : frames.map (·.payload) = chunks
  frame : ∀ g ∈ frames, g.streamId = streamId ∧ g.typ = fContinuation ∧
    g.has flagEndStream = false
  last : ∃ init f, frames = init ++ [f] ∧ f.has flagEndHeaders = true ∧
    ∀ g ∈ init, g.has flagEndHeaders = false

theorem has_of_flags (flags : UInt8) {f : Frame} {flag : UInt8} {b : Bool}
    (h : f.flags = flags) (hb : (flags &&& flag != 0) = b) : f.has flag = b := by
  rw [Frame.has, h, hb]

theorem continuationFrames_continues (streamId : Nat) {chunks : List Bytes} (h : chunks ≠ []) :
    Continues streamId chunks (continuationFrames streamId chunks) := by
  fun_induction continuationFrames streamId chunks with
  | case1 => exact absurd rfl h
  | case2 chunk =>
      refine ⟨rfl, ?_, [], _, rfl, has_of_flags flagEndHeaders rfl (by decide),
        List.forall_mem_nil _⟩
      intro g hg
      obtain rfl := List.mem_singleton.mp hg
      exact ⟨rfl, rfl, has_of_flags flagEndHeaders rfl (by decide)⟩
  | case3 chunk chunks hne ih =>
      obtain ⟨hpayloads, hframe, init, f, heq, hend, hinit⟩ := ih fun hnil => hne hnil
      refine ⟨by rw [List.map_cons, hpayloads], ?_, _ :: init, f, by rw [heq]; rfl, hend, ?_⟩
      · intro g hg
        rcases List.mem_cons.mp hg with rfl | hg
        · exact ⟨rfl, rfl, has_of_flags 0 rfl (by decide)⟩
        · exact hframe g hg
      · intro g hg
        rcases List.mem_cons.mp hg with rfl | hg
        · exact has_of_flags 0 rfl (by decide)
        · exact hinit g hg

/-- One frame with both flags. -/
theorem carriesBlock_single {streamId maxFrameSize : Nat} {block : Bytes} {endStream : Bool}
    {f : Frame} (hpayload : f.payload = block) (hlen : block.length ≤ maxFrameSize)
    (hstream : f.streamId = streamId) (htyp : f.typ = fHeaders)
    (hend : f.has flagEndStream = endStream) (hheaders : f.has flagEndHeaders = true) :
    CarriesBlock streamId maxFrameSize block endStream [f] where
  payloads := by simp [hpayload]
  within g hg := by
    rw [List.mem_singleton.mp hg, hpayload]
    exact hlen
  stream g hg := List.mem_singleton.mp hg ▸ hstream
  first := ⟨f, [], rfl, htyp, hend, nofun⟩
  last := ⟨[], f, rfl, hheaders, nofun⟩

/-- The frames of a header block, whatever its length and the peer's frame size. -/
theorem fragmentHeaderBlock_exact (streamId : Nat) (block : Bytes) {maxFrameSize : Nat}
    (hmax : 1 ≤ maxFrameSize) (endStream : Bool) :
    CarriesBlock streamId maxFrameSize block endStream
      (fragmentHeaderBlock streamId block maxFrameSize endStream) := by
  have hflatten := Base.flatten_toChunks hmax block
  have hwithin : ∀ piece ∈ block.toChunks maxFrameSize, piece.length ≤ maxFrameSize :=
    fun piece hpiece => (Base.length_of_mem_toChunks hmax hpiece).1
  unfold fragmentHeaderBlock
  simp only
  split
  · next heq =>
      rw [heq] at hflatten
      obtain rfl : [] = block := hflatten
      cases endStream with
      | true =>
          exact carriesBlock_single rfl (Nat.zero_le _) rfl rfl
            (has_of_flags (flagEndHeaders ||| flagEndStream) rfl (by decide))
            (has_of_flags (flagEndHeaders ||| flagEndStream) rfl (by decide))
      | false =>
          exact carriesBlock_single rfl (Nat.zero_le _) rfl rfl
            (has_of_flags (flagEndHeaders ||| 0) rfl (by decide))
            (has_of_flags (flagEndHeaders ||| 0) rfl (by decide))
  · next chunk heq =>
      rw [heq] at hflatten hwithin
      obtain rfl : chunk = block := by simpa using hflatten
      have hlen := hwithin chunk (List.mem_singleton_self _)
      cases endStream with
      | true =>
          exact carriesBlock_single rfl hlen rfl rfl
            (has_of_flags (flagEndStream ||| flagEndHeaders) rfl (by decide))
            (has_of_flags (flagEndStream ||| flagEndHeaders) rfl (by decide))
      | false =>
          exact carriesBlock_single rfl hlen rfl rfl
            (has_of_flags (0 ||| flagEndHeaders) rfl (by decide))
            (has_of_flags (0 ||| flagEndHeaders) rfl (by decide))
  · next chunk chunks hne heq =>
      rw [heq] at hflatten hwithin
      obtain ⟨hpayloads, hframe, init, f, hlast, hend, hinit⟩ :=
        continuationFrames_continues streamId fun hnil => hne hnil
      have hcont : ∀ g ∈ continuationFrames streamId chunks, g.payload ∈ chunks := by
        intro g hg
        rw [← hpayloads]
        exact List.mem_map_of_mem hg
      refine ⟨?_, ?_, ?_, ⟨_, _, rfl, rfl, ?_, fun g hg => (hframe g hg).2⟩, ?_⟩
      · rw [List.flatMap_cons, List.flatMap_def, hpayloads, ← List.flatten_cons, hflatten]
      · intro g hg
        rcases List.mem_cons.mp hg with rfl | hg
        · exact hwithin chunk List.mem_cons_self
        · exact hwithin _ (List.mem_cons_of_mem _ (hcont g hg))
      · intro g hg
        rcases List.mem_cons.mp hg with rfl | hg
        · rfl
        · exact (hframe g hg).1
      · cases endStream with
        | true => exact has_of_flags flagEndStream rfl (by decide)
        | false => exact has_of_flags 0 rfl (by decide)
      · refine ⟨_ :: init, f, by rw [hlast]; rfl, hend, ?_⟩
        intro g hg
        rcases List.mem_cons.mp hg with rfl | hg
        · cases endStream with
          | true => exact has_of_flags flagEndStream rfl (by decide)
          | false => exact has_of_flags 0 rfl (by decide)
        · exact hinit g hg

/-- Seven octets at three a frame: HEADERS with END_STREAM, then two more frames. -/
theorem fragmentHeaderBlock_exact_seven :
    (1 : Nat) ≤ 3 ∧ (fragmentHeaderBlock 5 [1, 2, 3, 4, 5, 6, 7] 3 true).length = 3 ∧
      CarriesBlock 5 3 [1, 2, 3, 4, 5, 6, 7] true
        (fragmentHeaderBlock 5 [1, 2, 3, 4, 5, 6, 7] 3 true) :=
  ⟨by decide, rfl, fragmentHeaderBlock_exact 5 _ (by decide) true⟩

end Rsurl.H2
