/-
# `Rsurl.H2.Remote` — the peer's end of header compression

What the peer makes of the frames that reach it: fragments gathered into
blocks, blocks read as RFC 7541 has it, and the settings it announced in force
once they are acknowledged.  A peer that cannot read a block goes no further,
so that it follows a run is a statement about every block in it.
-/
import Rsurl.H2.EncoderSpec
import Rsurl.H2.HeaderFrames
import Rsurl.H2.Trace

namespace Rsurl.H2

open Http (Header Request)
open Rfc (Fields)

/-! ## Frames -/

/-- SETTINGS acknowledged. -/
def Frame.IsAck (f : Frame) : Prop := f.typ = fSettings ∧ f.has flagAck = true

/-- The frame carries a piece of a header block. -/
def Frame.IsHeader (f : Frame) : Prop := f.typ = fHeaders ∨ f.typ = fContinuation

/-- The frame is nothing to header compression. -/
def Frame.Quiet (f : Frame) : Prop := ¬ f.IsHeader ∧ ¬ f.IsAck

/-- The piece of a header block that is in a frame. -/
def Frame.blockFragment (f : Frame) : Result Bytes :=
  if f.typ = fHeaders then Connection.headersFragment f else .ok f.payload

/-! ## The peer -/

/-- The peer's settings as far as they are acknowledged, the SETTINGS that are not, its table,
the block that is being gathered, and the header lists read so far. -/
structure Remote where
  settings : PeerSettings
  announced : List Bytes
  table : Rfc.Table
  gathered : Bytes
  heard : List (Nat × List Header)

namespace Remote

/-- The peer of a new connection. -/
def fresh : Remote where
  settings := .default
  announced := []
  table := .new
  gathered := []
  heard := []

/-- The acknowledged settings once the next of those announced is. -/
def acknowledge (r : Remote) (payload : Bytes) (rest : List Bytes) : Remote :=
  { r with settings := (r.settings.applySettingsPayload payload).2, announced := rest }

/-- What the peer makes of an event at the other end. -/
inductive Notes (r : Remote) : Event → Remote → Prop
  | announces {f : Frame} {handled : Bool} (hf : f.setsPeer) :
      Notes r (.inbound f handled) { r with announced := r.announced ++ [f.payload] }
  | passes {f : Frame} {handled : Bool} (hf : ¬ f.setsPeer) : Notes r (.inbound f handled) r
  | acknowledged {f : Frame} {payload : Bytes} {rest : List Bytes} (hf : f.IsAck)
      (h : r.announced = payload :: rest) : Notes r (.outbound f) (r.acknowledge payload rest)
  | gathers {f : Frame} {piece : Bytes} (hf : f.IsHeader) (hmore : f.has flagEndHeaders = false)
      (hpiece : f.blockFragment = .ok piece) :
      Notes r (.outbound f) { r with gathered := r.gathered ++ piece }
  | reads {f : Frame} {piece : Bytes} {headers : List Header} {table : Rfc.Table}
      (hf : f.IsHeader) (hend : f.has flagEndHeaders = true) (hpiece : f.blockFragment = .ok piece)
      (hfields : Fields (receiver r.settings.headerTableSize) r.table (r.gathered ++ piece) headers
        table) :
      Notes r (.outbound f)
        { r with table, gathered := [], heard := r.heard ++ [(f.streamId, headers)] }
  | ignores {f : Frame} (hf : f.Quiet) : Notes r (.outbound f) r
  | opened (id : Nat) : Notes r (.opened id) r
  | request (id : Nat) (req : Request) : Notes r (.request id req) r

theorem not_isAck_of_isHeader {f : Frame} (h : f.IsHeader) : ¬ f.IsAck := by
  rintro ⟨hack, -⟩
  rcases h with h | h
  · exact absurd (h.symm.trans hack) (by decide)
  · exact absurd (h.symm.trans hack) (by decide)

/-- There is one thing to make of an event at most. -/
theorem Notes.unique {r r₁ r₂ : Remote} {e : Event} (h : Notes r e r₁) (h' : Notes r e r₂) :
    r₁ = r₂ := by
  cases h with
  | announces hf =>
      cases h' with
      | announces => rfl
      | passes hno => exact absurd hf hno
  | passes hno =>
      cases h' with
      | announces hf => exact absurd hf hno
      | passes => rfl
  | acknowledged hf h =>
      cases h' with
      | acknowledged _ h' =>
          obtain ⟨rfl, rfl⟩ := List.cons.inj (h.symm.trans h')
          rfl
      | gathers hf' | reads hf' => exact absurd hf (not_isAck_of_isHeader hf')
      | ignores hf' => exact absurd hf hf'.2
  | gathers hf hmore hpiece =>
      cases h' with
      | acknowledged hf' => exact absurd hf' (not_isAck_of_isHeader hf)
      | gathers _ _ hpiece' =>
          obtain rfl := Except.ok.inj (hpiece.symm.trans hpiece')
          rfl
      | reads _ hend => cases hmore.symm.trans hend
      | ignores hf' => exact absurd hf hf'.1
  | reads hf hend hpiece hfields =>
      cases h' with
      | acknowledged hf' => exact absurd hf' (not_isAck_of_isHeader hf)
      | gathers _ hmore => cases hmore.symm.trans hend
      | reads _ _ hpiece' hfields' =>
          obtain rfl := Except.ok.inj (hpiece.symm.trans hpiece')
          obtain ⟨rfl, rfl⟩ := hfields.unique hfields'
          rfl
      | ignores hf' => exact absurd hf hf'.1
  | ignores hf =>
      cases h' with
      | acknowledged hf' => exact absurd hf' hf.2
      | gathers hf' | reads hf' => exact absurd hf' hf.1
      | ignores => rfl
  | opened | request =>
      cases h'
      rfl

/-- The peer follows a run: it can read every block in it. -/
inductive Follows : Remote → List Event → Remote → Prop
  | nil (r : Remote) : Follows r [] r
  | cons {r r₁ r' : Remote} {e : Event} {evs : List Event} (h : Notes r e r₁)
      (hrest : Follows r₁ evs r') : Follows r (e :: evs) r'

namespace Follows

variable {r r₁ r' : Remote} {evs evs' : List Event}

theorem append (h : Follows r evs r₁) (h' : Follows r₁ evs' r') : Follows r (evs ++ evs') r' := by
  induction h with
  | nil => exact h'
  | cons hnote _ ih => exact .cons hnote (ih h')

theorem single {e : Event} (h : Notes r e r') : Follows r [e] r' := .cons h (.nil r')

theorem unique {r₂ : Remote} (h : Follows r evs r₁) (h' : Follows r evs r₂) : r₁ = r₂ := by
  induction h with
  | nil =>
      cases h'
      rfl
  | cons hnote _ ih =>
      cases h' with
      | cons hnote' hrest =>
          obtain rfl := hnote.unique hnote'
          exact ih hrest

theorem of_append (h : Follows r (evs ++ evs') r') :
    ∃ r₁, Follows r evs r₁ ∧ Follows r₁ evs' r' := by
  induction evs generalizing r with
  | nil => exact ⟨r, .nil r, h⟩
  | cons e evs ih =>
      cases h with
      | cons hnote hrest =>
          obtain ⟨r₁, hfront, hback⟩ := ih hrest
          exact ⟨r₁, .cons hnote hfront, hback⟩

theorem quiet {fs : List Frame} (h : ∀ f ∈ fs, f.Quiet) : Follows r (fs.map .outbound) r := by
  induction fs with
  | nil => exact .nil r
  | cons f fs ih =>
      exact .cons (.ignores (h f List.mem_cons_self)) (ih fun g hg => h g (List.mem_cons_of_mem f hg))

end Follows

/-! ## A block, frame by frame -/

/-- A HEADERS frame without padding and priority. -/
theorem blockFragment_headers (flags : UInt8) {f : Frame} (htyp : f.typ = fHeaders)
    (hflags : f.flags = flags) (hpad : (flags &&& flagPadded != 0) = false)
    (hprio : (flags &&& flagPriority != 0) = false) :
    f.IsHeader ∧ f.blockFragment = .ok f.payload := by
  refine ⟨.inl htyp, ?_⟩
  have hpadded : f.has flagPadded = false := has_of_flags flags hflags hpad
  have hpriority : f.has flagPriority = false := has_of_flags flags hflags hprio
  rw [Frame.blockFragment, if_pos htyp]
  simp [Connection.headersFragment, hpadded, hpriority, bind, Except.bind]

theorem blockFragment_continuation {f : Frame} (htyp : f.typ = fContinuation) :
    f.IsHeader ∧ f.blockFragment = .ok f.payload := by
  refine ⟨.inr htyp, ?_⟩
  rw [Frame.blockFragment, htyp]
  exact if_neg (by decide)

/-- The frames of a header block carry nothing but the block. -/
theorem blockFragment_of_mem {id max : Nat} {block : Bytes} {endStream : Bool} {f : Frame}
    (hmem : f ∈ fragmentHeaderBlock id block max endStream) :
    f.IsHeader ∧ f.blockFragment = .ok f.payload := by
  unfold fragmentHeaderBlock at hmem
  simp only at hmem
  split at hmem
  · rw [List.mem_singleton.mp hmem]
    cases endStream with
    | true => exact blockFragment_headers (flagEndHeaders ||| flagEndStream) rfl rfl (by decide) (by decide)
    | false => exact blockFragment_headers (flagEndHeaders ||| 0) rfl rfl (by decide) (by decide)
  · rw [List.mem_singleton.mp hmem]
    cases endStream with
    | true => exact blockFragment_headers (flagEndStream ||| flagEndHeaders) rfl rfl (by decide) (by decide)
    | false => exact blockFragment_headers (0 ||| flagEndHeaders) rfl rfl (by decide) (by decide)
  · rcases List.mem_cons.mp hmem with rfl | hmem
    · cases endStream with
      | true => exact blockFragment_headers flagEndStream rfl rfl (by decide) (by decide)
      | false => exact blockFragment_headers 0 rfl rfl (by decide) (by decide)
    · exact blockFragment_continuation (continuationFrames_shape hmem).1

/-- Frames in front of the one that ends a block. -/
theorem follows_gathers {fs : List Frame}
    (h : ∀ f ∈ fs, (f.IsHeader ∧ f.blockFragment = .ok f.payload) ∧ f.has flagEndHeaders = false)
    (r : Remote) :
    Follows r (fs.map .outbound) { r with gathered := r.gathered ++ fs.flatMap (·.payload) } := by
  induction fs generalizing r with
  | nil =>
      rw [List.flatMap_nil, List.append_nil]
      exact .nil r
  | cons f fs ih =>
      obtain ⟨⟨hheader, hpiece⟩, hmore⟩ := h f List.mem_cons_self
      have hrest := ih (fun g hg => h g (List.mem_cons_of_mem f hg))
        { r with gathered := r.gathered ++ f.payload }
      rw [List.flatMap_cons, ← List.append_assoc]
      exact .cons (.gathers hheader hmore hpiece) hrest

section

variable {r : Remote} {id max : Nat} {block : Bytes} {endStream : Bool}

/-- A header block that the peer can read, in its frames. -/
theorem follows_block (hmax : 1 ≤ max) (hgathered : r.gathered = []) {headers : List Header}
    {table : Rfc.Table}
    (hfields : Fields (receiver r.settings.headerTableSize) r.table block headers table) :
    Follows r ((fragmentHeaderBlock id block max endStream).map .outbound)
      { r with table, heard := r.heard ++ [(id, headers)] } := by
  have hcarries := fragmentHeaderBlock_exact id block hmax endStream
  obtain ⟨init, f, hframes, hend, hinit⟩ := hcarries.last
  have hmem : ∀ g ∈ init ++ [f], g.IsHeader ∧ g.blockFragment = .ok g.payload := by
    intro g hg
    rw [← hframes] at hg
    exact blockFragment_of_mem hg
  have hf := hmem f (List.mem_append_right _ (List.mem_singleton_self f))
  have hid : f.streamId = id := hcarries.stream f (by
    rw [hframes]
    exact List.mem_append_right _ (List.mem_singleton_self f))
  have hblock : init.flatMap (·.payload) ++ f.payload = block := by
    rw [← hcarries.payloads, hframes, List.flatMap_append]
    simp
  have hgathers := follows_gathers
    (fun g hg => ⟨hmem g (List.mem_append_left _ hg), hinit g hg⟩) r
  rw [hgathered, List.nil_append] at hgathers
  rw [hframes, List.map_append]
  refine hgathers.append (.single ?_)
  have hreads := @Notes.reads { r with gathered := init.flatMap (·.payload) } f f.payload headers
    table hf.1 hend hf.2 (hblock ▸ hfields)
  rw [hid] at hreads
  have hsame : { r with table, heard := r.heard ++ [(id, headers)] } =
      { r with table, gathered := [], heard := r.heard ++ [(id, headers)] } := by rw [hgathered]
  rw [hsame]
  exact hreads

/-- Some of the frames of a block, but not all. -/
theorem follows_part (hmax : 1 ≤ max) {fs : List Frame}
    (hpart : fs <+: fragmentHeaderBlock id block max endStream)
    (hne : fs ≠ fragmentHeaderBlock id block max endStream) :
    ∃ gathered, Follows r (fs.map .outbound) { r with gathered } := by
  obtain ⟨init, f, hframes, -, hinit⟩ := (fragmentHeaderBlock_exact id block hmax endStream).last
  rw [hframes] at hpart hne
  have hinside : fs <+: init := by
    rcases List.prefix_concat_iff.mp hpart with heq | hinside
    · exact absurd heq hne
    · exact hinside
  refine ⟨_, follows_gathers (fun g hg => ⟨@blockFragment_of_mem id max block endStream g ?_, ?_⟩) r⟩
  · exact hframes ▸ List.mem_append_left _ (hinside.subset hg)
  · exact hinit g (hinside.subset hg)

/-- A header block in one frame has been read. -/
theorem Follows.of_block {r' : Remote} {f : Frame} (h : Follows r [.outbound f] r') (hheader : f.IsHeader)
    (hend : f.has flagEndHeaders = true) (hpiece : f.blockFragment = .ok f.payload) :
    ∃ headers table, r'.heard = r.heard ++ [(f.streamId, headers)] ∧
      Fields (receiver r.settings.headerTableSize) r.table (r.gathered ++ f.payload) headers
        table := by
  cases h with
  | cons hnote hrest =>
      cases hrest
      cases hnote with
      | acknowledged hack => exact absurd hack (not_isAck_of_isHeader hheader)
      | gathers _ hmore => cases hmore.symm.trans hend
      | reads _ _ hpiece' hfields =>
          obtain rfl := Except.ok.inj (hpiece.symm.trans hpiece')
          exact ⟨_, _, rfl, hfields⟩
      | ignores hquiet => exact absurd hheader hquiet.1

end

end Remote

end Rsurl.H2
