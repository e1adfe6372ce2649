/-
# `Rsurl.H2.Staging` — a request that is not sent, and those after it

The header block of a request goes through the encoder before its frames are
written.  As long as the block can be written, or nothing can any more, the
peer reads every block that is sent later (`staged_blocks_read`).  A frame that
`write_frame` refuses for its length is not sent, the encoder has moved on, and
the requests behind it are read wrongly or not at all.
-/
import Rsurl.H2.Calls
import Rsurl.H2.Ledger
import Rsurl.H2.Remote
import Rsurl.H2.Written

namespace Rsurl.H2

open Http (Header Request)
open Rfc (Field Fields)

/-! ## A run, call by call -/

/-- The header list of a request. -/
def requestList (req : Request) : List Header :=
  let (pseudo, fields) := requestHeaderFields req
  (":method".toList, pseudo.method) :: (":scheme".toList, pseudo.scheme) ::
    (":authority".toList, pseudo.authority) :: (":path".toList, pseudo.path) :: fields

theorem buildHeaderBlock_eq (e : Encoder) (req : Request) :
    buildHeaderBlock e req = e.encodeHeaders [] (requestList req) := rfl

namespace Connection

/-- The events of `send_headers_on`: the request with its frames, or what gets onto the wire. -/
def headEvents (c : Connection) (id : Nat) (req : Request) : List Event :=
  match (writeFrames c.tls.sink (c.headerFrames id req)).1 with
  | .ok () => .request id req :: (c.headerFrames id req).map .outbound
  | .error _ => (completed c.tls.sink (c.headerFrames id req)).map .outbound

/-- No frame of the header block is longer than what `write_frame` lets through. -/
def Fits (c : Connection) (req : Request) : Prop :=
  c.peer.maxFrameSize ≤ maxFramePayload ∨
    (buildHeaderBlock c.encoder req).1.length ≤ maxFramePayload

end Connection

/-- One call on a connection, with its events; with `ok`, one that meets the condition: header
blocks fit, the peer's SETTINGS are taken, and a transport that has failed does not come back. -/
inductive Calls (ok : Bool) (c : Connection) : List Event → Connection → Prop
  | heads {id : Nat} {req : Request} (hok : ok = true → c.Fits req) :
      Calls ok c (c.headEvents id req) (c.sendHeadersOn id req).2
  | chunk {id : Nat} {s : Stream} {chunk : Bytes} {isLast : Bool} :
      Calls ok c ((completed c.tls.sink [dataFrame id chunk isLast]).map .outbound)
        (c.sendChunk id s chunk isLast).2
  | frame {source : Source} {f : Frame} {res : Result DispatchOutcome} {c' : Connection}
      {fs : List Frame} (h : (c.receive source f).processFrame f = (res, c'))
      (hfs : fs <+: c.answers f) (hsink : (writeFrames c.tls.sink fs).2 = c'.tls.sink)
      (hok : ok = true → (c.receive source f).Settles f) :
      Calls ok c (.inbound f res.isOk :: (completed c.tls.sink fs).map .outbound) c'
  /-- Streams come and go, and the source may end. -/
  | streams {streams : Streams} {nextStreamId : Nat} {source : Source} :
      Calls ok c [] { c with streams, nextStreamId, tls := { c.tls with source } }
  /-- The transport takes bytes again. -/
  | recovers {sink : Sink} (hok : ok = false) (hsame : sink.written = c.tls.sink.written) :
      Calls ok c [] (c.setSink sink)

/-- The header lists of the requests that were sent as a whole, with their streams. -/
def intended (evs : List Event) : List (Nat × List Header) :=
  evs.filterMap fun
    | .request id req => some (id, requestList req)
    | _ => none

theorem intended_append (evs evs' : List Event) :
    intended (evs ++ evs') = intended evs ++ intended evs' := List.filterMap_append

@[simp] theorem intended_outbound (fs : List Frame) : intended (fs.map .outbound) = [] := by
  rw [intended, List.filterMap_map]
  exact List.filterMap_eq_nil_iff.mpr fun f _ => rfl

/-! ### The drivers -/

theorem sendHeadersOn_snd (c : Connection) (id : Nat) (req : Request) :
    (c.sendHeadersOn id req).2.tls.sink = (writeFrames c.tls.sink (c.headerFrames id req)).2 ∧
      (c.sendHeadersOn id req).2.encoder = (buildHeaderBlock c.encoder req).2 ∧
      (c.sendHeadersOn id req).2.peer = c.peer := by
  have hframes : c.headerFrames id req = fragmentHeaderBlock id (buildHeaderBlock c.encoder req).1
      c.peer.maxFrameSize (!!req.body.isEmpty) := by rw [Bool.not_not]; rfl
  refine ⟨?_, ?_, (sendHeadersOn_keepsPeer c id req).peer⟩
  · rw [hframes]
    unfold Connection.sendHeadersOn
    simp only
    split
    · next hwrite => rw [hwrite]; rfl
    next hwrite =>
    split
    · rw [hwrite]; rfl
    split <;> (rw [hwrite]; rfl)
  · unfold Connection.sendHeadersOn
    simp only
    split
    · rfl
    split
    · rfl
    split <;> rfl

theorem sendChunk_snd (c : Connection) (id : Nat) (s : Stream) (chunk : Bytes) (isLast : Bool) :
    (c.sendChunk id s chunk isLast).2.tls.sink =
        (writeFrames c.tls.sink [dataFrame id chunk isLast]).2 ∧
      (c.sendChunk id s chunk isLast).2.encoder = c.encoder ∧
      (c.sendChunk id s chunk isLast).2.peer = c.peer := by
  rw [writeFrames_singleton]
  unfold Connection.sendChunk
  split
  · next hwrite => exact ⟨by rw [hwrite]; rfl, rfl, rfl⟩
  next hwrite =>
  simp only
  split
  · exact ⟨by rw [hwrite]; rfl, rfl, rfl⟩
  · exact ⟨by rw [hwrite]; rfl, rfl, rfl⟩

/-- Whatever is done on a connection is a run of calls. -/
theorem closed_calls : Closed fun c c' => ∃ evs, Base.Trace (Calls false) c evs c' where
  refl c := ⟨[], .nil⟩
  trans := by
    rintro c c' c'' ⟨evs, htrace⟩ ⟨evs', htrace'⟩
    exact ⟨_, htrace.trans htrace'⟩
  streams c streams nextStreamId :=
    ⟨[], .single (@Calls.streams _ c streams nextStreamId c.tls.source)⟩
  source c source := ⟨[], .single (@Calls.streams _ c c.streams c.nextStreamId source)⟩
  heads c id req := ⟨_, .single (.heads nofun)⟩
  chunk c id s chunk isLast := ⟨_, .single .chunk⟩
  frame c source f := by
    obtain ⟨fs, hfs, hsink⟩ := processFrame_sink (c.receive source f) f
    exact ⟨_, .single (.frame rfl hfs hsink nofun)⟩

theorem eq_of_fst {α β : Type} {out : α × β} {a : α} (h : out.1 = a) : out = (a, out.2) :=
  Prod.ext h rfl

theorem calls_openStream {c c' : Connection} {id : Nat} (h : c.openStream = (.ok id, c'))
    (ok : Bool) : Calls ok c [] c' := by
  obtain ⟨-, rfl⟩ := openStream_eq_ok h
  exact @Calls.streams ok c _ _ c.tls.source

theorem calls_erase (ok : Bool) (c : Connection) (encoder : Encoder) (id : Nat) :
    Calls ok { c with encoder } [] { c with encoder, streams := c.streams.erase id } :=
  @Calls.streams ok { c with encoder } (c.streams.erase id) c.nextStreamId c.tls.source

/-- A stream is handed out, and those that are done are dropped. -/
theorem calls_handOut (ok : Bool) (c : Connection) (id : Nat) :
    Calls ok c [] (Connection.pruneCompletedStreams { c with streams := c.streams.erase id }) :=
  @Calls.streams ok c _ c.nextStreamId c.tls.source

/-! ## The peer and the encoder -/

/-- The peer is where the connection has it. -/
structure InStep (r : Remote) (c : Connection) : Prop where
  agree : Agree r.settings.headerTableSize c.encoder r.table
  settings : r.settings = c.peer
  announced : r.announced = []
  gathered : r.gathered = []

/-- What a call comes to at the peer: it follows, hears the requests that were sent, and is in step
afterwards or hears nothing any more. -/
structure Answered (r : Remote) (c : Connection) (new : List Event) (c' : Connection) : Prop where
  follows : ∃ r', Remote.Follows r new r' ∧ r'.heard = r.heard ++ intended new ∧
    (InStep r' c' ∨ Broken c'.tls.sink)
  written : ∃ part, c'.tls.sink.written =
      c.tls.sink.written ++ (new.filterMap Event.went).flatMap Frame.bytes ++ part ∧
    (part = [] ∨ Broken c'.tls.sink)

section

variable {r : Remote} {c c' : Connection}

theorem quiet_of_plain {f : Frame} (hheaders : f.typ ≠ fHeaders) (hcont : f.typ ≠ fContinuation)
    (hsettings : f.typ ≠ fSettings) : f.Quiet :=
  ⟨fun h => h.elim hheaders hcont, fun h => hsettings h.1⟩

theorem quiet_dataFrame (id : Nat) (chunk : Bytes) (isLast : Bool) :
    (dataFrame id chunk isLast).Quiet :=
  quiet_of_plain (by decide : fData ≠ fHeaders) (by decide : fData ≠ fContinuation)
    (by decide : fData ≠ fSettings)

/-- Only SETTINGS are answered with something that header compression has to do with. -/
theorem quiet_answers {f g : Frame} (hf : ¬ f.setsPeer) (hg : g ∈ c.answers f) : g.Quiet := by
  have hupdate : ∀ {w : RecvWindow} {id : Nat} {g : Frame}, g ∈ (w.replenish id).1.toList →
      g.Quiet := by
    intro w id g hg
    unfold RecvWindow.replenish at hg
    split at hg
    · rw [Option.toList_some, List.mem_singleton] at hg
      rw [hg]
      exact quiet_of_plain (by decide : fWindowUpdate ≠ fHeaders)
        (by decide : fWindowUpdate ≠ fContinuation) (by decide : fWindowUpdate ≠ fSettings)
    · cases hg
  unfold Connection.answers at hg
  split at hg
  · next hid =>
      split at hg
      · next htyp =>
          split at hg
          · cases hg
          · next hack => exact absurd ⟨hid, htyp, Bool.eq_false_iff.mpr hack⟩ hf
      split at hg
      · split at hg
        · cases hg
        · rw [List.mem_singleton.mp hg]
          exact quiet_of_plain (by decide : fPing ≠ fHeaders) (by decide : fPing ≠ fContinuation)
            (by decide : fPing ≠ fSettings)
      · cases hg
  split at hg
  · rcases List.mem_append.mp hg with hg | hg
    · exact hupdate hg
    · split at hg
      · cases hg
      · exact hupdate hg
  · cases hg

/-- Frames that are nothing to header compression. -/
theorem answered_quiet (hstep : InStep r c) {fs : List Frame} (hquiet : ∀ f ∈ fs, f.Quiet)
    (hsink : (writeFrames c.tls.sink fs).2 = c'.tls.sink) (hencoder : c'.encoder = c.encoder)
    (hpeer : c'.peer = c.peer) :
    Answered r c ((completed c.tls.sink fs).map .outbound) c' := by
  have hsame : InStep r c' := by
    obtain ⟨hagree, hsettings, hannounced, hgathered⟩ := hstep
    exact ⟨hencoder ▸ hagree, hpeer ▸ hsettings, hannounced, hgathered⟩
  have hfollows : ∀ {gs : List Frame}, gs <+: fs → Remote.Follows r (gs.map .outbound) r :=
    fun hgs => .quiet fun g hg => hquiet g (hgs.subset hg)
  have hheard : r.heard = r.heard ++ [] := (List.append_nil _).symm
  have hwrote := writeFrames_wrote c.tls.sink fs
  obtain ⟨res, w', hout⟩ : ∃ res w', writeFrames c.tls.sink fs = (res, w') := ⟨_, _, rfl⟩
  rw [hout] at hwrote hsink
  obtain rfl : w' = c'.tls.sink := hsink
  cases hwrote with
  | all hall hwritten =>
      rw [hall]
      refine ⟨⟨r, hfollows (List.prefix_refl fs), ?_, .inl hsame⟩, [], ?_, .inl rfl⟩
      · rw [intended_outbound]
        exact hheard
      · rw [went_of_outbound, hwritten, List.append_nil]
  | tooLong hfront hlong hwritten =>
      refine ⟨⟨r, hfollows ((List.prefix_append _ _).trans hfront), ?_, .inl hsame⟩, [], ?_, .inl rfl⟩
      · rw [intended_outbound]
        exact hheard
      · rw [went_of_outbound, hwritten, List.append_nil]
  | @broken _ _ _ part hfront _ hbroken hwritten =>
      refine ⟨⟨r, hfollows ((List.prefix_append _ _).trans hfront), ?_, .inr hbroken⟩, part, ?_,
        .inr hbroken⟩
      · rw [intended_outbound]
        exact hheard
      · rw [went_of_outbound, hwritten]

/-- No frame of a header block that fits is too long. -/
theorem length_le_of_fits {id : Nat} {req : Request} (hsane : c.Sane) (hfits : c.Fits req)
    {f : Frame} (hf : f ∈ c.headerFrames id req) : f.payload.length ≤ maxFramePayload := by
  have hmax : 1 ≤ c.peer.maxFrameSize := Nat.le_trans (by decide) hsane
  have hcarries := fragmentHeaderBlock_exact id (buildHeaderBlock c.encoder req).1 hmax
    req.body.isEmpty
  rcases hfits with hfits | hfits
  · exact Nat.le_trans (hcarries.within f hf) hfits
  · have hpiece : f.payload.Sublist (buildHeaderBlock c.encoder req).1 := by
      rw [← hcarries.payloads]
      exact List.sublist_flatten_of_mem (List.mem_map_of_mem hf)
    exact Nat.le_trans hpiece.length_le hfits

/-- A request whose header block fits. -/
theorem answered_heads (hstep : InStep r c) (hsane : c.Sane) {id : Nat} {req : Request}
    (hfits : c.Fits req) :
    Answered r c (c.headEvents id req) (c.sendHeadersOn id req).2 := by
  have hmax : 1 ≤ c.peer.maxFrameSize := Nat.le_trans (by decide) hsane
  obtain ⟨hsink, hencoder, hpeer⟩ := sendHeadersOn_snd c id req
  obtain ⟨block, e', t', henc, hfields, hagree⟩ :=
    encodeHeaders_fields hstep.agree (requestList req)
  have hblock : buildHeaderBlock c.encoder req = (block, e') := henc []
  have hframes : c.headerFrames id req =
      fragmentHeaderBlock id block c.peer.maxFrameSize req.body.isEmpty := by
    rw [Connection.headerFrames, hblock]
  have hwrote := writeFrames_wrote c.tls.sink (c.headerFrames id req)
  obtain ⟨res, w', hout⟩ : ∃ res w',
    writeFrames c.tls.sink (c.headerFrames id req) = (res, w') := ⟨_, _, rfl⟩
  unfold Connection.headEvents
  rw [hout] at hsink hwrote ⊢
  cases hwrote with
  | all hall hwritten =>
      have hread := @Remote.follows_block r id c.peer.maxFrameSize block req.body.isEmpty hmax
        hstep.gathered _ _ hfields
      rw [← hframes] at hread
      refine ⟨⟨_, .cons (.request id req) hread, ?_, .inl ⟨?_, ?_, hstep.announced,
        hstep.gathered⟩⟩, [], ?_, .inl rfl⟩
      · have hone : intended (.request id req :: (c.headerFrames id req).map .outbound) =
            (id, requestList req) :: intended ((c.headerFrames id req).map .outbound) := rfl
        rw [hone, intended_outbound]
      · rw [hencoder, hblock]
        exact hagree
      · rw [hpeer]
        exact hstep.settings
      · rw [hsink, List.filterMap_cons_none rfl, went_of_outbound, List.append_nil]
        exact hwritten
  | @tooLong e w' f hfront hlong hwritten =>
      have hf : f ∈ c.headerFrames id req :=
        hfront.subset (List.mem_append_right _ (List.mem_singleton_self f))
      exact absurd hlong (Nat.not_lt_of_le (length_le_of_fits hsane hfits hf))
  | @broken e w' _ part hfront _ hbroken hwritten =>
      have hne := ne_of_front hfront
      have hfront := (List.prefix_append _ _).trans hfront
      rw [hframes] at hfront hne
      obtain ⟨gathered, hpart⟩ := Remote.follows_part (r := r) hmax hfront hne
      rw [← hframes] at hpart
      refine ⟨⟨_, hpart, ?_, .inr ?_⟩, part, ?_, .inr ?_⟩
      · rw [intended_outbound, List.append_nil]
      · rw [hsink]
        exact hbroken
      · rw [hsink, went_of_outbound]
        exact hwritten
      · rw [hsink]
        exact hbroken

theorem prefix_singleton {fs : List Frame} {g : Frame} (h : fs <+: [g]) : fs = [] ∨ fs = [g] := by
  rcases List.prefix_cons_iff.mp h with rfl | ⟨gs, rfl, hgs⟩
  · exact .inl rfl
  · rw [List.prefix_nil.mp hgs]
    exact .inr rfl

/-- SETTINGS that are taken. -/
theorem answered_settings (hstep : InStep r c) {source : Source} {f : Frame}
    (hsettles : (c.receive source f).Settles f) (hf : f.setsPeer) {fs : List Frame}
    (hfs : fs <+: c.answers f) {res : Result DispatchOutcome}
    (h : (c.receive source f).processFrame f = (res, c'))
    (hsink : (writeFrames c.tls.sink fs).2 = c'.tls.sink) :
    Answered r c (.inbound f res.isOk :: (completed c.tls.sink fs).map .outbound) c' := by
  obtain ⟨hpeer, hack, hencoder⟩ := processFrame_settles hsettles hf
  rw [h] at hpeer hack hencoder
  have hack : c'.tls.sink = (writeFrame c.tls.sink settingsAck).2 := hack
  have hpeer : c'.peer = (c.peer.applySettingsPayload f.payload).2 := hpeer
  have hannounced := hstep.announced
  -- once the answer is out, both ends have the new settings
  have hnow : InStep ({ r with announced := [f.payload] }.acknowledge f.payload []) c' := by
    have hagree := hstep.agree
    have hsettings := hstep.settings
    refine ⟨?_, ?_, rfl, hstep.gathered⟩
    · show Agree (r.settings.applySettingsPayload f.payload).2.headerTableSize c'.encoder r.table
      rw [hencoder, hsettings]
      rw [hsettings] at hagree
      split
      · exact hagree.setPeerMaxTableSize _
      · next hsame =>
          have hsame : (c.peer.applySettingsPayload f.payload).2.headerTableSize =
            c.peer.headerTableSize := not_not.mp hsame
          rw [hsame]
          exact hagree
    · show (r.settings.applySettingsPayload f.payload).2 = c'.peer
      rw [hpeer, hsettings]
  have hintended : ∀ gs : List Frame,
      intended (.inbound f res.isOk :: gs.map .outbound) = [] := intended_outbound
  have hwent : ∀ gs : List Frame,
      (Event.inbound f res.isOk :: gs.map .outbound).filterMap Event.went = gs := went_of_outbound
  have hnote : Remote.Notes r (.inbound f res.isOk) { r with announced := [f.payload] } := by
    have hnote := @Remote.Notes.announces r f res.isOk hf
    rwa [hannounced] at hnote
  rw [answers_settings c hf] at hfs
  rcases writeFrame_outcomes c.tls.sink settingsAck with
    ⟨w', hwrite, hwritten⟩ | ⟨e, -, hlong⟩ | ⟨e, w', part, hwrite, hbroken, -, hwritten⟩
  · rw [hwrite] at hack
    obtain rfl : c'.tls.sink = w' := hack
    rcases prefix_singleton hfs with rfl | rfl
    · -- the answer is out, so it is among the frames
      have hsame := congrArg Sink.written hsink
      rw [hwritten] at hsame
      exact absurd (List.self_eq_append_right.mp hsame) (List.cons_ne_nil _ _)
    · have hdone : completed c.tls.sink [settingsAck] = [settingsAck] := by
        rw [completed, hwrite]
        rfl
      rw [hdone]
      have hacked : Remote.Notes { r with announced := [f.payload] } (.outbound settingsAck)
          ({ r with announced := [f.payload] }.acknowledge f.payload []) :=
        .acknowledged ⟨rfl, rfl⟩ rfl
      refine ⟨⟨_, .cons hnote (.single hacked), ?_, .inl hnow⟩, [], ?_, .inl rfl⟩
      · rw [hintended]
        exact (List.append_nil _).symm
      · rw [hwent, hwritten, List.flatMap_singleton, List.append_nil]
  · exact absurd hlong (Nat.not_lt_zero _)
  · rw [hwrite] at hack
    obtain rfl : c'.tls.sink = w' := hack
    have hnone : completed c.tls.sink fs = [] := by
      rcases prefix_singleton hfs with rfl | rfl
      · rfl
      · rw [completed, hwrite]
    rw [hnone]
    refine ⟨⟨_, .single hnote, ?_, .inr hbroken⟩, part, ?_, .inr hbroken⟩
    · rw [hintended []]
      exact (List.append_nil _).symm
    · rw [hwent [], hwritten, List.flatMap_nil, List.append_nil]

/-- A frame in front of what it is answered with. -/
theorem Answered.heard {new : List Event} (h : Answered r c new c') {f : Frame}
    (hf : ¬ f.setsPeer) (handled : Bool) : Answered r c (.inbound f handled :: new) c' := by
  obtain ⟨⟨r', hfollows, hheard, hstep⟩, hwritten⟩ := h
  exact ⟨⟨r', .cons (.passes hf) hfollows, hheard, hstep⟩, hwritten⟩

/-- A call that meets the condition, on a connection that is in step. -/
theorem Calls.answered (hstep : InStep r c) (hsane : c.Sane) {new : List Event}
    (h : Calls true c new c') : Answered r c new c' := by
  cases h with
  | heads hok => exact answered_heads hstep hsane (hok rfl)
  | @chunk id s chunk isLast =>
      obtain ⟨hsink, hencoder, hpeer⟩ := sendChunk_snd c id s chunk isLast
      refine answered_quiet hstep ?_ hsink.symm hencoder hpeer
      exact List.forall_mem_singleton.mpr (quiet_dataFrame id chunk isLast)
  | @frame source f res c' fs h hfs hsink hok =>
      by_cases hf : f.setsPeer
      · exact answered_settings hstep (hok rfl) hf hfs h hsink
      · have hno : ¬ (c.receive source f).seesSettings f := fun hsees => hf hsees.2
        have hencoder := (processFrame_writes hno).encoder
        have hpeer := processFrame_peer (c.receive source f) f
        rw [if_neg hno] at hpeer
        rw [h] at hencoder hpeer
        refine (answered_quiet hstep ?_ hsink hencoder hpeer).heard hf res.isOk
        exact fun g hg => quiet_answers hf (hfs.subset hg)
  | streams =>
      refine ⟨⟨r, .nil r, (List.append_nil _).symm, .inl ?_⟩, [], ?_, .inl rfl⟩
      · exact ⟨hstep.agree, hstep.settings, hstep.announced, hstep.gathered⟩
      · rw [List.append_nil]
        exact (List.append_nil _).symm
  | recovers hok => cases hok

/-- A call once nothing can be written any more. -/
theorem Calls.silent (hbroken : Broken c.tls.sink) {new : List Event} (h : Calls true c new c') :
    (∃ r', Remote.Follows r new r' ∧ r'.heard = r.heard) ∧ intended new = [] ∧
      new.filterMap Event.went = [] ∧ Broken c'.tls.sink ∧
      c'.tls.sink.written = c.tls.sink.written := by
  have hsilent := completed_of_broken hbroken
  cases h with
  | @heads id req =>
      obtain ⟨hsink, -⟩ := sendHeadersOn_snd c id req
      obtain ⟨hnone, hstays, hwritten, hfails⟩ := hsilent (c.headerFrames id req)
      have hne : c.headerFrames id req ≠ [] := by
        rw [Connection.headerFrames, fragmentHeaderBlock]
        split <;> exact List.cons_ne_nil _ _
      obtain ⟨e, hfail⟩ := hfails hne
      have hevents : c.headEvents id req = [] := by
        rw [Connection.headEvents, hfail, hnone]
        rfl
      rw [hevents, hsink]
      exact ⟨⟨r, .nil r, rfl⟩, rfl, rfl, hstays, hwritten⟩
  | @chunk id s chunk isLast =>
      obtain ⟨hsink, -⟩ := sendChunk_snd c id s chunk isLast
      obtain ⟨hnone, hstays, hwritten, -⟩ := hsilent [dataFrame id chunk isLast]
      rw [hnone, hsink]
      exact ⟨⟨r, .nil r, rfl⟩, rfl, rfl, hstays, hwritten⟩
  | @frame source f res c' fs h hfs hsink hok =>
      obtain ⟨hnone, hstays, hwritten, -⟩ := hsilent fs
      rw [hnone, ← hsink]
      refine ⟨?_, rfl, rfl, hstays, hwritten⟩
      by_cases hf : f.setsPeer
      · exact ⟨_, .single (.announces hf), rfl⟩
      · exact ⟨r, .single (.passes hf), rfl⟩
  | streams => exact ⟨⟨r, .nil r, rfl⟩, rfl, rfl, hbroken, rfl⟩
  | recovers hok => cases hok

theorem Calls.sane {ok : Bool} {new : List Event} (h : Calls ok c new c') (hsane : c.Sane) :
    c'.Sane := by
  cases h with
  | @heads id req =>
      rw [Connection.Sane, (sendHeadersOn_snd c id req).2.2]
      exact hsane
  | @chunk id s chunk isLast =>
      rw [Connection.Sane, (sendChunk_snd c id s chunk isLast).2.2]
      exact hsane
  | @frame source f _ _ _ h =>
      have hframe := processFrame_sane (c.receive source f) f hsane
      rwa [h] at hframe
  | streams | recovers => exact hsane

end

/-! ## Runs -/

/-- After the events `evs` on the new connection `c₀`: the peer can read every header block that
was sent, what it reads are the intended lists, and it has been sent these frames and nothing
else, save for the beginning of one that broke the transport. -/
structure Understood (c₀ : Connection) (evs : List Event) (c : Connection) : Prop where
  reads : ∃ r, Remote.Follows .fresh evs r
  heard : ∀ r, Remote.Follows .fresh evs r → r.heard = intended evs
  written : ∃ part, c.tls.sink.written =
      c₀.tls.sink.written ++ (evs.filterMap Event.went).flatMap Frame.bytes ++ part ∧
    (part = [] ∨ Broken c.tls.sink)

/-- What is kept over a run whose calls meet the condition. -/
structure Keeping (c₀ : Connection) (evs : List Event) (c : Connection) : Prop where
  sane : c.Sane
  peer : ∃ r, Remote.Follows .fresh evs r ∧ r.heard = intended evs ∧
    (InStep r c ∨ Broken c.tls.sink)
  written : ∃ part, c.tls.sink.written =
      c₀.tls.sink.written ++ (evs.filterMap Event.went).flatMap Frame.bytes ++ part ∧
    (part = [] ∨ Broken c.tls.sink)

theorem Keeping.understood {c₀ c : Connection} {evs : List Event} (h : Keeping c₀ evs c) :
    Understood c₀ evs c := by
  obtain ⟨r, hfollows, hheard, -⟩ := h.peer
  refine ⟨⟨r, hfollows⟩, fun r' hfollows' => ?_, h.written⟩
  rw [hfollows'.unique hfollows, hheard]

theorem keeping_of_new {tls : Tls} {c₀ : Connection} (h : Connection.new tls = .ok c₀) :
    Keeping c₀ [] c₀ := by
  refine ⟨sane_of_new h, ⟨.fresh, .nil _, rfl, .inl ?_⟩, [], ?_, .inl rfl⟩
  · unfold Connection.new at h
    split at h
    · cases h
    · obtain rfl := Except.ok.inj h
      exact ⟨agree_new, rfl, rfl, rfl⟩
  · rw [List.filterMap_nil, List.flatMap_nil, List.append_nil, List.append_nil]

theorem Keeping.step {c₀ c c' : Connection} {evs new : List Event} (h : Keeping c₀ evs c)
    (hcall : Calls true c new c') : Keeping c₀ (evs ++ new) c' := by
  obtain ⟨hsane, ⟨r, hfollows, hheard, hpeer⟩, part, hwritten, hpart⟩ := h
  have hsane' := hcall.sane hsane
  have hsilent : Broken c.tls.sink → Keeping c₀ (evs ++ new) c' := by
    intro hbroken
    obtain ⟨⟨r', hfollows', hheard'⟩, hnone, hwent, hbroken', hsame⟩ := hcall.silent hbroken
    refine ⟨hsane', ⟨r', hfollows.append hfollows', ?_, .inr hbroken'⟩, part, ?_, .inr hbroken'⟩
    · rw [hheard', hheard, intended_append, hnone, List.append_nil]
    · rw [hsame, hwritten, List.filterMap_append, hwent, List.append_nil]
  rcases hpeer with hstep | hbroken
  · rcases hpart with rfl | hbroken
    · obtain ⟨⟨r', hfollows', hheard', hstep'⟩, part', hwritten', hpart'⟩ :=
        hcall.answered hstep hsane
      refine ⟨hsane', ⟨r', hfollows.append hfollows', ?_, hstep'⟩, part', ?_, hpart'⟩
      · rw [hheard', hheard, intended_append]
      · rw [hwritten', hwritten, List.append_nil, List.filterMap_append, List.flatMap_append,
          List.append_assoc c₀.tls.sink.written]
    · exact hsilent hbroken
  · exact hsilent hbroken

/-- Whatever is run on a connection is a run of calls.  In every run in which the header blocks
fit, the peer's SETTINGS are taken and a transport that has failed does not come back, the peer
reads every header block that is sent, as the list of its request. -/
theorem staged_blocks_read {tls : Tls} {c₀ : Connection} (hnew : Connection.new tls = .ok c₀) :
    (∀ codec c, Used codec c₀ c → ∃ evs, Base.Trace (Calls false) c₀ evs c) ∧
    ∀ evs c, Base.Trace (Calls true) c₀ evs c → Understood c₀ evs c := by
  refine ⟨fun codec c hused => closed_calls.used hused, fun evs c htrace => ?_⟩
  exact (Base.Trace.invariant (I := Keeping c₀) (keeping_of_new hnew) Keeping.step htrace).understood

/-- A transport that takes the first request and six bytes of the next one. -/
def brittleTls : Tls where
  source := ⟨[], none⟩
  sink := { written := [], fault := some (76, .other), flushFault := none }
  received := []

/-- A new connection on it. -/
def brittle : Connection := (Connection.new brittleTls).toOption.get rfl

/-- The first request is sent. -/
def brittleAsked : Connection := (brittle.openStream.2.sendHeadersOn 1 sampleGet).2

/-- The next one and another are tried. -/
def brittleTried : Connection :=
  ((brittleAsked.openStream.2.sendHeadersOn 3 sampleGet).2.sendHeadersOn 5 sampleGet).2

theorem brittle_facts :
    brittle.openStream.1 = .ok 1 ∧ brittle.openStream.2.peer = .default ∧
      intended (brittle.openStream.2.headEvents 1 sampleGet) = [(1, requestList sampleGet)] := by
  refine ⟨rfl, rfl, ?_⟩
  have hall : (writeFrames brittle.openStream.2.tls.sink
      (brittle.openStream.2.headerFrames 1 sampleGet)).1 = .ok () := rfl
  rw [Connection.headEvents, hall]
  rfl

theorem brittleAsked_facts :
    brittleAsked.openStream.1 = .ok 3 ∧ brittleAsked.openStream.2.peer = .default ∧
      (brittleAsked.openStream.2.stageRequestOn 3 sampleGet).1 = .error (.io .other) ∧
      intended (brittleAsked.openStream.2.headEvents 3 sampleGet) = [] ∧
      intended ((brittleAsked.openStream.2.sendHeadersOn 3 sampleGet).2.headEvents 5 sampleGet) =
        [] := ⟨rfl, rfl, rfl, rfl, rfl⟩

/-- The second request fails, and another is tried: the peer has read the block it was sent. -/
theorem staged_blocks_read_brittle :
    (brittleAsked.openStream.2.stageRequestOn 3 sampleGet).1 = .error (.io .other) ∧
      ∃ evs, intended evs = [(1, requestList sampleGet)] ∧
        Base.Trace (Calls true) brittle evs brittleTried ∧
        Understood brittle evs brittleTried := by
  obtain ⟨hopen, hpeer, hsent⟩ := brittle_facts
  obtain ⟨hopen', hpeer', hfails, hnone, hnone'⟩ := brittleAsked_facts
  have hfits : ∀ {c : Connection}, c.peer = .default → c.Fits sampleGet := by
    intro c hc
    refine .inl ?_
    rw [hc]
    decide
  have hpeer'' := (sendHeadersOn_keepsPeer brittleAsked.openStream.2 3 sampleGet).peer.trans hpeer'
  have hopened := Base.Trace.single (calls_openStream (eq_of_fst hopen) true)
  have hasked : Base.Trace (Calls true) brittle _ brittleAsked :=
    hopened.snoc (.heads fun _ => hfits hpeer)
  have hopened' := hasked.snoc (calls_openStream (eq_of_fst hopen') true)
  have htrace : Base.Trace (Calls true) brittle _ brittleTried :=
    (hopened'.snoc (.heads fun _ => hfits hpeer')).snoc (@Calls.heads _ _ 5 _ fun _ => hfits hpeer'')
  have hnew : Connection.new brittleTls = .ok brittle := rfl
  refine ⟨hfails, _, ?_, htrace, (staged_blocks_read hnew).2 _ _ htrace⟩
  rw [intended_append, intended_append, hnone, hnone', List.append_nil, List.append_nil,
    List.append_nil, List.nil_append, hsent]

/-! ### A header block that is refused -/

/-- What `write_frame` refuses leaves no mark on the wire, but on the encoder. -/
theorem sendHeadersOn_refused {c : Connection} {req : Request}
    (hmax : maxFramePayload < c.peer.maxFrameSize)
    (hblock : maxFramePayload < (buildHeaderBlock c.encoder req).1.length) (id : Nat) :
    c.sendHeadersOn id req = (.error (.io .invalidInput),
        { c with encoder := (buildHeaderBlock c.encoder req).2 }) ∧
      c.headEvents id req = [] := by
  obtain ⟨f, rest, hframes, hpayload⟩ : ∃ f rest, c.headerFrames id req = f :: rest ∧
      f.payload = (buildHeaderBlock c.encoder req).1.take c.peer.maxFrameSize := by
    have hne : (buildHeaderBlock c.encoder req).1 ≠ [] := by
      rw [← List.length_pos_iff]
      omega
    have hpieces := Base.toChunks_eq (Nat.lt_of_le_of_lt (Nat.zero_le _) hmax) hne
    unfold Connection.headerFrames fragmentHeaderBlock
    rw [hpieces]
    simp only
    split
    · next h => cases h
    · next h => exact ⟨_, _, rfl, ((List.cons.inj h).1).symm⟩
    · next h => exact ⟨_, _, rfl, ((List.cons.inj h).1).symm⟩
  have hlong : maxFramePayload < f.payload.length := by
    rw [hpayload, List.length_take]
    omega
  have hwrite : writeFrame c.tls.sink f = (.error (.io .invalidInput), c.tls.sink) := if_pos hlong
  have hwrites : writeFrames c.tls.sink (c.headerFrames id req) =
      (.error (.io .invalidInput), c.tls.sink) := by
    rw [hframes, writeFrames, hwrite]
    rfl
  have hnone : completed c.tls.sink (c.headerFrames id req) = [] := by
    rw [hframes, completed, hwrite]
  constructor
  · have hsame : fragmentHeaderBlock id (buildHeaderBlock c.encoder req).1 c.peer.maxFrameSize
        (!!req.body.isEmpty) = c.headerFrames id req := by
      rw [Bool.not_not]
      rfl
    unfold Connection.sendHeadersOn
    simp only [hsame, hwrites]
    rfl
  · rw [Connection.headEvents, hwrites, hnone]
    rfl

/-! ### A header too large to send -/

/-- The settings of a peer that takes the longest frames there are. -/
def ampleSettings : Frame where
  typ := fSettings
  flags := 0
  streamId := 0
  payload := [0, 5, 0, 0xff, 0xff, 0xff]

/-- The answer to the request on stream 1. -/
def firstAnswer : Frame where
  typ := fHeaders
  flags := 0x5
  streamId := 1
  payload := [0x88]

/-- A peer that sends these. -/
def ample : Connection := .dial ⟨ampleSettings.bytes ++ firstAnswer.bytes, none⟩

/-- A GET on it, sent. -/
def ampleSent : Connection := (ample.openStream.2.sendHeadersOn 1 sampleGet).2

/-- The answer has come. -/
def ampleAnswered : Connection := ampleSent.readAndDispatch.2.readAndDispatch.2

/-- It has been handed out. -/
def ampleRested : Connection :=
  Connection.pruneCompletedStreams
    { ampleAnswered with streams := ampleAnswered.streams.erase 1 }

theorem ampleRested_eq :
    (runOneRequest (fun _ _ _ => .error []) ample sampleGet).2 = ampleRested := rfl

/-- A request with a header of this value, and another behind it. -/
def bulky (value : Text) : Request :=
  { sampleGet with headers := [("x".toList, value), ("z".toList, "1".toList)] }

/-- A request with the other header. -/
def plainZ : Request := { sampleGet with headers := [("z".toList, "1".toList)] }

/-- The pseudo-headers of a GET. -/
def pseudoFields : List Header :=
  [(":method".toList, "GET".toList), (":scheme".toList, "https".toList),
    (":authority".toList, "a".toList), (":path".toList, "/".toList)]

/-- The headers behind the large one. -/
def fieldsBehind : List Header :=
  [("z".toList, "1".toList), ("user-agent".toList, "rsurl/0.0.4".toList),
    ("accept".toList, "*/*".toList), ("accept-encoding".toList, "gzip, deflate".toList)]

theorem requestList_bulky (value : Text) :
    requestList (bulky value) = pseudoFields ++ ("x".toList, value) :: fieldsBehind := rfl

theorem requestList_plainZ : requestList plainZ = pseudoFields ++ fieldsBehind := rfl

/-- The encoder behind the large header. -/
def emptied : Encoder := (Encoder.new.encodeHeaders [] fieldsBehind).2

theorem ampleRested_encoder :
    (ampleRested.encoder.encodeHeaders [] pseudoFields).2 = ampleRested.encoder ∧
      ampleRested.encoder.combinedNameIndex "x".toList = none ∧
      ampleRested.encoder.pendingMaxTableSizeSignal = none ∧
      ampleRested.encoder.maxDynTableSize = 4096 := ⟨rfl, rfl, rfl, rfl⟩

theorem ampleRested_facts :
    ampleRested.peer = { PeerSettings.default with maxFrameSize := 16777215 } ∧
      ampleRested.streams = ∅ ∧ ampleRested.nextStreamId = 3 ∧ ampleRested.goawayReceived = none ∧
      ampleRested.tls.sink.fault = none := ⟨rfl, rfl, rfl, rfl, rfl⟩

theorem ampleRested_open : ampleRested.openStream.1 = .ok 3 := by
  obtain ⟨hpeer, hstreams, hnext, hgoaway, -⟩ := ampleRested_facts
  unfold Connection.openStream
  rw [hpeer, hstreams, hnext, hgoaway]
  rfl

theorem encodeHeaders_append (e : Encoder) (out : Bytes) (headers headers' : List Header) :
    e.encodeHeaders out (headers ++ headers') =
      (e.encodeHeaders out headers).2.encodeHeaders (e.encodeHeaders out headers).1 headers' :=
  List.foldl_append

/-- A header larger than the table, and what is behind it. -/
theorem encodeHeaders_large {e e₀ : Encoder} {limit : Nat} {t : Rfc.Table} {name value : Text}
    {front behind : List Header} (hfront : (e.encodeHeaders [] front).2 = e)
    (hname : e.combinedNameIndex name = none) (hnone : e.pendingMaxTableSizeSignal = none)
    (hlarge : e.maxDynTableSize < value.length) (hempty : { e with dynTable := .empty } = e₀)
    (hagree : Agree limit e₀ t) :
    5 * value.length ≤ 8 * (e.encodeHeaders [] (front ++ (name, value) :: behind)).1.length ∧
      (e.encodeHeaders [] (front ++ (name, value) :: behind)).2 =
        (e₀.encodeHeaders [] behind).2 := by
  have hlength := length_encodeLiteralString_ge value
  obtain ⟨bytes, e', t', hbehind, -, -⟩ := encodeHeaders_fields hagree behind
  have hinsert : e.insert name value = e₀ := (insert_oversize hlarge).trans hempty
  have hcons : ∀ out, e.encodeHeaders out ((name, value) :: behind) =
      (e.encodeHeader out name value).2.encodeHeaders (e.encodeHeader out name value).1 behind :=
    fun out => rfl
  have hblock : e.encodeHeaders [] (front ++ (name, value) :: behind) =
      ((e.encodeHeaders [] front).1 ++ ([0x40] ++ encodeLiteralString [] name ++
        encodeLiteralString [] value) ++ bytes, e') := by
    rw [encodeHeaders_append, hfront, hcons, encodeHeader_new hnone hname, hinsert, hbehind]
  rw [hblock, hbehind]
  refine ⟨?_, rfl⟩
  simp only [List.length_append]
  omega

/-- The large header is in the block, and the encoder has forgotten what was there before. -/
theorem buildHeaderBlock_bulky {value : Text} (h : 2 ^ 21 ≤ value.length) :
    maxFramePayload < (buildHeaderBlock ampleRested.encoder (bulky value)).1.length ∧
      (buildHeaderBlock ampleRested.encoder (bulky value)).2 = emptied := by
  obtain ⟨hpseudo, hname, hnone, hmax⟩ := ampleRested_encoder
  have hempty : { ampleRested.encoder with dynTable := .empty } = Encoder.new := by
    show Encoder.mk .empty ampleRested.encoder.maxDynTableSize
      ampleRested.encoder.pendingMaxTableSizeSignal = _
    rw [hmax, hnone]
    rfl
  have hlarge : ampleRested.encoder.maxDynTableSize < value.length := by
    rw [hmax]
    exact Nat.lt_of_lt_of_le (by decide : 4096 < 2 ^ 21) h
  obtain ⟨hlength, hencoder⟩ := @encodeHeaders_large _ _ _ _ _ _ _ fieldsBehind hpseudo hname
    hnone hlarge hempty agree_new
  rw [buildHeaderBlock_eq, requestList_bulky]
  refine ⟨?_, hencoder⟩
  unfold maxFramePayload
  omega

/-- The connection after the large request was refused. -/
def ampleRefused : Connection :=
  { ampleRested.openStream.2 with
    encoder := emptied
    streams := ampleRested.openStream.2.streams.erase 3 }

/-- The block of the request behind it. -/
def misreadBlock : Bytes := [0x82, 0x87, 0x41, 0x01, 0x61, 0x84, 0xc1, 0xc0, 0xbf, 0x90]

theorem ampleRefused_facts :
    ampleRefused.openStream.1 = .ok 5 ∧
      (∃ s, (ampleRefused.openStream.2.sendHeadersOn 5 plainZ).1 = .ok s) ∧
      ampleRefused.openStream.2.headEvents 5 plainZ = [.request 5 plainZ,
        .outbound { typ := fHeaders, flags := 0x5, streamId := 5, payload := misreadBlock }] :=
  ⟨rfl, ⟨_, rfl⟩, rfl⟩

theorem openStream_same {c c' : Connection} {id : Nat} (h : c.openStream = (.ok id, c')) :
    c'.encoder = c.encoder ∧ c'.peer = c.peer := by
  obtain ⟨-, rfl⟩ := openStream_eq_ok h
  exact ⟨rfl, rfl⟩

theorem openStream_room {c c' : Connection} {id : Nat} (h : c.openStream = (.ok id, c')) :
    ¬ c.peer.maxConcurrentStreams ≤ c.streams.entries.length := by
  intro hfull
  rw [Connection.openStream, if_pos hfull] at h
  cases h

/-- `start_queued` on two requests of which the first cannot be staged. -/
theorem startQueued_failed_first {c c₁ c₂ c₃ : Connection} {id id' : Nat} {req req' : Request}
    {e : Error} {encoder : Encoder} (hopen : c.openStream = (.ok id, c₁))
    (hstage : c₁.stageRequestOn id req = (.error e, { c₁ with encoder }))
    (hopen' : Connection.openStream { c₁ with encoder, streams := c₁.streams.erase id } =
      (.ok id', c₂))
    (hstage' : c₂.stageRequestOn id' req' = (.ok (), c₃)) :
    ((Batch.init c [req, req']).startQueued [req, req']).conn = c₃ := by
  show (Batch.startFrom [req, req'] (Batch.init c [req, req']) [0, 1]).conn = c₃
  have hinit : (Batch.init c [req, req']).conn = c := rfl
  simp only [Batch.startFrom, hinit, if_neg (openStream_room hopen), hopen, hstage, hopen',
    if_neg (openStream_room hopen'), hstage', List.getElem?_cons_zero, List.getElem?_cons_succ,
    Batch.setResult]

/-- Without a body there is nothing to stage. -/
theorem stageRequestOn_of_empty {c c' : Connection} {id : Nat} {req : Request}
    (hbody : req.body = []) {s : Stream} (h : c.sendHeadersOn id req = (.ok s, c')) :
    c.stageRequestOn id req = (.ok (), c') := by
  rw [Connection.stageRequestOn, h, hbody]
  rfl

/-- The large request is refused, and nothing is written of it. -/
theorem ampleRested_refused {value : Text} (h : 2 ^ 21 ≤ value.length) :
    ampleRested.openStream = (.ok 3, ampleRested.openStream.2) ∧
      ampleRested.openStream.2.sendHeadersOn 3 (bulky value) = (.error (.io .invalidInput),
        { ampleRested.openStream.2 with encoder := emptied }) ∧
      ampleRested.openStream.2.headEvents 3 (bulky value) = [] := by
  have hpeer := ampleRested_facts.1
  obtain ⟨hlong, hencoder⟩ := buildHeaderBlock_bulky h
  have hopen := eq_of_fst ampleRested_open
  have hsame := openStream_same hopen
  have hmax : maxFramePayload < ampleRested.openStream.2.peer.maxFrameSize := by
    rw [hsame.2, hpeer]
    decide
  rw [← hsame.1] at hlong hencoder
  have hrefused := sendHeadersOn_refused hmax hlong 3
  rw [hencoder] at hrefused
  exact ⟨hopen, hrefused⟩

/-- What `start_queued` makes of the large request and the one behind it. -/
theorem startQueued_bulky {value : Text} (h : 2 ^ 21 ≤ value.length) :
    ampleRested.openStream.2.stageRequestOn 3 (bulky value) =
        (.error (.io .invalidInput), { ampleRested.openStream.2 with encoder := emptied }) ∧
      ((Batch.init ampleRested [bulky value, plainZ]).startQueued [bulky value, plainZ]).conn =
        (ampleRefused.openStream.2.sendHeadersOn 5 plainZ).2 := by
  obtain ⟨hopen, hrefused, -⟩ := ampleRested_refused h
  obtain ⟨hid, ⟨s, hsent⟩, -⟩ := ampleRefused_facts
  have hstage : ampleRested.openStream.2.stageRequestOn 3 (bulky value) =
      (.error (.io .invalidInput), { ampleRested.openStream.2 with encoder := emptied }) := by
    rw [Connection.stageRequestOn, hrefused]
    rfl
  have hstage' := @stageRequestOn_of_empty _ _ 5 plainZ rfl s (eq_of_fst hsent)
  have hopen' := eq_of_fst hid
  exact ⟨hstage, startQueued_failed_first hopen hstage hopen' hstage'⟩

/-! ### The run -/

/-- SETTINGS that are handled are taken. -/
theorem settles_of_ok {c : Connection} {f : Frame} {o : DispatchOutcome}
    (h : (c.processFrame f).1 = .ok o) : c.Settles f := by
  intro hsettings
  have hadmits : c.admits f = true := by
    by_contra hno
    rw [Connection.processFrame, if_neg hno] at h
    cases h
  rw [processFrame_of_settings c f ⟨hadmits, hsettings⟩, Connection.processSettings] at h
  obtain ⟨res, peer, hpeer⟩ : ∃ res peer, c.peer.applySettingsPayload f.payload = (res, peer) :=
    ⟨_, _, rfl⟩
  rw [hpeer] at h ⊢
  cases res with
  | error e => cases h
  | ok u =>
      obtain ⟨res, streams, hstreams⟩ : ∃ res streams,
        c.shiftSendWindows peer.initialWindowSize = (res, streams) := ⟨_, _, rfl⟩
      simp only [hstreams] at h
      cases res with
      | error e => cases h
      | ok u =>
          refine ⟨hadmits, rfl, ?_⟩
          show (c.shiftSendWindows peer.initialWindowSize).1 = .ok ()
          rw [hstreams]

/-- A frame that is read and handled. -/
theorem calls_of_read {c : Connection} {f : Frame} {o : DispatchOutcome}
    (hframe : (readFrame c.tls.source).1 = .ok f) (hread : c.readAndDispatch.1 = .ok o) :
    ∃ new, Calls true c new c.readAndDispatch.2 := by
  obtain ⟨source, hsource⟩ : ∃ source, readFrame c.tls.source = (.ok f, source) :=
    ⟨_, Prod.ext hframe rfl⟩
  have hdispatch : c.readAndDispatch = (c.receive source f).processFrame f := by
    rw [Connection.readAndDispatch, hsource]
  rw [hdispatch] at hread ⊢
  obtain ⟨fs, hfs, hsink⟩ := processFrame_sink (c.receive source f) f
  exact ⟨_, .frame rfl hfs hsink fun _ => settles_of_ok hread⟩

theorem Calls.weaken {c c' : Connection} {new : List Event} (h : Calls true c new c') :
    Calls false c new c' := by
  cases h with
  | heads => exact .heads nofun
  | chunk => exact .chunk
  | frame h hfs hsink => exact .frame h hfs hsink nofun
  | streams => exact .streams
  | recovers hok => cases hok

theorem ample_facts :
    ample.openStream.1 = .ok 1 ∧ ample.openStream.2.peer = .default ∧
      (readFrame ampleSent.tls.source).1 = .ok ampleSettings ∧
      ampleSent.readAndDispatch.1 = .ok .cont ∧
      (readFrame ampleSent.readAndDispatch.2.tls.source).1 = .ok firstAnswer ∧
      ampleSent.readAndDispatch.2.readAndDispatch.1 = .ok (.done 1) :=
  ⟨rfl, rfl, rfl, rfl, rfl, rfl⟩

/-- The first request and its answer. -/
theorem trace_ampleRested : ∃ evs, Base.Trace (Calls true) ample evs ampleRested := by
  obtain ⟨hopen, hpeer, hframe, hread, hframe', hread'⟩ := ample_facts
  obtain ⟨_, hsettings⟩ := calls_of_read hframe hread
  obtain ⟨_, hanswer⟩ := calls_of_read hframe' hread'
  have hfits : ample.openStream.2.Fits sampleGet := by
    refine .inl ?_
    rw [hpeer]
    decide
  have hopened := Base.Trace.single (calls_openStream (eq_of_fst hopen) true)
  have hanswered : Base.Trace (Calls true) ample _ ampleAnswered :=
    ((hopened.snoc (.heads fun _ => hfits)).snoc hsettings).snoc hanswer
  exact ⟨_, hanswered.snoc (calls_handOut true ampleAnswered 1)⟩

/-- The batch on it. -/
theorem trace_bulky {value : Text} (h : 2 ^ 21 ≤ value.length) :
    Base.Trace (Calls false) ampleRested
      [.request 5 plainZ,
        .outbound { typ := fHeaders, flags := 0x5, streamId := 5, payload := misreadBlock }]
      ((Batch.init ampleRested [bulky value, plainZ]).startQueued [bulky value, plainZ]).conn := by
  obtain ⟨hopen, hrefused, hnone⟩ := ampleRested_refused h
  obtain ⟨hid, -, hevents⟩ := ampleRefused_facts
  have hheads : Calls false ampleRested.openStream.2 _ _ := @Calls.heads _ _ 3 (bulky value) nofun
  have hheads' : Calls false ampleRefused.openStream.2 _ _ := @Calls.heads _ _ 5 plainZ nofun
  rw [hnone, hrefused] at hheads
  rw [hevents] at hheads'
  rw [(startQueued_bulky h).2]
  have hopened := Base.Trace.single (calls_openStream hopen false)
  have herased := calls_erase false ampleRested.openStream.2 emptied 3
  have hopened' := calls_openStream (eq_of_fst hid) false
  exact (((hopened.snoc hheads).snoc herased).snoc hopened').snoc hheads'

/-- An index in one octet. -/
theorem field_octet {limit : Nat} {t : Rfc.Table} {b : UInt8} {entry : Header}
    (hflag : 128 ≤ b.toNat) (hsmall : b.toNat % 2 ^ 7 < 2 ^ 7 - 1)
    (hentry : t.entry (b.toNat % 2 ^ 7) = some entry) : Field (receiver limit) t [b] (some entry) t :=
  .indexed hflag ⟨.small hsmall, trivial⟩ hentry

theorem keep_cons {room : Nat} {e : Header} (h : entrySize e ≤ room) (entries : List Header) :
    Rfc.keep room (e :: entries) = e :: Rfc.keep (room - entrySize e) entries := if_pos h

/-- What a table with the first request's fields makes of the block: the header `z` is an
authority. -/
theorem misreadBlock_fields {limit : Nat} {t t' : Rfc.Table} (hmax : t.max = 4096)
    (hentries : ampleRested.encoder.dynTable.entries <+: t.entries) {headers : List Header}
    (h : Fields (receiver limit) t misreadBlock headers t') :
    ∃ headers', headers = pseudoFields ++ (":authority".toList, "a".toList) :: headers' := by
  have hfirst : ampleRested.encoder.dynTable.entries = [("accept".toList, "*/*".toList),
      ("user-agent".toList, "rsurl/0.0.4".toList), (":authority".toList, "a".toList)] := rfl
  obtain ⟨rest, hrest⟩ := hentries
  rw [hfirst] at hrest
  have hmethod : Field (receiver limit) t [0x82] (some (":method".toList, "GET".toList)) t :=
    field_octet (by decide) (by decide) rfl
  have hscheme : Field (receiver limit) t [0x87] (some (":scheme".toList, "https".toList)) t :=
    field_octet (by decide) (by decide) rfl
  have hauthority : Field (receiver limit) t [0x41, 0x01, 0x61]
      (some (":authority".toList, "a".toList)) (t.add (":authority".toList, "a".toList)) := by
    have hname : t.entry 1 = some (":authority".toList, []) := rfl
    exact field_literal (.indexed hname) "a".toList
  have hpath : ∀ t : Rfc.Table, Field (receiver limit) t [0x84] (some (":path".toList, "/".toList)) t :=
    fun t => field_octet (by decide) (by decide) rfl
  have hadded : (t.add (":authority".toList, "a".toList)).entry 65 =
      some (":authority".toList, "a".toList) := by
    rw [Rfc.Table.add, hmax, ← hrest, if_pos (by decide), List.cons_append, List.cons_append,
      List.cons_append, keep_cons (by decide), keep_cons (by decide), keep_cons (by decide)]
    rfl
  have hmisread : Field (receiver limit) (t.add (":authority".toList, "a".toList)) [0xc1]
      (some (":authority".toList, "a".toList)) (t.add (":authority".toList, "a".toList)) :=
    field_octet (by decide) (by decide) hadded
  have hblock : misreadBlock = [0x82] ++ ([0x87] ++ ([0x41, 0x01, 0x61] ++ ([0x84] ++
    ([0xc1] ++ [0xc0, 0xbf, 0x90])))) := rfl
  rw [hblock] at h
  obtain ⟨headers₁, rfl, h₁⟩ := h.tail hmethod
  obtain ⟨headers₂, rfl, h₂⟩ := h₁.tail hscheme
  obtain ⟨headers₃, rfl, h₃⟩ := h₂.tail hauthority
  obtain ⟨headers₄, rfl, h₄⟩ := h₃.tail (hpath _)
  obtain ⟨headers', rfl, -⟩ := h₄.tail hmisread
  exact ⟨headers', rfl⟩

/-- After a first request the peer allows the longest frames.  A batch starts with a request whose
header block does not fit into the frames that `write_frame` lets through; it fails, and the peer
takes a header of the request behind it for another. -/
theorem staged_blocks_misread :
    ¬ ∀ (codec : Codec) (tls : Tls) (c₀ c c₁ : Connection) (id : Nat) (e : Error) (req : Request)
      (reqs : List Request) (evs : List Event), Connection.new tls = .ok c₀ → Used codec c₀ c →
        c.openStream = (.ok id, c₁) → (c₁.stageRequestOn id req).1 = .error e →
          Base.Trace (Calls false) c₀ evs
              ((Batch.init c (req :: reqs)).startQueued (req :: reqs)).conn →
            Understood c₀ evs ((Batch.init c (req :: reqs)).startQueued (req :: reqs)).conn := by
  intro hclaim
  have hvalue : 2 ^ 21 ≤ (List.replicate (2 ^ 21) 'a').length :=
    Nat.le_of_eq List.length_replicate.symm
  generalize (List.replicate (2 ^ 21) 'a' : Text) = value at hvalue
  have hnew := new_dial ⟨ampleSettings.bytes ++ firstAnswer.bytes, none⟩
  have hused : Used (fun _ _ _ => .error []) ample ampleRested := by
    rw [← ampleRested_eq]
    exact .single .fresh sampleGet
  obtain ⟨evs, htrace⟩ := trace_ampleRested
  have hkeeping : Keeping ample evs ampleRested :=
    Base.Trace.invariant (I := Keeping ample) (keeping_of_new hnew) Keeping.step htrace
  obtain ⟨r, hfollows, hheard, hstep⟩ := hkeeping.peer
  have hstep : InStep r ampleRested := by
    refine hstep.resolve_right ?_
    rintro ⟨kind, hfault⟩
    cases ampleRested_facts.2.2.2.2.symm.trans hfault
  have hstage := congrArg Prod.fst (startQueued_bulky hvalue).1
  have hunderstood := hclaim _ _ _ _ _ _ _ (bulky value) [plainZ] _ hnew hused
    (ampleRested_refused hvalue).1 hstage ((htrace.mono Calls.weaken).trans (trace_bulky hvalue))
  obtain ⟨r', hfollows'⟩ := hunderstood.reads
  have hheard' := hunderstood.heard r' hfollows'
  obtain ⟨r₁, hfront, hback⟩ := hfollows'.of_append
  obtain rfl := hfront.unique hfollows
  cases hback with
  | cons hnote hblock =>
  cases hnote
  obtain ⟨headers, table, hr', hfields⟩ := hblock.of_block (.inl rfl)
    (has_of_flags 0x5 rfl (by decide))
    (Remote.blockFragment_headers 0x5 rfl rfl (by decide) (by decide)).2
  rw [hstep.gathered, List.nil_append] at hfields
  have hagree := hstep.agree
  have hmax := hagree.cap ampleRested_encoder.2.2.1
  obtain ⟨headers', rfl⟩ := misreadBlock_fields (hmax.trans ampleRested_encoder.2.2.2)
    hagree.entries hfields
  rw [hr', intended_append, hheard] at hheard'
  have hlast := List.append_cancel_left hheard'
  have hlist : pseudoFields ++ (":authority".toList, "a".toList) :: headers' =
      requestList plainZ := congrArg Prod.snd (List.cons.inj hlast).1
  rw [requestList_plainZ] at hlist
  have hnext := (List.cons.inj (List.append_cancel_left hlist)).1
  exact absurd hnext (by decide)

end Rsurl.H2
