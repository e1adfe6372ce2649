/-
# `Rsurl.H2.Delivery` — the body of a request on the wire

What the peer gets of a request body (`Delivers`), on both send paths: by
`send_request_on` in one go (`delivers_sendRequestOn`), and by
`stage_request_on` and the pump, chunk by chunk between other things
(`delivers_batch`, by the invariant `Delivering`).
-/
import Rsurl.H2.Loop
import Rsurl.H2.TraceBatch

namespace Rsurl.H2

open Http (Request Response)
open Relation (ReflTransGen)

/-! ## Bodies -/

/-- What is written on the stream `id` once a request is put on it: DATA is the body from its front
on, and END_STREAM stands on the DATA frame with its last byte or, where there is no body, on
HEADERS. -/
structure Delivers (id : Nat) (body : Bytes) (evs : List Event) : Prop where
  front : ∀ pre post, evs = pre ++ post → dataOn id pre <+: body
  ends : ∀ pre f post, evs = pre ++ .outbound f :: post → f.typ = fData → f.streamId = id →
    (f.has flagEndStream = true ↔ f.payload ≠ [] ∧ dataOn id pre ++ f.payload = body)
  heads : ∀ f, .outbound f ∈ evs → f.typ = fHeaders → f.streamId = id →
    (f.has flagEndStream = true ↔ body = [])

/-- The HEADERS on the stream end it where there is no body. -/
def HeadsEnd (id : Nat) (body : Bytes) (evs : List Event) : Prop :=
  ∀ f, .outbound f ∈ evs → f.typ = fHeaders → f.streamId = id →
    (f.has flagEndStream = true ↔ body = [])

theorem HeadsEnd.append {id : Nat} {body : Bytes} {evs evs' : List Event}
    (h : HeadsEnd id body evs) (h' : HeadsEnd id body evs') : HeadsEnd id body (evs ++ evs') := by
  intro f hf
  rcases List.mem_append.mp hf with hf | hf
  · exact h f hf
  · exact h' f hf

theorem Carries.delivers {id : Nat} {body : Bytes} {evs : List Event} (h : Carries id body evs)
    (hheads : HeadsEnd id body evs) : Delivers id body evs where
  front pre post heq := by
    rw [heq, carries_append] at h
    exact h.1.front
  ends pre f post heq htyp hid := by
    rw [heq, carries_append, Carries, if_pos ⟨htyp, hid⟩] at h
    obtain ⟨hpre, hends, -⟩ := h
    obtain ⟨rest, hrest⟩ := hpre.front
    rw [hends, ← hrest, List.drop_left, List.append_cancel_left_eq]
  heads := hheads

/-- Events without a word about the request on `id`. -/
def Aside (id : Nat) (evs : List Event) : Prop :=
  ∀ f, .outbound f ∈ evs → f.Plain ∨ f.streamId ≠ id

theorem Aside.no_data {id : Nat} {evs : List Event} (h : Aside id evs) (f : Frame)
    (hf : .outbound f ∈ evs) : ¬ (f.typ = fData ∧ f.streamId = id) := by
  rintro ⟨htyp, hid⟩
  rcases h f hf with hplain | hne
  · exact hplain.1 htyp
  · exact hne hid

theorem Aside.headsEnd {id : Nat} {evs : List Event} (h : Aside id evs) (body : Bytes) :
    HeadsEnd id body evs := by
  intro f hf htyp hid
  rcases h f hf with hplain | hne
  · exact absurd htyp hplain.2
  · exact absurd hid hne

theorem Aside.append {id : Nat} {evs evs' : List Event} (h : Aside id evs) (h' : Aside id evs') :
    Aside id (evs ++ evs') := by
  intro f hf
  rcases List.mem_append.mp hf with hf | hf
  · exact h f hf
  · exact h' f hf

/-- The frames of a header block. -/
theorem headsEnd_headerFrames (c : Connection) (id : Nat) (req : Request) :
    HeadsEnd id req.body ((c.headerFrames id req).map .outbound) ∧
      (∀ f ∈ c.headerFrames id req, f.streamId = id ∧ f.typ ≠ fData) := by
  have hne : fHeaders ≠ fData ∧ fContinuation ≠ fData ∧ fContinuation ≠ fHeaders := by decide
  refine ⟨fun f hf htyp _ => ?_, fun f hf => ?_⟩
  · obtain ⟨g, hg, heq⟩ := List.mem_map.mp hf
    obtain rfl := Event.outbound.inj heq
    obtain ⟨-, hshape⟩ := fragmentHeaderBlock_shape hg
    rcases hshape with ⟨-, hends⟩ | ⟨hcont, -⟩
    · rw [hends, List.isEmpty_iff]
    · exact absurd (hcont.symm.trans htyp) hne.2.2
  · obtain ⟨hid, hshape⟩ := fragmentHeaderBlock_shape hf
    refine ⟨hid, ?_⟩
    rcases hshape with ⟨htyp, -⟩ | ⟨htyp, -⟩
    · rw [htyp]
      exact hne.1
    · rw [htyp]
      exact hne.2.1

/-! ## `send_request_on` -/

theorem SendsBody.headsEnd {id : Nat} {body : Bytes} {evs : List Event}
    (h : SendsBody id body evs) : HeadsEnd id body evs := by
  intro f hf htyp _
  have hne : fData ≠ fHeaders := by decide
  rcases h.shape _ hf with ⟨g, handled, heq⟩ | ⟨g, heq, hplain | ⟨hdata, -⟩⟩
  · cases heq
  · obtain rfl := Event.outbound.inj heq
    exact absurd htyp hplain.2
  · obtain rfl := Event.outbound.inj heq
    exact absurd (hdata.symm.trans htyp) hne

theorem Heads.carries {id : Nat} {req : Request} {c : Connection} {evs : List Event}
    (h : Heads id req c evs) (body : Bytes) :
    Carries id body evs ∧ dataOn id evs = [] ∧ HeadsEnd id req.body evs := by
  rcases h with rfl | rfl
  · exact ⟨trivial, rfl, nofun⟩
  · obtain ⟨hheads, hframes⟩ := headsEnd_headerFrames c id req
    have hno : ∀ f, .outbound f ∈ Event.request id req :: (c.headerFrames id req).map .outbound →
        ¬ (f.typ = fData ∧ f.streamId = id) := by
      rintro f hf ⟨htyp, -⟩
      rcases List.mem_cons.mp hf with heq | hf
      · cases heq
      · obtain ⟨g, hg, heq⟩ := List.mem_map.mp hf
        obtain rfl := Event.outbound.inj heq
        exact (hframes g hg).2 htyp
    obtain ⟨hcarries, hdata⟩ := carries_of_no_data body hno
    refine ⟨hcarries, hdata, fun f hf => ?_⟩
    rcases List.mem_cons.mp hf with heq | hf
    · cases heq
    · exact hheads f hf

/-- What `send_request_on` writes of a request, and all of it if it succeeds. -/
theorem delivers_sendRequestOn (ok : Bool) {c : Connection} (id : Nat) (req : Request)
    (hsane : c.Sane) (hok : Allowed ok (c.sendRequestOn id req).1) :
    ∃ evs, Traced .single ok c evs (c.sendRequestOn id req).2 ∧ Delivers id req.body evs ∧
      ((c.sendRequestOn id req).1 = .ok () → dataOn id evs = req.body) := by
  obtain ⟨heads, rest, htrace, hheads, hrest, hall⟩ :=
    traces_sendRequestOn (p := .single) ok (by decide) id req hsane hok
  obtain ⟨hcarries, hnone, hends⟩ := hheads.carries req.body
  refine ⟨heads ++ rest, htrace, ?_, fun hok => ?_⟩
  · refine Carries.delivers ?_ (hends.append hrest.headsEnd)
    rw [carries_append, hnone]
    exact ⟨hcarries, hrest.carries⟩
  · rw [dataOn_append, hnone, List.nil_append]
    exact (hall hok).2

/-! ## `stage_request_on` and the pump -/

/-- How much of the body of a stream has gone out. -/
def Stream.HasSent (s : Stream) (body sent : Bytes) : Prop :=
  match s.pendingBody with
  | some pb => pb.bytes = body ∧ sent = body.take pb.sent
  | none => sent = body

/-- What has been written for the requests of a batch that goes on. -/
structure Delivering (evs : List Event) (c : Connection) : Prop where
  fresh : ∀ ⦃id s⦄, c.streams.lookup id = some s → id < c.nextStreamId
  unborn : ∀ ⦃id⦄, c.nextStreamId ≤ id → (∀ req, .request id req ∉ evs) ∧ dataOn id evs = []
  requests : ∀ ⦃pre id req post⦄, evs = pre ++ .request id req :: post →
    dataOn id pre = [] ∧ Carries id req.body post ∧ HeadsEnd id req.body post ∧
      ∀ s, c.streams.lookup id = some s → s.HasSent req.body (dataOn id post)

section

variable {evs new : List Event} {c c' : Connection}

theorem Delivering.of_empty (h : c.streams.entries = []) : Delivering [] c where
  fresh id s hs := by
    rw [AList.lookup, h] at hs
    cases hs
  unborn id _ := ⟨fun req => List.not_mem_nil, rfl⟩
  requests pre id req post heq := by
    have hlen := congrArg List.length heq
    rw [List.length_append] at hlen
    cases hlen

/-- A stream with a request on it has been opened. -/
theorem Delivering.born (h : Delivering evs c) {pre post : List Event} {id : Nat} {req : Request}
    (heq : evs = pre ++ .request id req :: post) : id < c.nextStreamId := by
  by_contra hle
  refine (h.unborn (Nat.not_lt.mp hle)).1 req ?_
  rw [heq]
  exact List.mem_append_right _ List.mem_cons_self

/-- Events aside from the request on `id` change nothing about it. -/
theorem carries_aside {id : Nat} {body : Bytes} {post new : List Event}
    (h : Carries id body post) (hheads : HeadsEnd id body post) (haside : Aside id new) :
    Carries id body (post ++ new) ∧ HeadsEnd id body (post ++ new) ∧
      dataOn id (post ++ new) = dataOn id post := by
  obtain ⟨hcarries, hdata⟩ :=
    carries_of_no_data (body.drop (dataOn id post).length) haside.no_data
  refine ⟨(carries_append id body post new).mpr ⟨h, hcarries⟩,
    hheads.append (haside.headsEnd body), ?_⟩
  rw [dataOn_append, hdata, List.append_nil]

/-- Acts that put no request on a stream and are aside from all of them. -/
theorem Delivering.aside (h : Delivering evs c) (hnext : c'.nextStreamId = c.nextStreamId)
    (hreq : ∀ id req, .request id req ∉ new) (haside : ∀ id, Aside id new)
    (hstreams : ∀ ⦃id s'⦄, c'.streams.lookup id = some s' →
      ∃ s, c.streams.lookup id = some s ∧ s'.pendingBody = s.pendingBody) :
    Delivering (evs ++ new) c' where
  fresh id s' hs' := by
    obtain ⟨s, hs, -⟩ := hstreams hs'
    rw [hnext]
    exact h.fresh hs
  unborn id hid := by
    rw [hnext] at hid
    obtain ⟨hno, hdata⟩ := h.unborn hid
    refine ⟨fun req hmem => ?_, ?_⟩
    · rcases List.mem_append.mp hmem with hmem | hmem
      · exact hno req hmem
      · exact hreq id req hmem
    · rw [dataOn_append, hdata, (carries_of_no_data [] (haside id).no_data).2]
      rfl
  requests pre id req post heq := by
    rcases Base.append_eq_split heq with ⟨post', heq', rfl⟩ | ⟨pre', -, hnew⟩
    · obtain ⟨hpre, hcarries, hheads, hsent⟩ := h.requests heq'
      obtain ⟨hcarries', hheads', hdata⟩ := carries_aside hcarries hheads (haside id)
      refine ⟨hpre, hcarries', hheads', fun s' hs' => ?_⟩
      obtain ⟨s, hs, hpending⟩ := hstreams hs'
      rw [hdata, Stream.HasSent, hpending]
      exact hsent s hs
    · refine absurd ?_ (hreq id req)
      rw [hnew]
      exact List.mem_append_right _ List.mem_cons_self

/-- A stream is opened. -/
theorem Delivering.opens (h : Delivering evs c) (hnext : c'.nextStreamId = c.nextStreamId + 2)
    {s : Stream} (hstreams : c'.streams = c.streams.insert c.nextStreamId s) :
    Delivering (evs ++ [.opened c.nextStreamId]) c' := by
  have haside : ∀ id, Aside id [.opened c.nextStreamId] := by
    intro id f hf
    cases List.mem_singleton.mp hf
  refine ⟨fun id s' hs' => ?_, fun id hid => ?_, fun pre id req post heq => ?_⟩
  · rw [hstreams] at hs'
    by_cases hj : id = c.nextStreamId
    · omega
    · rw [AList.lookup_insert_ne hj] at hs'
      have hlt := h.fresh hs'
      omega
  · have hunborn : c.nextStreamId ≤ id := by omega
    obtain ⟨hno, hdata⟩ := h.unborn hunborn
    refine ⟨fun req hmem => ?_, ?_⟩
    · rcases List.mem_append.mp hmem with hmem | hmem
      · exact hno req hmem
      · cases List.mem_singleton.mp hmem
    · rw [dataOn_append, hdata]
      rfl
  · rcases Base.append_eq_split heq with ⟨post', heq', rfl⟩ | ⟨pre', -, hnew⟩
    · obtain ⟨hpre, hcarries, hheads, hsent⟩ := h.requests heq'
      obtain ⟨hcarries', hheads', hdata⟩ := carries_aside hcarries hheads (haside id)
      refine ⟨hpre, hcarries', hheads', fun s' hs' => ?_⟩
      rw [hstreams, AList.lookup_insert_ne (Nat.ne_of_lt (h.born heq'))] at hs'
      rw [hdata]
      exact hsent s' hs'
    · have hmem : Event.request id req ∈ [Event.opened c.nextStreamId] := by
        rw [hnew]
        exact List.mem_append_right _ List.mem_cons_self
      cases List.mem_singleton.mp hmem

/-- A request is started: its headers are written and its body is staged. -/
theorem Delivering.starts (h : Delivering evs c) {req : Request} {frames : List Frame}
    (hnext : c'.nextStreamId = c.nextStreamId + 2)
    (hheads : HeadsEnd c.nextStreamId req.body (frames.map .outbound))
    (hframes : ∀ f ∈ frames, f.streamId = c.nextStreamId ∧ f.typ ≠ fData) {s : Stream}
    (hstreams : c'.streams = c.streams.insert c.nextStreamId s)
    (hsent : s.HasSent req.body []) :
    Delivering (evs ++ .opened c.nextStreamId :: .request c.nextStreamId req ::
      frames.map .outbound) c' := by
  have hmem : ∀ {f}, .outbound f ∈ Event.opened c.nextStreamId ::
      .request c.nextStreamId req :: frames.map .outbound → f ∈ frames := by
    intro f hf
    rcases List.mem_cons.mp hf with heq | hf
    · cases heq
    rcases List.mem_cons.mp hf with heq | hf
    · cases heq
    obtain ⟨g, hg, heq⟩ := List.mem_map.mp hf
    exact Event.outbound.inj heq ▸ hg
  have hno : ∀ {j req'}, .request j req' ∉ frames.map Event.outbound := by
    intro j req' hf
    obtain ⟨g, -, heq⟩ := List.mem_map.mp hf
    cases heq
  have haside : ∀ {j}, j ≠ c.nextStreamId → Aside j (.opened c.nextStreamId ::
      .request c.nextStreamId req :: frames.map .outbound) := by
    intro j hj f hf
    refine .inr fun hid => hj ?_
    rw [← hid]
    exact (hframes f (hmem hf)).1
  have hquiet : ∀ f, .outbound f ∈ frames.map Event.outbound →
      ¬ (f.typ = fData ∧ f.streamId = c.nextStreamId) := by
    rintro f hf ⟨htyp, -⟩
    obtain ⟨g, hg, heq⟩ := List.mem_map.mp hf
    obtain rfl := Event.outbound.inj heq
    exact (hframes g hg).2 htyp
  obtain ⟨hcarries₀, hdata₀⟩ := carries_of_no_data req.body hquiet
  refine ⟨fun id s' hs' => ?_, fun id hid => ?_, fun pre id req' post heq => ?_⟩
  · rw [hstreams] at hs'
    by_cases hj : id = c.nextStreamId
    · omega
    · rw [AList.lookup_insert_ne hj] at hs'
      have hlt := h.fresh hs'
      omega
  · have hj : id ≠ c.nextStreamId := by omega
    have hunborn : c.nextStreamId ≤ id := by omega
    obtain ⟨hnone, hdata⟩ := h.unborn hunborn
    refine ⟨fun req' hin => ?_, ?_⟩
    · rcases List.mem_append.mp hin with hin | hin
      · exact hnone req' hin
      rcases List.mem_cons.mp hin with heq | hin
      · cases heq
      rcases List.mem_cons.mp hin with heq | hin
      · exact hj (Event.request.inj heq).1
      · exact hno hin
    · rw [dataOn_append, hdata, (carries_of_no_data [] (haside hj).no_data).2]
      rfl
  · rcases Base.append_eq_split heq with ⟨post', heq', rfl⟩ | ⟨pre', rfl, hnew⟩
    · have hj : id ≠ c.nextStreamId := Nat.ne_of_lt (h.born heq')
      obtain ⟨hpre, hcarries, hheads', hsent'⟩ := h.requests heq'
      obtain ⟨hcarries', hheads'', hdata⟩ := carries_aside hcarries hheads' (haside hj)
      refine ⟨hpre, hcarries', hheads'', fun s' hs' => ?_⟩
      rw [hstreams, AList.lookup_insert_ne hj] at hs'
      rw [hdata]
      exact hsent' s' hs'
    · -- the request is the one that is started
      obtain ⟨rfl, rfl, rfl, rfl⟩ : pre' = [.opened c.nextStreamId] ∧ id = c.nextStreamId ∧
          req' = req ∧ post = frames.map .outbound := by
        cases pre' with
        | nil => cases (List.cons.inj hnew).1
        | cons e pre' =>
            obtain ⟨rfl, hrest⟩ := List.cons.inj hnew
            cases pre' with
            | nil =>
                obtain ⟨hhead, rfl⟩ := List.cons.inj hrest
                obtain ⟨rfl, rfl⟩ := Event.request.inj hhead
                exact ⟨rfl, rfl, rfl, rfl⟩
            | cons e' pre' =>
                obtain ⟨-, hrest⟩ := List.cons.inj hrest
                have hmem : .request id req' ∈ frames.map Event.outbound := by
                  rw [hrest]
                  exact List.mem_append_right _ List.mem_cons_self
                exact absurd hmem hno
      refine ⟨?_, hcarries₀, hheads, fun s' hs' => ?_⟩
      · rw [dataOn_append, (h.unborn (Nat.le_refl _)).2]
        rfl
      · rw [hstreams, AList.lookup_insert] at hs'
        rw [hdata₀, ← Option.some.inj hs']
        exact hsent

/-- The next chunk of a body: what it looks like behind what has gone out. -/
theorem chunk_carries {id n sent : Nat} {body : Bytes} {isLast : Bool} {post : List Event}
    (h : Carries id body post) (hdata : dataOn id post = body.take sent) (hpos : n ≠ 0)
    (hle : n ≤ body.length - sent) (hlast : isLast = decide (n = body.length - sent)) :
    Carries id body (post ++ [.outbound (dataFrame id ((body.drop sent).take n) isLast)]) ∧
      dataOn id (post ++ [.outbound (dataFrame id ((body.drop sent).take n) isLast)]) =
        body.take (sent + n) := by
  have hlen : (body.take sent).length = sent := by
    rw [List.length_take]
    omega
  have hpayload : (dataFrame id ((body.drop sent).take n) isLast).payload =
    (body.drop sent).take n := rfl
  constructor
  · rw [carries_append, hdata, hlen, Carries, if_pos ⟨rfl, rfl⟩, dataFrame_ends, hpayload]
    refine ⟨h, ?_, List.take_prefix _ _, trivial⟩
    have hne : (body.drop sent).take n ≠ [] := by
      intro hnil
      have hzero := congrArg List.length hnil
      rw [List.length_take, List.length_drop, List.length_nil] at hzero
      omega
    rw [hlast, decide_eq_true_iff, List.take_eq_self_iff, List.length_drop]
    exact ⟨fun heq => ⟨hne, by omega⟩, fun hall => by omega⟩
  · rw [dataOn_append, hdata, dataOn_cons, dataOn_nil, List.append_nil, Event.data,
      if_pos ⟨rfl, rfl⟩, hpayload, List.take_add]

/-- A chunk goes out: what is written for each request. -/
theorem Delivering.chunk (h : Delivering evs c) {id n : Nat} {s : Stream} {pb : PendingBody}
    {isLast : Bool} (hs : c.streams.lookup id = some s) (hpending : s.pendingBody = some pb)
    (hpos : n ≠ 0) (hle : n ≤ pb.bytes.length - pb.sent)
    (hlast : isLast = decide (n = pb.bytes.length - pb.sent)) {pre post : List Event} {j : Nat}
    {req : Request}
    (heq : evs ++ [.outbound (dataFrame id ((pb.bytes.drop pb.sent).take n) isLast)] =
      pre ++ .request j req :: post) :
    dataOn j pre = [] ∧ Carries j req.body post ∧ HeadsEnd j req.body post ∧
      (j ≠ id → ∀ t, c.streams.lookup j = some t → t.HasSent req.body (dataOn j post)) ∧
      (j = id → pb.bytes = req.body ∧ dataOn j post = req.body.take (pb.sent + n)) := by
  have hends : HeadsEnd j req.body
      [.outbound (dataFrame id ((pb.bytes.drop pb.sent).take n) isLast)] := by
    intro f hf htyp
    obtain rfl := Event.outbound.inj (List.mem_singleton.mp hf)
    exact absurd htyp (by show fData ≠ fHeaders; decide)
  rcases Base.append_eq_split heq with ⟨post', heq', rfl⟩ | ⟨pre', -, hnew⟩
  · obtain ⟨hpre, hcarries, hheads, hsent⟩ := h.requests heq'
    by_cases hj : j = id
    · subst hj
      have hbody := hsent s hs
      rw [Stream.HasSent, hpending] at hbody
      obtain ⟨hbytes, hdata⟩ := hbody
      rw [hbytes] at hle hlast ⊢
      rw [hbytes] at hends
      obtain ⟨hcarries', hdata'⟩ := chunk_carries hcarries hdata hpos hle hlast
      exact ⟨hpre, hcarries', hheads.append hends, fun hne => absurd rfl hne,
        fun _ => ⟨rfl, hdata'⟩⟩
    · have haside : Aside j [.outbound (dataFrame id ((pb.bytes.drop pb.sent).take n) isLast)] := by
        intro f hf
        obtain rfl := Event.outbound.inj (List.mem_singleton.mp hf)
        exact .inr (Ne.symm hj)
      obtain ⟨hcarries', hheads', hdata⟩ := carries_aside hcarries hheads haside
      refine ⟨hpre, hcarries', hheads', fun _ t ht => ?_, fun heq => absurd heq hj⟩
      rw [hdata]
      exact hsent t ht
  · have hmem : Event.request j req ∈
        [Event.outbound (dataFrame id ((pb.bytes.drop pb.sent).take n) isLast)] := by
      rw [hnew]
      exact List.mem_append_right _ List.mem_cons_self
    cases List.mem_singleton.mp hmem

/-- A chunk goes out, and the pump notes it. -/
theorem Delivering.pump (h : Delivering evs c) {id n : Nat} {s s' : Stream} {pb : PendingBody}
    {isLast : Bool} (hs : c.streams.lookup id = some s) (hpending : s.pendingBody = some pb)
    (hpos : n ≠ 0) (hle : n ≤ pb.bytes.length - pb.sent)
    (hlast : isLast = decide (n = pb.bytes.length - pb.sent))
    (hnext : c'.nextStreamId = c.nextStreamId) (hstreams : c'.streams = c.streams.insert id s')
    (hnoted : s'.pendingBody = if isLast then none else some { pb with sent := pb.sent + n }) :
    Delivering (evs ++ [.outbound (dataFrame id ((pb.bytes.drop pb.sent).take n) isLast)]) c' := by
  refine ⟨fun j t ht => ?_, fun j hj => ?_, fun pre j req post heq => ?_⟩
  · rw [hstreams] at ht
    rw [hnext]
    rcases Base.Table.lookup_insert_cases ht with ⟨rfl, -⟩ | ⟨-, ht⟩
    · exact h.fresh hs
    · exact h.fresh ht
  · rw [hnext] at hj
    obtain ⟨hno, hdata⟩ := h.unborn hj
    have hne : id ≠ j := Nat.ne_of_lt (Nat.lt_of_lt_of_le (h.fresh hs) hj)
    refine ⟨fun req hmem => ?_, ?_⟩
    · rcases List.mem_append.mp hmem with hmem | hmem
      · exact hno req hmem
      · cases List.mem_singleton.mp hmem
    · rw [dataOn_append, hdata, dataOn_cons, Event.data, if_neg fun hf => hne hf.2]
      rfl
  · obtain ⟨hpre, hcarries, hheads, hothers, hself⟩ := h.chunk hs hpending hpos hle hlast heq
    refine ⟨hpre, hcarries, hheads, fun t ht => ?_⟩
    rw [hstreams] at ht
    rcases Base.Table.lookup_insert_cases ht with ⟨rfl, rfl⟩ | ⟨hj, ht⟩
    · obtain ⟨hbytes, hdata⟩ := hself rfl
      rw [Stream.HasSent, hnoted, hdata, ← hbytes]
      cases isLast with
      | true =>
          have hall := of_decide_eq_true hlast.symm
          exact List.take_of_length_le (by omega)
      | false => exact ⟨rfl, rfl⟩
    · exact hothers hj t ht

/-- A body of which nothing is left is cleared. -/
theorem Delivering.cleared (h : Delivering evs c) {id : Nat} {s : Stream} {pb : PendingBody}
    (hs : c.streams.lookup id = some s) (hpending : s.pendingBody = some pb)
    (hsent : pb.bytes.length - pb.sent = 0) :
    Delivering evs (c.setStream id { s with pendingBody := none }) := by
  refine ⟨fun j t ht => ?_, h.unborn, fun pre j req post heq => ?_⟩
  · rcases Base.Table.lookup_insert_cases ht with ⟨rfl, -⟩ | ⟨-, ht⟩
    · exact h.fresh hs
    · exact h.fresh ht
  · obtain ⟨hpre, hcarries, hheads, hall⟩ := h.requests heq
    refine ⟨hpre, hcarries, hheads, fun t ht => ?_⟩
    rcases Base.Table.lookup_insert_cases ht with ⟨rfl, rfl⟩ | ⟨hj, ht⟩
    · have hbody := hall s hs
      rw [Stream.HasSent, hpending] at hbody
      obtain ⟨hbytes, hdata⟩ := hbody
      show dataOn j post = req.body
      rw [hdata, ← hbytes]
      exact List.take_of_length_le (by omega)
    · exact hall t ht

theorem aside_outbound {fs : List Frame} (h : ∀ g ∈ fs, g.Plain) {e : Event}
    (he : ∀ f, e ≠ .outbound f) (id : Nat) : Aside id (e :: fs.map .outbound) := by
  intro f hf
  rcases List.mem_cons.mp hf with heq | hf
  · exact absurd heq.symm (he f)
  · obtain ⟨g, hg, heq⟩ := List.mem_map.mp hf
    exact .inl (Event.outbound.inj heq ▸ h g hg)

/-- A frame was taken in. -/
theorem Delivering.received (h : Delivering evs c) {source : Source} {f : Frame}
    {res : Result DispatchOutcome} (handled : Bool) {fs : List Frame}
    (hframe : (c.receive source f).processFrame f = (res, c')) (hfs : ∀ g ∈ fs, g.Plain) :
    Delivering (evs ++ .inbound f handled :: fs.map .outbound) c' := by
  have heff := processFrame_effect (c.receive source f) f
  have htouch := processFrame_touch (c.receive source f) f
  rw [hframe] at heff htouch
  refine h.aside heff.next_eq (fun id req hmem => ?_) (aside_outbound hfs nofun)
    fun id s' hs' => ?_
  · rcases List.mem_cons.mp hmem with heq | hmem
    · cases heq
    · obtain ⟨g, -, heq⟩ := List.mem_map.mp hmem
      cases heq
  · obtain ⟨s, hs, -, hpending⟩ := htouch hs'
    exact ⟨s, hs, hpending⟩

theorem Delivering.step (h : Delivering evs c) (hstep : Live c new c') :
    Delivering (evs ++ new) c' := by
  have hnone : ∀ id, Aside id [] := fun id f hf => absurd hf List.not_mem_nil
  have hquiet : ∀ id req, Event.request id req ∉ [] := fun id req => List.not_mem_nil
  cases hstep with
  | acts hact =>
      cases hact with
      | opens hopen =>
          obtain ⟨rfl, rfl⟩ := openStream_eq_ok hopen
          exact h.opens rfl rfl
      | heads hmulti => exact absurd rfl hmulti
      | @starts id req c₁ _ _ hopen hstage =>
          obtain ⟨rfl, rfl⟩ := openStream_eq_ok hopen
          obtain ⟨s, state, sink, pending, hs, -, -, hpending, rfl⟩ := stageRequestOn_eq_ok hstage
          obtain ⟨hheads, hframes⟩ := headsEnd_headerFrames _ c.nextStreamId req
          refine h.starts rfl hheads hframes (AList.insert_insert ..) ?_
          obtain rfl := Option.some.inj ((AList.lookup_insert _).symm.trans hs)
          rw [Stream.HasSent, hpending]
          split_ifs with hbody
          · exact (List.isEmpty_iff.mp hbody).symm
          · exact ⟨rfl, rfl⟩
      | chunk hmulti => exact absurd rfl hmulti
      | @pump id n s pb isLast res c₁ _ hs hpending hsize hpos hlast hwrite hsend hok =>
          obtain ⟨s', rfl⟩ := hok rfl
          obtain ⟨state, sink, -, rfl, hres⟩ := sendChunk_spec hwrite hsend
          have hle : n ≤ pb.bytes.length - pb.sent := by
            rw [hsize]
            exact nextDataChunkSize_le_remaining ..
          exact h.pump hs hpending hpos hle hlast rfl (AList.insert_insert ..) rfl
      | cleared _ hs hpending hsent =>
          rw [List.append_nil]
          exact h.cleared hs hpending hsent
      | @handled source f _ _ hframe =>
          exact h.received true hframe fun g hg => answers_plain c f hg
      | refused hok => cases hok
      | drops hstays =>
          exact h.aside rfl hquiet hnone fun id s hs => ⟨s, hstays hs, rfl⟩
      | breaks hok => cases hok
  | refused hframe => exact @Delivering.received _ _ _ h _ _ _ false [] hframe (List.forall_mem_nil _)
  | breaks => exact h.aside rfl hquiet hnone fun id s hs => ⟨s, hs, rfl⟩

end

/-- What the events say has been written for every request of a batch. -/
def BodiesDelivered (evs : List Event) : Prop :=
  ∀ pre id req post, evs = pre ++ .request id req :: post →
    dataOn id pre = [] ∧ Delivers id req.body post

theorem Delivering.delivered {evs : List Event} {c : Connection} (h : Delivering evs c) :
    BodiesDelivered evs := by
  intro pre id req post heq
  obtain ⟨hpre, hcarries, hheads, -⟩ := h.requests heq
  exact ⟨hpre, hcarries.delivers hheads⟩

/-- An act that may be the last one. -/
theorem Delivering.acts {evs new : List Event} {c c' : Connection} (h : Delivering evs c)
    (hact : Acts .multi false c new c') : BodiesDelivered (evs ++ new) := by
  cases hact with
  | opens hopen => exact (h.step (.acts (.opens hopen))).delivered
  | heads hmulti => exact absurd rfl hmulti
  | starts hp hopen hstage => exact (h.step (.acts (.starts hp hopen hstage))).delivered
  | chunk hmulti => exact absurd rfl hmulti
  | @pump id n s pb isLast res c₁ _ hs hpending hsize hpos hlast =>
      have hle : n ≤ pb.bytes.length - pb.sent := by
        rw [hsize]
        exact nextDataChunkSize_le_remaining ..
      intro pre j req post heq
      obtain ⟨hpre, hcarries, hheads, -⟩ := h.chunk hs hpending hpos hle hlast heq
      exact ⟨hpre, hcarries.delivers hheads⟩
  | handled hframe => exact (h.step (.acts (.handled hframe))).delivered
  | refused _ hframe => exact (h.step (.refused hframe)).delivered
  | cleared | drops | breaks =>
      rw [List.append_nil]
      exact h.delivered

/-- A batch on a connection without streams: what is written for its requests, all of it once a
stream has nothing more to send. -/
theorem delivers_batch {c c' : Connection} {evs : List Event} (hempty : c.streams.entries = [])
    (h : Base.Trace Live c evs c') :
    BodiesDelivered evs ∧
      (∀ pre id req post s, evs = pre ++ .request id req :: post →
        c'.streams.lookup id = some s → s.pendingBody = none → dataOn id post = req.body) ∧
      ∀ new c'', Acts .multi false c' new c'' → BodiesDelivered (evs ++ new) := by
  have hinv := Base.Trace.invariant (I := Delivering) (.of_empty hempty) Delivering.step h
  refine ⟨hinv.delivered, fun pre id req post s heq hs hnone => ?_, fun new c'' => hinv.acts⟩
  obtain ⟨-, -, -, hsent⟩ := hinv.requests heq
  have hall := hsent s hs
  rw [Stream.HasSent, hnone] at hall
  exact hall

end Rsurl.H2
