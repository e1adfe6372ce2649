/-
# `Rsurl.Grammar` — what of the message grammar is checked

A response of HTTP/2 or HTTP/3 comes from a stream that has ended: on HTTP/2
END_STREAM came once and no HEADERS or DATA after it, on HTTP/3 the bytes up to
FIN are whole frames.  Its status is that of the last header section on HTTP/2,
of the first on HTTP/3.  The order of sections and content, and the length that
a head announces, are not looked at by either.
-/
import Rsurl.H2.HeardBatch
import Rsurl.H3.Accepted
import Rsurl.Http.Framing
import Rsurl.Http.Read

namespace Rsurl

open Message (Event Legal Head)
open Http (Header Request Response)

/-! ## The grammar -/

/-- A legal message whose content, if it may have any, is as long as its head says. -/
def Message.Grammatical (method : Text) (events : List Event) : Prop :=
  ∃ heads head body, Legal events heads head body ∧
    (Http.isBodiless method head.status = false →
      ∀ h ∈ Http.named head.headers "content-length", Http.lengthOf h.2 = some body.length)

/-- A message does not begin with content. -/
theorem Message.not_grammatical_of_data {method : Text} {payload : Bytes} {events : List Event} :
    ¬Message.Grammatical method (.data payload :: events) := by
  rintro ⟨heads, head, body, hlegal, -⟩
  cases hlegal

/-- The status is one that the section gives. -/
def Message.Gives (fields : List Header) (status : UInt16) : Prop :=
  ∃ v, (":status".toList, v) ∈ fields ∧ parseU16 v = some status

/-! ## Where the status comes from -/

theorem H3.gives_of_splitFields {fields : List Header} {status : Option UInt16} {n : UInt16}
    {hdrs hdrs' : List Header} (h : H3.splitFields fields status hdrs = .ok (some n, hdrs')) :
    status = some n ∨ Message.Gives fields n := by
  induction fields generalizing status hdrs with
  | nil =>
      cases h
      exact .inl rfl
  | cons f fields ih =>
      obtain ⟨k, v⟩ := f
      have hlater : ∀ {status}, (status = some n ∨ Message.Gives fields n) →
          status = some n ∨ Message.Gives ((k, v) :: fields) n := by
        rintro status (hstatus | ⟨w, hmem, hw⟩)
        · exact .inl hstatus
        · exact .inr ⟨w, List.mem_cons_of_mem _ hmem, hw⟩
      rw [H3.splitFields] at h
      split at h
      · rename_i hk
        split at h
        · rename_i m hm
          rcases ih h with hfirst | ⟨w, hmem, hw⟩
          · exact .inr ⟨v, hk ▸ List.mem_cons_self, hm.trans hfirst⟩
          · exact .inr ⟨w, List.mem_cons_of_mem _ hmem, hw⟩
        · cases h
      · split at h
        · exact hlater (ih h)
        · exact hlater (ih h)

/-- The header loops of the two protocols differ in the text of an error. -/
theorem H2.splitFields_of_cleanHeaders {fields : List Header} {status : Option UInt16}
    {hdrs : List Header} {x : Option UInt16 × List Header}
    (h : H2.cleanHeaders fields status hdrs = .ok x) : H3.splitFields fields status hdrs = .ok x := by
  induction fields generalizing status hdrs with
  | nil => exact h
  | cons f fields ih =>
      obtain ⟨k, v⟩ := f
      rw [H2.cleanHeaders] at h
      rw [H3.splitFields]
      by_cases hk : k = ":status".toList
      · rw [if_pos hk] at h ⊢
        cases hm : parseU16 v with
        | none =>
            simp only [hm] at h
            cases h
        | some m =>
            simp only [hm] at h ⊢
            exact ih h
      · rw [if_neg hk] at h ⊢
        by_cases hpseudo : k.head? = some ':'
        · rw [if_pos hpseudo] at h ⊢
          exact ih h
        · rw [if_neg hpseudo] at h ⊢
          exact ih h

theorem H3.gives_of_finalizeResponse {codec : Codec} {fields : List Header} {body : Bytes}
    {r : Response} (h : H3.finalizeResponse codec fields body = .ok r) :
    Message.Gives fields r.status := by
  obtain ⟨⟨status, hdrs⟩, hsplit, h⟩ := Result.bind_eq_ok.mp h
  cases status with
  | none => cases h
  | some status =>
      obtain ⟨out, -, h⟩ := Result.bind_eq_ok.mp h
      cases h
      exact (H3.gives_of_splitFields hsplit).resolve_left nofun

theorem H2.gives_of_buildResponse {codec : Codec} {s : H2.Stream} {r : Response}
    (h : H2.buildResponseFromStream codec s = .ok r) :
    ∃ fields, s.responseHeaders = some fields ∧ Message.Gives fields r.status := by
  rw [H2.buildResponseFromStream] at h
  cases hheaders : s.responseHeaders with
  | none => rw [hheaders] at h; cases h
  | some fields =>
      rw [hheaders] at h
      obtain ⟨⟨status, hdrs⟩, hsplit, h⟩ := Result.bind_eq_ok.mp h
      cases status with
      | none => cases h
      | some status =>
          obtain ⟨out, -, h⟩ := Result.bind_eq_ok.mp h
          cases h
          exact ⟨fields, rfl,
            (H3.gives_of_splitFields (H2.splitFields_of_cleanHeaders hsplit)).resolve_left nofun⟩

/-! ## What an answer tells -/

namespace H2

/-- The history that the answer comes from: ended once, and its last section gives the status. -/
structure Answers (codec : Codec) (p : Path) (ok : Bool) (id : Nat) (c : Connection)
    (heard : List Heard) (c' : Connection) (r : Response) : Prop where
  built : BuiltOn codec p ok id c heard c' r
  once : EndsOnce id heard
  gives : ∃ fields, lastFields heard = some fields ∧ Message.Gives fields r.status

theorem BuiltOn.answers {codec : Codec} {p : Path} {ok : Bool} {id : Nat} {c c' : Connection}
    {heard : List Heard} {r : Response} (h : BuiltOn codec p ok id c heard c' r) :
    Answers codec p ok id c heard c' r := by
  obtain ⟨s, hbrought, hbuild⟩ := h
  obtain ⟨fields, hfields, hgives⟩ := gives_of_buildResponse hbuild
  obtain ⟨c₁, hopen, htrace⟩ := hbrought.opened
  have htold := told_of_trace hopen hbrought.nonzero htrace hbrought.stream
  obtain ⟨honce, hlast⟩ := htold.of_complete hbrought.complete
  exact ⟨⟨s, hbrought, hbuild⟩, honce, fields, hlast.symm.trans hfields, hgives⟩

/-- The ids of a connection do not come down to zero. -/
theorem Used.next_ne_zero {codec : Codec} {tls : Tls} {c₀ c : Connection}
    (hnew : Connection.new tls = .ok c₀) (h : Used codec c₀ c) : c.nextStreamId ≠ 0 := by
  obtain ⟨evs, htrace⟩ := h.traced (sane_of_new hnew)
  have hnext := Traced.next htrace
  have hone := (fresh_of_new hnew).next
  omega

end H2

/-- The frames that the answer comes from: whole up to FIN, and their first section gives the
status. -/
structure H3.Answers (codec : Codec) (st : H3.Http3State) (ts : List H3.Turn) (bytes : Bytes)
    (events : List Event) (r : Response) : Prop where
  reads : H3.Reads ts bytes
  taken : H3.Taken (H3.Comes st ts) bytes events
  built : ∃ fields, (Message.sections events).head? = some fields ∧ Message.Gives fields r.status ∧
    H3.finalizeResponse codec fields (Message.content events) = .ok r

/-- A response is returned only from a stream that was ended, by the frames that came on it during
the call, and with the status of the last section on HTTP/2 (in a batch, unless one of these frames
was refused), of the first on HTTP/3. -/
theorem answers_ended (codec : Codec) {tls : H2.Tls} {c₀ c : H2.Connection}
    (hnew : H2.Connection.new tls = .ok c₀) (hused : H2.Used codec c₀ c) :
    (∀ req r, (H2.runOneRequest codec c req).1 = .ok r →
      ∃ heard c' frames, H2.Answers codec .single true c.nextStreamId c heard c' r ∧
        (H2.runOneRequest codec c req).2 = H2.Connection.pruneCompletedStreams
          { c' with streams := c'.streams.erase c.nextStreamId } ∧
        (H2.runOneRequest codec c req).2.tls.received = c.tls.received ++ frames ∧
        heard.map H2.Heard.frame = frames.filter fun f => f.streamId = c.nextStreamId) ∧
    (∀ reqs, ∃ evs, Base.Trace (H2.Batch.Does codec reqs) (H2.Batch.init c reqs) evs
        (H2.Batch.final codec c reqs) ∧
      (H2.runMultiplexed codec c reqs).2.tls.received =
        c.tls.received ++ evs.filterMap H2.Event.came ∧
      ∀ idx r, (H2.runMultiplexed codec c reqs).1[idx]? = some (.ok r) →
        H2.Batch.Answered codec reqs c evs (H2.Batch.final codec c reqs) idx
          fun id c₀ heard c' => H2.Answers codec .multi false id c₀ heard c' r) ∧
    ∀ st ts r, H3.readResponse codec ts st = some (.ok r) →
      ∃ bytes events, H3.Answers codec st ts bytes events r := by
  have hzero := hused.next_ne_zero hnew
  refine ⟨fun req r hout => ?_, fun reqs => ?_, fun st ts r hout => ?_⟩
  · obtain ⟨heard, c', hbuilt, hends⟩ := H2.builtOn_runOneRequest hzero hout
    obtain ⟨frames, hreceived, hheard⟩ := hbuilt.frames
    exact ⟨heard, c', frames, hbuilt.answers, hends, by rw [hends]; exact hreceived, hheard⟩
  · obtain ⟨evs, htrace, hreceived, hall⟩ := H2.Batch.answered_runMultiplexed codec hzero
    exact ⟨evs, htrace, hreceived, fun idx r hr => (hall idx r hr).mono H2.BuiltOn.answers⟩
  · obtain ⟨bytes, events, fields, hreads, htaken, hfirst, hfinal⟩ :=
      H3.taken_of_readResponse hout
    exact ⟨bytes, events, hreads, htaken, fields, hfirst, H3.gives_of_finalizeResponse hfinal,
      hfinal⟩

/-- A connection on which an answer comes, with the headers 200 and no content. -/
def answered : H2.Connection := .dial ⟨[0, 0, 1, 1, 5, 0, 0, 0, 1, 0x88], none⟩

/-- It answers a single request, and a batch of one; on HTTP/3 such an answer is read, too. -/
theorem answers_ended_ok :
    (∃ heard c', H2.Answers (fun _ _ _ => .error []) .single true 1 answered heard c'
      ⟨200, [], "HTTP/2".toList, [], []⟩) ∧
    (∃ evs, H2.Batch.Answered (fun _ _ _ => .error []) [H2.sampleGet] answered evs
      (H2.Batch.final (fun _ _ _ => .error []) answered [H2.sampleGet]) 0 fun id c₀ heard c' =>
        H2.Answers (fun _ _ _ => .error []) .multi false id c₀ heard c'
          ⟨200, [], "HTTP/2".toList, [], []⟩) ∧
    ∃ bytes events, H3.Answers (fun _ _ _ => .error []) (.new none)
      (H3.quietTurns [] [1, 3, 0, 0, 0xd9]) bytes events ⟨200, [], "HTTP/3".toList, [], []⟩ := by
  obtain ⟨hone, hmany, hthird⟩ := answers_ended (fun _ _ _ => .error [])
    (H2.new_dial ⟨[0, 0, 1, 1, 5, 0, 0, 0, 1, 0x88], none⟩) .fresh
  refine ⟨?_, ?_, hthird _ _ _ (by decide +kernel)⟩
  · obtain ⟨heard, c', frames, hanswers, -⟩ :=
      hone H2.sampleGet ⟨200, [], "HTTP/2".toList, [], []⟩ (by decide +kernel)
    exact ⟨heard, c', hanswers⟩
  · obtain ⟨evs, -, -, hall⟩ := hmany [H2.sampleGet]
    exact ⟨evs, hall 0 _ (by decide +kernel)⟩

/-! ## What it does not tell -/

namespace H2

/-- What a frame that was handled brings. -/
def Heard.event (h : Heard) : Message.Event :=
  if h.frame.typ = fData then .data ((Connection.dataPayload h.frame).toOption.getD [])
  else
    match h.fields with
    | some fields => .headers fields
    | none => .other

/-- The history of the stream `id` that frames make one after the other. -/
def hear (id : Nat) : Connection → List Frame → Option (List Heard × Connection)
  | c, [] => some ([], c)
  | c, f :: fs =>
      match c.streams.lookup id with
      | none => none
      | some s =>
          if f.streamId = id ∧ s.complete = false then
            match (c.receive c.tls.source f).processFrame f with
            | (.ok _, c') => (hear id c' fs).map fun p => (⟨f, c.fieldsOf f s⟩ :: p.1, p.2)
            | (.error _, _) => none
          else none

theorem trace_of_hear {id : Nat} {fs : List Frame} {c c' : Connection} {heard : List Heard}
    (h : hear id c fs = some (heard, c')) : Base.Trace (Hears .single true id) c heard c' := by
  induction fs generalizing c heard with
  | nil =>
      cases h
      exact .nil
  | cons f fs ih =>
      rw [hear] at h
      split at h
      · cases h
      · rename_i s hs
        split at h
        · rename_i hon
          split at h
          · rename_i o c₁ hframe
            obtain ⟨⟨heard', c''⟩, hrest, heq⟩ := Option.map_eq_some_iff.mp h
            cases heq
            exact (Base.Trace.single (.frame hon.1 hs hon.2 hframe)).trans (ih hrest)
          · cases h
        · cases h

/-- DATA, a head that announces nine bytes, and an interim one that ends the stream. -/
def disordered : List Frame :=
  [{ typ := fData, flags := 0, streamId := 1, payload := [0x61] },
    { typ := fHeaders, flags := 0x4, streamId := 1, payload := [0x88, 0x0f, 0x0d, 0x01, 0x39] },
    { typ := fHeaders, flags := 0x5, streamId := 1, payload := [0x08, 0x03, 0x31, 0x30, 0x33] }]

/-- A connection on which they come. -/
def disorderly : Connection := .dial ⟨disordered.flatMap Frame.bytes, none⟩

/-- The GET is sent. -/
def asked : Connection := (disorderly.openStream.2.sendHeadersOn 1 sampleGet).2

theorem acts_asked : ∃ new, Acts .single true disorderly.openStream.2 new asked ∧
    ∀ f ∈ new.filterMap Event.came, f.streamId ≠ 1 := by
  have hsent : disorderly.openStream.2.sendHeadersOn 1 sampleGet =
      (.ok (.staged 1 disorderly.peer.initialWindowSize sampleGet), asked) := by rfl
  refine ⟨_, .heads (by decide) hsent, ?_⟩
  have hquiet : ∀ fs : List Frame, (Event.request 1 sampleGet :: fs.map .outbound).filterMap
      Event.came = [] := came_of_outbound
  rw [hquiet]
  exact List.forall_mem_nil _

/-- A response of a single request comes from a grammatical history of its stream. -/
def ChecksGrammar : Prop :=
  ∀ (codec : Codec) (tls : Tls) (c₀ c c₁ c₂ : Connection) (req : Request) (r : Response) (id : Nat)
    (heard : List Heard), Connection.new tls = .ok c₀ → Used codec c₀ c →
    (runOneRequest codec c req).1 = .ok r → c.openStream = (.ok id, c₁) →
    Base.Trace (Hears .single true id) c₁ heard c₂ →
    c₂.tls.received = (runOneRequest codec c req).2.tls.received →
    Message.Grammatical req.method (heard.map Heard.event)

theorem disorderly_runs :
    (runOneRequest (fun _ _ _ => .error []) disorderly sampleGet).1 =
      .ok ⟨103, [], "HTTP/2".toList, [], [0x61]⟩ := by
  decide +kernel

theorem disorderly_heard :
    (hear 1 asked disordered).map (fun p => (p.1.map Heard.event, p.2.tls.received)) =
      some ([.data [0x61],
        .headers [(":status".toList, "200".toList), ("content-length".toList, "9".toList)],
        .headers [(":status".toList, "103".toList)]],
        (runOneRequest (fun _ _ _ => .error []) disorderly sampleGet).2.tls.received) := by
  decide +kernel

theorem not_checksGrammar : ¬ChecksGrammar := by
  intro h
  obtain ⟨⟨heard, c₂⟩, hhear, heq⟩ := Option.map_eq_some_iff.mp disorderly_heard
  obtain ⟨hevents, hreceived⟩ := Prod.mk.inj heq
  obtain ⟨new, hact, hothers⟩ := acts_asked
  have hgrammatical := h _ _ _ _ disorderly.openStream.2 _ _ _ 1 heard
    (new_dial ⟨disordered.flatMap Frame.bytes, none⟩) .fresh disorderly_runs rfl
    ((Base.Trace.single (.aside hact hothers)).trans (trace_of_hear hhear)) hreceived
  change heard.map Heard.event = _ at hevents
  rw [hevents] at hgrammatical
  exact Message.not_grammatical_of_data hgrammatical

end H2

namespace H3

/-- A response comes from a grammatical stream of frames. -/
def ChecksGrammar : Prop :=
  ∀ (codec : Codec) (st : Http3State) (pieces : List Bytes) (last : Bytes) (method : Text)
    (events : List Event) (r : Response), Frames st.dynTable (pieces.flatten ++ last) events →
    readResponse codec (quietTurns pieces last) st = some (.ok r) →
    Message.Grammatical method events

/-- DATA, a head that announces nine bytes, DATA again, and an interim head at the end. -/
theorem frames_disordered :
    Frames .new [0, 1, 0x61, 1, 6, 0, 0, 0xd9, 0x54, 1, 0x39, 0, 1, 0x62, 1, 3, 0, 0, 0xd8]
      [.data [0x61],
        .headers [(":status".toList, "200".toList), ("content-length".toList, "9".toList)],
        .data [0x62], .headers [(":status".toList, "103".toList)]] := by
  have hdata : ∀ b : UInt8, IsFrame typeData [b] [0, 1, b] := fun b =>
    isFrame_short (by decide : (0 : UInt8).toNat < 64) rfl (by decide : 1 < 64)
  have hhead : IsFrame typeHeaders [0, 0, 0xd9, 0x54, 1, 0x39]
      [1, 6, 0, 0, 0xd9, 0x54, 1, 0x39] :=
    isFrame_short (by decide : (1 : UInt8).toNat < 64) rfl (by decide : 6 < 64)
  have hdecode : Qpack.decodeFieldSectionWith [0, 0, 0xd9, 0x54, 1, 0x39] .new =
      .ok [(":status".toList, "200".toList), ("content-length".toList, "9".toList)] := by
    decide +kernel
  exact .cons (.data (hdata 0x61)) (.cons (.headers hhead (by decide) hdecode)
    (.cons (.data (hdata 0x62)) (.cons (brings_indexed (by decide +kernel)) .nil)))

theorem not_checksGrammar : ¬ChecksGrammar := by
  intro h
  have hout : readResponse (fun _ _ _ => .ok [])
      (quietTurns [] [0, 1, 0x61, 1, 6, 0, 0, 0xd9, 0x54, 1, 0x39, 0, 1, 0x62, 1, 3, 0, 0, 0xd8])
      (.new none) = some (.ok ⟨200, [], "HTTP/3".toList,
        [("content-length".toList, "9".toList)], [0x61, 0x62]⟩) := by decide +kernel
  exact Message.not_grammatical_of_data (h _ _ [] _ "GET".toList _ _ frames_disordered hout)

end H3

/-- On both protocols a response comes back from a stream that begins with content, has a head
after it that announces another length, and ends with an interim head. -/
theorem disorder_accepted : ¬H2.ChecksGrammar ∧ ¬H3.ChecksGrammar :=
  ⟨H2.not_checksGrammar, H3.not_checksGrammar⟩

end Rsurl
