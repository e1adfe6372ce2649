/-
# `Rsurl.H2.Run` — connections over time

A run of a connection, as small turns: something is sent, a frame is handled,
streams are dropped, a stream is opened.  Both drivers are made of these
(`runOneRequest_runs`, `runMultiplexed_runs`), so what every turn keeps holds
of every connection the client ever has.  Turns flagged `true` are those of a
run in which nothing goes wrong.
-/
import Mathlib.Logic.Relation
import Rsurl.H2.Driver
import Rsurl.H2.Step

namespace Rsurl.H2

open Http (Header Request Response)
open Relation (ReflTransGen)

/-! ## Turns -/

/-- Streams that satisfy `p` go away, and nothing else changes. -/
structure Removes (p : Stream → Prop) (c c' : Connection) : Prop where
  decoder : c'.decoder = c.decoder
  expecting : c'.expectingContinuation = c.expectingContinuation
  received : c'.tls.received = c.tls.received
  next : c'.nextStreamId = c.nextStreamId
  gone : ∀ {id s}, c.streams.lookup id = some s → c'.streams.lookup id = some s ∨ p s
  stays : ∀ {id s}, c'.streams.lookup id = some s → c.streams.lookup id = some s

theorem removes_erase {p : Stream → Prop} (c : Connection) (id : Nat)
    (h : ∀ s, c.streams.lookup id = some s → p s) :
    Removes p c { c with streams := c.streams.erase id } where
  decoder := rfl
  expecting := rfl
  received := rfl
  next := rfl
  gone {j s} hs := by
    by_cases hj : j = id
    · subst hj
      exact .inr (h s hs)
    · exact .inl (by rwa [AList.lookup_erase_ne hj])
  stays {j s} hs := by
    by_cases hj : j = id
    · subst hj
      rw [AList.lookup_erase] at hs
      cases hs
    · rwa [AList.lookup_erase_ne hj] at hs

/-- One turn of a connection; with `ok`, one of a run in which nothing goes wrong. -/
inductive Turn (ok : Bool) : Connection → Connection → Prop
  | moves {c c' : Connection} (h : Moves c c') : Turn ok c c'
  | reaps {c c' : Connection} (h : Removes (fun s => s.complete) c c') : Turn ok c c'
  | drops {c c' : Connection} (hok : ok = false) (h : Removes (fun _ => True) c c') : Turn ok c c'
  | frame (c : Connection) (source : Source) (f : Frame)
      (hok : ok = true → ∃ o, ((c.receive source f).processFrame f).1 = .ok o) :
      Turn ok c ((c.receive source f).processFrame f).2

/-- A turn, or the opening of a stream. -/
inductive Step (ok : Bool) : Connection → Connection → Prop
  | turn {c c' : Connection} (h : Turn ok c c') : Step ok c c'
  | opens {c c' : Connection} {id : Nat} (h : c.openStream = (.ok id, c')) : Step ok c c'

/-- A function on a connection is made of turns; with `ok`, if it succeeds. -/
def Turns (ok : Bool) {α : Type} (c : Connection) (out : Result α × Connection) : Prop :=
  (ok = true → ∃ a, out.1 = .ok a) → ReflTransGen (Turn ok) c out.2

section

variable {ok : Bool} {α β : Type} {c : Connection}

/-- A call that fails with what it was handed does what the call that failed did. -/
theorem Turns.error {c' : Connection} {e : Error}
    (h : Turns ok c ((.error e : Result α), c')) (e' : Error) :
    Turns ok c ((.error e' : Result β), c') := by
  refine fun hok => h fun htrue => ?_
  obtain ⟨b, hb⟩ := hok htrue
  cases hb

theorem Turns.of_moves {out : Result α × Connection} (h : Moves c out.2) : Turns ok c out :=
  fun _ => .single (.moves h)

theorem Turns.refl (res : Result α) : Turns ok c (res, c) := fun _ => .refl

/-- Two functions in sequence. -/
theorem Turns.andThen {x : Result α × Connection} {k : α → Connection → Result β × Connection}
    (hx : Turns ok c x) (hk : ∀ a, x.1 = .ok a → Turns ok x.2 (k a x.2)) :
    Turns ok c (Connection.andThen x k) := by
  intro hok
  obtain ⟨res, c₁⟩ := x
  cases res with
  | error e => exact hx.error e hok
  | ok a => exact (hx fun _ => ⟨a, rfl⟩).trans (hk a rfl hok)

theorem Moves.andThen {x : Result α × Connection} {k : α → Connection → Result β × Connection}
    (hx : Moves c x.2) (hk : ∀ a, x.1 = .ok a → Moves x.2 (k a x.2).2) :
    Moves c (Connection.andThen x k).2 := by
  obtain ⟨res, c₁⟩ := x
  cases res with
  | error e => exact hx
  | ok a => exact hx.trans (hk a rfl)

/-- A frame is read and handled. -/
theorem turns_readAndDispatch (ok : Bool) (c : Connection) : Turns ok c c.readAndDispatch := by
  unfold Connection.readAndDispatch
  split
  · exact .of_moves (.of_streams_eq rfl rfl rfl rfl rfl)
  · exact .of_moves (.of_streams_eq rfl rfl rfl rfl rfl)
  · next f source _ => exact fun hok => .single (.frame c source f hok)

theorem readAndDispatch_done {c' : Connection} {id : Nat}
    (h : c.readAndDispatch = (.ok (.done id), c')) :
    ∃ s, c'.streams.lookup id = some s ∧ s.complete := by
  unfold Connection.readAndDispatch at h
  split at h
  · cases h
  · cases h
  · next f source _ =>
      have heff := processFrame_effect (c.receive source f) f
      rw [h] at heff
      exact heff.of_done.2

/-! ## What is only sent -/

theorem sendHeadersOn_moves (c : Connection) (id : Nat) (req : Request) :
    Moves c (c.sendHeadersOn id req).2 ∧
      ∀ s, (c.sendHeadersOn id req).1 = .ok s →
        (c.sendHeadersOn id req).2.streams.lookup id = some s := by
  unfold Connection.sendHeadersOn
  simp only
  split
  · exact ⟨.of_streams_eq rfl rfl rfl rfl rfl, fun _ h => nomatch h⟩
  next sink _ =>
  have hsend : Moves c (Connection.setSink
      { c with encoder := (buildHeaderBlock c.encoder req).2 } sink) :=
    .of_streams_eq rfl rfl rfl rfl rfl
  split
  · exact ⟨hsend, fun _ h => nomatch h⟩
  next s hs =>
  split
  · exact ⟨hsend, fun _ h => nomatch h⟩
  · refine ⟨hsend.trans (.setStream hs ⟨rfl, rfl, rfl⟩), ?_⟩
    intro s' h
    obtain rfl := Except.ok.inj h
    exact AList.lookup_insert _

theorem sendChunk_moves {c : Connection} {id : Nat} {s : Stream} (hs : c.streams.lookup id = some s)
    (chunk : Bytes) (isLast : Bool) :
    Moves c (c.sendChunk id s chunk isLast).2 ∧
      ∀ s', (c.sendChunk id s chunk isLast).1 = .ok s' →
        (c.sendChunk id s chunk isLast).2.streams.lookup id = some s' := by
  unfold Connection.sendChunk
  split
  · exact ⟨.setSink c _, fun _ h => nomatch h⟩
  next sink _ =>
  have hsend : Moves c { c.setSink sink with
      connSendWindow := c.connSendWindow.consume chunk.length } :=
    .of_streams_eq rfl rfl rfl rfl rfl
  simp only
  split
  · exact ⟨hsend.trans (.setStream hs ⟨rfl, rfl, rfl⟩), fun _ h => nomatch h⟩
  · refine ⟨hsend.trans (.setStream hs ⟨rfl, rfl, rfl⟩), ?_⟩
    intro s' h
    obtain rfl := Except.ok.inj h
    exact AList.lookup_insert _

theorem flush_moves (c : Connection) : Moves c c.flush.2 := .setSink c _

theorem stageRequestOn_moves (c : Connection) (id : Nat) (req : Request) :
    Moves c (c.stageRequestOn id req).2 := by
  obtain ⟨hmoves, hlook⟩ := sendHeadersOn_moves c id req
  refine hmoves.andThen fun s hs => ?_
  split
  · exact .refl _
  · exact .setStream (hlook s hs) ⟨rfl, rfl, rfl⟩

theorem pumpStream_moves (fuel : Nat) (c : Connection) (maxFrameSize id : Nat) :
    Moves c (Connection.pumpStream fuel c maxFrameSize id).2 := by
  induction fuel generalizing c with
  | zero => exact .refl c
  | succ fuel ih =>
      unfold Connection.pumpStream
      split
      · exact .refl c
      next s hs =>
      split
      · exact .refl c
      next pb _ =>
      simp only
      split
      · exact .setStream hs ⟨rfl, rfl, rfl⟩
      split
      · exact .refl c
      generalize nextDataChunkSize maxFrameSize (s.sendBudget c.connSendWindow)
        (pb.bytes.length - pb.sent) = n
      obtain ⟨hmoves, hlook⟩ := sendChunk_moves hs ((pb.bytes.drop pb.sent).take n)
        (decide (n = pb.bytes.length - pb.sent))
      refine hmoves.andThen fun s' hs' => ?_
      split
      · exact .setStream (hlook s' hs') ⟨rfl, rfl, rfl⟩
      · refine Moves.trans (.setStream (hlook s' hs') ?_) (ih _)
        exact ⟨rfl, rfl, rfl⟩

theorem pumpAll_moves (maxFrameSize : Nat) (ids : List Nat) (c : Connection) :
    Moves c (c.pumpAll maxFrameSize ids).2 := by
  induction ids generalizing c with
  | nil => exact .refl c
  | cons id ids ih =>
      exact (pumpStream_moves (c.pendingLength id) c maxFrameSize id).andThen fun _ _ => ih _

theorem flushPending_moves (c : Connection) : Moves c c.flushPending.2 :=
  (pumpAll_moves c.peer.maxFrameSize c.pendingIds c).andThen fun _ _ => flush_moves _

/-! ## One request -/

theorem turns_awaitBudget (ok : Bool) (fuel : Nat) (c : Connection) (id : Nat) :
    Turns ok c (Connection.awaitBudget fuel c id) := by
  induction fuel generalizing c with
  | zero => exact .refl _
  | succ fuel ih =>
      unfold Connection.awaitBudget
      split
      · exact .refl _
      split
      · exact .refl _
      refine (turns_readAndDispatch ok c).andThen fun o _ => ?_
      split
      · exact .refl _
      · exact ih _

theorem turns_sendBody (ok : Bool) (fuel : Nat) (c : Connection) (id : Nat) (remaining : Bytes) :
    Turns ok c (Connection.sendBody fuel c id remaining) := by
  induction fuel generalizing c remaining with
  | zero => exact .refl _
  | succ fuel ih =>
      unfold Connection.sendBody
      split
      · exact .refl _
      refine (turns_awaitBudget ok _ c id).andThen fun _ _ => ?_
      split
      · exact .refl _
      next s hs =>
      exact (Turns.of_moves (sendChunk_moves hs _ _).1).andThen fun _ _ => ih _ _

theorem turns_sendRequestOn (ok : Bool) (c : Connection) (id : Nat) (req : Request) :
    Turns ok c (c.sendRequestOn id req) :=
  (Turns.of_moves (sendHeadersOn_moves c id req).1).andThen fun _ _ =>
    (turns_sendBody ok _ _ id req.body).andThen fun _ _ => .of_moves (flush_moves _)

theorem takeStream_eq {c : Connection} {id : Nat} {s : Stream} (h : c.streams.lookup id = some s) :
    c.takeStream id = (.ok s, { c with streams := c.streams.erase id }) := by
  simp only [Connection.takeStream, h]

/-- How `drive_until_stream_done` ends in a connection `c'`: with an error, or by handing out
a complete stream of `c'`. -/
def Hands (c' : Connection) (id : Nat) (out : Result Stream × Connection) : Prop :=
  (∃ e, out = (.error e, c')) ∨
    ∃ s, s.complete ∧ c'.streams.lookup id = some s ∧
      out = (.ok s, { c' with streams := c'.streams.erase id })

theorem hands_driveUntilStreamDone (ok : Bool) (fuel : Nat) (c : Connection) (id : Nat) :
    ∃ c', Hands c' id (Connection.driveUntilStreamDone fuel c id) ∧
      Turns ok c ((Connection.driveUntilStreamDone fuel c id).1, c') := by
  induction fuel generalizing c with
  | zero => exact ⟨c, .inl ⟨_, rfl⟩, .refl _⟩
  | succ fuel ih =>
      unfold Connection.driveUntilStreamDone
      split
      · exact ⟨c, .inl ⟨_, rfl⟩, .refl _⟩
      next s hs =>
      split
      · next hc =>
          rw [takeStream_eq hs]
          exact ⟨c, .inr ⟨s, hc, hs, rfl⟩, .refl _⟩
      have hread := turns_readAndDispatch ok c
      obtain ⟨res, c₁, hres⟩ : ∃ res c₁, c.readAndDispatch = (res, c₁) := ⟨_, _, rfl⟩
      rw [hres] at hread ⊢
      cases res with
      | error e =>
          exact ⟨c₁, .inl ⟨e, rfl⟩, hread.error e⟩
      | ok o =>
          have hturns := hread fun _ => ⟨o, rfl⟩
          by_cases ho : o = .done id
          · subst ho
            obtain ⟨s', hs', hc⟩ := readAndDispatch_done hres
            refine ⟨c₁, .inr ⟨s', hc, hs', ?_⟩, fun _ => hturns⟩
            rw [← takeStream_eq hs']
            exact if_pos rfl
          · obtain ⟨c', hhands, htail⟩ := ih c₁
            have hskip : (Connection.andThen (.ok o, c₁) fun outcome c =>
                if outcome = .done id then c.takeStream id
                else Connection.driveUntilStreamDone fuel c id) =
                  Connection.driveUntilStreamDone fuel c₁ id := if_neg ho
            rw [hskip]
            exact ⟨c', hhands, fun hok => hturns.trans (htail hok)⟩

/-! ## Opening and closing -/

/-- A stream is opened under a fresh id, or nothing happens. -/
theorem openStream_cases (c : Connection) :
    (∃ e, c.openStream = (.error e, c)) ∨
      c.openStream = (.ok c.nextStreamId, { c with
        nextStreamId := c.nextStreamId + 2
        streams := c.streams.insert c.nextStreamId
          (.new c.nextStreamId c.peer.initialWindowSize) }) := by
  unfold Connection.openStream
  split
  · exact .inl ⟨_, rfl⟩
  split
  · exact .inl ⟨_, rfl⟩
  split
  · exact .inl ⟨_, rfl⟩
  · exact .inr rfl

theorem pruneCompletedStreams_removes (c : Connection) :
    Removes (fun _ => True) c c.pruneCompletedStreams where
  decoder := rfl
  expecting := rfl
  received := rfl
  next := rfl
  gone _ := .inr trivial
  stays {id s} hs := by
    rw [Connection.pruneCompletedStreams, Base.Table.lookup_retain] at hs
    exact (Option.filter_eq_some_iff.mp hs).1

/-- Without streams there is nothing to prune. -/
theorem pruneCompletedStreams_of_empty (h : c.streams.entries = []) :
    c.pruneCompletedStreams = c := by
  have hstreams : c.pruneCompletedStreams.streams = c.streams := by
    apply AList.ext
    rw [h]
    change c.streams.entries.filter _ = []
    rw [h, List.filter_nil]
  change { c with streams := c.pruneCompletedStreams.streams } = c
  rw [hstreams]

theorem streams_of_usable (h : c.isUsable = true) : c.streams.entries = [] := by
  simp only [Connection.isUsable, Bool.and_eq_true] at h
  exact List.isEmpty_iff.mp h.1.2

theorem Turn.registered {c' : Connection} {id : Nat} {s' : Stream} (h : Turn ok c c')
    (hs : c'.streams.lookup id = some s') : ∃ s, c.streams.lookup id = some s := by
  cases h with
  | moves h => exact (h.came hs).imp fun _ h => h.1
  | reaps h => exact ⟨s', h.stays hs⟩
  | drops _ h => exact ⟨s', h.stays hs⟩
  | frame source f => exact (processFrame_effect (c.receive source f) f).registered hs

/-- No turn registers a stream. -/
theorem registered_of_turns {c' : Connection} {id : Nat} {s' : Stream}
    (h : ReflTransGen (Turn ok) c c') (hs : c'.streams.lookup id = some s') :
    ∃ s, c.streams.lookup id = some s := by
  induction h generalizing s' with
  | refl => exact ⟨s', hs⟩
  | tail _ hturn ih =>
      obtain ⟨s, hs⟩ := hturn.registered hs
      exact ih hs

theorem steps_of_turns {c' : Connection} (h : ReflTransGen (Turn ok) c c') :
    ReflTransGen (Step ok) c c' :=
  ReflTransGen.mono (fun _ _ => Step.turn) _ _ h

theorem entries_eq_nil (h : ∀ id s, c.streams.lookup id ≠ some s) : c.streams.entries = [] := by
  cases hentries : c.streams.entries with
  | nil => rfl
  | cons x l =>
      refine absurd ?_ (h x.1 x.2)
      rw [AList.lookup, hentries]
      exact List.dlookup_cons_eq ..

/-- A stream taken out of a connection that has no other leaves none. -/
theorem entries_erase_eq_nil {id : Nat}
    (h : ∀ j s, c.streams.lookup j = some s → j = id) :
    (c.streams.erase id).entries = [] := by
  refine entries_eq_nil (c := { c with streams := c.streams.erase id }) fun j s hs => ?_
  obtain rfl := h j s ((removes_erase (p := fun _ => True) _ _ fun _ _ => trivial).stays hs)
  rw [AList.lookup_erase] at hs
  cases hs

/-- A request on the stream `id`: it is sent, its stream is handed out, completed streams go. -/
theorem exchange_runs (ok : Bool) (codec : Codec) (c : Connection) (id : Nat) (req : Request)
    {out : Result Response × Connection}
    (hout : Connection.andThen (c.sendRequestOn id req) (fun _ c =>
      Connection.andThen (c.driveUntilStreamDone (c.tls.source.bytes.length + 1) id)
        fun stream c => (buildResponseFromStream codec stream, c.pruneCompletedStreams)) = out)
    (honly : ok = true → ∀ j s, c.streams.lookup j = some s → j = id)
    (hok : ok = true → ∃ r, out.1 = .ok r) :
    ReflTransGen (Step ok) c out.2 ∧ (ok = true → out.2.streams.entries = []) := by
  have hsend := turns_sendRequestOn ok c id req
  generalize c.sendRequestOn id req = sent at hsend hout
  obtain ⟨res, c₁⟩ := sent
  cases res with
  | error e =>
      subst hout
      have hfails : ok ≠ true := fun h => by simpa [Connection.andThen] using hok h
      exact ⟨steps_of_turns (hsend fun h => absurd h hfails), fun h => absurd h hfails⟩
  | ok u =>
  have hsent := hsend fun _ => ⟨u, rfl⟩
  obtain ⟨c₂, hhands, hdrive⟩ :=
    hands_driveUntilStreamDone ok (c₁.tls.source.bytes.length + 1) c₁ id
  change Connection.andThen (c₁.driveUntilStreamDone _ id) _ = out at hout
  rcases hhands with ⟨e, h⟩ | ⟨s, hcomplete, hs, h⟩
  · rw [h] at hout hdrive
    subst hout
    have hfails : ok ≠ true := fun h => by simpa [Connection.andThen] using hok h
    exact ⟨steps_of_turns (hsent.trans (hdrive fun h => absurd h hfails)),
      fun h => absurd h hfails⟩
  · rw [h] at hout hdrive
    subst hout
    have hturns := hsent.trans (hdrive fun _ => ⟨s, rfl⟩)
    have hreap : Turn ok c₂ { c₂ with streams := c₂.streams.erase id } := by
      refine .reaps (removes_erase _ _ fun t ht => ?_)
      obtain rfl := Option.some.inj (hs.symm.trans ht)
      exact hcomplete
    have hruns := steps_of_turns (hturns.tail hreap)
    cases ok with
    | false => exact ⟨hruns.tail (.turn (.drops rfl (pruneCompletedStreams_removes _))), nofun⟩
    | true =>
        have hempty : (c₂.streams.erase id).entries = [] := by
          refine entries_erase_eq_nil fun j t ht => ?_
          obtain ⟨t, ht⟩ := registered_of_turns hturns ht
          exact honly rfl j t ht
        have hprune := pruneCompletedStreams_of_empty
          (c := { c₂ with streams := c₂.streams.erase id }) hempty
        change ReflTransGen _ c (Connection.pruneCompletedStreams _) ∧
          (_ → (Connection.pruneCompletedStreams _).streams.entries = [])
        rw [hprune]
        exact ⟨hruns, fun _ => hempty⟩

/-- One request is a run; where it succeeds on a connection without streams, it leaves none. -/
theorem runOneRequest_runs (ok : Bool) (codec : Codec) (c : Connection) (req : Request)
    (hempty : ok = true → c.streams.entries = [])
    (hok : ok = true → ∃ r, (runOneRequest codec c req).1 = .ok r) :
    ReflTransGen (Step ok) c (runOneRequest codec c req).2 ∧
      (ok = true → (runOneRequest codec c req).2.streams.entries = []) := by
  unfold runOneRequest at hok ⊢
  rcases openStream_cases c with ⟨e, h⟩ | h
  · rw [h] at hok ⊢
    exact ⟨.refl, hempty⟩
  · have hopen : Step ok c _ := .opens h
    rw [h] at hok ⊢
    have honly : ok = true → ∀ j s, (c.streams.insert c.nextStreamId
        (.new c.nextStreamId c.peer.initialWindowSize)).lookup j = some s →
          j = c.nextStreamId := by
      intro htrue j s hs
      by_contra hj
      rw [AList.lookup_insert_ne hj, AList.lookup, hempty htrue] at hs
      cases hs
    obtain ⟨hruns, hleft⟩ := exchange_runs ok codec _ c.nextStreamId req rfl honly hok
    exact ⟨.head hopen hruns, hleft⟩

/-! ## Reachable connections -/

/-- The connections the client can have. -/
def Reachable (c : Connection) : Prop :=
  ∃ tls c₀, Connection.new tls = .ok c₀ ∧ ReflTransGen (Step false) c₀ c

/-- What holds of a new connection and is kept by every step holds of every reachable
connection. -/
theorem Reachable.induct {P : Connection → Prop} (h : Reachable c)
    (hnew : ∀ {tls c}, Connection.new tls = .ok c → P c)
    (hstep : ∀ {c c'}, Step false c c' → P c → P c') : P c := by
  obtain ⟨tls, c₀, h₀, hruns⟩ := h
  induction hruns with
  | refl => exact hnew h₀
  | tail _ h ih => exact hstep h ih

theorem Reachable.runOneRequest (h : Reachable c) (codec : Codec) (req : Request) :
    Reachable (runOneRequest codec c req).2 := by
  obtain ⟨tls, c₀, h₀, hruns⟩ := h
  exact ⟨tls, c₀, h₀, hruns.trans (runOneRequest_runs false codec c req nofun nofun).1⟩

/-! ### A fresh connection -/

/-- A transport that takes everything. -/
def Tls.taking (source : Source) : Tls where
  source
  sink := { written := [], fault := none, flushFault := none }
  received := []

/-- A new connection on a transport that takes everything. -/
def Connection.dial (source : Source) : Connection :=
  (Connection.new (.taking source)).toOption.get rfl

theorem new_dial (source : Source) : Connection.new (.taking source) = .ok (.dial source) := rfl

/-- A GET. -/
def sampleGet : Request where
  method := "GET".toList
  url := ⟨"https".toList, none, "a".toList, 443, "/".toList⟩
  headers := []
  body := []
  connectTimeout := none
  readTimeout := none
  httpVersionPref := .auto
  followRedirects := false
  maxRedirs := 0
  basicAuth := none
  verifyTls := true
  caBundle := none
  maxTime := none
  proxy := none
  noProxy := []

/-- A POST of one byte. -/
def samplePost : Request :=
  { sampleGet with method := "POST".toList, body := [0x78] }

end

end Rsurl.H2
