/-
# `Rsurl.Ldap.Conversation` — what a search gives, and what it sends

From `src/ldap.rs`, `fetch` from where it is connected.  The answers are a
grammar: the response to the bind, and behind it whatever there is for the
search, up to the message that ends it.  A conversation goes well exactly if
the stream begins so, and it gives the entries of those answers.  Of what it
sends nothing comes before its turn, whatever the server answers and wherever
the connection breaks.
-/
import Rsurl.Ldap.Entry

namespace Rsurl.Ldap

open Base (Abides Move Program twosValue)
open Base.Ber
open Base.Program (Follows Performs Silent exec_bind_iff exec_bind_ok exec_ofExcept_iff)

/-! ## Messages -/

/-- The octets of an integer that the client takes: eight at most. -/
structure IsInteger (octets : Bytes) (v : Int) : Prop where
  present : octets ≠ []
  few : octets.length ≤ 8
  value : twosValue octets = v

theorem decodeInteger_iff {octets : Bytes} {v : Int} :
    decodeInteger octets = .ok v ↔ IsInteger octets v := by
  constructor
  · intro h
    have hne : octets ≠ [] := by
      rintro rfl
      cases h
    have hfew : octets.length ≤ 8 := by
      by_contra hmany
      cases octets with
      | nil => exact hne rfl
      | cons first rest =>
          rw [decodeInteger, if_pos (Nat.lt_of_not_le hmany)] at h
          cases h
    rw [decodeInteger_eq hne hfew, signedValue_eq] at h
    exact ⟨hne, hfew, Except.ok.inj h⟩
  · rintro ⟨hne, hfew, rfl⟩
    rw [decodeInteger_eq hne hfew, signedValue_eq]

/-- An integer of either tag is read where there is one. -/
theorem integer_iff {tag : UInt8} {bytes rest : Bytes} {v : Int} :
    (do let (o, r) ← readExpect tag bytes; return (← decodeInteger o, r)) =
        (.ok (v, rest) : Result (Int × Bytes)) ↔
      ∃ octets e, Element tag octets e ∧ IsInteger octets v ∧ bytes = e ++ rest := by
  constructor
  · intro h
    obtain ⟨⟨octets, r⟩, hread, h⟩ := Result.bind_eq_ok.mp h
    obtain ⟨v', hv, h⟩ := Result.bind_eq_ok.mp h
    obtain ⟨rfl, rfl⟩ := Prod.mk.inj (Except.ok.inj h)
    obtain ⟨e, he, rfl⟩ := readExpect_iff.mp hread
    exact ⟨octets, e, he, decodeInteger_iff.mp hv, rfl⟩
  · rintro ⟨octets, e, he, hv, rfl⟩
    refine Result.bind_eq_ok.mpr ⟨(octets, rest), readExpect_iff.mpr ⟨e, he, rfl⟩, ?_⟩
    exact Result.bind_eq_ok.mpr ⟨v, decodeInteger_iff.mpr hv, rfl⟩

/-- The content of a message: an id and an operation; what is behind them is not looked at. -/
inductive IsContent (id : Int) (tag : UInt8) (op : Bytes) : Bytes → Prop
  | mk {octets idElement opElement controls : Bytes} (hid : Element Tag.integer octets idElement)
      (hvalue : IsInteger octets id) (hop : Element tag op opElement) :
      IsContent id tag op (idElement ++ (opElement ++ controls))

/-- The content of a result: a code, a name, and what there is to say about it. -/
inductive IsResult (code : Int) (diag : Text) : Bytes → Prop
  | mk {octets codeElement dn dnElement text textElement extra : Bytes}
      (hcode : Element Tag.enumerated octets codeElement) (hvalue : IsInteger octets code)
      (hdn : Element Tag.octetString dn dnElement)
      (htext : Element Tag.octetString text textElement) (hdiag : fromUtf8Lossy text = diag) :
      IsResult code diag (codeElement ++ (dnElement ++ (textElement ++ extra)))

theorem splitMessage_iff {content op : Bytes} {id : Int} {tag : UInt8} :
    splitMessage content = .ok (id, tag, op) ↔ IsContent id tag op content := by
  constructor
  · intro h
    obtain ⟨⟨id', r⟩, hid, h⟩ := Result.bind_eq_ok.mp h
    obtain ⟨⟨⟨tag', op'⟩, controls⟩, hop, h⟩ := Result.bind_eq_ok.mp h
    have hsame := Except.ok.inj h
    simp only [Prod.mk.injEq] at hsame
    obtain ⟨rfl, rfl, rfl⟩ := hsame
    obtain ⟨octets, idElement, hidElement, hvalue, rfl⟩ := integer_iff.mp hid
    obtain ⟨opElement, hopElement, rfl⟩ := readTlv_iff.mp hop
    exact .mk hidElement hvalue hopElement
  · rintro ⟨hid, hvalue, hop⟩
    refine Result.bind_eq_ok.mpr ⟨_, integer_iff.mpr ⟨_, _, hid, hvalue, rfl⟩, ?_⟩
    exact Result.bind_eq_ok.mpr ⟨_, readTlv_iff.mpr ⟨_, hop, rfl⟩, rfl⟩

theorem parseLdapResult_iff {body : Bytes} {code : Int} {diag : Text} :
    parseLdapResult body = .ok (code, diag) ↔ IsResult code diag body := by
  constructor
  · intro h
    obtain ⟨⟨code', r⟩, hcode, h⟩ := Result.bind_eq_ok.mp h
    obtain ⟨⟨dn, r'⟩, hdn, h⟩ := Result.bind_eq_ok.mp h
    obtain ⟨⟨text, extra⟩, htext, h⟩ := Result.bind_eq_ok.mp h
    obtain ⟨rfl, rfl⟩ := Prod.mk.inj (Except.ok.inj h)
    obtain ⟨octets, codeElement, hcode', hvalue, rfl⟩ := integer_iff.mp hcode
    obtain ⟨dnElement, hdn', rfl⟩ := readExpect_iff.mp hdn
    obtain ⟨textElement, htext', rfl⟩ := readExpect_iff.mp htext
    exact .mk hcode' hvalue hdn' htext' rfl
  · rintro ⟨hcode, hvalue, hdn, htext, rfl⟩
    refine Result.bind_eq_ok.mpr ⟨_, integer_iff.mpr ⟨_, _, hcode, hvalue, rfl⟩, ?_⟩
    refine Result.bind_eq_ok.mpr ⟨_, readExpect_iff.mpr ⟨_, hdn, rfl⟩, ?_⟩
    exact Result.bind_eq_ok.mpr ⟨_, readExpect_iff.mpr ⟨_, htext, rfl⟩, rfl⟩

/-! ## The stream -/

/-- A message as it is on the stream, no longer than the client allows. -/
structure IsMessage (content bytes : Bytes) : Prop where
  element : Element Tag.sequence content bytes
  fits : content.length ≤ maxMessageBytes

/-- A message with an operation in it. -/
def Carries (id : Int) (tag : UInt8) (op bytes : Bytes) : Prop :=
  ∃ content, IsContent id tag op content ∧ IsMessage content bytes

theorem Carries.length_pos {id : Int} {tag : UInt8} {op bytes : Bytes}
    (h : Carries id tag op bytes) : 0 < bytes.length := by
  obtain ⟨content, -, hmessage⟩ := h
  exact Nat.zero_lt_of_lt hmessage.element.length_lt

/-- The same connection with more in front of what is to come. -/
def Transport.behind (t : Transport) (m : Bytes) : Transport :=
  { t with input := { t.input with bytes := m ++ t.input.bytes } }

theorem Transport.behind_append (t : Transport) (m m' : Bytes) :
    t.behind (m ++ m') = (t.behind m').behind m := by
  unfold Transport.behind
  rw [List.append_assoc]

theorem readMessage_iff {t t' : Transport} {content : Bytes} :
    readMessage.exec t = (.ok content, t') ↔ ∃ m, IsMessage content m ∧ t = t'.behind m := by
  obtain ⟨⟨bytes, tail⟩, sink⟩ := t
  have hread : readMessage.exec (⟨⟨bytes, tail⟩, sink⟩ : Transport) =
      ((readMessageFrom.exec ⟨bytes, tail⟩).1, ⟨(readMessageFrom.exec ⟨bytes, tail⟩).2, sink⟩) :=
    Duplex.exec_receive _ _
  constructor
  · intro h
    rw [hread] at h
    obtain ⟨hok, rfl⟩ := Prod.mk.inj h
    obtain ⟨htlv, hfits, htail⟩ := readMessageFrom_iff.mp (Prod.ext hok rfl)
    obtain ⟨m, hm, hbytes⟩ := readTlv_iff.mp htlv
    refine ⟨m, ⟨hm, hfits⟩, ?_⟩
    dsimp only [Transport.behind]
    rw [← hbytes, htail]
  · rintro ⟨m, ⟨hm, hfits⟩, heq⟩
    obtain ⟨hinput, rfl⟩ := Duplex.mk.inj heq
    obtain ⟨rfl, rfl⟩ := Source.mk.inj hinput
    rw [hread, readMessageFrom_iff.mpr ⟨readTlv_iff.mpr ⟨m, hm, rfl⟩, hfits, rfl⟩]

/-- A message comes off the stream with its operation taken out of it. -/
theorem receive_iff {α : Type} {t t' : Transport} {next : Int × UInt8 × Bytes → Session α} {a : α} :
    (readMessage >>= fun content => Program.ofExcept (splitMessage content) >>= next).exec t =
        (.ok a, t') ↔
      ∃ id tag op m t₁, Carries id tag op m ∧ t = t₁.behind m ∧
        (next (id, tag, op)).exec t₁ = (.ok a, t') := by
  constructor
  · intro h
    obtain ⟨content, t₁, hread, hrest⟩ := exec_bind_iff.mp h
    obtain ⟨⟨id, tag, op⟩, t₂, hsplit, hnext⟩ := exec_bind_iff.mp hrest
    obtain ⟨hcontent, rfl⟩ := exec_ofExcept_iff.mp hsplit
    obtain ⟨m, hm, heq⟩ := readMessage_iff.mp hread
    exact ⟨id, tag, op, m, t₁, ⟨content, splitMessage_iff.mp hcontent, hm⟩, heq, hnext⟩
  · rintro ⟨id, tag, op, m, t₁, ⟨content, hcontent, hm⟩, rfl, h⟩
    refine exec_bind_iff.mpr ⟨content, t₁, readMessage_iff.mpr ⟨m, hm, rfl⟩, ?_⟩
    refine exec_bind_iff.mpr ⟨(id, tag, op), t₁, ?_, h⟩
    exact exec_ofExcept_iff.mpr ⟨splitMessage_iff.mpr hcontent, rfl⟩

/-- A result that has to be a success. -/
theorem succeed_iff {α : Type} {t t' : Transport} {body : Bytes} {failed : Int × Text → Error}
    {a b : α} :
    (Program.ofExcept (parseLdapResult body) >>= fun r =>
        if r.1 ≠ 0 then throw (failed r) else (return b : Session α)).exec t = (.ok a, t') ↔
      (∃ diag, IsResult 0 diag body) ∧ a = b ∧ t = t' := by
  constructor
  · intro h
    obtain ⟨⟨code, diag⟩, t₁, hexec, hrest⟩ := exec_bind_iff.mp h
    obtain ⟨hresult, rfl⟩ := exec_ofExcept_iff.mp hexec
    dsimp only at hrest
    split at hrest
    · cases hrest
    next hzero =>
    obtain rfl := not_not.mp hzero
    obtain ⟨hb, hstate⟩ := Prod.mk.inj hrest
    exact ⟨⟨diag, parseLdapResult_iff.mp hresult⟩, (Except.ok.inj hb).symm, hstate⟩
  · rintro ⟨⟨diag, hresult⟩, rfl, rfl⟩
    refine exec_bind_iff.mpr ⟨(0, diag), t, ?_, ?_⟩
    · exact exec_ofExcept_iff.mpr ⟨parseLdapResult_iff.mpr hresult, rfl⟩
    · dsimp only
      rw [if_neg (not_not_intro rfl)]
      rfl

/-! ## The answers -/

/-- The message that lets the client in. -/
def Accepts (m : Bytes) : Prop :=
  ∃ id op diag, Carries id (Tag.app appBindResponse true) op m ∧ IsResult 0 diag op

/-- What may come for a search: its entries, references, which are passed over, messages for
somebody else, and in the end the message that all went well. -/
inductive Answers (id : Int) : List SearchEntry → Bytes → Prop
  | done {op m : Bytes} {diag : Text} (hm : Carries id (Tag.app appSearchResultDone true) op m)
      (hresult : IsResult 0 diag op) : Answers id [] m
  | entry {op m bytes : Bytes} {e : SearchEntry} {es : List SearchEntry}
      (hm : Carries id (Tag.app appSearchResultEntry true) op m) (he : IsSearchEntry e op)
      (hrest : Answers id es bytes) : Answers id (e :: es) (m ++ bytes)
  | reference {op m bytes : Bytes} {es : List SearchEntry}
      (hm : Carries id (Tag.app appSearchResultReference true) op m)
      (hrest : Answers id es bytes) : Answers id es (m ++ bytes)
  | foreign {other : Int} {tag : UInt8} {op m bytes : Bytes} {es : List SearchEntry}
      (hm : Carries other tag op m) (hother : other ≠ id) (hrest : Answers id es bytes) :
      Answers id es (m ++ bytes)

/-- The text of entries, one behind the other. -/
def printed (out : Bytes) (es : List SearchEntry) : Bytes :=
  es.foldl (fun out e => writeLdifEntry out e.1 e.2) out

theorem readBindResponse_iff {t t' : Transport} :
    readBindResponse.exec t = (.ok (), t') ↔ ∃ m, Accepts m ∧ t = t'.behind m := by
  constructor
  · intro h
    obtain ⟨id, tag, op, m, t₁, hm, rfl, hop⟩ := receive_iff.mp h
    dsimp only at hop
    split at hop
    · cases hop
    next htag =>
    obtain rfl := not_not.mp htag
    obtain ⟨⟨diag, hresult⟩, -, rfl⟩ := succeed_iff.mp hop
    exact ⟨m, ⟨id, op, diag, hm, hresult⟩, rfl⟩
  · rintro ⟨m, ⟨id, op, diag, hm, hresult⟩, rfl⟩
    refine receive_iff.mpr ⟨id, _, op, m, t', hm, rfl, ?_⟩
    dsimp only
    rw [if_neg (not_not_intro rfl)]
    exact succeed_iff.mpr ⟨⟨diag, hresult⟩, rfl, rfl⟩

/-- The loop ends well exactly on answers, and has their entries printed. -/
theorem collect_iff {id : Int} {turns : Nat} {out out' : Bytes} {t t' : Transport}
    (hturns : t.input.bytes.length < turns) :
    (collect id turns out).exec t = (.ok out', t') ↔
      ∃ es bytes, Answers id es bytes ∧ t = t'.behind bytes ∧ out' = printed out es := by
  constructor
  · intro h
    clear hturns
    induction turns generalizing out t with
    | zero => cases h
    | succ turns ih =>
        obtain ⟨mid, tag, op, m, t₁, hm, rfl, hop⟩ := receive_iff.mp h
        dsimp only at hop
        split at hop
        · next hother =>
            obtain ⟨es, bytes, hrest, rfl, rfl⟩ := ih hop
            exact ⟨es, m ++ bytes, .foreign hm hother hrest, (t'.behind_append m bytes).symm, rfl⟩
        next hmine =>
        obtain rfl := not_not.mp hmine
        split at hop
        · next hentry =>
            obtain rfl := hentry
            obtain ⟨e, t₂, hexec, hloop⟩ := exec_bind_iff.mp hop
            obtain ⟨hparse, rfl⟩ := exec_ofExcept_iff.mp hexec
            obtain ⟨es, bytes, hrest, rfl, rfl⟩ := ih hloop
            exact ⟨e :: es, m ++ bytes, .entry hm (parseSearchEntry_iff.mp hparse) hrest,
              (t'.behind_append m bytes).symm, rfl⟩
        split at hop
        · next hreference =>
            obtain rfl := hreference
            obtain ⟨es, bytes, hrest, rfl, rfl⟩ := ih hop
            exact ⟨es, m ++ bytes, .reference hm hrest, (t'.behind_append m bytes).symm, rfl⟩
        split at hop
        · next hdone =>
            obtain rfl := hdone
            obtain ⟨⟨diag, hresult⟩, rfl, rfl⟩ := succeed_iff.mp hop
            exact ⟨[], m, .done hm hresult, rfl, rfl⟩
        · cases hop
  · rintro ⟨es, bytes, hanswers, rfl, rfl⟩
    -- every message takes a byte at least, so there is a turn left for it
    have hstep : ∀ {m bytes : Bytes} {turns : Nat}, 0 < m.length →
        (t'.behind (m ++ bytes)).input.bytes.length < turns + 1 →
        (t'.behind bytes).input.bytes.length < turns := by
      intro m bytes turns hpos hlen
      simp only [Transport.behind, List.length_append] at hlen ⊢
      omega
    induction hanswers generalizing turns out with
    | @done op m diag hm hresult =>
        cases turns with
        | zero => exact absurd hturns (Nat.not_lt_zero _)
        | succ turns =>
            refine receive_iff.mpr ⟨id, _, op, m, t', hm, rfl, ?_⟩
            dsimp only
            rw [if_neg (not_not_intro rfl), if_neg (by decide), if_neg (by decide), if_pos rfl]
            exact succeed_iff.mpr ⟨⟨diag, hresult⟩, rfl, rfl⟩
    | @entry op m bytes e es hm he _ ih =>
        cases turns with
        | zero => exact absurd hturns (Nat.not_lt_zero _)
        | succ turns =>
            refine receive_iff.mpr ⟨id, _, op, m, t'.behind bytes, hm, t'.behind_append m bytes, ?_⟩
            dsimp only
            rw [if_neg (not_not_intro rfl), if_pos rfl]
            refine exec_bind_iff.mpr ⟨e, _, ?_, ih (hstep hm.length_pos hturns)⟩
            exact exec_ofExcept_iff.mpr ⟨parseSearchEntry_iff.mpr he, rfl⟩
    | @reference op m bytes es hm _ ih =>
        cases turns with
        | zero => exact absurd hturns (Nat.not_lt_zero _)
        | succ turns =>
            refine receive_iff.mpr ⟨id, _, op, m, t'.behind bytes, hm, t'.behind_append m bytes, ?_⟩
            dsimp only
            rw [if_neg (not_not_intro rfl), if_neg (by decide), if_pos rfl]
            exact ih (hstep hm.length_pos hturns)
    | @foreign other tag op m bytes es hm hother _ ih =>
        cases turns with
        | zero => exact absurd hturns (Nat.not_lt_zero _)
        | succ turns =>
            refine receive_iff.mpr ⟨other, tag, op, m, _, hm, t'.behind_append m bytes, ?_⟩
            dsimp only
            rw [if_pos hother]
            exact ih (hstep hm.length_pos hturns)

theorem readResults_iff {out : Bytes} {t t' : Transport} :
    readResults.exec t = (.ok out, t') ↔
      ∃ es bytes, Answers 2 es bytes ∧ t = t'.behind bytes ∧ out = printed [] es := by
  rw [readResults, exec_bind_ok (Program.exec_get t)]
  exact collect_iff (Nat.lt_succ_self _)

theorem exec_unbind {t : Transport} (h : t.sink.Healthy) :
    unbind.exec t = (.ok (), t.wrote (buildUnbindRequest 3)) := by
  have hsent := h.writeAll (buildUnbindRequest 3)
  have hflush := (h.wrote (buildUnbindRequest 3)).flush
  show (_, ({ t with sink := ((t.sink.writeAll _).2.flush).2 } : Transport)) = _
  rw [hsent, hflush]
  rfl

/-- Over a connection that takes what is written, a conversation gives a text exactly if the
stream begins with a message that lets the client in and answers to its search; the text is that
of the entries among them, all of them and in their order, and the client has taken nothing
behind the answers. -/
theorem converse_iff {ask : Ask} {out : Bytes} {t t' : Transport} (h : t.sink.Healthy) :
    (converse ask).exec t = (.ok out, t') ↔
      ∃ request m es bytes, buildSearchRequest 2 ask.query = .ok request ∧ Accepts m ∧
        Answers 2 es bytes ∧ t.input = ⟨m ++ (bytes ++ t'.input.bytes), t'.input.tail⟩ ∧
        out = printed [] es ∧
        t'.sink = t.sink.wrote (buildBindRequest 1 ask.bindName ask.bindPass ++
          (request ++ buildUnbindRequest 3)) := by
  have hsend : ∀ {t : Transport} (_ : t.sink.Healthy) (request : Bytes),
      (Duplex.transmit [request]).exec t = (.ok (), t.wrote request) := by
    intro t ht request
    rw [Duplex.exec_transmit ht, List.flatten_singleton]
  constructor
  · intro hrun
    obtain ⟨⟨⟩, t₂, hauth, hsearch⟩ := exec_bind_iff.mp hrun
    obtain ⟨⟨⟩, t₁, hbind, haccept⟩ := exec_bind_iff.mp hauth
    obtain ⟨m, haccepts, rfl⟩ := readBindResponse_iff.mp haccept
    obtain ⟨request, t₂', hexec, hrest⟩ := exec_bind_iff.mp hsearch
    obtain ⟨hbuild, rfl⟩ := exec_ofExcept_iff.mp hexec
    obtain ⟨⟨⟩, t₃, hrequest, hanswer⟩ := exec_bind_iff.mp hrest
    obtain ⟨out', t₄, hresults, hlast⟩ := exec_bind_iff.mp hanswer
    obtain ⟨es, bytes, hanswers, rfl, rfl⟩ := readResults_iff.mp hresults
    rw [hsend h] at hbind
    obtain ⟨hinput, hsink⟩ := Duplex.mk.inj (Prod.mk.inj hbind).2
    have hhealthy : t₂.sink.Healthy := by
      rw [← hsink]
      exact h.wrote _
    rw [hsend hhealthy] at hrequest
    obtain ⟨hinput', hsink'⟩ := Duplex.mk.inj (Prod.mk.inj hrequest).2
    have hhealthy' : t₄.sink.Healthy := by
      rw [← hsink']
      exact hhealthy.wrote request
    rw [exec_bind_ok (exec_unbind hhealthy')] at hlast
    obtain ⟨hout, rfl⟩ := Prod.mk.inj hlast
    refine ⟨request, m, es, bytes, hbuild, haccepts, hanswers, ?_, (Except.ok.inj hout).symm, ?_⟩
    · have hbehind : t₂.input = ⟨bytes ++ t₄.input.bytes, t₄.input.tail⟩ := hinput'
      refine hinput.trans ?_
      rw [hbehind]
      rfl
    · show t₄.sink.wrote _ = _
      rw [← hsink', ← hsink]
      simp only [Sink.wrote, List.append_assoc]
  · rintro ⟨request, m, es, bytes, hbuild, haccepts, hanswers, hinput, rfl, hsink⟩
    obtain ⟨input, sink⟩ := t
    obtain ⟨⟨rest, tail⟩, sink'⟩ := t'
    dsimp only at hinput hsink h
    subst hinput hsink
    rw [converse, authenticate, search, hbuild]
    generalize buildBindRequest 1 ask.bindName ask.bindPass = bind
    have hhealthy := h.wrote bind
    refine exec_bind_iff.mpr ⟨(), ⟨⟨bytes ++ rest, tail⟩, sink.wrote bind⟩, ?_, ?_⟩
    · rw [exec_bind_ok (hsend h _)]
      exact readBindResponse_iff.mpr ⟨m, haccepts, rfl⟩
    refine exec_bind_iff.mpr ⟨request, _, exec_ofExcept_iff.mpr ⟨rfl, rfl⟩, ?_⟩
    rw [exec_bind_ok (hsend hhealthy request)]
    refine exec_bind_iff.mpr
      ⟨printed [] es, ⟨⟨rest, tail⟩, (sink.wrote bind).wrote request⟩, ?_, ?_⟩
    · exact readResults_iff.mpr ⟨es, bytes, hanswers, rfl, rfl⟩
    · rw [exec_bind_ok (exec_unbind (hhealthy.wrote request))]
      simp only [Program.exec_pure, Duplex.wrote, Sink.wrote, List.append_assoc]

/-- A referral is passed over, the search ends, and a byte behind it is left. -/
theorem converse_sample :
    ∃ t', (converse ⟨⟨[], [], .base, "(cn=a)".toList⟩, [], []⟩).exec
      ⟨⟨[0x30, 12, 2, 1, 1, 0x61, 7, 10, 1, 0, 4, 0, 4, 0, 0x30, 5, 2, 1, 2, 0x73, 0,
        0x30, 12, 2, 1, 2, 0x65, 7, 10, 1, 0, 4, 0, 4, 0, 9], none⟩, ⟨[], none, none⟩⟩ =
      (.ok [], t') ∧ t'.input.bytes = [9] := by
  have hcarries : ∀ {id : Int} {tag : UInt8} {op m : Bytes} (content : Bytes),
      splitMessage content = .ok (id, tag, op) → readTlv m = .ok (⟨Tag.sequence, content⟩, []) →
      content.length ≤ maxMessageBytes → Carries id tag op m := by
    intro id tag op m content hsplit hread hfits
    obtain ⟨e, he, rfl⟩ := readTlv_iff.mp hread
    rw [List.append_nil]
    exact ⟨content, splitMessage_iff.mp hsplit, he, hfits⟩
  have hresult : IsResult 0 [] [10, 1, 0, 4, 0, 4, 0] := parseLdapResult_iff.mp rfl
  have haccepts : Accepts [0x30, 12, 2, 1, 1, 0x61, 7, 10, 1, 0, 4, 0, 4, 0] :=
    ⟨1, _, [], hcarries [2, 1, 1, 0x61, 7, 10, 1, 0, 4, 0, 4, 0] rfl rfl (by decide), hresult⟩
  have hreference : Carries 2 (Tag.app appSearchResultReference true) []
      [0x30, 5, 2, 1, 2, 0x73, 0] := hcarries [2, 1, 2, 0x73, 0] rfl rfl (by decide)
  have hdone : Carries 2 (Tag.app appSearchResultDone true) [10, 1, 0, 4, 0, 4, 0]
      [0x30, 12, 2, 1, 2, 0x65, 7, 10, 1, 0, 4, 0, 4, 0] :=
    hcarries [2, 1, 2, 0x65, 7, 10, 1, 0, 4, 0, 4, 0] rfl rfl (by decide)
  obtain ⟨request, hbuild⟩ : ∃ request,
    buildSearchRequest 2 ⟨[], [], .base, "(cn=a)".toList⟩ = .ok request := ⟨_, rfl⟩
  refine ⟨⟨⟨[9], none⟩, Sink.wrote ⟨[], none, none⟩ (buildBindRequest 1 [] [] ++
    (request ++ buildUnbindRequest 3))⟩, (converse_iff ⟨rfl, rfl⟩).mpr ?_, rfl⟩
  exact ⟨request, _, [], _, hbuild, haccepts, .reference hreference (.done hdone hresult), rfl, rfl,
    rfl⟩

/-! ## What is sent -/

/-- What a server makes of the request to bind. -/
structure BindRequest where
  messageId : Int
  version : Int
  name : Text
  password : Text

/-- A request to bind that fills the message. -/
def decodeBind (msg : Bytes) : Result BindRequest := do
  let (body, end₀) ← readExpect Tag.sequence msg
  let (messageId, r) ← readInteger body
  let (op, end₁) ← readExpect (Tag.app appBindRequest true) r
  let (version, r) ← readInteger op
  let (name, r) ← decodeTextAt Tag.octetString r
  let (password, end₂) ← decodeTextAt (Tag.ctx 0 false) r
  finish (end₀ ++ end₁ ++ end₂) { messageId, version, name, password }

/-- The fields of the request to bind. -/
def bindNodes (name password : Text) : List Node :=
  [intNode Tag.integer 3, textNode Tag.octetString name, textNode (Tag.ctx 0 false) password]

def bindNode (messageId : Int32) (name password : Text) : Node :=
  .constructed Tag.sequence [intNode Tag.integer messageId.toInt,
    .constructed (Tag.app appBindRequest true) (bindNodes name password)]

theorem buildBindRequest_eq (messageId : Int32) (name password : Text) :
    buildBindRequest messageId name password = (bindNode messageId name password).bytes := by
  rw [buildBindRequest, bindNode, Node.bytes]
  refine (writeConstructed_eq (fun w => ?_) [] _).trans (List.nil_append _)
  rw [Node.bytesOf, bytesOf_singleton, Node.bytes, ← List.append_assoc, ← writeInteger_eq]
  refine writeConstructed_eq (fun b => ?_) _ _
  dsimp only
  rw [writeTlv_text, writeOctetString, writeTlv_text, writeInteger_eq, bindNodes]
  simp only [Node.bytesOf, List.append_assoc, List.append_nil]

/-- The name and the password arrive as they are. -/
theorem decodeBind_written {messageId : Int32} {name password : Text}
    (h : (buildBindRequest messageId name password).length < usizeLimit) :
    decodeBind (buildBindRequest messageId name password) =
      .ok ⟨messageId.toInt, 3, name, password⟩ := by
  rw [buildBindRequest_eq, bindNode, Node.bytes] at h ⊢
  have hbody := (length_lt_tlv _ _).trans h
  have hop : (Node.bytesOf (bindNodes name password)).length < usizeLimit := by
    refine Nat.lt_of_le_of_lt ?_ hbody
    rw [Node.bytesOf, bytesOf_singleton, Node.bytes, List.length_append]
    exact (Nat.le_of_lt (length_lt_tlv _ _)).trans (Nat.le_add_left _ _)
  have hfields : Node.bytesOf (bindNodes name password) = (intNode Tag.integer 3).bytes ++
      ((textNode Tag.octetString name).bytes ++ ((textNode (Tag.ctx 0 false) password).bytes ++ [])) :=
    rfl
  have hparts := hop
  rw [hfields] at hparts
  simp only [List.length_append] at hparts
  have hname := length_textNode Tag.octetString name
  have hpassword := length_textNode (Tag.ctx 0 false) password
  have hlow := messageId.le_toInt
  have hhigh := messageId.toInt_lt
  rw [decodeBind]
  simp only [readExpect_tlv_end hbody, Result.ok_bind]
  rw [Node.bytesOf, bytesOf_singleton, Node.bytes]
  simp only [readInteger_node (show -(2 ^ 63) ≤ messageId.toInt by omega)
    (show messageId.toInt < 2 ^ 63 by omega), Result.ok_bind, readExpect_tlv_end hop]
  rw [hfields]
  simp only [Result.ok_bind, readInteger_node (show -(2 ^ 63) ≤ (3 : Int) by decide)
      (show (3 : Int) < 2 ^ 63 by decide),
    decodeTextAt_node (show name.utf8.length < usizeLimit by omega),
    decodeTextAt_node (show password.utf8.length < usizeLimit by omega)]
  rfl

theorem silent_readMessage : Silent Duplex.written readMessage := Duplex.silent_receive _

theorem silent_collect (id : Int) (turns : Nat) (out : Bytes) :
    Silent Duplex.written (collect id turns out) := by
  induction turns generalizing out with
  | zero => exact .throw _
  | succ turns ih =>
      refine silent_readMessage.bind fun content => (Silent.ofExcept _).bind fun parts => ?_
      refine .ite (ih out) (.ite ((Silent.ofExcept _).bind fun e => ih _) (.ite (ih out) ?_))
      exact .ite ((Silent.ofExcept _).bind fun result => .ite (.throw _) (.pure out)) (.throw _)

/-- The bytes still to come from the server. -/
def Transport.incoming (t : Transport) : Bytes := t.input.bytes

theorem performs_request (request : Bytes) :
    Performs Duplex.written Transport.incoming (Duplex.transmit [request] : Session Unit)
      [.put request] := by
  have hsent : Performs Duplex.written Transport.incoming (Duplex.transmit [request] : Session Unit)
      [.put [request].flatten] := @Duplex.performs_transmit _ _ Source.bytes [request]
  rwa [List.flatten_singleton] at hsent

theorem performs_readBindResponse :
    Performs Duplex.written Transport.incoming readBindResponse [.take Accepts] := by
  refine .take ?_ fun t a t' h => ?_
  · refine silent_readMessage.bind fun content => (Silent.ofExcept _).bind fun parts => ?_
    refine .ite (.throw _) ((Silent.ofExcept _).bind fun result => ?_)
    exact .ite (.throw _) (.pure ())
  · obtain ⟨m, haccepts, rfl⟩ := readBindResponse_iff.mp h
    exact ⟨m, haccepts, rfl⟩

theorem performs_readResults : Performs Duplex.written Transport.incoming readResults
    [.take fun bytes => ∃ es, Answers 2 es bytes] := by
  refine .take ?_ fun t out t' h => ?_
  · exact Silent.get.bind fun t => silent_collect 2 _ []
  · obtain ⟨es, bytes, hanswers, rfl, -⟩ := readResults_iff.mp h
    exact ⟨bytes, ⟨es, hanswers⟩, rfl⟩

theorem follows_unbind :
    Follows Duplex.written Transport.incoming unbind [.put (buildUnbindRequest 3)] := by
  have hwrite : Performs Duplex.written Transport.incoming
      (Duplex.writeAll (buildUnbindRequest 3) : Session Unit) [.put (buildUnbindRequest 3)] :=
    @Duplex.performs_writeAll _ _ Source.bytes _
  exact (hwrite.follows.attempt.last fun _ => .pure ()).last fun _ =>
    Duplex.silent_ignore Duplex.silent_flush

/-- Bind, and be let in; search, and have all the answers; unbind. -/
def script (ask : Ask) : List (Move UInt8 UInt8) :=
  .put (buildBindRequest 1 ask.bindName ask.bindPass) :: .take Accepts ::
    match buildSearchRequest 2 ask.query with
    | .error _ => []
    | .ok request =>
        [.put request, .take fun bytes => ∃ es, Answers 2 es bytes, .put (buildUnbindRequest 3)]

/-- Nothing comes before its turn: whatever the server answers, and wherever the connection
breaks, the client is as far in its script as the answers allow.  The name and the password that
a server makes of the bind are the ones it was given. -/
theorem follows_converse (ask : Ask) :
    Follows Duplex.written Transport.incoming (converse ask) (script ask) ∧
      ((buildBindRequest 1 ask.bindName ask.bindPass).length < usizeLimit →
        decodeBind (buildBindRequest 1 ask.bindName ask.bindPass) =
          .ok ⟨1, 3, ask.bindName, ask.bindPass⟩) := by
  refine ⟨?_, decodeBind_written⟩
  refine ((performs_request _).bind fun _ => performs_readBindResponse).then fun _ => ?_
  rw [search]
  cases buildSearchRequest 2 ask.query with
  | error e => exact (Silent.throw e).follows
  | ok request =>
      refine (performs_request request).then fun _ => performs_readResults.then fun out => ?_
      exact follows_unbind.last fun _ => .pure out

end Rsurl.Ldap
