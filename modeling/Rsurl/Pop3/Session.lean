/-
# `Rsurl.Pop3.Session` — a login, one command, and what comes back

From `src/pop3.rs`: the whole conversation.  A retrieval goes well exactly if
the server greets, lets the client in, agrees to the command and sends a body
to its end; what it gives is that body.  Whatever the server answers, each line
of the client waits for the answer to the one before.
-/
import Mathlib.Data.List.DropRight
import Rsurl.Duplex
import Rsurl.Pop3.Stuffing
import Rsurl.Url

namespace Rsurl.Pop3

open Base (Abides Move Program)
open Base.Program (Follows Performs Silent exec_bind_iff exec_bind_ok exec_ofExcept_iff)

/-! ## The client -/

inductive Action where
  | list
  | retr (n : UInt32)
deriving DecidableEq, Repr

/-- `split_userinfo`. -/
def splitUserinfo (s : Text) : Text × Text := (Text.splitOnce ':' s).getD (s, [])

/-- `reject_ctl`. -/
def rejectCtl (s : Text) (what : String) : Result Unit :=
  match s.utf8.find? fun b => b < 0x20 || b == 0x7F with
  | some b => .error (.badResponse [.str "pop3: ", .str what,
      .str " contains illegal control byte ", .hex b.toNat])
  | none => .ok ()

/-- `parse_path`. -/
def parsePath (path : Text) : Option Action :=
  let trimmed := (Text.stripPrefix ['/'] path).getD path
  if trimmed = [] then some .list
  else if trimmed.any fun c => c == '/' || c == '?' || c == '#' then none
  else (parseU32 trimmed).map .retr

/-- The transport of a conversation. -/
abbrev Transport := Duplex Buffered

abbrev Session (α : Type) := Program Transport Error α

/-- What `send` refuses in a line. -/
def breaksLine (b : UInt8) : Bool := b == 13 || b == 10 || b == 0

/-- `send`. -/
def send (cmd : Text) : Session Unit :=
  if cmd.utf8.any breaksLine then
    throw (.badResponse [.str "pop3: refusing to send command line with embedded CR/LF/NUL"])
  else Duplex.transmit [cmd.utf8, crlf]

/-- A line without what ends it. -/
def chomp (line : Bytes) : Bytes := line.rdropWhile fun b => b == 10 || b == 13

def textOf (line : Bytes) : Result Text :=
  match fromUtf8 (chomp line) with
  | some text => .ok text
  | none => .error (.badResponse [.str "pop3: non-UTF8 status line"])

/-- `read_line`. -/
def readLine : Session Text := do
  let line ← Duplex.receive readUntil
  if line = [] then throw .unexpectedEof else Program.ofExcept (textOf line)

def parseStatus (line : Text) : Result Text :=
  match Text.stripPrefix "+OK".toList line with
  | some rest => .ok ((Text.stripPrefix [' '] rest).getD rest)
  | none =>
      match Text.stripPrefix "-ERR".toList line with
      | some rest =>
          .error (.badResponse [.str "pop3: ", .display ((Text.stripPrefix [' '] rest).getD rest)])
      | none => .error (.badResponse [.str "pop3: unexpected status line: ", .display line])

/-- `read_status`. -/
def readStatus : Session Text := do
  let line ← readLine
  Program.ofExcept (parseStatus line)

/-- The line that asks for it. -/
def Action.command : Action → Text
  | .list => "LIST".toList
  | .retr n => "RETR ".toList ++ decimal n.toNat

/-- What is made of the response. -/
def Action.payload : Action → Bytes → Bytes
  | .list, raw => raw
  | .retr _, raw => unDotStuff raw

/-- `run`. -/
def run (user pass : Text) (action : Action) : Session Bytes := do
  let _ ← readStatus
  Program.ofExcept (rejectCtl user "pop3 user")
  Program.ofExcept (rejectCtl pass "pop3 password")
  send ("USER ".toList ++ user)
  let _ ← readStatus
  send ("PASS ".toList ++ pass)
  let _ ← readStatus
  send action.command
  let _ ← readStatus
  let raw ← Duplex.receive readMultiline
  Duplex.ignore (send "QUIT".toList)
  Duplex.ignore readStatus
  return action.payload raw

/-- `fetch`, with how to connect. -/
def fetch (connect : Url → Result Transport) (url : Url) : Result Bytes := do
  match url.userinfo with
  | none => throw (.badResponse [.str "pop3: missing userinfo"])
  | some userinfo =>
      match parsePath url.path with
      | none => throw (.invalidUrl [.str "pop3 path: ", .display url.path])
      | some action =>
          let transport ← connect url
          ((run (splitUserinfo userinfo).1 (splitUserinfo userinfo).2 action).exec transport).1

/-! ## Lines from the server -/

/-- A line with its LF. -/
def IsLine (l : Bytes) : Prop := ∃ front, l = front ++ [10] ∧ ∀ b ∈ front, (b == 10) = false

/-- The text of a line begins with the word that all is well. -/
def SaysOk (l : Bytes) : Prop := ∃ text, fromUtf8 (chomp l) = some text ∧ "+OK".toList <+: text

/-- A body as it is sent: lines, none of which is the one that ends it. -/
def IsBody (raw : Bytes) : Prop :=
  ∃ lines : List Bytes, raw = lines.flatten ∧ ∀ l ∈ lines, IsLine l ∧ isTerminator l = false

theorem IsLine.through {l : Bytes} (h : IsLine l) (rest : Bytes) :
    Base.Segment.through (· == 10) (l ++ rest) = some (l, rest) := by
  obtain ⟨front, rfl, hfront⟩ := h
  rw [List.append_assoc]
  exact Base.Segment.through_append hfront rfl

/-- What is read is a line; or all there is, and nothing is left. -/
theorem isLine_of_readUntil {b b' : Buffered} {line : Bytes} (h : readUntil b = (.ok line, b')) :
    b.pending = line ++ b'.pending ∧ (IsLine line ∨ b'.pending = []) := by
  have happend : b.pending = line ++ b'.pending := by
    have hread := readUntil_append (congrArg Prod.fst h)
    rwa [h] at hread
  refine ⟨happend, ?_⟩
  cases hthrough : Base.Segment.through (· == 10) b.pending with
  | some out =>
      obtain ⟨b₁, hread, -⟩ := readUntil_of_through hthrough
      obtain ⟨-, front, x, hline, hx, hfront⟩ := Base.Segment.through_eq_some hthrough
      obtain ⟨hsame, -⟩ := Prod.mk.inj (h.symm.trans hread)
      obtain rfl := beq_iff_eq.mp hx
      exact .inl ⟨front, (Except.ok.inj hsame).trans hline, hfront⟩
  | none =>
      have hpull := Buffered.pull_of_not_find (fun _ => Rtsp.bufferBytes)
        (Base.Segment.through_stable (· == 10)) (fun _ _ => by decide) hthrough
      refine .inr ?_
      rw [readUntil, hpull] at h
      dsimp only at h
      split at h
      · cases h
      · obtain ⟨-, rfl⟩ := Prod.mk.inj h
        rfl

theorem IsBody.nil : IsBody [] := ⟨[], rfl, fun _ hl => by cases hl⟩

theorem IsBody.cons {l raw : Bytes} (hl : IsLine l) (hterm : isTerminator l = false)
    (h : IsBody raw) : IsBody (l ++ raw) := by
  obtain ⟨lines, rfl, hlines⟩ := h
  refine ⟨l :: lines, rfl, ?_⟩
  intro m hm
  rcases List.mem_cons.mp hm with rfl | hm
  · exact ⟨hl, hterm⟩
  · exact hlines m hm

/-- What is collected is a body, and the line that ends it has been taken. -/
theorem isBody_of_multilineLoop {out raw : Bytes} {b b' : Buffered}
    (h : multilineLoop out b = (.ok raw, b')) :
    ∃ body dot, raw = out ++ body ∧ IsBody body ∧ isTerminator dot = true ∧
      b.pending = body ++ (dot ++ b'.pending) := by
  induction hn : b.pending.length using Nat.strong_induction_on generalizing b out with
  | _ n ih =>
      rw [multilineLoop] at h
      split at h
      · cases h
      next line hline =>
      have hread : readUntil b = (.ok line, (readUntil b).2) := Prod.ext hline rfl
      obtain ⟨hpending, hkind⟩ := isLine_of_readUntil hread
      split at h
      · cases h
      next hne =>
      split at h
      · next hterm =>
          obtain ⟨hraw, rfl⟩ := Prod.mk.inj h
          exact ⟨[], line, by rw [List.append_nil]; exact (Except.ok.inj hraw).symm, .nil, hterm,
            hpending⟩
      · next hterm =>
          have hless : (readUntil b).2.pending.length < n := by
            rw [← hn, hpending, List.length_append]
            exact Nat.lt_add_of_pos_left (List.length_pos_of_ne_nil hne)
          obtain ⟨body, dot, hraw, hbody, hdot, hrest⟩ := ih _ hless h rfl
          refine ⟨line ++ body, dot, ?_, ?_, hdot, ?_⟩
          · rw [hraw, List.append_assoc]
          · refine .cons ?_ (Bool.not_eq_true _ ▸ hterm) hbody
            -- something ends the body, so the line was not the last thing there is
            rcases hkind with hline' | hnil
            · exact hline'
            · rw [hnil] at hrest
              have hdotnil := (List.append_eq_nil_iff.mp
                (List.append_eq_nil_iff.mp hrest.symm).2).1
              rw [hdotnil] at hdot
              cases hdot
          · rw [hpending, hrest, List.append_assoc]

theorem isLine_of_isTerminator {l : Bytes} (h : isTerminator l = true) : IsLine l := by
  rw [isTerminator, Bool.or_eq_true, beq_iff_eq, beq_iff_eq] at h
  rcases h with rfl | rfl
  · exact ⟨[46, 13], rfl, List.all_iff_forall_prop.mp (by decide)⟩
  · exact ⟨[46], rfl, List.all_iff_forall_prop.mp (by decide)⟩

/-- A body is collected to its end. -/
theorem multilineLoop_of_isBody {body dot rest : Bytes} (hbody : IsBody body)
    (hdot : isTerminator dot = true) {b : Buffered} (h : b.pending = body ++ (dot ++ rest))
    (out : Bytes) : ∃ b', multilineLoop out b = (.ok (out ++ body), b') ∧ b'.pending = rest := by
  obtain ⟨lines, rfl, hlines⟩ := hbody
  induction lines generalizing b out with
  | nil =>
      have hthrough := (isLine_of_isTerminator hdot).through rest
      rw [← List.nil_append (dot ++ rest), ← List.flatten_nil, ← h] at hthrough
      obtain ⟨b', hend, hrest⟩ := multilineLoop_terminator hthrough hdot out
      exact ⟨b', by rw [hend, List.flatten_nil, List.append_nil], hrest⟩
  | cons l lines ih =>
      obtain ⟨hl, hterm⟩ := hlines l List.mem_cons_self
      have hthrough := hl.through (lines.flatten ++ (dot ++ rest))
      rw [← List.append_assoc, ← List.flatten_cons, ← h] at hthrough
      obtain ⟨b₁, hline, hpending⟩ := multilineLoop_line hthrough hterm out
      obtain ⟨b₂, hmore, hrest⟩ :=
        ih (out ++ l) (fun m hm => hlines m (List.mem_cons_of_mem _ hm)) hpending
      exact ⟨b₂, by rw [hline, hmore, List.flatten_cons, List.append_assoc], hrest⟩

/-! ## Turns -/

/-- The line that lets the client go on. -/
structure Agrees (l : Bytes) : Prop where
  line : IsLine l
  ok : SaysOk l

theorem parseStatus_ok_iff {line : Text} :
    (∃ text, parseStatus line = .ok text) ↔ "+OK".toList <+: line := by
  rw [parseStatus]
  constructor
  · rintro ⟨text, h⟩
    split at h
    · next rest hrest => exact ⟨rest, (Text.stripPrefix_eq_some.mp hrest).symm⟩
    · split at h <;> cases h
  · rintro ⟨rest, rfl⟩
    rw [Text.stripPrefix_eq_some.mpr rfl]
    exact ⟨_, rfl⟩

/-- A status is taken off the stream, a line or all there is. -/
theorem readStatus_ok {t t' : Transport} {text : Text} (h : readStatus.exec t = (.ok text, t')) :
    ∃ line, SaysOk line ∧ t.input.pending = line ++ t'.input.pending ∧
      (IsLine line ∨ t'.input.pending = []) ∧ t'.sink = t.sink := by
  obtain ⟨word, t₁, hline, hstatus⟩ := exec_bind_iff.mp h
  obtain ⟨hparse, rfl⟩ := exec_ofExcept_iff.mp hstatus
  obtain ⟨line, t₂, hread, hrest⟩ := exec_bind_iff.mp hline
  have hreceive : (Duplex.receive readUntil).exec t = _ := Duplex.exec_receive readUntil t
  rw [hreceive] at hread
  obtain ⟨hok, rfl⟩ := Prod.mk.inj hread
  obtain ⟨hpending, hkind⟩ := isLine_of_readUntil (Prod.ext hok rfl)
  split at hrest
  · cases hrest
  obtain ⟨htext, rfl⟩ := exec_ofExcept_iff.mp hrest
  refine ⟨line, ?_, hpending, hkind, rfl⟩
  rw [textOf] at htext
  split at htext
  · next word' hword =>
      obtain rfl := Except.ok.inj htext
      exact ⟨word', hword, parseStatus_ok_iff.mp ⟨text, hparse⟩⟩
  · cases htext

theorem exec_readStatus {t : Transport} {line rest : Bytes} (h : Agrees line)
    (hpending : t.input.pending = line ++ rest) :
    ∃ text t', readStatus.exec t = (.ok text, t') ∧ t'.input.pending = rest ∧
      t'.sink = t.sink := by
  obtain ⟨hline, word, hword, hok⟩ := h
  have hthrough := hline.through rest
  rw [← hpending] at hthrough
  obtain ⟨b', hread, hrest⟩ := readUntil_of_through hthrough
  obtain ⟨text, hparse⟩ := parseStatus_ok_iff.mpr hok
  have hne : line ≠ [] := by
    obtain ⟨front, rfl, -⟩ := hline
    exact List.append_ne_nil_of_right_ne_nil _ (List.cons_ne_nil _ _)
  have hreceive : (Duplex.receive readUntil).exec t = (.ok line, ⟨b', t.sink⟩) := by
    rw [Duplex.exec_receive, hread]
  refine ⟨text, ⟨b', t.sink⟩, ?_, hrest, rfl⟩
  refine exec_bind_iff.mpr ⟨word, ⟨b', t.sink⟩, ?_, exec_ofExcept_iff.mpr ⟨hparse, rfl⟩⟩
  rw [readLine, exec_bind_ok hreceive, if_neg hne]
  exact exec_ofExcept_iff.mpr ⟨by rw [textOf, hword], rfl⟩

/-- No control byte. -/
def Printable (s : Text) : Prop := ∀ b ∈ s.utf8, 0x20 ≤ b ∧ b ≠ 0x7F

theorem rejectCtl_iff {s : Text} {what : String} : rejectCtl s what = .ok () ↔ Printable s := by
  rw [rejectCtl]
  have hbyte : ∀ b : UInt8, (b < 0x20 || b == 0x7F) = false ↔ 0x20 ≤ b ∧ b ≠ 0x7F := by
    intro b
    rw [Bool.or_eq_false_iff, decide_eq_false_iff_not, beq_eq_false_iff_ne, UInt8.not_lt]
  constructor
  · intro h b hb
    split at h
    · cases h
    · next hnone =>
        exact (hbyte b).mp (Bool.not_eq_true _ ▸ List.find?_eq_none.mp hnone b hb)
  · intro h
    have hnone : s.utf8.find? (fun b => b < 0x20 || b == 0x7F) = none := by
      refine List.find?_eq_none.mpr fun b hb => ?_
      rw [Bool.not_eq_true]
      exact (hbyte b).mpr (h b hb)
    rw [hnone]

/-- A line that `send` takes. -/
def Clean (cmd : Text) : Prop := ∀ b ∈ cmd.utf8, breaksLine b = false

theorem Printable.append {s s' : Text} (h : Printable s) (h' : Printable s') :
    Printable (s ++ s') := by
  intro b hb
  rw [Text.utf8_append] at hb
  rcases List.mem_append.mp hb with hb | hb
  · exact h b hb
  · exact h' b hb

theorem Printable.clean {cmd : Text} (h : Printable cmd) : Clean cmd := by
  intro b hb
  obtain ⟨hlow, -⟩ := h b hb
  rw [← Bool.not_eq_true]
  intro hbreaks
  simp only [breaksLine, Bool.or_eq_true, beq_iff_eq] at hbreaks
  rcases hbreaks with (rfl | rfl) | rfl
  all_goals exact absurd hlow (by decide)

theorem printable_decimal (n : Nat) : Printable (decimal n) := by
  intro b hb
  obtain ⟨c, hc, hbyte⟩ := List.mem_flatMap.mp hb
  obtain ⟨hlow, hhigh⟩ := isDigit_iff.mp (isDigit_of_mem_decimal hc)
  refine ⟨UInt8.le_iff_toNat_le.mpr ?_, ?_⟩
  · by_contra hless
    have hsmall : b.toNat < 32 := Nat.lt_of_not_le hless
    have hsame := toNat_of_mem_utf8EncodeChar hbyte (by omega)
    omega
  · rintro rfl
    have hsame := toNat_of_mem_utf8EncodeChar hbyte (by decide)
    rw [hsame] at hhigh
    exact absurd hhigh (by decide)

theorem printable_command (action : Action) : Printable action.command := by
  cases action with
  | list => exact List.all_iff_forall_prop.mp (by decide)
  | retr n => exact .append (List.all_iff_forall_prop.mp (by decide)) (printable_decimal _)

theorem printable_user {user : Text} (h : Printable user) : Printable ("USER ".toList ++ user) :=
  .append (List.all_iff_forall_prop.mp (by decide)) h

theorem printable_pass {pass : Text} (h : Printable pass) : Printable ("PASS ".toList ++ pass) :=
  .append (List.all_iff_forall_prop.mp (by decide)) h

/-- A line as it is sent. -/
def lineOf (cmd : Text) : Bytes := cmd.utf8 ++ crlf

theorem send_of_clean {cmd : Text} (h : Clean cmd) : send cmd = Duplex.transmit [cmd.utf8, crlf] := by
  rw [send, if_neg]
  rw [Bool.not_eq_true, List.any_eq_false]
  exact fun b hb => by rw [h b hb]; exact Bool.false_ne_true

theorem exec_send {cmd : Text} (h : Clean cmd) {t : Transport} (hsink : t.sink.Healthy) :
    (send cmd).exec t = (.ok (), t.wrote (lineOf cmd)) := by
  have hpieces : [cmd.utf8, crlf].flatten = lineOf cmd := by simp [lineOf]
  rw [send_of_clean h, Duplex.exec_transmit hsink, hpieces]

theorem receive_multiline {t t' : Transport} {raw : Bytes}
    (h : (Duplex.receive readMultiline).exec t = (.ok raw, t')) :
    IsBody raw ∧ (∃ dot, isTerminator dot = true ∧
      t.input.pending = raw ++ (dot ++ t'.input.pending)) ∧ t'.sink = t.sink := by
  have hreceive : (Duplex.receive readMultiline).exec t = _ := Duplex.exec_receive readMultiline t
  rw [hreceive] at h
  obtain ⟨hok, rfl⟩ := Prod.mk.inj h
  obtain ⟨body, dot, hraw, hbody, hdot, hpending⟩ := isBody_of_multilineLoop (Prod.ext hok rfl)
  rw [List.nil_append] at hraw
  subst hraw
  exact ⟨hbody, ⟨dot, hdot, hpending⟩, rfl⟩

/-- A command and its answer, on a connection that takes what is written. -/
theorem turn_ok {α : Type} {cmd : Text} (hcmd : Clean cmd) {f : Text → Session α} {a : α}
    {t t' : Transport} (hsink : t.sink.Healthy)
    (h : (send cmd >>= fun _ => readStatus >>= f).exec t = (.ok a, t')) :
    ∃ line text t₁, SaysOk line ∧ t.input.pending = line ++ t₁.input.pending ∧
      (IsLine line ∨ t₁.input.pending = []) ∧ t₁.sink.Healthy ∧ (f text).exec t₁ = (.ok a, t') := by
  rw [exec_bind_ok (exec_send hcmd hsink)] at h
  obtain ⟨text, t₁, hstatus, hrest⟩ := exec_bind_iff.mp h
  obtain ⟨line, hok, hpending, hline, hsame⟩ := readStatus_ok hstatus
  exact ⟨line, text, t₁, hok, hpending, hline, hsame ▸ hsink.wrote _, hrest⟩

theorem exec_turn {α : Type} {cmd : Text} (hcmd : Clean cmd) (f : Text → Session α)
    {t : Transport} (hsink : t.sink.Healthy) {line rest : Bytes} (h : Agrees line)
    (hpending : t.input.pending = line ++ rest) :
    ∃ text t₁, (send cmd >>= fun _ => readStatus >>= f).exec t = (f text).exec t₁ ∧
      t₁.input.pending = rest ∧ t₁.sink.Healthy := by
  obtain ⟨text, t₁, hstatus, hrest, hsame⟩ :=
    exec_readStatus (t := t.wrote (lineOf cmd)) h hpending
  refine ⟨text, t₁, ?_, hrest, hsame ▸ hsink.wrote _⟩
  rw [exec_bind_ok (exec_send hcmd hsink), exec_bind_ok hstatus]

/-! ## The whole conversation -/

/-- Over a connection that takes what is written, something is retrieved exactly if the name and
the password have no control bytes and the server greets, lets the client in, agrees and sends a
body to its end; what is retrieved is made of that body. -/
theorem run_ok_iff {user pass : Text} {action : Action} {t : Transport} {payload : Bytes}
    (h : t.sink.Healthy) :
    ((run user pass action).exec t).1 = .ok payload ↔
      Printable user ∧ Printable pass ∧
      ∃ greeting named admitted ready raw dot rest, Agrees greeting ∧ Agrees named ∧
        Agrees admitted ∧ Agrees ready ∧ IsBody raw ∧ isTerminator dot = true ∧
        t.input.pending = greeting ++ (named ++ (admitted ++ (ready ++ (raw ++ (dot ++ rest))))) ∧
        payload = action.payload raw := by
  constructor
  · intro hrun
    obtain ⟨text, t₁, hgreeting, hrest₁⟩ := exec_bind_iff.mp (Prod.ext hrun rfl)
    obtain ⟨⟨⟩, t₂, hcheck, hrest₂⟩ := exec_bind_iff.mp hrest₁
    obtain ⟨hprint, rfl⟩ := exec_ofExcept_iff.mp hcheck
    obtain ⟨⟨⟩, t₃, hcheck', hrest₃⟩ := exec_bind_iff.mp hrest₂
    obtain ⟨hprint', rfl⟩ := exec_ofExcept_iff.mp hcheck'
    rw [rejectCtl_iff] at hprint hprint'
    obtain ⟨greeting, hok₁, hpending₁, hline₁, hsink₁⟩ := readStatus_ok hgreeting
    obtain ⟨named, -, t₂, hok₂, hpending₂, hline₂, hsink₂, hrest₄⟩ :=
      turn_ok (printable_user hprint).clean (hsink₁ ▸ h) hrest₃
    obtain ⟨admitted, -, t₃, hok₃, hpending₃, hline₃, hsink₃, hrest₅⟩ :=
      turn_ok (printable_pass hprint').clean hsink₂ hrest₄
    obtain ⟨ready, -, t₄, hok₄, hpending₄, hline₄, -, hrest₆⟩ :=
      turn_ok (printable_command action).clean hsink₃ hrest₅
    obtain ⟨raw, t₅, hbody, hlast⟩ := exec_bind_iff.mp hrest₆
    obtain ⟨hraw, ⟨dot, hdot, hpending₅⟩, -⟩ := receive_multiline hbody
    rw [exec_bind_ok (Duplex.exec_ignore _ _), exec_bind_ok (Duplex.exec_ignore _ _)] at hlast
    -- each answer has something behind it, so none was the last thing there is
    have hdotne : dot ≠ [] := by
      rintro rfl
      cases hdot
    have hne₄ : t₄.input.pending ≠ [] := by
      rw [hpending₅]
      exact List.append_ne_nil_of_right_ne_nil _ (List.append_ne_nil_of_left_ne_nil hdotne _)
    have hne₃ : t₃.input.pending ≠ [] := hpending₄ ▸ List.append_ne_nil_of_right_ne_nil _ hne₄
    have hne₂ : t₂.input.pending ≠ [] := hpending₃ ▸ List.append_ne_nil_of_right_ne_nil _ hne₃
    have hne₁ : t₁.input.pending ≠ [] := hpending₂ ▸ List.append_ne_nil_of_right_ne_nil _ hne₂
    refine ⟨hprint, hprint', greeting, named, admitted, ready, raw, dot, t₅.input.pending,
      ⟨hline₁.resolve_right hne₁, hok₁⟩, ⟨hline₂.resolve_right hne₂, hok₂⟩,
      ⟨hline₃.resolve_right hne₃, hok₃⟩, ⟨hline₄.resolve_right hne₄, hok₄⟩, hraw, hdot, ?_, ?_⟩
    · rw [hpending₁, hpending₂, hpending₃, hpending₄, hpending₅]
    · exact (Except.ok.inj (Prod.mk.inj hlast).1).symm
  · rintro ⟨hprint, hprint', greeting, named, admitted, ready, raw, dot, rest, hgreeting, hnamed,
      hadmitted, hready, hraw, hdot, hpending, rfl⟩
    obtain ⟨text, t₁, hstatus, hpending₁, hsink₁⟩ := exec_readStatus hgreeting hpending
    have hchecked : (Program.ofExcept (.ok ()) : Session Unit).exec t₁ = (.ok (), t₁) := rfl
    rw [run, exec_bind_ok hstatus, rejectCtl_iff.mpr hprint, rejectCtl_iff.mpr hprint',
      exec_bind_ok hchecked, exec_bind_ok hchecked]
    obtain ⟨_, t₂, hrun₂, hpending₂, hsink₂⟩ :=
      exec_turn (printable_user hprint).clean _ (hsink₁ ▸ h) hnamed hpending₁
    rw [hrun₂]
    obtain ⟨_, t₃, hrun₃, hpending₃, hsink₃⟩ :=
      exec_turn (printable_pass hprint').clean _ hsink₂ hadmitted hpending₂
    rw [hrun₃]
    obtain ⟨_, t₄, hrun₄, hpending₄, -⟩ :=
      exec_turn (printable_command action).clean _ hsink₃ hready hpending₃
    rw [hrun₄]
    obtain ⟨b', hread, -⟩ := multilineLoop_of_isBody hraw hdot hpending₄ []
    have hreceive : (Duplex.receive readMultiline).exec t₄ = (.ok raw, ⟨b', t₄.sink⟩) := by
      rw [Duplex.exec_receive, readMultiline, hread, List.nil_append]
    rw [exec_bind_ok hreceive, exec_bind_ok (Duplex.exec_ignore _ _),
      exec_bind_ok (Duplex.exec_ignore _ _)]
    rfl

/-- One message, with a line that begins with a dot, and the answer to the `QUIT`. -/
theorem run_ok_sample :
    ((run "u".toList "p".toList (.retr 1)).exec
      ⟨⟨Text.utf8 "+OK hi\r\n+OK\r\n+OK\r\n+OK\r\n..a\r\n.\r\n+OK\r\n".toList, [], none⟩,
        ⟨[], none, none⟩⟩).1 = .ok (Text.utf8 ".a\r\n".toList) := by
  have hline : ∀ front : Bytes, (front.all fun b => !(b == 10)) = true → IsLine (front ++ [10]) := by
    intro front hfront
    refine ⟨front, rfl, fun b hb => ?_⟩
    exact (Bool.not_eq_true' _).mp (List.all_eq_true.mp hfront b hb)
  have hgreeting : Agrees (Text.utf8 "+OK hi\r\n".toList) :=
    ⟨hline (Text.utf8 "+OK hi\r".toList) (by decide), "+OK hi".toList, rfl, by decide⟩
  have hok : Agrees (Text.utf8 "+OK\r\n".toList) :=
    ⟨hline (Text.utf8 "+OK\r".toList) (by decide), "+OK".toList, rfl, by decide⟩
  have hbody : IsBody (Text.utf8 "..a\r\n".toList) := by
    have hone := IsBody.nil.cons (hline (Text.utf8 "..a\r".toList) (by decide)) (by decide)
    rwa [List.append_nil] at hone
  refine (run_ok_iff ⟨rfl, rfl⟩).mpr ⟨List.all_iff_forall_prop.mp (by decide),
    List.all_iff_forall_prop.mp (by decide), _, _, _, _, _, [46, 13, 10], _, hgreeting, hok, hok,
    hok, hbody, rfl, rfl, by decide⟩

/-! ## What is sent -/

/-- The bytes still to come from the server. -/
def Transport.incoming (t : Transport) : Bytes := t.input.pending

/-- A greeting; a name, a password and a command, each with its answer; a body; a farewell.
Without a greeting, or with control bytes in the name or the password, nothing. -/
def script (user pass : Text) (action : Action) : List (Move UInt8 UInt8) :=
  .take SaysOk ::
    if rejectCtl user "pop3 user" = .ok () ∧ rejectCtl pass "pop3 password" = .ok () then
      [.put (lineOf ("USER ".toList ++ user)), .take SaysOk,
        .put (lineOf ("PASS ".toList ++ pass)), .take SaysOk,
        .put (lineOf action.command), .take SaysOk,
        .take fun bytes => ∃ raw dot, IsBody raw ∧ isTerminator dot = true ∧ bytes = raw ++ dot,
        .put (lineOf "QUIT".toList)]
    else []

theorem performs_send {cmd : Text} (h : Clean cmd) :
    Performs Duplex.written Transport.incoming (send cmd) [.put (lineOf cmd)] := by
  have hpieces : [cmd.utf8, crlf].flatten = lineOf cmd := by simp [lineOf]
  rw [send_of_clean h, ← hpieces]
  exact @Duplex.performs_transmit _ _ Buffered.pending _

theorem silent_readStatus : Silent Duplex.written readStatus := by
  refine Silent.bind ?_ fun line => .ofExcept _
  exact (Duplex.silent_receive readUntil).bind fun line => .ite (.throw _) (.ofExcept _)

theorem performs_readStatus :
    Performs Duplex.written Transport.incoming readStatus [.take SaysOk] := by
  refine .take silent_readStatus fun t text t' h => ?_
  obtain ⟨line, hok, hpending, -, -⟩ := readStatus_ok h
  exact ⟨line, hok, hpending⟩

theorem performs_multiline :
    Performs Duplex.written Transport.incoming (Duplex.receive readMultiline : Session Bytes)
      [.take fun bytes => ∃ raw dot, IsBody raw ∧ isTerminator dot = true ∧ bytes = raw ++ dot] := by
  refine .take (Duplex.silent_receive readMultiline) fun t raw t' h => ?_
  obtain ⟨hraw, ⟨dot, hdot, hpending⟩, -⟩ := receive_multiline h
  refine ⟨raw ++ dot, ⟨raw, dot, hraw, hdot, rfl⟩, ?_⟩
  rw [List.append_assoc]
  exact hpending

/-- Nothing comes before its turn: whatever the server answers, in whatever pieces, and wherever
the connection breaks, the client is as far in its script as the answers allow; and each line of
it is one command without a control byte in it. -/
theorem follows_run (user pass : Text) (action : Action) :
    Follows Duplex.written Transport.incoming (run user pass action) (script user pass action) ∧
      ∀ bytes, Move.put bytes ∈ script user pass action →
        ∃ cmd, bytes = lineOf cmd ∧ Printable cmd := by
  have hquit : Printable "QUIT".toList := List.all_iff_forall_prop.mp (by decide)
  have huser : rejectCtl user "pop3 user" = .ok () → Printable ("USER ".toList ++ user) :=
    fun h => printable_user (rejectCtl_iff.mp h)
  have hpass : rejectCtl pass "pop3 password" = .ok () → Printable ("PASS ".toList ++ pass) :=
    fun h => printable_pass (rejectCtl_iff.mp h)
  constructor
  · refine performs_readStatus.then fun _ => ?_
    cases hname : rejectCtl user "pop3 user" with
    | error e => exact (Silent.throw e).follows
    | ok _ =>
        refine (Performs.pure ()).then fun _ => ?_
        cases hword : rejectCtl pass "pop3 password" with
        | error e => exact (Silent.throw e).follows
        | ok _ =>
            refine (Performs.pure ()).then fun _ => ?_
            refine (performs_send (huser hname).clean).then fun _ => performs_readStatus.then fun _ => ?_
            refine (performs_send (hpass hword).clean).then fun _ => performs_readStatus.then fun _ => ?_
            refine (performs_send (printable_command action).clean).then fun _ => ?_
            refine performs_readStatus.then fun _ => performs_multiline.then fun raw => ?_
            refine ((Duplex.follows_ignore (performs_send hquit.clean).follows).last fun _ => ?_)
            exact (Duplex.silent_ignore silent_readStatus).bind fun _ => .pure _
  · intro bytes hbytes
    rw [script] at hbytes
    split at hbytes
    · next hchecks =>
        simp only [List.mem_cons, reduceCtorEq, Move.put.injEq, List.not_mem_nil, false_or,
          or_false] at hbytes
        rcases hbytes with rfl | rfl | rfl | rfl
        · exact ⟨_, rfl, huser hchecks.1⟩
        · exact ⟨_, rfl, hpass hchecks.2⟩
        · exact ⟨_, rfl, printable_command action⟩
        · exact ⟨_, rfl, hquit⟩
    · rcases List.mem_cons.mp hbytes with h | h
      · cases h
      · cases h

end Rsurl.Pop3
