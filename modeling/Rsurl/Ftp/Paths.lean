/-
# `Rsurl.Ftp.Paths` — which file a URL names

`fetch` asks for the path of the URL as it stands, `upload_command` for the
path without its leading slash.  Every accepted FTP URL has that slash, so what
is uploaded to a URL is not what is downloaded from it.  What a session sends,
whoever answers, is the commands of its set-up and one for the transfer; a
server that agrees to everything shows that they are sent.
-/
import Rsurl.Ftp.Replies
import Rsurl.Rtsp.Sync
import Rsurl.Url.Resolve

namespace Rsurl.Ftp

open Base (Program)
open Base.Program (Triple)

/-! ## What is sent -/

/-- All lines sent so far are of a kind. -/
def Only (φ : Text → Prop) (c : Control) : Prop := ∀ line ∈ c.sent, φ line

/-- A session that sends lines of this kind only, however it ends. -/
abbrev Keeps (φ : Text → Prop) {α : Type} (m : Session α) : Prop :=
  Triple (Only φ) m (fun _ => Only φ) (Only φ)

section

variable {φ : Text → Prop}

theorem keeps_send {line : Text} (h : φ line) : Keeps φ (send line) := by
  refine Triple.of_state fun c hc => ?_
  unfold send Program.exec
  dsimp only
  split
  · exact hc
  split
  · exact hc
  · intro x hx
    rcases List.mem_append.mp hx with hx | hx
    · exact hc x hx
    · rw [List.mem_singleton.mp hx]
      exact h

theorem keeps_ofExcept {α : Type} (x : Result α) : Keeps φ (Program.ofExcept x : Session α) :=
  Triple.ofExcept (fun _ _ _ => id) fun _ => id

theorem keeps_pure {α : Type} (a : α) : Keeps φ (pure a : Session α) := Triple.pure fun _ => id

theorem keeps_throw {α : Type} (e : Error) : Keeps φ (throw e : Session α) := Triple.throw fun _ => id

theorem Keeps.bind {α β : Type} {m : Session α} {f : α → Session β} (hm : Keeps φ m)
    (hf : ∀ a, Keeps φ (f a)) : Keeps φ (m >>= f) := Triple.bind hm hf

theorem Keeps.attempt {α : Type} {m : Session α} (h : Keeps φ m) : Keeps φ m.attempt :=
  Triple.attempt (h.weaken (fun _ => id) (fun _ _ => id) fun _ hc _ => hc)

theorem keeps_readLine : Keeps φ readLine := by
  refine Triple.of_state fun c hc => ?_
  unfold readLine Program.exec
  dsimp only
  split
  · exact hc
  split
  · exact hc
  · exact hc

theorem keeps_continueReply (fuel code : Nat) (text : Text) :
    Keeps φ (continueReply fuel code text) := by
  induction fuel generalizing text with
  | zero => exact keeps_throw _
  | succ fuel ih =>
      refine keeps_readLine.bind fun line => ?_
      split
      · split
        · exact keeps_pure _
        · exact ih _
      · exact ih _

theorem keeps_readReply : Keeps φ readReply := by
  refine keeps_readLine.bind fun first => (keeps_ofExcept _).bind fun x => ?_
  obtain ⟨code, sep, rest⟩ := x
  dsimp only
  split
  · exact keeps_pure _
  · refine Triple.bind (Triple.get fun c hc => hc) fun c => ?_
    exact keeps_continueReply _ _ _

theorem keeps_writeData (write : Sink → Result Unit × Sink) : Keeps φ (writeData write) := by
  refine Triple.of_state fun c hc => ?_
  unfold writeData Program.exec
  dsimp only
  split
  · exact hc
  · exact hc

end

/-- The commands around a transfer. -/
def setupVerbs : List String := ["USER", "PASS", "TYPE", "EPSV", "PASV", "REST", "QUIT"]

def IsSetup (line : Text) : Prop := ∃ verb ∈ setupVerbs, verb.toList <+: line

section

variable {φ : Text → Prop} (hsetup : ∀ line, IsSetup line → φ line)
include hsetup

theorem keeps_setup {verb : String} (h : verb ∈ setupVerbs) (more : Text) :
    Keeps φ (send (verb.toList ++ more)) :=
  keeps_send (hsetup _ ⟨verb, h, List.prefix_append _ _⟩)

theorem keeps_authenticate (user pass : Text) : Keeps φ (authenticate user pass) := by
  refine (keeps_setup hsetup (by decide : "USER" ∈ setupVerbs) (' ' :: user)).bind fun _ =>
    keeps_readReply.bind fun x => ?_
  obtain ⟨c, m⟩ := x
  dsimp only
  split
  · exact keeps_pure _
  split
  · refine (keeps_setup hsetup (by decide : "PASS" ∈ setupVerbs) (' ' :: pass)).bind fun _ =>
      keeps_readReply.bind fun x => ?_
    split
    · exact keeps_throw _
    · exact keeps_pure _
  split
  · exact keeps_throw _
  · exact keeps_throw _

theorem keeps_login (url : Url) : Keeps φ (login url) := by
  refine keeps_readReply.bind fun x => ?_
  obtain ⟨code, m⟩ := x
  dsimp only
  split
  · exact keeps_throw _
  refine (keeps_ofExcept _).bind fun _ => (keeps_ofExcept _).bind fun _ =>
    (keeps_authenticate hsetup _ _).bind fun _ =>
      (keeps_setup hsetup (by decide : "TYPE" ∈ setupVerbs) " I".toList).bind fun _ =>
        keeps_readReply.bind fun x => ?_
  split
  · exact keeps_throw _
  · exact keeps_pure _

theorem keeps_openPassive (host : Text) : Keeps φ (openPassive host) := by
  refine (keeps_setup hsetup (by decide : "EPSV" ∈ setupVerbs) []).bind fun _ =>
    keeps_readReply.bind fun x => ?_
  obtain ⟨c, m⟩ := x
  dsimp only
  split
  · split
    · exact keeps_pure _
    · exact keeps_throw _
  split
  · exact keeps_throw _
  refine (keeps_setup hsetup (by decide : "PASV" ∈ setupVerbs) []).bind fun _ =>
    keeps_readReply.bind fun x => ?_
  split
  · exact keeps_throw _
  split
  · exact Triple.bind (Triple.get fun c hc => hc) fun c => keeps_pure _
  · exact keeps_throw _

theorem keeps_openData (net : Net) (url : Url) : Keeps φ (openData net url) := by
  refine (keeps_openPassive hsetup _).bind fun x => (keeps_ofExcept _).bind fun y => ?_
  exact Triple.bind (Triple.modify fun c hc => hc) fun _ => keeps_pure _

theorem keeps_quit : Keeps φ quit :=
  (keeps_setup hsetup (by decide : "QUIT" ∈ setupVerbs) []).attempt.bind fun _ =>
    keeps_readReply.attempt.bind fun _ => keeps_pure _

theorem keeps_fetchOn (net : Net) (url : Url) (hcmd : φ (fetchCommand url.path)) :
    Keeps φ (fetchOn net url) := by
  refine (keeps_login hsetup url).bind fun _ => (keeps_openData hsetup net url).bind fun data =>
    (keeps_ofExcept _).bind fun _ => (keeps_send hcmd).bind fun _ =>
      keeps_readReply.bind fun x => ?_
  dsimp only
  split
  · exact keeps_throw _
  refine (keeps_ofExcept _).bind fun bytes => ?_
  split
  · refine keeps_readReply.bind fun y => ?_
    split
    · exact keeps_throw _
    · exact (keeps_quit hsetup).bind fun _ => keeps_pure _
  · exact (keeps_quit hsetup).bind fun _ => keeps_pure _

theorem keeps_restart (mode : UploadMode) (resumeAt : Option Nat) :
    Keeps φ (restart mode resumeAt) := by
  unfold restart
  split
  · refine (keeps_setup hsetup (by decide : "REST" ∈ setupVerbs) _).bind fun _ =>
      keeps_readReply.bind fun x => ?_
    dsimp only
    split
    · exact keeps_throw _
    · exact keeps_pure _
  · exact keeps_pure _

theorem keeps_uploadOn (net : Net) (url : Url) (body : Bytes) (mode : UploadMode)
    (resumeAt : Option Nat) (hcmd : ∀ cmd, uploadCommand mode url.path = some cmd → φ cmd) :
    Keeps φ (uploadOn net url body mode resumeAt) := by
  refine (keeps_login hsetup url).bind fun _ => (keeps_ofExcept _).bind fun _ => ?_
  split
  · exact keeps_throw _
  next cmd heq =>
  refine (keeps_restart hsetup mode resumeAt).bind fun _ =>
    (keeps_openData hsetup net url).bind fun _ => (keeps_send (hcmd cmd heq)).bind fun _ =>
      keeps_readReply.bind fun x => ?_
  dsimp only
  split
  · exact keeps_throw _
  refine (keeps_writeData _).bind fun _ => (keeps_writeData _).bind fun _ =>
    keeps_readReply.bind fun y => ?_
  split
  · exact keeps_throw _
  · exact keeps_quit hsetup

end

/-- In a run from the connect on. -/
theorem sent_runOn {φ : Text → Prop} {α : Type} {m : Session α} (h : Keeps φ m) (net : Net)
    (url : Url) : ∀ line ∈ (runOn net url m).2, φ line := by
  unfold runOn
  split
  · nofun
  · next c hconnect =>
      have hfresh : Only φ c := by
        unfold connect at hconnect
        split at hconnect
        · cases hconnect
        · obtain ⟨x, -, rfl⟩ := Result.map_eq_ok hconnect
          exact nofun
      have hend := h c hfresh
      revert hend
      rcases m.exec c with ⟨res | res, c'⟩
      · exact id
      · exact id

/-- The name of the file behind a verb. -/
def Names (verb : String) (line name : Text) : Prop := line = verb.toList ++ ' ' :: name

theorem not_isSetup {verb : String} (hverb : verb ∈ ["RETR", "STOR", "APPE"]) {line name : Text}
    (h : Names verb line name) : ¬ IsSetup line := by
  rintro ⟨setup, hmem, hprefix⟩
  subst h
  have hfour : ∀ v ∈ ["RETR", "STOR", "APPE"], ∀ w ∈ setupVerbs,
      v.toList.length = w.toList.length ∧ w.toList ≠ v.toList := by
    decide +kernel
  obtain ⟨hlen, hne⟩ := hfour verb hverb setup hmem
  have htake := List.prefix_iff_eq_take.mp hprefix
  rw [← hlen, List.take_left] at htake
  exact hne htake

/-! ## A server that agrees -/

/-- A write half that takes everything. -/
def Healthy (w : Sink) : Prop := w.fault = none ∧ w.flushFault = none

/-- The server has these replies left to send, and takes everything. -/
structure At (replies : List Text) (c : Control) : Prop where
  pending : c.ctrl.pending = replies.flatMap Rtsp.ended
  sink : Healthy c.sink
  data : ∀ w ∈ c.data, Healthy w

/-- A session step that goes well, from one set of replies to another, sending these lines. -/
def Goes {α : Type} (m : Session α) (replies replies' : List Text) (lines : List Text) (a : α) :
    Prop :=
  ∀ c, At replies c → ∃ c', m.exec c = (.ok a, c') ∧ At replies' c' ∧ c'.sent = c.sent ++ lines

section

variable {replies replies' replies'' : List Text} {lines lines' : List Text} {α β : Type}

theorem Goes.bind {m : Session α} {f : α → Session β} {a : α} {b : β}
    (hm : Goes m replies replies' lines a) (hf : Goes (f a) replies' replies'' lines' b) :
    Goes (m >>= f) replies replies'' (lines ++ lines') b := by
  intro c hc
  obtain ⟨c₁, hrun, hc₁, hsent⟩ := hm c hc
  obtain ⟨c₂, hrun', hc₂, hsent'⟩ := hf c₁ hc₁
  refine ⟨c₂, ?_, hc₂, by rw [hsent', hsent, List.append_assoc]⟩
  rw [Program.exec_bind_ok hrun, hrun']

theorem goes_pure (a : α) : Goes (pure a : Session α) replies replies [] a :=
  fun c hc => ⟨c, rfl, hc, (List.append_nil _).symm⟩

theorem Goes.attempt {m : Session α} {a : α} (h : Goes m replies replies' lines a) :
    Goes m.attempt replies replies' lines (.ok a) := by
  intro c hc
  obtain ⟨c', hrun, hc', hsent⟩ := h c hc
  exact ⟨c', by rw [Program.exec_attempt, hrun], hc', hsent⟩

theorem goes_ofExcept {x : Result α} {a : α} (h : x = .ok a) :
    Goes (Program.ofExcept x : Session α) replies replies [] a := by
  subst h
  exact goes_pure a

theorem Healthy.writeAll {w : Sink} (h : Healthy w) (bs : Bytes) :
    (w.writeAll bs).1 = .ok () ∧ Healthy (w.writeAll bs).2 := by
  have hwrite : w.writeAll bs = (.ok (), { w with written := w.written ++ bs }) := by
    unfold Sink.writeAll
    rw [h.1]
  rw [hwrite]
  exact ⟨rfl, h.1, h.2⟩

theorem Healthy.flush {w : Sink} (h : Healthy w) : w.flush = (.ok (), w) := by
  unfold Sink.flush
  rw [h.2]

theorem goes_send {line : Text} (h : line.any breaksLine = false) :
    Goes (send line) replies replies [line] () := by
  intro c hc
  obtain ⟨hline, hsink⟩ := hc.sink.writeAll line.utf8
  obtain ⟨hcrlf, hsink⟩ := hsink.writeAll crlf
  generalize hend : ((c.sink.writeAll line.utf8).2.writeAll crlf).2 = sink at hsink
  have hwrite : Sink.andThen (c.sink.writeAll line.utf8) (fun w => w.writeAll crlf) =
      (.ok (), sink) := by
    rw [← hend]
    revert hline hcrlf
    rcases c.sink.writeAll line.utf8 with ⟨res, w⟩
    intro hline hcrlf
    obtain rfl : res = .ok () := hline
    exact Prod.ext hcrlf rfl
  refine ⟨{ c with sink, sent := c.sent ++ [line] }, ?_, ⟨hc.pending, hsink, hc.data⟩, rfl⟩
  unfold send Program.exec
  dsimp only
  rw [if_neg (by rw [h]; exact Bool.false_ne_true), hwrite]
  dsimp only
  rw [hsink.flush]

/-- A reply of one line. -/
structure IsReply (reply : Text) (code : Nat) (text : Text) : Prop where
  one_line : Rtsp.OneLine reply
  split : splitCode (reply ++ ['\r', '\n']) = .ok (code, ' ', text)

theorem goes_readReply {reply text : Text} {code : Nat} (h : IsReply reply code text) :
    Goes readReply (reply :: replies) replies [] (code, text) := by
  intro c hc
  have hwire : c.ctrl.pending = reply.utf8 ++ crlf ++ replies.flatMap Rtsp.ended := by
    rw [hc.pending, List.flatMap_cons, Rtsp.ended_eq]
    rfl
  obtain ⟨ctrl, hline, hpending⟩ := readLine_wire h.one_line.2 hwire
  refine ⟨{ c with ctrl }, ?_, ⟨hpending, hc.sink, hc.data⟩, (List.append_nil _).symm⟩
  rw [readReply, Program.exec_bind_ok hline, h.split]
  rfl

theorem goes_writeData {write : Sink → Result Unit × Sink}
    (h : ∀ w, Healthy w → (write w).1 = .ok () ∧ Healthy (write w).2) :
    Goes (writeData write) replies replies [] () := by
  intro c hc
  cases hdata : c.data with
  | none =>
      refine ⟨c, ?_, hc, (List.append_nil _).symm⟩
      simp only [writeData, Program.exec, hdata]
  | some sink =>
      obtain ⟨hok, hhealthy⟩ := h sink (hc.data sink hdata)
      refine ⟨{ c with data := some (write sink).2 }, ?_, ⟨hc.pending, hc.sink, ?_⟩,
        (List.append_nil _).symm⟩
      · simp only [writeData, Program.exec, hdata, hok]
      · intro w hw
        rw [← Option.some.inj hw]
        exact hhealthy

end

theorem isReply_of {reply text : Text} {code : Nat} (hcr : '\r' ∉ reply) (hlf : '\n' ∉ reply)
    (h : splitCode (reply ++ ['\r', '\n']) = .ok (code, ' ', text)) : IsReply reply code text :=
  ⟨⟨hcr, hlf⟩, h⟩

/-- What the server says on the way to the data connection, to a client that needs no password. -/
def setupReplies : List Text := ["220 a".toList, "230 a".toList, "200 a".toList]

def passiveReply : Text := "229 (|||1|)".toList

def closing : List Text := ["226 a".toList, "221 a".toList]

/-- A server that agrees, and takes and gives every data connection. -/
def agreeing (replies : List Text) : Net where
  control _ := .ok (⟨replies.flatMap Rtsp.ended, ⟨[], none⟩⟩, ⟨[], none, none⟩, [])
  data _ _ _ := .ok (⟨[], none⟩, ⟨[], none, none⟩)

theorem clean_of_any {s : Text} (h : s.any Url.isForbidden = false) :
    ∀ c ∈ s, Url.isForbidden c = false :=
  fun c hc => Bool.eq_false_iff.mpr (List.any_eq_false.mp h c hc)

/-- The name and the password of an accepted URL can be sent. -/
theorem splitUserinfo_clean {info : Option Text} (h : ∀ s ∈ info, ∀ c ∈ s, Url.isForbidden c = false) :
    (∀ c ∈ (splitUserinfo info).1, Url.isForbidden c = false) ∧
      ∀ c ∈ (splitUserinfo info).2, Url.isForbidden c = false := by
  cases info with
  | none => exact ⟨clean_of_any rfl, clean_of_any rfl⟩
  | some s =>
      have hs := h s rfl
      unfold splitUserinfo
      dsimp only
      split
      · next user pass hcut =>
          obtain ⟨rfl, -⟩ := Text.splitOnce_eq_some.mp hcut
          exact ⟨fun c hc => hs c (List.mem_append_left _ hc),
            fun c hc => hs c (List.mem_append_right _ (List.mem_cons_of_mem _ hc))⟩
      · exact ⟨hs, clean_of_any rfl⟩

theorem breaksLine_of_clean {c : Char} (h : Url.isForbidden c = false) : breaksLine c = false := by
  by_contra hbreaks
  rw [Bool.not_eq_false] at hbreaks
  simp only [breaksLine, Bool.or_eq_true, beq_iff_eq] at hbreaks
  rcases hbreaks with (rfl | rfl) | rfl
  · exact absurd h (by decide)
  · exact absurd h (by decide)
  · exact absurd h (by decide)

theorem any_breaksLine {verb : Text} (hverb : verb.any breaksLine = false) {t : Text}
    (h : ∀ c ∈ t, Url.isForbidden c = false) : (verb ++ t).any breaksLine = false := by
  rw [List.any_append, hverb, Bool.false_or, List.any_eq_false]
  intro c hc
  rw [breaksLine_of_clean (h c hc)]
  exact Bool.false_ne_true

theorem rejectCtl_of_clean {t : Text} (h : ∀ c ∈ t, Url.isForbidden c = false) (what : String) :
    rejectCtl t what = .ok () := by
  unfold rejectCtl
  rw [List.find?_eq_none.mpr]
  intro c hc hctl
  have hclean := h c hc
  simp only [Url.isForbidden, Bool.or_eq_false_iff] at hclean
  rw [isControl, hclean.1.1, hclean.1.2] at hctl
  exact absurd hctl Bool.false_ne_true

section

variable {replies : List Text} {url : Url}

theorem goes_login (h : ∀ s ∈ url.userinfo, ∀ c ∈ s, Url.isForbidden c = false) :
    ∃ user, Goes (login url) (setupReplies ++ replies) replies [user, "TYPE I".toList] () := by
  obtain ⟨huser, hpass⟩ := splitUserinfo_clean h
  refine ⟨"USER ".toList ++ (splitUserinfo url.userinfo).1, ?_⟩
  have hbanner : Goes readReply (setupReplies ++ replies) _ [] (220, "a".toList) :=
    goes_readReply (isReply_of (by decide) (by decide) rfl)
  have haccept : Goes readReply ("230 a".toList :: "200 a".toList :: replies) _ []
      (230, "a".toList) := goes_readReply (isReply_of (by decide) (by decide) rfl)
  have hbinary : Goes readReply ("200 a".toList :: replies) _ [] (200, "a".toList) :=
    goes_readReply (isReply_of (by decide) (by decide) rfl)
  have hauth : Goes (authenticate (splitUserinfo url.userinfo).1 (splitUserinfo url.userinfo).2)
      ("230 a".toList :: "200 a".toList :: replies) ("200 a".toList :: replies)
      ["USER ".toList ++ (splitUserinfo url.userinfo).1] () :=
    (goes_send (any_breaksLine (by decide) huser)).bind (haccept.bind (goes_pure _))
  exact hbanner.bind ((goes_ofExcept (rejectCtl_of_clean huser _)).bind
    ((goes_ofExcept (rejectCtl_of_clean hpass _)).bind (hauth.bind
      ((goes_send (by decide)).bind (hbinary.bind (goes_pure _))))))

theorem goes_openData (said : List Text) :
    Goes (openData (agreeing said) url) (passiveReply :: replies) replies ["EPSV".toList]
      ⟨[], none⟩ := by
  have hreply : Goes readReply (passiveReply :: replies) _ [] (229, "(|||1|)".toList) :=
    goes_readReply (isReply_of (by decide) (by decide) rfl)
  have hpassive : Goes (openPassive url.host) (passiveReply :: replies) replies ["EPSV".toList]
      (url.host, 1) :=
    (goes_send (by decide)).bind (hreply.bind (goes_pure _))
  have hdata : Goes (modify fun c : Control => { c with data := some ⟨[], none, none⟩ })
      replies replies [] () :=
    fun c hc => ⟨_, rfl, ⟨hc.pending, hc.sink, fun w hw => by
      rw [← Option.some.inj hw]
      exact ⟨rfl, rfl⟩⟩, (List.append_nil _).symm⟩
  exact hpassive.bind ((goes_ofExcept rfl).bind (hdata.bind (goes_pure _)))

theorem goes_quit : Goes quit ("221 a".toList :: replies) replies ["QUIT".toList] () := by
  have hreply : Goes readReply ("221 a".toList :: replies) _ [] (221, "a".toList) :=
    goes_readReply (isReply_of (by decide) (by decide) rfl)
  exact (goes_send (by decide)).attempt.bind (hreply.attempt.bind (goes_pure _))

/-- A run that goes well sends its lines. -/
theorem runOn_of_goes {α : Type} {m : Session α} {lines : List Text} {a : α}
    (hscheme : url.scheme = "ftp".toList ∨ url.scheme = "ftps".toList)
    (h : Goes m replies [] lines a) : runOn (agreeing replies) url m = (.ok a, lines) := by
  let opened : Control :=
    { ctrl := ⟨replies.flatMap Rtsp.ended, ⟨[], none⟩⟩, sink := ⟨[], none, none⟩,
      peerIp := [], sent := [], data := none }
  have hconnect : connect (agreeing replies) url = .ok opened := by
    unfold connect
    rw [if_neg fun hne => hscheme.elim hne.1 hne.2]
    rfl
  have hopened : At replies opened := ⟨List.append_nil _, ⟨rfl, rfl⟩, nofun⟩
  obtain ⟨c, hrun, -, hsent⟩ := h opened hopened
  unfold runOn
  rw [hconnect]
  dsimp only
  rw [hrun, hsent]
  rfl

end

/-- The URL is one FTP takes, and its path names a file. -/
structure NamesFile (u : Url) : Prop where
  scheme : u.scheme = "ftp".toList ∨ u.scheme = "ftps".toList
  ne_nil : u.path ≠ []
  not_dir : u.path.getLast? ≠ some '/'

section

variable {s : Text} {u : Url}

/-- The path of an accepted URL: a slash, and the name of the file. -/
structure Accepted (u : Url) (name : Text) : Prop where
  path : u.path = '/' :: name
  path_clean : ∀ c ∈ u.path, Url.isForbidden c = false
  userinfo_clean : ∀ s ∈ u.userinfo, ∀ c ∈ s, Url.isForbidden c = false

theorem accepted_of_parse (h : Url.parse s = .ok u) (hfile : NamesFile u) :
    ∃ name, Accepted u name := by
  rcases Url.reads_of_parse h with ⟨p, hreads⟩ | ⟨raw, rest, -, -, hparse⟩
  · obtain ⟨⟨name, hpath⟩, -⟩ := hreads.path_slash
    exact ⟨name, hpath, hreads.path_ok, fun info hinfo => (hreads.userinfo_ok info hinfo).1⟩
  · obtain ⟨path, -, rfl⟩ := Url.parseFile_eq_ok.mp hparse
    rcases hfile.scheme with hscheme | hscheme
    · exact absurd hscheme (by decide : ¬ "file".toList = "ftp".toList)
    · exact absurd hscheme (by decide : ¬ "file".toList = "ftps".toList)

end

/-! ## The two names -/

section

variable {u : Url} {name : Text}

theorem fetchCommand_of_file (hfile : NamesFile u) (h : Accepted u name) (hne : name ≠ []) :
    fetchCommand u.path = "RETR ".toList ++ u.path := by
  unfold fetchCommand
  rw [if_neg, if_neg hfile.not_dir]
  rintro (hnil | hslash)
  · exact hfile.ne_nil hnil
  · rw [h.path] at hslash
    exact hne (List.cons.inj hslash).2

/-- A path of one slash is a directory. -/
theorem Accepted.name_ne (h : Accepted u name) (hfile : NamesFile u) : name ≠ [] := by
  rintro rfl
  refine hfile.not_dir ?_
  rw [h.path]
  rfl

theorem uploadCommand_of_file (hfile : NamesFile u) (h : Accepted u name) (mode : UploadMode) :
    uploadCommand mode u.path = some (mode.verb.toList ++ ' ' :: name) := by
  have hne := h.name_ne hfile
  unfold uploadCommand
  rw [h.path]
  dsimp only
  refine if_neg ?_
  rintro (hnil | hdir)
  · exact hne hnil
  · refine hfile.not_dir ?_
    rw [h.path, List.getLast?_cons_of_ne_nil hne]
    exact hdir

/-- Every line that asks for a file, in a download, asks for the path. -/
theorem fetch_names (hfile : NamesFile u) (h : Accepted u name) (net : Net) {line p : Text}
    (hline : line ∈ (fetch net u).2) (hnames : Names "RETR" line p) : p = '/' :: name := by
  have hkeeps : Keeps (fun l => IsSetup l ∨ l = fetchCommand u.path) (fetchOn net u) :=
    keeps_fetchOn (fun _ => Or.inl) net u (Or.inr rfl)
  have hsent := sent_runOn hkeeps net u line hline
  rcases hsent with hsetup | rfl
  · exact absurd hsetup (not_isSetup (by decide) hnames)
  · rw [fetchCommand_of_file hfile h (h.name_ne hfile)] at hnames
    rw [← h.path]
    exact (List.append_cancel_left hnames).symm

/-- Every line that gives a file, in an upload, names it without the slash. -/
theorem upload_names (hfile : NamesFile u) (h : Accepted u name) (net : Net) (body : Bytes)
    (mode : UploadMode) (resumeAt : Option Nat) {line p : Text}
    (hline : line ∈ (runOn net u (uploadOn net u body mode resumeAt)).2)
    (hnames : Names mode.verb line p) : p = name := by
  have hkeeps : Keeps (fun l => IsSetup l ∨ uploadCommand mode u.path = some l)
      (uploadOn net u body mode resumeAt) :=
    keeps_uploadOn (fun _ => Or.inl) net u body mode resumeAt fun _ => Or.inr
  have hsent := sent_runOn hkeeps net u line hline
  have hverb : mode.verb ∈ ["RETR", "STOR", "APPE"] := by
    cases mode with
    | stor => decide
    | appe => decide
  rcases hsent with hsetup | hcmd
  · exact absurd hsetup (not_isSetup hverb hnames)
  · rw [uploadCommand_of_file hfile h] at hcmd
    obtain rfl := Option.some.inj hcmd
    exact (List.cons.inj (List.append_cancel_left hnames)).2.symm

theorem Accepted.name_clean (h : Accepted u name) : ∀ c ∈ name, Url.isForbidden c = false :=
  fun c hc => h.path_clean c (h.path ▸ List.mem_cons_of_mem _ hc)

/-- All the replies to a download, and to an upload from the start of the file. -/
def downloadReplies : List Text := setupReplies ++ passiveReply :: closing

def uploadReplies : List Text := setupReplies ++ passiveReply :: "150 a".toList :: closing

theorem goes_closing {replies : List Text} :
    Goes readReply ("226 a".toList :: replies) replies [] (226, "a".toList) :=
  goes_readReply (isReply_of (by decide) (by decide) rfl)

/-- A download from a server that agrees. -/
theorem fetch_agreeing (hfile : NamesFile u) (h : Accepted u name) :
    ∃ line ∈ (fetch (agreeing downloadReplies) u).2, Names "RETR" line ('/' :: name) := by
  obtain ⟨user, hlogin⟩ := @goes_login (passiveReply :: closing) u h.userinfo_clean
  have hcommand := fetchCommand_of_file hfile h (h.name_ne hfile)
  have hcmd : (fetchCommand u.path).any breaksLine = false := by
    rw [hcommand]
    exact any_breaksLine (by decide) h.path_clean
  have hrun : Goes (fetchOn (agreeing downloadReplies) u) downloadReplies []
      [user, "TYPE I".toList, "EPSV".toList, fetchCommand u.path, "QUIT".toList] [] :=
    hlogin.bind ((goes_openData _).bind ((goes_ofExcept (rejectCtl_of_clean h.path_clean _)).bind
      ((goes_send hcmd).bind (goes_closing.bind ((goes_ofExcept rfl).bind
        (goes_quit.bind (goes_pure _)))))))
  refine ⟨fetchCommand u.path, ?_, ?_⟩
  · rw [fetch, runOn_of_goes hfile.scheme hrun]
    simp
  · rw [hcommand, h.path]
    rfl

/-- An upload to one. -/
theorem upload_agreeing (hfile : NamesFile u) (h : Accepted u name) (mode : UploadMode) :
    ∃ line ∈ (runOn (agreeing uploadReplies) u
        (uploadOn (agreeing uploadReplies) u [] mode none)).2, Names mode.verb line name := by
  obtain ⟨user, hlogin⟩ :=
    @goes_login (passiveReply :: "150 a".toList :: closing) u h.userinfo_clean
  have hcmd : (mode.verb.toList ++ ' ' :: name).any breaksLine = false := by
    rw [List.append_cons]
    refine any_breaksLine ?_ h.name_clean
    cases mode with
    | stor => decide
    | appe => decide
  have hready : Goes readReply ("150 a".toList :: closing) closing [] (150, "a".toList) :=
    goes_readReply (isReply_of (by decide) (by decide) rfl)
  have hrestart : ∀ replies, Goes (restart mode none) replies replies [] () := by
    intro replies
    cases mode with
    | stor => exact goes_pure ()
    | appe => exact goes_pure ()
  have hflush : ∀ w : Sink, Healthy w → w.flush.1 = .ok () ∧ Healthy w.flush.2 := by
    intro w hw
    rw [hw.flush]
    exact ⟨rfl, hw⟩
  have hrun : Goes (uploadOn (agreeing uploadReplies) u [] mode none) uploadReplies []
      [user, "TYPE I".toList, "EPSV".toList, mode.verb.toList ++ ' ' :: name, "QUIT".toList] () := by
    refine hlogin.bind ((goes_ofExcept (rejectCtl_of_clean h.path_clean _)).bind ?_)
    rw [uploadCommand_of_file hfile h]
    exact (hrestart _).bind ((goes_openData _).bind ((goes_send hcmd).bind (hready.bind
      ((goes_writeData fun w hw => hw.writeAll []).bind ((goes_writeData hflush).bind
        (goes_closing.bind goes_quit))))))
  refine ⟨mode.verb.toList ++ ' ' :: name, ?_, rfl⟩
  rw [runOn_of_goes hfile.scheme hrun]
  simp

/-- Whatever the servers answer, a download, an upload and an append name the same file. -/
def Agrees (u : Url) : Prop :=
  ∀ (down up more : Net) (body tail : Bytes) (resumeAt : Option Nat),
    ∀ got ∈ (fetch down u).2, ∀ put ∈ (store up u body resumeAt).2,
      ∀ added ∈ (append more u tail).2, ∀ p q r,
        Names "RETR" got p → Names "STOR" put q → Names "APPE" added r → p = q ∧ q = r

theorem not_agrees (hfile : NamesFile u) (h : Accepted u name) : ¬ Agrees u := by
  intro hagrees
  obtain ⟨got, hgot, hretr⟩ := fetch_agreeing hfile h
  obtain ⟨put, hput, hstor⟩ := upload_agreeing hfile h .stor
  obtain ⟨added, hadded, happe⟩ := upload_agreeing hfile h .appe
  obtain ⟨heq, -⟩ := hagrees _ _ _ [] [] none got hgot put hput added hadded _ _ _ hretr hstor happe
  exact List.cons_ne_self _ _ heq

end

/-- What is got from an accepted URL is `/name`, what is put to it is `name`: they never agree. -/
theorem parse_names_differ {s : Text} {u : Url} (h : Url.parse s = .ok u) (hfile : NamesFile u) :
    ∃ name, u.path = '/' :: name ∧
      (∀ net, ∀ line ∈ (fetch net u).2, ∀ p, Names "RETR" line p → p = '/' :: name) ∧
      (∀ net body resumeAt, ∀ line ∈ (store net u body resumeAt).2, ∀ q,
        Names "STOR" line q → q = name) ∧
      (∀ net body, ∀ line ∈ (append net u body).2, ∀ r, Names "APPE" line r → r = name) ∧
      ¬ Agrees u := by
  obtain ⟨name, haccepted⟩ := accepted_of_parse h hfile
  refine ⟨name, haccepted.path, ?_, ?_, ?_, not_agrees hfile haccepted⟩
  · exact fun net line hline p => fetch_names hfile haccepted net hline
  · exact fun net body resumeAt line hline q =>
      upload_names hfile haccepted net body .stor resumeAt hline
  · exact fun net body line hline r => upload_names hfile haccepted net body .appe none hline

/-- The URL of a file in a directory. -/
def inDirectory : Url := ⟨"ftp".toList, none, "h".toList, 21, "/dir/file".toList⟩

theorem namesFile_inDirectory : NamesFile inDirectory := ⟨.inl rfl, by decide, by decide⟩

theorem parse_inDirectory : Url.parse "ftp://h/dir/file".toList = .ok inDirectory := by decide +kernel

theorem parse_names_differ_inDirectory : ∃ name, inDirectory.path = '/' :: name ∧
      (∀ net, ∀ line ∈ (fetch net inDirectory).2, ∀ p, Names "RETR" line p → p = '/' :: name) ∧
      (∀ net body resumeAt, ∀ line ∈ (store net inDirectory body resumeAt).2, ∀ q,
        Names "STOR" line q → q = name) ∧
      (∀ net body, ∀ line ∈ (append net inDirectory body).2, ∀ r,
        Names "APPE" line r → r = name) ∧
      ¬ Agrees inDirectory :=
  parse_names_differ parse_inDirectory namesFile_inDirectory

/-- Its upload is found elsewhere. -/
theorem inDirectory_disagrees :
    Url.parse "ftp://h/dir/file".toList = .ok inDirectory ∧ NamesFile inDirectory ∧
      ¬ Agrees inDirectory := by
  obtain ⟨name, haccepted⟩ := accepted_of_parse parse_inDirectory namesFile_inDirectory
  exact ⟨parse_inDirectory, namesFile_inDirectory, not_agrees namesFile_inDirectory haccepted⟩

end Rsurl.Ftp
