/-
# `Rsurl.Imap` — the IMAP client

From `src/imap.rs`: the line reader that understands literals, the capability
lists, the ways to authenticate, and the session with its upgrade to TLS.  The
state of a session is the transport it is on, what the line reader holds of it,
and the number of its last tag; it stays as it is when a step fails.
-/
import Rsurl.Base.Program
import Rsurl.Http
import Rsurl.Net
import Rsurl.Socket
import Rsurl.Text.Fields

namespace Rsurl

/-- `str::trim_end`. -/
def Text.trimEnd (t : Text) : Text := t.rdropWhile isWhitespace

/-- `str::trim_start`. -/
def Text.trimStart (t : Text) : Text := t.dropWhile isWhitespace

/-- `str::strip_suffix` of a character. -/
def Text.stripLast (c : Char) (t : Text) : Option Text :=
  if t.getLast? = some c then some t.dropLast else none

/-- `str::lines`: a `\r` before the end of a line is not part of it. -/
def Text.lines (t : Text) : List Text :=
  let pieces := t.splitOn '\n'
  (if pieces.getLast? = some [] then pieces.dropLast else pieces).mapIdx fun i line =>
    if i + 1 < pieces.length then (Text.stripLast '\r' line).getD line else line

namespace Imap

open Base (Program)

/-! ## Lines and literals -/

def maxLiteralBytes : Nat := 64 * 1024 * 1024

def crlf : Bytes := [0x0D, 0x0A]

/-- `extract_literal_size`; a `usize` has 64 bits. -/
def extractLiteralSize (line : Text) : Option Nat := do
  let trimmed := line.trimEndCrlf.trimEnd
  let rest ← Text.stripLast '}' trimmed
  let (_, inside) ← Text.rsplitOnce '{' rest
  let inside := (Text.stripLast '+' inside).getD inside
  if inside = [] ∨ inside.any (fun c => !c.isDigit) then none
  else parseUnsigned 10 (2 ^ 64 - 1) inside

/-- `LineReader::read_line`. -/
def readLine (b : Buffered) : Result Text × Buffered :=
  match b.pull (fun _ => 4096) (Base.cutSub crlf) with
  | (some line, b) => (.ok (fromUtf8Lossy line), b)
  | (none, b) =>
      if b.tail ≠ none ∨ b.held = [] then (.error (endError b.tail), b)
      else (.ok (fromUtf8Lossy b.held), { b with held := [] })

/-- `LineReader::read_exact`. -/
def readExact (n : Nat) (b : Buffered) : Result Bytes × Buffered :=
  match b.pull (fun out => min (n - out.length) 4096) (Base.Segment.front n) with
  | (some bytes, b) => (.ok bytes, b)
  | (none, b) => (.error (endError b.tail), { b with held := [] })

/-- A continuation request, or the tagged line. -/
def endsResponse (tag line : Text) : Bool :=
  let trimmed := line.trimEnd
  trimmed == ['+'] || "+ ".toList.isPrefixOf trimmed ||
    (tag ++ [' ']).isPrefixOf trimmed || trimmed == tag

theorem readLine_of_cut {b : Buffered} {line rest : Bytes}
    (h : Base.cutSub crlf b.pending = some (line, rest)) :
    ∃ b', readLine b = (.ok (fromUtf8Lossy line), b') ∧ b'.pending = rest ∧ b'.tail = b.tail := by
  obtain ⟨b', hpull, hrest, htail⟩ := Buffered.pull_of_find (fun _ => 4096)
    (Base.Segment.cutSub_stable crlf) (fun _ _ => by decide) h
  exact ⟨b', by rw [readLine, hpull], hrest, htail⟩

theorem readLine_of_not_cut {b : Buffered} (h : Base.cutSub crlf b.pending = none) :
    readLine b =
      if b.tail ≠ none ∨ b.pending = [] then (.error (endError b.tail), ⟨b.pending, [], b.tail⟩)
      else (.ok (fromUtf8Lossy b.pending), ⟨[], [], b.tail⟩) := by
  rw [readLine, Buffered.pull_of_not_find _ (Base.Segment.cutSub_stable crlf)
    (fun _ _ => by decide) h]
  rfl

theorem readExact_of_front {b : Buffered} {bytes rest : Bytes} (h : b.pending = bytes ++ rest) :
    ∃ b', readExact bytes.length b = (.ok bytes, b') ∧ b'.pending = rest ∧ b'.tail = b.tail := by
  obtain ⟨b', hpull, hrest, htail⟩ := Buffered.pull_of_find (b := b)
    (fun out => min (bytes.length - out.length) 4096) (Base.Segment.front_stable bytes.length)
    (fun l hl => by have := Base.Segment.front_eq_none.mp hl; omega)
    (h ▸ Base.Segment.front_append bytes rest)
  exact ⟨b', by rw [readExact, hpull], hrest, htail⟩

theorem readExact_of_short {n : Nat} {b : Buffered} (h : b.pending.length < n) :
    readExact n b = (.error (endError b.tail), ⟨[], [], b.tail⟩) := by
  rw [readExact, Buffered.pull_of_not_find _ (Base.Segment.front_stable n)
    (fun l hl => by have := Base.Segment.front_eq_none.mp hl; omega)
    (Base.Segment.front_eq_none.mpr h)]
  rfl

/-- A line takes something of the stream. -/
theorem length_readLine_lt {b : Buffered} {line : Text} (h : (readLine b).1 = .ok line) :
    (readLine b).2.pending.length < b.pending.length := by
  cases hcut : Base.cutSub crlf b.pending with
  | some out =>
      obtain ⟨b', hread, hrest, -⟩ := readLine_of_cut hcut
      rw [hread, hrest, Base.eq_of_cutSub hcut]
      simp only [crlf, List.length_append, List.length_cons]
      omega
  | none =>
      rw [readLine_of_not_cut hcut] at h ⊢
      split at h
      · cases h
      · next hsome =>
          rw [if_neg hsome]
          exact List.length_pos_of_ne_nil fun hnil => hsome (.inr hnil)

theorem length_readExact_le (n : Nat) (b : Buffered) :
    (readExact n b).2.pending.length ≤ b.pending.length := by
  by_cases hn : n ≤ b.pending.length
  · obtain ⟨b', hread, hrest, -⟩ := readExact_of_front (List.take_append_drop n b.pending).symm
    rw [List.length_take_of_le hn] at hread
    rw [hread, hrest, List.length_drop]
    omega
  · rw [readExact_of_short (Nat.lt_of_not_le hn)]
    exact Nat.zero_le _

/-- The loop of `read_response_with_literals`, with the text and the literals so far. -/
def responseLoop (tag text : Text) (literals : List Bytes) (b : Buffered) :
    Result (Text × List Bytes) × Buffered :=
  match _ : (readLine b).1 with
  | .error e => (.error e, (readLine b).2)
  | .ok line =>
      let after := (readLine b).2
      let text := text ++ line ++ "\r\n".toList
      match extractLiteralSize line with
      | some n =>
          if n > maxLiteralBytes then
            (.error (.badResponse [.str "imap: literal size ", .num n, .str " exceeds maximum ",
              .num maxLiteralBytes]), after)
          else
            match (readExact n after).1 with
            | .error e => (.error e, (readExact n after).2)
            | .ok bytes =>
                responseLoop tag (text ++ fromUtf8Lossy bytes) (literals ++ [bytes])
                  (readExact n after).2
      | none =>
          if endsResponse tag line then (.ok (text, literals), after)
          else responseLoop tag text literals after
termination_by b.pending.length
decreasing_by
  · exact Nat.lt_of_le_of_lt (length_readExact_le n _) (length_readLine_lt ‹_›)
  · exact length_readLine_lt ‹_›

/-- `LineReader::read_response_with_literals`. -/
def readResponseWithLiterals (tag : Text) (b : Buffered) : Result (Text × List Bytes) × Buffered :=
  responseLoop tag [] [] b

/-- `LineReader::read_response`. -/
def readResponse (tag : Text) (b : Buffered) : Result Text × Buffered :=
  ((readResponseWithLiterals tag b).1.map Prod.fst, (readResponseWithLiterals tag b).2)

/-! ## Answers -/

/-- The last non-empty line. -/
def lastLine (resp : Text) : Text := (resp.lines.reverse.find? fun l => !l.isEmpty).getD []

def requireOk (resp tag : Text) (what : String) : Result Unit :=
  let last := lastLine resp
  let rest := ((Text.stripPrefix tag last).getD []).trimStart
  let status := rest.splitWhitespace.headD []
  if Text.eqIgnoreAsciiCase status "OK".toList then .ok ()
  else .error (.badResponse [.str "imap ", .str what, .str " failed: ", .display last])

def isTaggedDone (resp tag : Text) : Bool :=
  let last := lastLine resp
  (tag ++ [' ']).isPrefixOf last || last == tag

/-- The lines whose data item is `kind`, each with its CRLF. -/
def collectUntagged (resp : Text) (kind : String) : Text :=
  resp.lines.flatMap fun line =>
    match Text.stripPrefix "* ".toList line with
    | none => []
    | some rest =>
        let words := rest.splitWhitespace
        if Text.eqIgnoreAsciiCase (words.headD []) kind.toList ||
            Text.eqIgnoreAsciiCase (words.tail.headD []) kind.toList then
          line ++ "\r\n".toList
        else []

/-! ## Capabilities -/

/-- `Caps`: the names in upper case. -/
abbrev Caps := List Text

def Caps.fromTokens (tokens : List Text) : Caps :=
  (tokens.map Text.toAsciiUppercase).filter fun t => !t.isEmpty

def Caps.has (caps : Caps) (cap : String) : Bool :=
  caps.contains (Text.toAsciiUppercase cap.toList)

/-- The names behind the word `CAPABILITY`, if there are any. -/
def capabilityNames : List Text → Option (List Text)
  | first :: names =>
      if Text.eqIgnoreAsciiCase first "CAPABILITY".toList && !names.isEmpty then some names
      else none
  | [] => none

/-- `parse_capability_code`: the first pair of brackets of a line. -/
def parseCapabilityCode (line : Text) : Option (List Text) := do
  let (_, behind) ← Text.splitOnce '[' line
  let (inside, _) ← Text.splitOnce ']' behind
  capabilityNames (Text.splitWhitespace inside)

/-- `parse_capability_line`: the first untagged line that lists any. -/
def parseCapabilityLine (resp : Text) : Option (List Text) :=
  resp.lines.findSome? fun line =>
    (Text.stripPrefix "* ".toList line).bind fun rest => capabilityNames rest.splitWhitespace

inductive AuthMethod where
  | saslPlain
  | saslLogin
  | loginCommand
deriving DecidableEq, Repr

def chooseAuth (caps : Caps) : Option AuthMethod :=
  if caps.has "AUTH=PLAIN" then some .saslPlain
  else if caps.has "AUTH=LOGIN" then some .saslLogin
  else if caps.has "LOGINDISABLED" then none
  else some .loginCommand

/-! ## What a URL asks for -/

/-- `split_userinfo`. -/
def splitUserinfo (info : Text) : Text × Text := (Text.splitOnce ':' info).getD (info, [])

/-- `reject_ctl`. -/
def rejectCtl (t : Text) (what : String) : Result Unit :=
  match t.utf8.find? fun b => b < 0x20 || b == 0x7F with
  | some b => .error (.badResponse [.str "imap: ", .str what,
      .str " contains illegal control byte ", .hex b.toNat])
  | none => .ok ()

def quoteImapString (t : Text) : Text :=
  '"' :: t.flatMap (fun c => if c = '\\' ∨ c = '"' then ['\\', c] else [c]) ++ ['"']

/-- `sasl_plain_initial`. -/
def saslPlainInitial (user pass : Text) : Text :=
  base64Encode (0 :: user.utf8 ++ 0 :: pass.utf8)

def hex (b : UInt8) : Option UInt8 :=
  if 0x30 ≤ b ∧ b ≤ 0x39 then some (b - 0x30)
  else if 0x61 ≤ b ∧ b ≤ 0x66 then some (10 + b - 0x61)
  else if 0x41 ≤ b ∧ b ≤ 0x46 then some (10 + b - 0x41)
  else none

/-- The loop of `percent_decode`. -/
def percentDecodeBytes : Bytes → Bytes
  | 0x25 :: h :: l :: rest =>
      match hex h, hex l with
      | some h, some l => ((h <<< 4) ||| l) :: percentDecodeBytes rest
      | _, _ => 0x25 :: percentDecodeBytes (h :: l :: rest)
  | b :: rest => b :: percentDecodeBytes rest
  | [] => []

/-- `percent_decode`: lossy decoding of valid UTF-8 is its decoding. -/
def percentDecode (t : Text) : Text := fromUtf8Lossy (percentDecodeBytes t.utf8)

/-- `param.strip_prefix("UID=").or_else(..)`, as a number. -/
def uidParam (param : Text) : Option UInt32 :=
  ((Text.stripPrefix "UID=".toList param).orElse fun _ =>
    Text.stripPrefix "uid=".toList param).bind parseU32

/-- `parse_path`: the mailbox and the UID; the last valid `UID=` counts. -/
def parsePath (path : Text) : Option Text × Option UInt32 :=
  let trimmed := (Text.stripPrefix ['/'] path).getD path
  if trimmed = [] then (none, none)
  else
    let (mbox, params) := (Text.splitOnce ';' trimmed).getD (trimmed, [])
    let uid := (params.split ';').reverse.findSome? uidParam
    (if mbox = [] then none else some (percentDecode mbox), uid)

/-! ## The session -/

/-- The transport a session is on, and its tagger. -/
structure Conn where
  input : Buffered
  sink : Sink
  plain : Bool
  n : Nat
deriving DecidableEq, Repr

abbrev Session (α : Type) := Program Conn Error α

/-- `a{:03}`. -/
def tagText (n : Nat) : Text :=
  'a' :: (List.replicate (3 - (decimal n).length) '0' ++ decimal n)

/-- `Tagger::next`. -/
def nextTag : Session Text := do
  modify fun c => { c with n := c.n + 1 }
  return tagText (← get).n

/-- `sock.write_all(..)?; sock.flush()?`. -/
def send (line : Text) : Session Unit := fun c =>
  let out := Sink.andThen (c.sink.writeAll (line ++ "\r\n".toList).utf8) Sink.flush
  (out.1, { c with sink := out.2 })

def responseWithLiterals (tag : Text) : Session (Text × List Bytes) := fun c =>
  let out := readResponseWithLiterals tag c.input
  (out.1, { c with input := out.2 })

def response (tag : Text) : Session Text := fun c =>
  let out := readResponse tag c.input
  (out.1, { c with input := out.2 })

/-- A tagged command, its response, and the check that it is an OK. -/
def command (text : Text) (what : String) : Session Text := do
  let tag ← nextTag
  send (tag ++ ' ' :: text)
  let resp ← response tag
  Program.ofExcept (requireOk resp tag what)
  return resp

def requestCapability : Session Caps := do
  let resp ← command "CAPABILITY".toList "CAPABILITY"
  return ((parseCapabilityLine resp).map Caps.fromTokens).getD []

/-- One of the two answers of `auth_login_sasl`, or what the server said instead of asking. -/
def answerPrompt (tag answer : Text) (next : Session Unit) : Session Unit := do
  let cont ← response tag
  if isTaggedDone cont tag then Program.ofExcept (requireOk cont tag "AUTHENTICATE LOGIN")
  else
    send answer
    next

def authenticate (caps : Caps) (user pass : Text) : Session Unit :=
  match chooseAuth caps with
  | some .saslPlain => do
      let _ ← command ("AUTHENTICATE PLAIN ".toList ++ saslPlainInitial user pass)
        "AUTHENTICATE PLAIN"
  | some .saslLogin => do
      let tag ← nextTag
      send (tag ++ " AUTHENTICATE LOGIN".toList)
      answerPrompt tag (base64Encode user.utf8) do
        answerPrompt tag (base64Encode pass.utf8) do
          let resp ← response tag
          Program.ofExcept (requireOk resp tag "AUTHENTICATE LOGIN")
  | some .loginCommand => do
      let _ ← command ("LOGIN ".toList ++ quoteImapString user ++ ' ' :: quoteImapString pass)
        "LOGIN"
  | none => throw (.badResponse [.str
      "imap: server offers no usable authentication mechanism (LOGINDISABLED and no AUTH=PLAIN/LOGIN); a STARTTLS/imaps connection may be required"])

/-- The greeting, and the capabilities it lists or that are asked for. -/
def discover : Session (Bool × Caps) := do
  let greeting ← response ['*']
  let first := greeting.lines.headD []
  if !"* OK".toList.isPrefixOf first && !"* PREAUTH".toList.isPrefixOf first then
    throw (.badResponse [.str "imap greeting was not OK: ", .display first])
  let preauth := "* PREAUTH".toList.isPrefixOf first
  let caps := (((parseCapabilityCode first).orElse fun _ => parseCapabilityLine greeting).map
    Caps.fromTokens).getD []
  if caps = [] then return (preauth, ← requestCapability) else return (preauth, caps)

section Tls

-- The handshake over what is left of the plaintext socket, for a host: the two halves of what
-- runs over it.
variable (connectOver : Socket → Text → Result (Socket × Sink))

/-- `Stream::start_tls`. -/
def startTls (host : Text) : Session Unit := fun c =>
  if c.plain then
    match connectOver c.input.socket host with
    | .ok (socket, sink) =>
        (.ok (), { c with input := ⟨c.input.held, socket⟩, sink, plain := false })
    | .error e => (.error e, c)
  else
    (.error (.badResponse [.str "imap: STARTTLS requested on a non-plaintext connection"]), c)

/-- `STARTTLS`, up to the end of the handshake. -/
def negotiate (host : Text) : Session Unit := do
  let _ ← command "STARTTLS".toList "STARTTLS"
  if (← get).input.held ≠ [] then
    throw (.badResponse [.str "STARTTLS: server pipelined data before TLS handshake"])
  startTls connectOver host

/-- The upgrade of a plaintext connection that advertises it; its capabilities are asked for
again. -/
def upgrade (host : Text) (caps : Caps) : Session Caps := do
  if (← get).plain && caps.has "STARTTLS" then
    negotiate connectOver host
    requestCapability
  else return caps

end Tls

def selectMailbox (mbox : Text) : Session Unit := do
  let _ ← command ("SELECT ".toList ++ quoteImapString mbox) "SELECT"

/-- The command the URL's path stands for. -/
def retrieve : Option Text → Option UInt32 → Session Bytes
  | some mbox, none => do
      selectMailbox mbox
      let resp ← command "FETCH 1:* (UID)".toList "FETCH"
      return (collectUntagged resp "FETCH").utf8
  | some mbox, some uid => do
      selectMailbox mbox
      let tag ← nextTag
      send (tag ++ " UID FETCH ".toList ++ decimal uid.toNat ++ " BODY[]".toList)
      let (resp, literals) ← responseWithLiterals tag
      Program.ofExcept (requireOk resp tag "UID FETCH")
      return literals.headD []
  | none, _ => do
      let resp ← command "LIST \"\" \"*\"".toList "LIST"
      return (collectUntagged resp "LIST").utf8

/-- A step whose error is dropped. -/
def ignore {α : Type} (m : Session α) : Session Unit := do
  let _ ← m.attempt

/-- What a session does once it has its capabilities. -/
def serve (url : Url) (preauth : Bool) (caps : Caps) : Session Bytes := do
  if !preauth then
    if let some info := url.userinfo then
      let (user, pass) := splitUserinfo info
      Program.ofExcept (rejectCtl user "imap user")
      Program.ofExcept (rejectCtl pass "imap password")
      authenticate caps user pass
  let (mailbox, uid) := parsePath url.path
  if let some mbox := mailbox then
    Program.ofExcept (rejectCtl mbox "imap mailbox")
  let body ← retrieve mailbox uid
  let tag ← nextTag
  ignore (send (tag ++ " LOGOUT".toList))
  ignore (response tag)
  return body

/-- `run`. -/
def run (connectOver : Socket → Text → Result (Socket × Sink)) (url : Url) : Session Bytes := do
  let (preauth, caps) ← discover
  let caps ← upgrade connectOver url.host caps
  serve url preauth caps

/-! ## The parts of a session -/

theorem tagText_head (n : Nat) : (tagText n).head? = some 'a' := rfl

theorem not_mem_tagText {c : Char} (ha : c ≠ 'a') (hdigit : c.isDigit = false) (n : Nat) :
    c ∉ tagText n := by
  intro hmem
  rcases List.mem_cons.mp hmem with rfl | hmem
  · exact ha rfl
  rcases List.mem_append.mp hmem with hmem | hmem
  · rw [List.eq_of_mem_replicate hmem] at hdigit
    exact absurd hdigit (by decide)
  · rw [isDigit_of_mem_decimal hmem] at hdigit
    cases hdigit

/-- Writing does not fail. -/
def Unbroken (w : Sink) : Prop := w.fault = none ∧ w.flushFault = none

/-- What it does behind the command of its path. -/
def logout (body : Bytes) : Session Bytes := do
  let tag ← nextTag
  ignore (send (tag ++ " LOGOUT".toList))
  ignore (response tag)
  return body

/-- The credentials of the URL, where they are asked for. -/
def signIn (url : Url) (preauth : Bool) (caps : Caps) : Session Unit := do
  if !preauth then
    if let some info := url.userinfo then
      let (user, pass) := splitUserinfo info
      Program.ofExcept (rejectCtl user "imap user")
      Program.ofExcept (rejectCtl pass "imap password")
      authenticate caps user pass

/-- A line goes out with its CRLF. -/
theorem send_unbroken {c : Conn} (hsink : Unbroken c.sink) (line : Text) :
    (send line).exec c = (.ok (), { c with
      sink := { c.sink with written := c.sink.written ++ (line ++ "\r\n".toList).utf8 } }) := by
  obtain ⟨input, ⟨written, fault, flushFault⟩, plain, n⟩ := c
  obtain ⟨rfl, rfl⟩ : fault = none ∧ flushFault = none := hsink
  rfl

end Imap
end Rsurl
