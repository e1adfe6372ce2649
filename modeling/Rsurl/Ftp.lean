/-
# `Rsurl.Ftp` — the FTP client

From `src/ftp.rs`: commands and replies on the control channel, login, the
passive data connection, and the transfers RETR, LIST, STOR and APPE.  The
state of a session is the control connection with the command lines it has
taken, and the write half of the data connection; it stays when a step fails.
Who answers a connect, TLS included, is given from outside.
-/
import Rsurl.Base.Program
import Rsurl.Imap
import Rsurl.Rtsp
import Rsurl.Url

namespace Rsurl.Ftp

open Base (Program)

/-! ## The control channel -/

/-- `Control`, with the lines sent on it and the data connection that is written to. -/
structure Control where
  ctrl : Buffered
  sink : Sink
  peerIp : Text
  sent : List Text
  data : Option Sink

/-- A function that talks on the control channel. -/
abbrev Session := Program Control Error

def crlf : Bytes := [0x0D, 0x0A]

/-- What `send` refuses in a line. -/
def breaksLine (c : Char) : Bool := c == '\r' || c == '\n' || c == '\x00'

/-- `send`. -/
def send (line : Text) : Session Unit := fun c =>
  if line.any breaksLine then
    (.error (.badResponse
      [.str "ftp: refusing to send command line with embedded CR/LF/NUL"]), c)
  else
    match Sink.andThen (c.sink.writeAll line.utf8) fun w => w.writeAll crlf with
    | (.error e, sink) => (.error e, { c with sink })
    | (.ok (), sink) => (sink.flush.1, { c with sink := sink.flush.2, sent := c.sent ++ [line] })

/-- A byte `reject_ctl` refuses: an ASCII control or DEL. -/
def isControl (c : Char) : Bool := c.toNat < 0x20 || c.toNat == 0x7F

/-- `reject_ctl`. -/
def rejectCtl (s : Text) (what : String) : Result Unit :=
  match s.find? isControl with
  | some c => .error (.badResponse
      [.str "ftp: ", .str what, .str " contains illegal control byte ", .hex c.toNat])
  | none => .ok ()

/-! ## Replies -/

/-- `read_line`; the end of the stream before anything is an error. -/
def readLine : Session Text := fun c =>
  match Rtsp.readLine c.ctrl with
  | (.error e, ctrl) => (.error e, { c with ctrl })
  | (.ok (line, n), ctrl) =>
      if n = 0 then (.error .unexpectedEof, { c with ctrl }) else (.ok line, { c with ctrl })

/-- The value of three digits. -/
def codeOf (a b c : Char) : Nat :=
  100 * (a.toNat - '0'.toNat) + 10 * (b.toNat - '0'.toNat) + (c.toNat - '0'.toNat)

/-- `split_code`: the code, the separator, and what follows without the line end. -/
def splitCode (line : Text) : Result (Nat × Char × Text) :=
  match line with
  | a :: b :: c :: sep :: rest =>
      if ¬ (a.isDigit ∧ b.isDigit ∧ c.isDigit) then
        .error (.badResponse [.str "ftp reply: no 3-digit code: ", .display line.trimEnd])
      else if sep ≠ ' ' ∧ sep ≠ '-' then
        .error (.badResponse [.str "ftp reply: bad separator: ", .display line.trimEnd])
      else .ok (codeOf a b c, sep, Text.trimEndCrlf rest)
  | _ => .error (.badResponse [.str "ftp reply: no 3-digit code: ", .display line.trimEnd])

/-- The loop of `read_reply`, until the code is there with a space behind it; every line takes a
byte at least. -/
def continueReply : Nat → Nat → Text → Session (Nat × Text)
  | 0, _, _ => throw .unexpectedEof
  | fuel + 1, code, text => do
      let line ← readLine
      match splitCode line with
      | .ok (c, sep, rest) =>
          let text := text ++ '\n' :: rest
          if c = code ∧ sep = ' ' then pure (code, text) else continueReply fuel code text
      | .error _ => continueReply fuel code (text ++ '\n' :: line.trimEndCrlf)

/-- `read_reply`. -/
def readReply : Session (Nat × Text) := do
  let first ← readLine
  let (code, sep, rest) ← Program.ofExcept (splitCode first)
  if sep = ' ' then pure (code, rest)
  else do
    let c ← get
    continueReply (c.ctrl.pending.length + 1) code rest

/-- `is_positive`. -/
def isPositive (code : Nat) : Bool := 200 ≤ code && code < 400

/-- A reply that ends a function. -/
def badReply (what : Msg) (code : Nat) (text : Text) : Error :=
  .badResponse (.str "ftp " :: what ++ [.str ": ", .num code, .str " ", .display text])

/-! ## Login -/

/-- `split_userinfo`. -/
def splitUserinfo (ui : Option Text) : Text × Text :=
  match ui with
  | none => ("anonymous".toList, "rsurl@".toList)
  | some s =>
      match Text.splitOnce ':' s with
      | some (user, pass) => (user, pass)
      | none => (s, "rsurl@".toList)

/-- The replies to `USER`, and to `PASS` where it is asked for. -/
def authenticate (user pass : Text) : Session Unit := do
  send ("USER ".toList ++ user)
  let (c, _) ← readReply
  if c = 230 then pure ()
  else if c = 331 then do
    send ("PASS ".toList ++ pass)
    let (c2, m2) ← readReply
    if c2 ≠ 230 ∧ c2 ≠ 202 then throw (badReply [.str "PASS"] c2 m2) else pure ()
  else if c = 332 then
    throw (.badResponse [.str "ftp server requires ACCT, not supported"])
  else throw (.badResponse [.str "ftp USER: ", .num c])

/-- `connect_login` from the banner on. -/
def login (url : Url) : Session Unit := do
  let (code, _) ← readReply
  if ¬ isPositive code then throw (.badResponse [.str "ftp banner: ", .num code])
  else do
    let (user, pass) := splitUserinfo url.userinfo
    Program.ofExcept (rejectCtl user "ftp user")
    Program.ofExcept (rejectCtl pass "ftp password")
    authenticate user pass
    send "TYPE I".toList
    let (c, m) ← readReply
    if c ≠ 200 then throw (badReply [.str "TYPE I"] c m) else pure ()

/-! ## The data connection -/

/-- What is between the first `(` and a `)` behind it. -/
def parenthesised (close : Text → Option (Text × Text)) (text : Text) : Option Text := do
  let (_, rest) ← Text.splitOnce '(' text
  let (inner, _) ← close rest
  some inner

/-- `parse_pasv`. -/
def parsePasv (text : Text) : Option (Text × UInt16) := do
  let inner ← parenthesised (Text.splitOnce ')') text
  let parts := (inner.splitOn ',').map fun part => Text.trim part
  match parts.mapM parseU16 with
  | some [h1, h2, h3, h4, p1, p2] =>
      if [h1, h2, h3, h4, p1, p2].any (255 < ·) then none
      else
        some (decimal h1.toNat ++ '.' :: decimal h2.toNat ++ '.' :: decimal h3.toNat ++
          '.' :: decimal h4.toNat, p1 * 256 + p2)
  | _ => none

/-- `parse_epsv`: what is between the third and the fourth delimiter. -/
def parseEpsv (text : Text) : Option UInt16 := do
  let inner ← parenthesised (Text.rsplitOnce ')') text
  let delim ← inner.head?
  match inner.splitOn delim with
  | _ :: _ :: _ :: port :: _ :: _ => parseU16 port
  | _ => none

/-- `open_passive`: where to dial. -/
def openPassive (fallbackHost : Text) : Session (Text × UInt16) := do
  send "EPSV".toList
  let (c, m) ← readReply
  if c = 229 then
    match parseEpsv m with
    | some port => pure (fallbackHost, port)
    | none => throw (.badResponse [.str "ftp EPSV: cannot parse reply: ", .display m])
  else if ¬ (400 ≤ c ∧ c < 600) then throw (badReply [.str "EPSV"] c m)
  else do
    send "PASV".toList
    let (c2, m2) ← readReply
    if c2 ≠ 227 then throw (badReply [.str "PASV"] c2 m2)
    else
      match parsePasv m2 with
      | some (_, port) => do
          let con ← get
          pure (con.peerIp, port)
      | none => throw (.badResponse [.str "ftp PASV: cannot parse: ", .display m2])

/-- Who answers a connect, on the control port of a URL, with the peer's address, and on a data
port. -/
structure Net where
  control : Url → Result (Buffered × Sink × Text)
  data : Url → Text → UInt16 → Result (Source × Sink)

/-- `open_data`. -/
def openData (net : Net) (url : Url) : Session Source := do
  let (host, port) ← openPassive url.host
  let (source, sink) ← Program.ofExcept (net.data url host port)
  modify fun c => { c with data := some sink }
  pure source

/-- `data.read_to_end(..)`. -/
def readToEnd (data : Source) : Result Bytes :=
  match data.tail with
  | some kind => .error (.io kind)
  | none => .ok data.bytes

/-- Write to the data connection. -/
def writeData (write : Sink → Result Unit × Sink) : Session Unit := fun c =>
  match c.data with
  | none => (.ok (), c)
  | some sink => ((write sink).1, { c with data := some (write sink).2 })

/-- `QUIT`; how it ends does not matter. -/
def quit : Session Unit := do
  let _ ← (send "QUIT".toList).attempt
  let _ ← readReply.attempt
  pure ()

/-! ## Transfers -/

/-- The command of `fetch`. -/
def fetchCommand (path : Text) : Text :=
  if path = [] ∨ path = ['/'] then "LIST".toList
  else if path.getLast? = some '/' then "LIST ".toList ++ path
  else "RETR ".toList ++ path

/-- `fetch` from the login on. -/
def fetchOn (net : Net) (url : Url) : Session Bytes := do
  login url
  let data ← openData net url
  Program.ofExcept (rejectCtl url.path "ftp path")
  let cmd := fetchCommand url.path
  send cmd
  let (c, m) ← readReply
  let preliminary := c = 125 ∨ c = 150
  if ¬ preliminary ∧ ¬ isPositive c then throw (badReply [.display cmd] c m)
  else do
    let bytes ← Program.ofExcept (readToEnd data)
    if preliminary then do
      let (cf, mf) ← readReply
      if ¬ isPositive cf then throw (badReply [.str "transfer end"] cf mf)
      else do
        quit
        pure bytes
    else do
      quit
      pure bytes

/-- `UploadMode`. -/
inductive UploadMode where
  | stor
  | appe
deriving DecidableEq, Repr

/-- `verb`. -/
def UploadMode.verb : UploadMode → String
  | stor => "STOR"
  | appe => "APPE"

/-- `upload_command`. -/
def uploadCommand (mode : UploadMode) (path : Text) : Option Text :=
  let name := match path with
    | '/' :: name => name
    | name => name
  if name = [] ∨ name.getLast? = some '/' then none
  else some (mode.verb.toList ++ ' ' :: name)

/-- `rest_command`. -/
def restCommand (offset : Nat) : Text := "REST ".toList ++ decimal offset

/-- The resume offset, in front of `STOR`. -/
def restart (mode : UploadMode) (resumeAt : Option Nat) : Session Unit :=
  match mode, resumeAt with
  | .stor, some offset => do
      send (restCommand offset)
      let (c, m) ← readReply
      if c ≠ 350 then throw (badReply [.str "REST"] c m) else pure ()
  | _, _ => pure ()

/-- `upload` from the login on. -/
def uploadOn (net : Net) (url : Url) (body : Bytes) (mode : UploadMode)
    (resumeAt : Option Nat) : Session Unit := do
  login url
  Program.ofExcept (rejectCtl url.path "ftp path")
  match uploadCommand mode url.path with
  | none => throw (.badResponse [.str "ftp ", .str mode.verb, .str ": URL path ", .debug url.path,
      .str " does not name a file to upload"])
  | some cmd => do
      restart mode resumeAt
      let _ ← openData net url
      send cmd
      let (c, m) ← readReply
      if ¬ (c = 125 ∨ c = 150) then throw (badReply [.display cmd] c m)
      else do
        writeData fun w => w.writeAll body
        writeData Sink.flush
        let (cf, mf) ← readReply
        if ¬ isPositive cf then throw (badReply [.str mode.verb, .str " end"] cf mf)
        else quit

/-- `connect_login` up to the control channel. -/
def connect (net : Net) (url : Url) : Result Control :=
  if url.scheme ≠ "ftp".toList ∧ url.scheme ≠ "ftps".toList then
    .error (.unsupportedScheme (.ofText url.scheme))
  else
    (net.control url).map fun (ctrl, sink, peerIp) =>
      { ctrl, sink, peerIp, sent := [], data := none }

/-- A session on the control channel of a URL: how it ends, and the lines it has sent. -/
def runOn {α : Type} (net : Net) (url : Url) (m : Session α) : Result α × List Text :=
  match connect net url with
  | .error e => (.error e, [])
  | .ok c => ((m.exec c).1, (m.exec c).2.sent)

/-- `fetch`. -/
def fetch (net : Net) (url : Url) : Result Bytes × List Text := runOn net url (fetchOn net url)

/-- `store`. -/
def store (net : Net) (url : Url) (body : Bytes) (resumeAt : Option Nat) :
    Result Unit × List Text := runOn net url (uploadOn net url body .stor resumeAt)

/-- `append`. -/
def append (net : Net) (url : Url) (body : Bytes) : Result Unit × List Text :=
  runOn net url (uploadOn net url body .appe none)

end Rsurl.Ftp
