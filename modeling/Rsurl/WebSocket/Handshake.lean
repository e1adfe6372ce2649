/-
# `Rsurl.WebSocket.Handshake` — the upgrade, and where it stops reading

`handshake` of `src/websocket.rs`.  SHA-1 is a crate of its own and a parameter
here, as the entropy is.  The answer is read byte by byte up to the first
CRLFCRLF, so that the frames behind it are left to the frame reader;
`handover_boundary` says the same of this reader and of `connect_tunnel`.
-/
import Rsurl.Http.Tunnel
import Rsurl.Text.Fields
import Rsurl.WebSocket

namespace Rsurl.WebSocket

open Base (Program Scan scan)

/-! ## The request -/

/-- `WS_GUID`. -/
def wsGuid : Text := "258EAFA5-E914-47DA-95CA-C5AB0DC85B11".toList

/-- `PMD_OFFER`. -/
def pmdOffer : Text :=
  ("permessage-deflate; client_no_context_takeover; server_no_context_takeover; " ++
    "client_max_window_bits").toList

/-- The request of the upgrade. -/
def upgradeRequest (url : Url) (key : Text) : Text :=
  let hostHeader := if url.scheme = "ws".toList ∧ url.port = 80 ∨
      url.scheme = "wss".toList ∧ url.port = 443 then url.host
    else url.host ++ ':' :: decimal url.port.toNat
  let path := if url.path = [] then "/".toList else url.path
  "GET ".toList ++ path ++ " HTTP/1.1\r\nHost: ".toList ++ hostHeader ++
    "\r\nUpgrade: websocket\r\nConnection: Upgrade\r\nSec-WebSocket-Key: ".toList ++ key ++
    "\r\nSec-WebSocket-Version: 13\r\nSec-WebSocket-Extensions: ".toList ++ pmdOffer ++
    "\r\n\r\n".toList

/-! ## The answer -/

/-- `Pmd`, its decoder apart. -/
structure Pmd where
  clientNoContextTakeover : Bool
  serverNoContextTakeover : Bool
deriving DecidableEq, Repr

/-- A parameter's token, in front of its value. -/
def paramToken (param : Text) : Text := Text.trim (param.takeWhile (· ≠ '='))

/-- `parse_pmd_response`: the flags of the first `permessage-deflate`. -/
def parsePmdResponse (value : Text) : Option Pmd :=
  (Text.split ',' value).findSome? fun ext =>
    match (Text.split ';' ext).map Text.trim with
    | [] => none
    | name :: params =>
        if name.eqIgnoreAsciiCase "permessage-deflate".toList then
          some {
            clientNoContextTakeover := params.any fun param =>
              (paramToken param).eqIgnoreAsciiCase "client_no_context_takeover".toList,
            serverNoContextTakeover := params.any fun param =>
              (paramToken param).eqIgnoreAsciiCase "server_no_context_takeover".toList }
        else none

/-- `str::split` at CRLF. -/
def splitCrlf : Text → List Text
  | '\r' :: '\n' :: t => [] :: splitCrlf t
  | [] => [[]]
  | c :: t =>
      match splitCrlf t with
      | [] => [[c]]
      | line :: lines => (c :: line) :: lines

/-- What the header lines have said so far. -/
structure Answer where
  upgradeOk : Bool
  connectionOk : Bool
  accept : Option Text
  extensions : Option Text
deriving DecidableEq, Repr

/-- One header line. -/
def Answer.line (a : Answer) (line : Text) : Answer :=
  match line.splitOnce ':' with
  | none => a
  | some (k, v) =>
      let k := k.trim
      let v := v.trim
      if k.eqIgnoreAsciiCase "upgrade".toList then
        if v.eqIgnoreAsciiCase "websocket".toList then { a with upgradeOk := true } else a
      else if k.eqIgnoreAsciiCase "connection".toList then
        if (Text.split ',' v).any fun t => (Text.trim t).eqIgnoreAsciiCase "upgrade".toList then
          { a with connectionOk := true }
        else a
      else if k.eqIgnoreAsciiCase "sec-websocket-accept".toList then { a with accept := some v }
      else if k.eqIgnoreAsciiCase "sec-websocket-extensions".toList then
        { a with extensions := match a.extensions with
          | some existing => some (existing ++ ", ".toList ++ v)
          | none => some v }
      else a

/-- The checks on the answer's head. -/
def checkAnswer (expected : Text) (buf : Bytes) : Result (Option Pmd) :=
  match fromUtf8 buf with
  | none => .error (.badResponse [.str "non-utf8 handshake response"])
  | some head =>
      match splitCrlf head with
      | [] => .error (.badResponse [.str "empty handshake response"])
      | statusLine :: lines =>
          if ¬ ("HTTP/1.1 101".toList <+: statusLine ∨ "HTTP/1.0 101".toList <+: statusLine) then
            .error (.badResponse [.str "expected 101 Switching Protocols, got: ",
              .debug statusLine])
          else
            let a := (lines.takeWhile fun line => !line.isEmpty).foldl Answer.line
              ⟨false, false, none, none⟩
            if !a.upgradeOk then
              .error (.badResponse [.str "missing or wrong Upgrade header in handshake response"])
            else if !a.connectionOk then
              .error (.badResponse
                [.str "missing or wrong Connection header in handshake response"])
            else
              match a.accept with
              | none => .error (.badResponse [.str "missing Sec-WebSocket-Accept header"])
              | some accept =>
                  if accept ≠ expected then
                    .error (.badResponse [.str "Sec-WebSocket-Accept mismatch: got ",
                      .debug accept, .str ", expected ", .debug expected])
                  else .ok (a.extensions.bind parsePmdResponse)

/-- The read loop of `handshake`, byte by byte up to a CRLFCRLF. -/
def readAnswer : Nat → Source → Bytes → Result Bytes × Source
  | 0, s, _ => (.error .unexpectedEof, s)
  | fuel + 1, s, buf =>
      match s.bytes with
      | [] => (.error (endError s.tail), s)
      | b :: bytes =>
          let buf := buf ++ [b]
          if 4 ≤ buf.length ∧ buf.drop (buf.length - 4) = [13, 10, 13, 10] then
            (.ok buf, { s with bytes })
          else if 64 * 1024 < buf.length then
            (.error (.badResponse [.str "handshake response too large"]), { s with bytes })
          else readAnswer fuel { s with bytes } buf

/-- `handshake`'s loop on the stream. -/
def readHead : Session Bytes := fun s =>
  ((readAnswer (s.source.bytes.length + 1) s.source []).1,
    { s with source := (readAnswer (s.source.bytes.length + 1) s.source []).2 })

section

variable (sha1 : Bytes → Bytes) (entropy : Nat → Option {r : Bytes // r.length = 16})

/-- `derive_accept`. -/
def deriveAccept (key : Text) : Text := base64Encode (sha1 (key.utf8 ++ wsGuid.utf8))

/-- `handshake`. -/
def handshake (url : Url) : Session (Option Pmd) := do
  let key := base64Encode (← random16 entropy)
  writeAll (upgradeRequest url key).utf8
  flush
  let buf ← readHead
  Program.ofExcept (checkAnswer (deriveAccept sha1 key) buf)

end

/-! ## The loop -/

/-- What has been read ends in CRLFCRLF. -/
def endsInCrlfCrlf (seen : Bytes) : Bool := [13, 10, 13, 10].isSuffixOf seen

theorem endsInCrlfCrlf_iff {seen : Bytes} : endsInCrlfCrlf seen = true ↔
    4 ≤ seen.length ∧ seen.drop (seen.length - 4) = [13, 10, 13, 10] := by
  rw [endsInCrlfCrlf, List.isSuffixOf_iff_suffix]
  constructor
  · intro h
    exact ⟨h.length_le, (List.suffix_iff_eq_drop.mp h).symm⟩
  · rintro ⟨-, h⟩
    exact h ▸ List.drop_suffix _ _

/-- The loop of `handshake` is a scan for CRLFCRLF. -/
theorem readAnswer_scan {fuel : Nat} {buf bytes : Bytes} (tail : Option IoKind)
    (hfuel : bytes.length < fuel) :
    match scan endsInCrlfCrlf Http.maxHeaderBytes buf bytes with
    | .found seen rest => readAnswer fuel ⟨bytes, tail⟩ buf = (.ok seen, ⟨rest, tail⟩)
    | .tooLong _ rest => ∃ e, readAnswer fuel ⟨bytes, tail⟩ buf = (.error e, ⟨rest, tail⟩)
    | .ended _ => ∃ e, readAnswer fuel ⟨bytes, tail⟩ buf = (.error e, ⟨[], tail⟩) := by
  induction bytes generalizing fuel buf with
  | nil =>
      obtain ⟨fuel, rfl⟩ := Nat.exists_eq_add_of_lt hfuel
      exact ⟨_, rfl⟩
  | cons b bytes ih =>
      obtain ⟨fuel, rfl⟩ : ∃ k, fuel = k + 1 :=
        Nat.exists_eq_add_of_le' (Nat.lt_of_le_of_lt (Nat.zero_le _) hfuel)
      rw [scan, readAnswer]
      dsimp only
      by_cases hstop : endsInCrlfCrlf (buf ++ [b]) = true
      · rw [if_pos hstop, if_pos (endsInCrlfCrlf_iff.mp hstop)]
      rw [if_neg hstop, if_neg fun h => hstop (endsInCrlfCrlf_iff.mpr h)]
      have hmax : 64 * 1024 = Http.maxHeaderBytes := rfl
      rw [hmax]
      by_cases hlong : Http.maxHeaderBytes < (buf ++ [b]).length
      · rw [if_pos hlong, if_pos hlong]
        exact ⟨_, rfl⟩
      · rw [if_neg hlong, if_neg hlong]
        exact ih (Nat.lt_of_succ_lt_succ hfuel)

/-! ## Handing over -/

section

variable (sha1 : Bytes → Bytes) (entropy : Nat → Option {r : Bytes // r.length = 16})

/-- No step in front of the reader touches what is to be read. -/
theorem handshake_exec (url : Url) (st : Stream) :
    (∃ e st', (handshake sha1 entropy url).exec st = (.error e, st') ∧ st'.source = st.source) ∨
      ∃ expected st₁, st₁.source = st.source ∧ (handshake sha1 entropy url).exec st =
        (readHead >>= fun buf => Program.ofExcept (checkAnswer expected buf)).exec st₁ := by
  unfold handshake
  rw [Program.exec_bind]
  cases hkey : (random16 entropy).exec st with
  | mk res st₁ =>
      have hsource₁ : st₁.source = st.source := by
        have hstate := congrArg (fun out => out.2.source) hkey
        unfold random16 Program.exec at hstate
        dsimp only at hstate
        split at hstate
        · exact hstate.symm
        · exact hstate.symm
      cases res with
      | error e => exact .inl ⟨e, st₁, rfl, hsource₁⟩
      | ok keyBytes =>
          dsimp only
          rw [Program.exec_bind]
          cases hwrite : (writeAll (upgradeRequest url (base64Encode keyBytes)).utf8).exec st₁ with
          | mk res st₂ =>
              have hsource₂ : st₂.source = st.source := by
                rw [← hsource₁]
                exact (congrArg (fun out => out.2.source) hwrite).symm
              cases res with
              | error e => exact .inl ⟨e, st₂, rfl, hsource₂⟩
              | ok _ =>
                  dsimp only
                  rw [Program.exec_bind]
                  cases hflush : flush.exec st₂ with
                  | mk res st₃ =>
                      have hsource₃ : st₃.source = st.source := by
                        rw [← hsource₂]
                        exact (congrArg (fun out => out.2.source) hflush).symm
                      cases res with
                      | error e => exact .inl ⟨e, st₃, rfl, hsource₃⟩
                      | ok _ =>
                          exact .inr ⟨deriveAccept sha1 (base64Encode keyBytes), st₃, hsource₃, rfl⟩

/-- Where the upgrade succeeds, the head of the answer has been taken, through its first CRLFCRLF,
and no more. -/
theorem handshake_handsOver (url : Url) (st : Stream) :
    ∃ seen, Http.HandsOver endsInCrlfCrlf st.source
      ((handshake sha1 entropy url).exec st).2.source seen
      (∃ pmd, ((handshake sha1 entropy url).exec st).1 = .ok pmd) := by
  rcases handshake_exec sha1 entropy url st with ⟨e, st', hexec, hsource⟩ | ⟨expected, st₁, hsource, hexec⟩
  · rw [hexec]
    refine ⟨[], hsource ▸ .nothing _ ?_⟩
    rintro ⟨pmd, hok⟩
    cases hok
  · obtain ⟨⟨bytes, tail⟩, sink, drawn⟩ := st₁
    rw [hexec, ← hsource, Program.exec_bind]
    have hloop := @readAnswer_scan (bytes.length + 1) [] bytes tail (Nat.lt_succ_self _)
    have hread : readHead.exec ⟨⟨bytes, tail⟩, sink, drawn⟩ =
        ((readAnswer (bytes.length + 1) ⟨bytes, tail⟩ []).1,
          ⟨(readAnswer (bytes.length + 1) ⟨bytes, tail⟩ []).2, sink, drawn⟩) := rfl
    have hcheck : ∀ buf st, ((Program.ofExcept (checkAnswer expected buf) :
        Session (Option Pmd)).exec st).2 = st := by
      intro buf st
      cases checkAnswer expected buf with
      | error e => rfl
      | ok pmd => rfl
    refine ⟨_, Http.handsOver_of_scan rfl ?_⟩
    rw [hread]
    cases hscan : scan endsInCrlfCrlf Http.maxHeaderBytes [] bytes with
    | found seen rest =>
        rw [hscan] at hloop
        dsimp only at hloop ⊢
        rw [hloop]
        dsimp only
        rw [hcheck]
    | tooLong seen rest =>
        rw [hscan] at hloop
        obtain ⟨e, hout⟩ := hloop
        dsimp only
        rw [hout]
        exact ⟨rfl, fun ⟨pmd, hok⟩ => by cases hok⟩
    | ended seen =>
        rw [hscan] at hloop
        obtain ⟨e, hout⟩ := hloop
        dsimp only
        rw [hout]
        exact ⟨rfl, fun ⟨pmd, hok⟩ => by cases hok⟩

/-- Both readers, on every stream: what they take is in front of the mark, and theirs; where they
succeed it is all up to the mark, and beyond the limit they do not. -/
theorem handover_boundary (source : Source) (sink : Sink) (target : Url) (proxy : Http.ProxyConfig)
    (url : Url) (st : Stream) :
    (∃ seen, Http.HandsOver Http.endsInEmptyLine source
        (Http.connectStream source sink target proxy).2.1 seen
        ((Http.connectStream source sink target proxy).1 = .ok ()) ∧
      ((Http.connectStream source sink target proxy).1 = .ok () →
        ∃ line, Http.statusLine seen = some line ∧ Http.IsSuccess line)) ∧
    ∃ seen, Http.HandsOver endsInCrlfCrlf st.source
      ((handshake sha1 entropy url).exec st).2.source seen
      (∃ pmd, ((handshake sha1 entropy url).exec st).1 = .ok pmd) :=
  ⟨Http.connectStream_handsOver source sink target proxy, handshake_handsOver sha1 entropy url st⟩

end

end Rsurl.WebSocket
