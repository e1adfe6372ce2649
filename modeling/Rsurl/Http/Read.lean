/-
# `Rsurl.Http.Read` — reading an HTTP/1.1 response

The status line, the header lines and the body, in the three ways a body is
framed.  The source is the connection's `BufReader`: what it has buffered and
what the peer will still send.  Loops that read lines take as fuel the bytes
that are left; every line takes one or more.
-/
import Rsurl.Compress
import Rsurl.Net

namespace Rsurl.Http

/-- `MAX_HEADER_BYTES`. -/
def maxHeaderBytes : Nat := 64 * 1024

/-! ## Lines -/

/-- The bytes through the first LF. -/
def throughLf : Bytes → Option (Bytes × Bytes)
  | [] => none
  | b :: bs =>
      if b = 10 then some ([b], bs)
      else (throughLf bs).map fun (line, rest) => (b :: line, rest)

/-- `read_line_capped`: the bytes of the line, none of them at the end of the stream. -/
def readLineCapped (s : Source) (max : Nat) : Result Bytes × Source :=
  match throughLf (s.bytes.take (max + 1)) with
  | some (line, rest) => (.ok line, { s with bytes := rest ++ s.bytes.drop (max + 1) })
  | none =>
      if max < s.bytes.length then
        (.error (.badResponse [.str "response line exceeds 64 KiB"]),
          { s with bytes := s.bytes.drop (max + 1) })
      else
        match s.tail with
        | some kind => (.error (.io kind), { s with bytes := [] })
        | none => (.ok s.bytes, { s with bytes := [] })

/-! ## The head -/

/-- `parse_status_line`: version, status and reason. -/
def parseStatusLine (line : Text) : Result (Text × UInt16 × Text) :=
  let (version, rest) := match line.splitOnce ' ' with
    | some (version, rest) => (version, some rest)
    | none => (line, none)
  if ¬ "HTTP/".toList <+: version then .error (.badResponse [.str "not HTTP: ", .display version])
  else
    match rest with
    | none => .error (.badResponse [.str "missing status: ", .debug line])
    | some rest =>
        let (status, reason) := (rest.splitOnce ' ').getD (rest, [])
        match parseU16 status with
        | none => .error (.badResponse [.str "bad status: ", .debug line])
        | some status => .ok (version, status, reason)

/-- The header lines up to the empty one; `size` is what has been read of them. -/
def readHeaders : Nat → Source → List Header → Nat → Result (List Header) × Source
  | 0, s, _, _ => (.error .unexpectedEof, s)
  | fuel + 1, s, headers, size =>
      match readLineCapped s maxHeaderBytes with
      | (.error e, s) => (.error e, s)
      | (.ok line, s) =>
          if line = [] then (.error .unexpectedEof, s)
          else if maxHeaderBytes < size + line.length then
            (.error (.badResponse [.str "headers exceed 64 KiB"]), s)
          else
            let trimmed := (fromUtf8Lossy line).trimEndCrlf
            if trimmed = [] then (.ok headers, s)
            else
              match trimmed.splitOnce ':' with
              | none =>
                  (.error (.badResponse [.str "malformed header line: ", .debug trimmed]), s)
              | some (k, v) =>
                  readHeaders fuel s (headers ++ [(k.trim, v.trim)]) (size + line.length)

/-! ## The body -/

/-- One value of a `Content-Length`, against what was seen before. -/
def agreeLength (v : Text) : Option Nat → List Text → Result (Option Nat)
  | seen, [] => .ok seen
  | seen, part :: parts =>
      match parseUnsigned 10 (2 ^ 64 - 1) part.trim with
      | none => .error (.badResponse [.str "bad Content-Length: ", .debug v])
      | some n =>
          if seen.any (· != n) then
            .error (.badResponse [.str "conflicting Content-Length values"])
          else agreeLength v (some n) parts

/-- `parse_content_length`. -/
def parseContentLength : Option Nat → List Header → Result (Option Nat)
  | seen, [] => .ok seen
  | seen, (k, v) :: headers =>
      if k.eqIgnoreAsciiCase "content-length".toList then do
        let seen ← agreeLength v seen (v.splitOn ',')
        parseContentLength seen headers
      else parseContentLength seen headers

/-- The trailer lines of a chunked body, the empty one or the end of the stream behind them. -/
def readTrailers : Nat → Source → Result Unit × Source
  | 0, s => (.ok (), s)
  | fuel + 1, s =>
      match readLineCapped s maxHeaderBytes with
      | (.error e, s) => (.error e, s)
      | (.ok line, s) =>
          if line = [] ∨ (fromUtf8Lossy line).trimEndCrlf = [] then (.ok (), s)
          else readTrailers fuel s

/-- The size in front of a chunk; what is behind a `;` does not count. -/
def chunkSize (line : Text) : Result Nat :=
  let sizeStr : Text := line.trimEndCrlf.takeWhile (· ≠ ';')
  match parseUnsigned 16 (2 ^ 64 - 1) sizeStr.trim with
  | none => .error (.badResponse [.str "bad chunk size: ", .debug sizeStr])
  | some size => .ok size

/-- `read_chunked`. -/
def readChunked : Nat → Source → Bytes → Result Bytes × Source
  | 0, s, _ => (.error .unexpectedEof, s)
  | fuel + 1, s, body =>
      match readLineCapped s maxHeaderBytes with
      | (.error e, s) => (.error e, s)
      | (.ok line, s) =>
          if line = [] then (.error .unexpectedEof, s)
          else
            match chunkSize (fromUtf8Lossy line) with
            | .error e => (.error e, s)
            | .ok size =>
                if Compress.maxBodyBytes < body.length + size then
                  (.error (.badResponse [.str "body too large"]), s)
                else if size = 0 then
                  match readTrailers (s.bytes.length + 1) s with
                  | (.error e, s) => (.error e, s)
                  | (.ok (), s) => (.ok body, s)
                else
                  match s.readExact size with
                  | (.error kind, s) => (.error (.io kind), s)
                  | (.ok chunk, s) =>
                      match s.readExact 2 with
                      | (.error kind, s) => (.error (.io kind), s)
                      | (.ok crlf, s) =>
                          if crlf = [13, 10] then readChunked fuel s (body ++ chunk)
                          else (.error (.badResponse [.str "missing CRLF after chunk"]), s)

/-- `take(n).read_to_end`: up to `n` bytes; short of them the tail is seen. -/
def Source.readToEnd (s : Source) (n : Nat) : Result Bytes × Source :=
  if n ≤ s.bytes.length then (.ok (s.bytes.take n), { s with bytes := s.bytes.drop n })
  else
    match s.tail with
    | some kind => (.error (.io kind), { s with bytes := [] })
    | none => (.ok s.bytes, { s with bytes := [] })

/-- A response to this method with this status has no body. -/
def isBodiless (method : Text) (status : UInt16) : Bool :=
  method.eqIgnoreAsciiCase "HEAD".toList || (100 ≤ status && status < 200) || status == 204 ||
    status == 304

/-- `read_body`. -/
def readBody (s : Source) (headers : List Header) (status : UInt16) (method : Text) :
    Result Bytes × Source :=
  if isBodiless method status then (.ok [], s)
  else if hasHeader headers "transfer-encoding".toList &&
      hasHeader headers "content-length".toList then
    (.error (.badResponse [.str "both Transfer-Encoding and Content-Length present"]), s)
  else if headers.any fun (k, v) => k.eqIgnoreAsciiCase "transfer-encoding".toList &&
      v.eqIgnoreAsciiCase "chunked".toList then
    readChunked (s.bytes.length + 1) s []
  else
    match parseContentLength none headers with
    | .error e => (.error e, s)
    | .ok (some len) =>
        if Compress.maxBodyBytes < len then
          (.error (.badResponse [.str "body too large: ", .num len]), s)
        else
          match Source.readToEnd s len with
          | (.error e, s) => (.error e, s)
          | (.ok body, s) =>
              if body.length < len then (.error .unexpectedEof, s) else (.ok body, s)
    | .ok none => Source.readToEnd s Compress.maxBodyBytes

/-- `read_response`. -/
def readResponse (codec : Codec) (s : Source) (method : Text) : Result Response × Source :=
  match readLineCapped s maxHeaderBytes with
  | (.error e, s) => (.error e, s)
  | (.ok line, s) =>
      if line = [] then (.error .unexpectedEof, s)
      else
        match parseStatusLine (fromUtf8Lossy line).trimEndCrlf with
        | .error e => (.error e, s)
        | .ok (version, status, reason) =>
            match readHeaders (s.bytes.length + 1) s [] 0 with
            | (.error e, s) => (.error e, s)
            | (.ok headers, s) =>
                match readBody s headers status method with
                | (.error e, s) => (.error e, s)
                | (.ok body, s) =>
                    match Compress.maybeDecodeBody codec headers body with
                    | .error e => (.error e, s)
                    | .ok (headers, body) =>
                        (.ok { status, reason, version, headers, body }, s)

/-! ## Keeping the connection -/

/-- The tokens of the `Connection` fields. -/
def saysConnection (headers : List Header) (token : String) : Bool :=
  headers.any fun (k, v) => k.eqIgnoreAsciiCase "connection".toList &&
    (v.splitOn ',').any fun tok => (Text.trim tok).eqIgnoreAsciiCase token.toList

/-- `response_is_reusable`. -/
def responseIsReusable (method : Text) (resp : Response) : Bool :=
  if saysConnection resp.headers "close" then false
  else
    let hasFraming := resp.headers.any fun (k, v) =>
      k.eqIgnoreAsciiCase "content-length".toList ||
        (k.eqIgnoreAsciiCase "transfer-encoding".toList && v.eqIgnoreAsciiCase "chunked".toList)
    if !hasFraming && !isBodiless method resp.status then false
    else if resp.version = "HTTP/1.1".toList then true
    else saysConnection resp.headers "keep-alive"

end Rsurl.Http
