/-
# `Rsurl.Cli.Multipart` — the body of the `-F` options

The `multipart` module of `src/bin/rsurl.rs`: every part between boundary
lines, its name, file name and type in header lines in front of its bytes.
-/
import Rsurl.Cli.FormBody
import Rsurl.Cli.FormPart

namespace Rsurl.Cli.Multipart

/-! ## The boundary -/

/-- A digit of `{b:02x}`. -/
def lowerHex (n : Nat) : Char := Char.ofNat (if n < 10 then 48 + n else 87 + n)

/-- `make_boundary`, from the bytes it is given to mix. -/
def makeBoundary (buf : Bytes) : Text :=
  "----rsurl-boundary-".toList ++
    buf.flatMap fun b => [lowerHex (b.toNat / 16), lowerHex (b.toNat % 16)]

/-! ## Attributes -/

/-- A byte of an attribute, percent-encoded if it is reserved; any other is pushed as the character
of that number. -/
def escapeByte (b : UInt8) : Text :=
  if b = 13 then "%0D".toList
  else if b = 10 then "%0A".toList
  else if b = 34 then "%22".toList
  else if b = 92 then "%5C".toList
  else [Char.ofNat b.toNat]

/-- A character of an attribute behind a backslash, if it needs one. -/
def escapeChar (c : Char) : Text :=
  if c = '"' then ['\\', '"'] else if c = '\\' then ['\\', '\\'] else [c]

def encodeAttr (s : Text) (escape : Bool) : Text :=
  if escape then s.utf8.flatMap escapeByte else s.flatMap escapeChar

/-! ## A part -/

section

-- What `std::fs::read` gives for a path: the bytes, or an error as it is displayed.
variable (read : Text → Except Text Bytes)

/-- `Path::file_name`: the last component, which is none that leads back. -/
def fileName (path : Text) : Option Text :=
  (((Text.split '/' path).filter fun c => c ≠ [] ∧ c ≠ ['.']).getLast?).filter (· ≠ ['.', '.'])

/-- The bytes of a body, its file name, and whether it is an upload. -/
def bodyBytes : FormBody → Except Msg (Bytes × Option Text × Bool)
  | .literal s => .ok (s.utf8, none, false)
  | .literalStrict s => .ok (s.utf8, none, false)
  | .file path => do
      let bytes ← (read path).mapError fun e =>
        [.str "-F: can't read ", .debug path, .str ": ", .display e]
      return (bytes, some ((fileName path).getD path), true)
  | .fileAsField path => do
      let bytes ← (read path).mapError fun e =>
        [.str "-F: can't read ", .debug path, .str ": ", .display e]
      return (bytes, none, false)

/-- What the modifiers have set. -/
structure Overrides where
  ctype : Option Text
  filename : Option Text
  extraHeaders : Bytes
  promoteToUpload : Bool

/-- The lines of a headers file that are not empty, each with CRLF behind it. -/
def headerLines (raw : Bytes) : Bytes :=
  (raw.splitOn 10).flatMap fun line =>
    let l := if line.getLast? = some 13 then line.dropLast else line
    if l = [] then [] else l ++ [13, 10]

def applyExtra (o : Overrides) : FormExtra → Except Msg Overrides
  | .type t => .ok { o with ctype := some t }
  | .filename f => .ok { o with filename := some f, promoteToUpload := true }
  | .headersFile path => do
      let raw ← (read path).mapError fun e =>
        [.str "-F: can't read headers file ", .debug path, .str ": ", .display e]
      return { o with extraHeaders := o.extraHeaders ++ headerLines raw }

def crlf : Bytes := [13, 10]

/-- The `Content-Disposition` header. -/
def disposition (name : Text) (o : Overrides) (escape : Bool) : Bytes :=
  Text.utf8 "Content-Disposition: form-data; name=\"".toList ++ (encodeAttr name escape).utf8 ++ [34] ++
    (if o.promoteToUpload ∨ o.filename.isSome then
      match o.filename with
      | some fname => Text.utf8 "; filename=\"".toList ++ (encodeAttr fname escape).utf8 ++ [34]
      | none => []
    else []) ++ crlf

/-- The `Content-Type` header: explicit, or the default of an upload, or none. -/
def contentType (o : Overrides) : Bytes :=
  match o.ctype with
  | some t => Text.utf8 "Content-Type: ".toList ++ t.utf8 ++ crlf
  | none =>
      if o.promoteToUpload then Text.utf8 "Content-Type: application/octet-stream\r\n".toList else []

def writePart (part : FormPart) (escape : Bool) (out : Bytes) : Except Msg Bytes := do
  let (bytes, defaultFilename, isUpload) ← bodyBytes read part.body
  let o ← part.extras.foldlM (applyExtra read) ⟨none, defaultFilename, [], isUpload⟩
  return out ++ disposition part.name o escape ++ contentType o ++ o.extraHeaders ++ crlf ++ bytes

/-! ## The body -/

/-- The loop over the parts. -/
def writeParts (boundary : Text) (escape : Bool) (out : Bytes) : List FormPart → Except Msg Bytes
  | [] => .ok out
  | part :: parts => do
      let out ← writePart read part escape (out ++ [45, 45] ++ boundary.utf8 ++ crlf)
      writeParts boundary escape (out ++ crlf) parts

/-- `build`, with the bytes of the boundary. -/
def build (buf : Bytes) (parts : List FormPart) (escape : Bool) : Except Msg (Text × Bytes) := do
  let boundary := makeBoundary buf
  let out ← writeParts read boundary escape [] parts
  return (boundary, out ++ [45, 45] ++ boundary.utf8 ++ [45, 45] ++ crlf)

end

end Rsurl.Cli.Multipart
