/-
# `Rsurl.Compress` — peeling `Content-Encoding` off a body

The layer walk of `src/compress.rs` and `maybe_decode_body`.  The decoders
themselves are a crate of their own; here they are a parameter, `Codec`, from
an algorithm, the coded bytes and the output budget to the bytes or the text
of an error.
-/
import Rsurl.Http

namespace Rsurl

open Http (Header)

/-- The algorithms of the decoder crate. -/
inductive Algorithm where
  | gzip
  | zlib
  | deflate
  | zstd
  | brotli
  | lzw
deriving DecidableEq, Repr

/-- `decode_with`: coded bytes and a budget to decoded bytes or an error's text. -/
abbrev Codec := Algorithm → Bytes → Nat → Except Text Bytes

namespace Compress

/-- `MAX_ENCODING_LAYERS`. -/
def maxEncodingLayers : Nat := 3

/-- `MAX_BODY_BYTES`. -/
def maxBodyBytes : Nat := 256 * 1024 * 1024

/-- `Layer`. -/
inductive Layer where
  | gzip
  | deflate
  | zstd
  | brotli
  | compress
  | identity
deriving DecidableEq, Repr

/-- `Layer::parse`. -/
def Layer.parse (token : Text) : Option Layer :=
  if token.eqIgnoreAsciiCase "gzip".toList || token.eqIgnoreAsciiCase "x-gzip".toList then
    some .gzip
  else if token.eqIgnoreAsciiCase "deflate".toList then some .deflate
  else if token.eqIgnoreAsciiCase "zstd".toList then some .zstd
  else if token.eqIgnoreAsciiCase "br".toList then some .brotli
  else if token.eqIgnoreAsciiCase "compress".toList ||
      token.eqIgnoreAsciiCase "x-compress".toList then
    some .compress
  else if token.eqIgnoreAsciiCase "identity".toList then some .identity
  else none

/-- A decoder with the error text its caller adds. -/
def decodeAs (codec : Codec) (a : Algorithm) (what : String) (src : Bytes) (budget : Nat) :
    Result Bytes :=
  match codec a src budget with
  | .ok out => .ok out
  | .error e => .error (.badResponse [.str what, .str " decode failed: ", .display e])

/-- `inflate_zlib`: zlib framing first, raw deflate if that fails. -/
def inflateZlib (codec : Codec) (src : Bytes) (budget : Nat) : Result Bytes :=
  match codec .zlib src budget with
  | .ok out => .ok out
  | .error zlibErr =>
      match codec .deflate src budget with
      | .ok out => .ok out
      | .error _ => .error (.badResponse [.str "deflate decode failed: ", .display zlibErr])

/-- One layer peeled off. -/
def peel (codec : Codec) (layer : Layer) (src : Bytes) (budget : Nat) : Result Bytes :=
  match layer with
  | .identity => .ok src
  | .gzip => decodeAs codec .gzip "gzip" src budget
  | .deflate => inflateZlib codec src budget
  | .zstd => decodeAs codec .zstd "zstd" src budget
  | .brotli => decodeAs codec .brotli "brotli" src budget
  | .compress => decodeAs codec .lzw "compress" src budget

/-- The loop of `decode_body` over the tokens from the outermost; an unknown one stops it. -/
def peelAll (codec : Codec) : List Text → Bytes → Nat → Bool → Result (Bytes × Bool)
  | [], current, _, peeled => .ok (current, peeled)
  | token :: tokens, current, budget, peeled =>
      match Layer.parse token with
      | none => .ok (current, peeled)
      | some layer => do
          let out ← peel codec layer current budget
          let budget := if layer = .identity then budget else budget - out.length
          peelAll codec tokens out budget true

/-- `decode_body`: the body, and whether a layer was stripped. -/
def decodeBody (codec : Codec) (body : Bytes) (contentEncoding : Text) : Result (Bytes × Bool) :=
  let layers := ((contentEncoding.splitOn ',').map Text.trim).filter (!·.isEmpty)
  if layers = [] then .ok (body, false)
  else if maxEncodingLayers < layers.length then
    .error (.badResponse [.str "too many Content-Encoding layers (", .num layers.length,
      .str ", max 3)"])
  else peelAll codec layers.reverse body maxBodyBytes false

/-- `strip_after_decode`. -/
def stripAfterDecode (headers : List Header) : List Header :=
  headers.filter fun (k, _) =>
    !k.eqIgnoreAsciiCase "content-encoding".toList && !k.eqIgnoreAsciiCase "content-length".toList

/-- `maybe_decode_body`. -/
def maybeDecodeBody (codec : Codec) (headers : List Header) (body : Bytes) :
    Result (List Header × Bytes) :=
  match Http.findHeader headers "content-encoding".toList with
  | none => .ok (headers, body)
  | some enc => do
      let (out, decoded) ← decodeBody codec body enc
      .ok (if decoded then stripAfterDecode headers else headers, out)

end Compress
end Rsurl
