/-
# `Rsurl.H2.Hpack` — the header compression of HTTP/2

`encode_int` / `decode_int`, the static table, length-prefixed strings, and the
two stateful ends of a connection: `Decoder` and `Encoder`, each with its own
dynamic table.  Positions in a block are the offsets the source keeps; a
decoder function that mutates `self` returns the new decoder, also with an
error.
-/
import Rsurl.Base.Fifo
import Rsurl.H2.Huffman

namespace Rsurl.H2

/-! ## Integers -/

/-- The continuation bytes of `encode_int`. -/
def encodeIntRest (rem : Nat) : Bytes :=
  if 128 ≤ rem then (UInt8.ofNat (rem % 128) ||| 0x80) :: encodeIntRest (rem >>> 7)
  else [UInt8.ofNat rem]
termination_by rem
decreasing_by
  rw [Nat.shiftRight_eq_div_pow]
  omega

/-- `encode_int`. -/
def encodeInt (value prefixBits : Nat) : Bytes :=
  let maxPrefix := 2 ^ prefixBits - 1
  if value < maxPrefix then [UInt8.ofNat value]
  else UInt8.ofNat maxPrefix :: encodeIntRest (value - maxPrefix)

/-- The loop of `decode_int`, over the bytes after the first `i`; `value` and the shifted
digit are `u64`s. -/
def decodeIntRest : Bytes → Nat → Nat → Nat → Result (Nat × Nat)
  | [], _, _, _ => .error (.badResponse [.str "hpack: truncated integer"])
  | b :: buf, i, value, shift =>
      let value := value + (b.toNat % 128) <<< shift % 2 ^ 64
      if 2 ^ 64 ≤ value then .error (.badResponse [.str "hpack: integer overflow"])
      else if b &&& 0x80 = 0 then .ok (value, i + 1)
      else if 63 < shift + 7 then .error (.badResponse [.str "hpack: integer overflow"])
      else decodeIntRest buf (i + 1) value (shift + 7)

/-- `decode_int`: the value and the bytes consumed. -/
def decodeInt (buf : Bytes) (prefixBits : Nat) : Result (Nat × Nat) :=
  match buf with
  | [] => .error (.badResponse [.str "hpack: empty integer"])
  | b :: buf =>
      let maxPrefix := 2 ^ prefixBits - 1
      let value := b.toNat % 2 ^ prefixBits
      if value < maxPrefix then .ok (value, 1)
      else decodeIntRest buf 1 value 0

/-! ## The static table -/

/-- `STATIC_TABLE`. -/
def staticTable : List (String × String) :=
  [(":authority", ""), (":method", "GET"), (":method", "POST"), (":path", "/"),
   (":path", "/index.html"), (":scheme", "http"), (":scheme", "https"), (":status", "200"),
   (":status", "204"), (":status", "206"), (":status", "304"), (":status", "400"),
   (":status", "404"), (":status", "500"), ("accept-charset", ""),
   ("accept-encoding", "gzip, deflate"), ("accept-language", ""), ("accept-ranges", ""),
   ("accept", ""), ("access-control-allow-origin", ""), ("age", ""), ("allow", ""),
   ("authorization", ""), ("cache-control", ""), ("content-disposition", ""),
   ("content-encoding", ""), ("content-language", ""), ("content-length", ""),
   ("content-location", ""), ("content-range", ""), ("content-type", ""), ("cookie", ""),
   ("date", ""), ("etag", ""), ("expect", ""), ("expires", ""), ("from", ""), ("host", ""),
   ("if-match", ""), ("if-modified-since", ""), ("if-none-match", ""), ("if-range", ""),
   ("if-unmodified-since", ""), ("last-modified", ""), ("link", ""), ("location", ""),
   ("max-forwards", ""), ("proxy-authenticate", ""), ("proxy-authorization", ""), ("range", ""),
   ("referer", ""), ("refresh", ""), ("retry-after", ""), ("server", ""), ("set-cookie", ""),
   ("strict-transport-security", ""), ("transfer-encoding", ""), ("user-agent", ""),
   ("vary", ""), ("via", ""), ("www-authenticate", "")]

/-- `static_full_index`. -/
def staticFullIndex (name value : Text) : Option Nat :=
  (staticTable.findIdx? fun (n, v) => n.toList == name && v.toList == value).map (· + 1)

/-- `static_name_index`. -/
def staticNameIndex (name : Text) : Option Nat :=
  (staticTable.findIdx? fun (n, _) => n.toList == name).map (· + 1)

/-! ## The decoder -/

/-- `DYN_TABLE_CAP`. -/
def dynTableCap : Nat := 4096

/-- `MAX_DECODED_HEADER_LIST`. -/
def maxDecodedHeaderList : Nat := 256 * 1024

/-- `entry_size`. -/
def entrySize (entry : Text × Text) : Nat := entry.1.utf8.length + entry.2.utf8.length + 32

/-- A dynamic table, newest entry first, with its `dyn_table_size`. -/
abbrev DynTable := Base.Fifo (Text × Text) entrySize

/-- `Decoder`. -/
structure Decoder where
  dynTable : DynTable
  dynTableCap : Nat

namespace Decoder

/-- `Decoder::new`. -/
def new : Decoder := { dynTable := .empty, dynTableCap := H2.dynTableCap }

/-- `Decoder::evict_to_fit`. -/
def evictToFit (d : Decoder) (incoming : Nat) : Decoder :=
  { d with dynTable := d.dynTable.evict d.dynTableCap incoming }

/-- `Decoder::insert`. -/
def insert (d : Decoder) (name value : Text) : Decoder :=
  { d with dynTable := d.dynTable.insert d.dynTableCap (name, value) }

/-- `Decoder::lookup`. -/
def lookup (d : Decoder) (index : Nat) : Result (Text × Text) :=
  if index = 0 then .error (.badResponse [.str "hpack: index 0"])
  else
    let entry :=
      if index ≤ staticTable.length then
        staticTable[index - 1]?.map fun (n, v) => (n.toList, v.toList)
      else d.dynTable.entries[index - staticTable.length - 1]?
    match entry with
    | some entry => .ok entry
    | none => .error (.badResponse [.str "hpack: index ", .num index, .str " out of range"])

/-- `Decoder::lookup_name`. -/
def lookupName (d : Decoder) (index : Nat) : Result Text := do
  let entry ← d.lookup index
  .ok entry.1

/-- `Decoder::read_string`: the text and the position behind it. -/
def readString (buf : Bytes) (pos : Nat) : Result (Text × Nat) :=
  match buf[pos]? with
  | none => .error (.badResponse [.str "hpack: truncated string"])
  | some b => do
      let (len, consumed) ← decodeInt (buf.drop pos) 7
      let pos := pos + consumed
      if 2 ^ 64 ≤ pos + len then .error (.badResponse [.str "hpack: string length overflow"])
      else if buf.length < pos + len then
        .error (.badResponse [.str "hpack: truncated string body"])
      else
        let raw := (buf.drop pos).take len
        if b &&& 0x80 ≠ 0 then
          let bytes ← huffmanDecode raw
          match fromUtf8 bytes with
          | some t => .ok (t, pos + len)
          | none => .error (.badResponse [.str "hpack: non-utf8 Huffman literal"])
        else
          match fromUtf8 raw with
          | some t => .ok (t, pos + len)
          | none => .error (.badResponse [.str "hpack: non-utf8 literal"])

/-- The name of a literal: indexed, or a string of its own. -/
def readName (d : Decoder) (buf : Bytes) (idx pos : Nat) : Result (Text × Nat) :=
  if idx = 0 then readString buf pos
  else do
    let name ← d.lookupName idx
    .ok (name, pos)

/-- One turn of the loop of `decode_block` at the byte `b`: the entry it reads, if it is
not a table-size update, the position behind it, and the decoder after it. -/
def decodeField (d : Decoder) (buf : Bytes) (pos : Nat) (b : UInt8) :
    Result (Option (Text × Text) × Nat × Decoder) := do
  if b &&& 0x80 ≠ 0 then
    let (idx, n) ← decodeInt (buf.drop pos) 7
    let entry ← d.lookup idx
    .ok (some entry, pos + n, d)
  else if b &&& 0x40 ≠ 0 then
    let (idx, n) ← decodeInt (buf.drop pos) 6
    let (name, pos) ← d.readName buf idx (pos + n)
    let (value, pos) ← readString buf pos
    .ok (some (name, value), pos, d.insert name value)
  else if b &&& 0x20 ≠ 0 then
    let (newSize, n) ← decodeInt (buf.drop pos) 5
    let d := { d with dynTableCap := min newSize H2.dynTableCap }
    .ok (none, pos + n, d.evictToFit 0)
  else
    -- without indexing and never indexed are read alike
    let (idx, n) ← decodeInt (buf.drop pos) 4
    let (name, pos) ← d.readName buf idx (pos + n)
    let (value, pos) ← readString buf pos
    .ok (some (name, value), pos, d)

/-- The loop of `decode_block`; every turn moves `pos` on, so `fuel` bytes are enough. -/
def decodeLoop : Nat → Decoder → Bytes → Nat → Nat → List (Text × Text) →
    Result (List (Text × Text)) × Decoder
  | 0, d, _, _, _, out => (.ok out, d)
  | fuel + 1, d, buf, pos, listSize, out =>
      match buf[pos]? with
      | none => (.ok out, d)
      | some b =>
          match d.decodeField buf pos b with
          | .error e => (.error e, d)
          | .ok (none, pos, d) => decodeLoop fuel d buf pos listSize out
          | .ok (some entry, pos, d) =>
              let listSize := listSize + entrySize entry
              if maxDecodedHeaderList < listSize then
                (.error (.badResponse [.str "hpack: decoded header list exceeds limit"]), d)
              else decodeLoop fuel d buf pos listSize (out ++ [entry])

/-- `Decoder::decode_block`. -/
def decodeBlock (d : Decoder) (buf : Bytes) : Result (List (Text × Text)) × Decoder :=
  decodeLoop buf.length d buf 0 0 []

end Decoder

/-! ## The encoder -/

/-- `encode_literal_string`: Huffman-coded where that is shorter. -/
def encodeLiteralString (out : Bytes) (s : Text) : Bytes :=
  let raw := s.utf8
  let huff := huffmanEncode raw
  if huff.length < raw.length then
    out ++ ((encodeInt huff.length 7).modifyHead (· ||| 0x80) ++ huff)
  else out ++ ((encodeInt raw.length 7).modifyHead (· &&& 0x7f) ++ raw)

/-- `Encoder`. -/
structure Encoder where
  dynTable : DynTable
  maxDynTableSize : Nat
  pendingMaxTableSizeSignal : Option Nat

namespace Encoder

/-- `Encoder::new`. -/
def new : Encoder :=
  { dynTable := .empty, maxDynTableSize := dynTableCap, pendingMaxTableSizeSignal := none }

/-- `Encoder::evict_to_fit`. -/
def evictToFit (e : Encoder) (incoming : Nat) : Encoder :=
  { e with dynTable := e.dynTable.evict e.maxDynTableSize incoming }

/-- `Encoder::set_peer_max_table_size`. -/
def setPeerMaxTableSize (e : Encoder) (n : Nat) : Encoder :=
  let e := evictToFit { e with maxDynTableSize := n } 0
  { e with pendingMaxTableSizeSignal := some n }

/-- `Encoder::insert`. -/
def insert (e : Encoder) (name value : Text) : Encoder :=
  { e with dynTable := e.dynTable.insert e.maxDynTableSize (name, value) }

/-- `Encoder::combined_full_index`. -/
def combinedFullIndex (e : Encoder) (name value : Text) : Option Nat :=
  match staticFullIndex name value with
  | some i => some i
  | none =>
      (e.dynTable.entries.findIdx? fun (n, v) => n == name && v == value).map
        (staticTable.length + 1 + ·)

/-- `Encoder::combined_name_index`. -/
def combinedNameIndex (e : Encoder) (name : Text) : Option Nat :=
  match staticNameIndex name with
  | some i => some i
  | none =>
      (e.dynTable.entries.findIdx? fun (n, _) => n == name).map (staticTable.length + 1 + ·)

/-- The pending table-size signal is taken and written. -/
def takeSignal (e : Encoder) (out : Bytes) : Bytes × Encoder :=
  match e.pendingMaxTableSizeSignal with
  | some n =>
      (out ++ (encodeInt n 5).modifyHead (· ||| 0x20),
        { e with pendingMaxTableSizeSignal := none })
  | none => (out, e)

/-- `Encoder::encode_header`: what `out` becomes, and the encoder after it. -/
def encodeHeader (e : Encoder) (out : Bytes) (name value : Text) : Bytes × Encoder :=
  let (out, e) := e.takeSignal out
  match e.combinedFullIndex name value with
  | some idx => (out ++ (encodeInt idx 7).modifyHead (· ||| 0x80), e)
  | none =>
      match e.combinedNameIndex name with
      | some idx =>
          let out := out ++ (encodeInt idx 6).modifyHead (· ||| 0x40)
          (encodeLiteralString out value, e.insert name value)
      | none =>
          (encodeLiteralString (encodeLiteralString (out ++ [0x40]) name) value,
            e.insert name value)

end Encoder
end Rsurl.H2
