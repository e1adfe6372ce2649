/-
# `Rsurl.H3.Qpack` — the header compression of HTTP/3

The decoder side of `mod qpack`: integers and strings, the dynamic table with
the instructions that fill it, and field sections.  A function that reads from
the front of a buffer returns what it read and how many bytes that took.  The
Huffman code is the one of HPACK; the source has a second copy of its decoder,
with messages of its own.
-/
import Rsurl.H2.Hpack

namespace Rsurl.H3.Qpack

/-- `Error::BadResponse` of a message. -/
abbrev bad (m : Msg) : Error := .badResponse m

/-! ## Integers -/

/-- The loop behind a full prefix; `none` when the bytes run out.  The value and the shifted
digit are `u64`s. -/
def intLoop : Bytes → Nat → Nat → Nat → Result (Option (Nat × Nat))
  | [], _, _, _ => .ok none
  | b :: rest, value, shift, used =>
      let value := value + (b.toNat % 128) <<< shift % 2 ^ 64
      if 2 ^ 64 ≤ value then .error (bad [.str "qpack int overflow"])
      else if b &&& 0x80 = 0 then .ok (some (value, used + 1))
      else if 63 < shift + 7 then .error (bad [.str "qpack int too long"])
      else intLoop rest value (shift + 7) (used + 1)

/-- `decode_int_partial`: the value and the bytes used after the first. -/
def decodeIntPartial (first : UInt8) (prefixBits : Nat) (rest : Bytes) :
    Result (Option (Nat × Nat)) :=
  let maxPrefix := 2 ^ prefixBits - 1
  let value := first.toNat % 2 ^ prefixBits
  if value < maxPrefix then .ok (some (value, 0)) else intLoop rest maxPrefix 0 0

/-- `decode_int`. -/
def decodeInt (first : UInt8) (prefixBits : Nat) (rest : Bytes) : Result (Nat × Nat) :=
  match decodeIntPartial first prefixBits rest with
  | .error e => .error e
  | .ok (some x) => .ok x
  | .ok none => .error (bad [.str "qpack int truncated"])

/-! ## Strings -/

/-- The messages of the second copy of `huffman_decode`. -/
def ownMessage : Error → Error
  | .badResponse [.str "hpack: EOS symbol in Huffman literal"] =>
      bad [.str "qpack: EOS symbol in Huffman literal"]
  | .badResponse [.str "hpack: trailing Huffman bits >= 8"] =>
      bad [.str "qpack: trailing Huffman bits >= 8"]
  | .badResponse [.str "hpack: bad Huffman padding"] => bad [.str "qpack: bad Huffman padding"]
  | e => e

/-- `huffman_decode`. -/
def huffmanDecode (input : Bytes) : Result Bytes := (H2.huffmanDecode input).mapError ownMessage

/-- `decode_string_bytes`. -/
def decodeStringBytes (bytes : Bytes) (huffman : Bool) (what : String) : Result Text := do
  let raw ← if huffman then huffmanDecode bytes else .ok bytes
  match fromUtf8 raw with
  | some t => .ok t
  | none => .error (bad [.str "qpack: ", .str what, .str " not utf-8"])

/-- `try_decode_literal_string_7bit`: the string and the bytes it takes; `none` when it is not
all there. -/
def tryDecodeLiteralString7bit (buf : Bytes) : Result (Option (Text × Nat)) :=
  match buf with
  | [] => .ok none
  | b :: rest =>
      match decodeIntPartial b 7 rest with
      | .error e => .error e
      | .ok none => .ok none
      | .ok (some (slen, used)) =>
          let start := 1 + used
          if 2 ^ 64 ≤ start + slen then
            .error (bad [.str "qpack: oversized literal string length"])
          else if buf.length < start + slen then .ok none
          else
            match decodeStringBytes ((buf.drop start).take slen) (b &&& 0x80 ≠ 0)
                "literal string" with
            | .error e => .error e
            | .ok s => .ok (some (s, start + slen))

/-- `decode_literal_string_7bit`. -/
def decodeLiteralString7bit (buf : Bytes) : Result (Text × Nat) :=
  match buf with
  | [] => .error (bad [.str "qpack: missing literal string"])
  | b :: rest => do
      let (slen, used) ← decodeInt b 7 rest
      let start := 1 + used
      if buf.length < start + slen then
        .error (bad [.str "qpack: truncated/oversized literal value"])
      else
        let s ← decodeStringBytes ((buf.drop start).take slen) (b &&& 0x80 ≠ 0) "literal value"
        .ok (s, start + slen)

/-! ## The static table -/

/-- `STATIC_TABLE`. -/
def staticTable : List (String × String) :=
  [(":authority", ""), (":path", "/"), ("age", "0"), ("content-disposition", ""),
   ("content-length", "0"), ("cookie", ""), ("date", ""), ("etag", ""),
   ("if-modified-since", ""), ("if-none-match", ""), ("last-modified", ""), ("link", ""),
   ("location", ""), ("referer", ""), ("set-cookie", ""), (":method", "CONNECT"),
   (":method", "DELETE"), (":method", "GET"), (":method", "HEAD"), (":method", "OPTIONS"),
   (":method", "POST"), (":method", "PUT"), (":scheme", "http"), (":scheme", "https"),
   (":status", "103"), (":status", "200"), (":status", "304"), (":status", "404"),
   (":status", "503"), ("accept", "*/*"), ("accept", "application/dns-message"),
   ("accept-encoding", "gzip, deflate, br"), ("accept-ranges", "bytes"),
   ("access-control-allow-headers", "cache-control"),
   ("access-control-allow-headers", "content-type"), ("access-control-allow-origin", "*"),
   ("cache-control", "max-age=0"), ("cache-control", "max-age=2592000"),
   ("cache-control", "max-age=604800"), ("cache-control", "no-cache"),
   ("cache-control", "no-store"), ("cache-control", "public, max-age=31536000"),
   ("content-encoding", "br"), ("content-encoding", "gzip"),
   ("content-type", "application/dns-message"), ("content-type", "application/javascript"),
   ("content-type", "application/json"), ("content-type", "application/x-www-form-urlencoded"),
   ("content-type", "image/gif"), ("content-type", "image/jpeg"), ("content-type", "image/png"),
   ("content-type", "text/css"), ("content-type", "text/html; charset=utf-8"),
   ("content-type", "text/plain"), ("content-type", "text/plain;charset=utf-8"),
   ("range", "bytes=0-"), ("strict-transport-security", "max-age=31536000"),
   ("strict-transport-security", "max-age=31536000; includesubdomains"),
   ("strict-transport-security", "max-age=31536000; includesubdomains; preload"),
   ("vary", "accept-encoding"), ("vary", "origin"), ("x-content-type-options", "nosniff"),
   ("x-xss-protection", "1; mode=block"), (":status", "100"), (":status", "204"),
   (":status", "206"), (":status", "302"), (":status", "400"), (":status", "403"),
   (":status", "421"), (":status", "425"), (":status", "500"), ("accept-language", ""),
   ("access-control-allow-credentials", "FALSE"), ("access-control-allow-credentials", "TRUE"),
   ("access-control-allow-headers", "*"), ("access-control-allow-methods", "get"),
   ("access-control-allow-methods", "get, post, options"),
   ("access-control-allow-methods", "options"),
   ("access-control-expose-headers", "content-length"),
   ("access-control-request-headers", "content-type"), ("access-control-request-method", "get"),
   ("access-control-request-method", "post"), ("alt-svc", "clear"), ("authorization", ""),
   ("content-security-policy", "script-src 'none'; object-src 'none'; base-uri 'none'"),
   ("early-data", "1"), ("expect-ct", ""), ("forwarded", ""), ("if-range", ""), ("origin", ""),
   ("purpose", "prefetch"), ("server", ""), ("timing-allow-origin", "*"),
   ("upgrade-insecure-requests", "1"), ("user-agent", ""), ("x-forwarded-for", ""),
   ("x-frame-options", "deny"), ("x-frame-options", "sameorigin")]

/-- `STATIC_TABLE.get(idx)`. -/
def staticEntry (idx : Nat) : Option (Text × Text) :=
  staticTable[idx]?.map fun (n, v) => (n.toList, v.toList)

/-! ## The dynamic table -/

/-- `MAX_DECODED_HEADER_LIST`. -/
def maxDecodedHeaderList : Nat := 256 * 1024

/-- `MAX_DYNAMIC_CAPACITY`. -/
def maxDynamicCapacity : Nat := 4096

/-- `ENTRY_OVERHEAD`. -/
def entryOverhead : Nat := 32

/-- `DynamicTable`: its entries with their size, newest first, and the two counters that give
each entry its absolute index. -/
@[ext]
structure DynamicTable where
  fifo : H2.DynTable
  capacity : Nat
  insertCount : Nat
  dropped : Nat
  counted : dropped + fifo.entries.length = insertCount
  within : fifo.size ≤ capacity
  bounded : capacity ≤ maxDynamicCapacity

namespace DynamicTable

/-- `DynamicTable::new`. -/
def new : DynamicTable where
  fifo := .empty
  capacity := 0
  insertCount := 0
  dropped := 0
  counted := rfl
  within := Nat.le_refl 0
  bounded := Nat.zero_le _

/-- How many entries `evict_to_fit` drops. -/
def evicted (f : H2.DynTable) (cap incoming : Nat) : Nat :=
  f.entries.length - (f.evict cap incoming).entries.length

theorem evicted_add (f : H2.DynTable) (cap incoming : Nat) :
    evicted f cap incoming + (f.evict cap incoming).entries.length = f.entries.length :=
  Nat.sub_add_cancel (f.evict_prefix_self cap incoming).length_le

/-- `set_capacity` to a capacity we allow. -/
def resize (t : DynamicTable) (cap : Nat) (h : cap ≤ maxDynamicCapacity) : DynamicTable where
  fifo := t.fifo.evict cap 0
  capacity := cap
  insertCount := t.insertCount
  dropped := t.dropped + evicted t.fifo cap 0
  counted := by rw [Nat.add_assoc, evicted_add, t.counted]
  within := t.fifo.evict_size_le (Nat.zero_le cap)
  bounded := h

/-- `set_capacity`. -/
def setCapacity (t : DynamicTable) (cap : Nat) : Result DynamicTable :=
  if h : cap ≤ maxDynamicCapacity then .ok (t.resize cap h)
  else .error (bad [.str "qpack: encoder set capacity ", .num cap,
    .str " above advertised max ", .num maxDynamicCapacity])

/-- `insert` of an entry that fits. -/
def add (t : DynamicTable) (e : Text × Text) (h : H2.entrySize e ≤ t.capacity) :
    DynamicTable where
  fifo := (t.fifo.evict t.capacity (H2.entrySize e)).push e
  capacity := t.capacity
  insertCount := t.insertCount + 1
  dropped := t.dropped + evicted t.fifo t.capacity (H2.entrySize e)
  counted := by
    show _ + ((t.fifo.evict t.capacity (H2.entrySize e)).entries.length + 1) = _
    rw [← Nat.add_assoc, Nat.add_assoc t.dropped, evicted_add, t.counted]
  within := t.fifo.evict_size_le h
  bounded := t.bounded

/-- `insert`. -/
def insert (t : DynamicTable) (name value : Text) : Result DynamicTable :=
  if h : H2.entrySize (name, value) ≤ t.capacity then .ok (t.add (name, value) h)
  else .error (bad [.str "qpack: dynamic entry size ", .num (H2.entrySize (name, value)),
    .str " exceeds capacity ", .num t.capacity])

/-- `get_absolute`. -/
def getAbsolute (t : DynamicTable) (abs : Nat) : Result (Text × Text) :=
  if abs < t.dropped ∨ t.insertCount ≤ abs then
    .error (bad [.str "qpack: dynamic absolute index ", .num abs, .str " not live (dropped ",
      .num t.dropped, .str ", count ", .num t.insertCount, .str ")"])
  else
    match t.fifo.entries.reverse[abs - t.dropped]? with
    | some e => .ok e
    | none => .error (bad [.str "qpack: dynamic index out of range"])

end DynamicTable

/-! ## The encoder stream -/

/-- `relative_to_absolute_insert`. -/
def relativeToAbsoluteInsert (insertCount rel : Nat) : Result Nat :=
  if 1 + rel ≤ insertCount then .ok (insertCount - 1 - rel)
  else .error (bad [.str "qpack: relative index ", .num rel, .str " out of range (insert count ",
    .num insertCount, .str ")"])

/-- The name an Insert With Name Reference refers to. -/
def insertName (table : DynamicTable) (isStatic : Bool) (idx : Nat) : Result Text :=
  if isStatic then
    match staticEntry idx with
    | some (n, _) => .ok n
    | none => .error (bad [.str "qpack: encoder static name index ", .num idx,
        .str " out of range"])
  else do
    let abs ← relativeToAbsoluteInsert table.insertCount idx
    let entry ← table.getAbsolute abs
    .ok entry.1

/-- The value behind the name of an insert, and the insert itself. -/
def insertValue (table : DynamicTable) (buf : Bytes) (p : Nat) (name : Text) :
    Result (Option (Nat × DynamicTable)) :=
  match tryDecodeLiteralString7bit (buf.drop p) with
  | .error e => .error e
  | .ok none => .ok none
  | .ok (some (value, vlen)) => do
      let table ← table.insert name value
      .ok (some (p + vlen, table))

/-- Insert With Literal Name, behind the length of the name. -/
def insertLiteral (table : DynamicTable) (buf : Bytes) (p nlen : Nat) (huffman : Bool) :
    Result (Option (Nat × DynamicTable)) :=
  if 2 ^ 64 ≤ p + nlen then .error (bad [.str "qpack: oversized encoder literal name length"])
  else if buf.length < p + nlen then .ok none
  else do
    let name ← decodeStringBytes ((buf.drop p).take nlen) huffman "encoder literal name"
    insertValue table buf (p + nlen) name

/-- `decode_encoder_instruction`: the bytes of the instruction and the table after it; `none`
when it is not all there. -/
def decodeEncoderInstruction (table : DynamicTable) (buf : Bytes) :
    Result (Option (Nat × DynamicTable)) :=
  match buf with
  | [] => .ok none
  | b0 :: rest =>
      if b0 &&& 0x80 ≠ 0 then do
        let (idx, used) ← decodeInt b0 6 rest
        let name ← insertName table (b0 &&& 0x40 ≠ 0) idx
        insertValue table buf (1 + used) name
      else if b0 &&& 0x40 ≠ 0 then do
        let (nlen, used) ← decodeInt b0 5 rest
        insertLiteral table buf (1 + used) nlen (b0 &&& 0x20 ≠ 0)
      else if b0 &&& 0x20 ≠ 0 then do
        let (cap, used) ← decodeInt b0 5 rest
        let table ← table.setCapacity cap
        .ok (some (1 + used, table))
      else do
        let (idx, used) ← decodeInt b0 5 rest
        let abs ← relativeToAbsoluteInsert table.insertCount idx
        let entry ← table.getAbsolute abs
        let table ← table.insert entry.1 entry.2
        .ok (some (1 + used, table))

/-- The loop of `apply_encoder_instructions` over the bytes from `p` on; every instruction takes
one at least, so `fuel` bytes are enough.  Instructions before an error have been applied. -/
def applyLoop : Nat → DynamicTable → Bytes → Nat → Result Nat × DynamicTable
  | 0, table, _, p => (.ok p, table)
  | fuel + 1, table, buf, p =>
      match decodeEncoderInstruction table (buf.drop p) with
      | .error e => (.error e, table)
      | .ok none => (.ok p, table)
      | .ok (some (used, table)) => applyLoop fuel table buf (p + used)

/-- `apply_encoder_instructions`: the bytes of whole instructions, and the table. -/
def applyEncoderInstructions (table : DynamicTable) (buf : Bytes) : Result Nat × DynamicTable :=
  applyLoop buf.length table buf 0

/-! ## Field sections -/

/-- `max_entries`. -/
def maxEntries : Nat := maxDynamicCapacity / entryOverhead

/-- `decode_required_insert_count`. -/
def decodeRequiredInsertCount (encoded totalInserts : Nat) : Result Nat :=
  if encoded = 0 then .ok 0
  else
    let fullRange := 2 * maxEntries
    if fullRange < encoded then
      .error (bad [.str "qpack: encoded Required Insert Count ", .num encoded,
        .str " exceeds 2*MaxEntries ", .num fullRange])
    else
      let maxValue := totalInserts + maxEntries
      let ric := maxValue / fullRange * fullRange + encoded - 1
      if maxValue < ric ∧ ric ≤ fullRange then
        .error (bad [.str "qpack: Required Insert Count wrap underflow"])
      else
        let ric := if maxValue < ric then ric - fullRange else ric
        if ric = 0 then
          .error (bad [.str "qpack: reconstructed Required Insert Count is zero"])
        else .ok ric

/-- `block_references_dynamic_table`. -/
def blockReferencesDynamicTable (buf : Bytes) : Bool :=
  match buf with
  | [] => false
  | b :: rest =>
      match decodeInt b 8 rest with
      | .ok (encRic, _) => encRic ≠ 0
      | .error _ => false

/-- `decode_base`. -/
def decodeBase (first : UInt8) (rest : Bytes) (ric : Nat) : Result (Nat × Nat) := do
  let (deltaBase, used) ← decodeInt first 7 rest
  if first &&& 0x80 ≠ 0 then
    if deltaBase + 1 ≤ ric then .ok (ric - deltaBase - 1, used)
    else .error (bad [.str "qpack: negative Base"])
  else if 2 ^ 64 ≤ ric + deltaBase then .error (bad [.str "qpack: Base overflow"])
  else .ok (ric + deltaBase, used)

/-- `field_relative_to_absolute`. -/
def fieldRelativeToAbsolute (base rel : Nat) : Result Nat :=
  if 1 + rel ≤ base then .ok (base - 1 - rel)
  else .error (bad [.str "qpack: field relative index ", .num rel, .str " out of range (Base ",
    .num base, .str ")"])

/-- `post_base_to_absolute`. -/
def postBaseToAbsolute (base idx : Nat) : Result Nat :=
  if 2 ^ 64 ≤ base + idx then .error (bad [.str "qpack: post-base index overflow"])
  else .ok (base + idx)

/-- A static entry, or the message with the index. -/
def staticField (idx : Nat) (m : String) : Result (Text × Text) :=
  match staticEntry idx with
  | some e => .ok e
  | none => .error (bad [.str m, .num idx])

/-- The value of a literal line from `p` on. -/
def literalValue (buf : Bytes) (p : Nat) (name : Text) : Result ((Text × Text) × Nat) := do
  let (value, vlen) ← decodeLiteralString7bit (buf.drop p)
  .ok ((name, value), p + vlen)

/-- One turn of the loop of `decode_field_section_with`: the line at the front of `buf`, and the
bytes it takes. -/
def decodeLine (table : DynamicTable) (base : Nat) (buf : Bytes) :
    Result ((Text × Text) × Nat) :=
  match buf with
  | [] => .error (bad [])
  | b :: rest =>
      if b &&& 0x80 ≠ 0 then do
        let (idx, used) ← decodeInt b 6 rest
        if b &&& 0x40 ≠ 0 then
          let entry ← staticField idx "qpack: static index out of range: "
          .ok (entry, 1 + used)
        else
          let abs ← fieldRelativeToAbsolute base idx
          let entry ← table.getAbsolute abs
          .ok (entry, 1 + used)
      else if b &&& 0x40 ≠ 0 then do
        let (idx, used) ← decodeInt b 4 rest
        if b &&& 0x10 ≠ 0 then
          let entry ← staticField idx "qpack: static name index out of range: "
          literalValue buf (1 + used) entry.1
        else
          let abs ← fieldRelativeToAbsolute base idx
          let entry ← table.getAbsolute abs
          literalValue buf (1 + used) entry.1
      else if b &&& 0x20 ≠ 0 then do
        let (nlen, used) ← decodeInt b 3 rest
        if buf.length < 1 + used + nlen then
          .error (bad [.str "qpack: truncated/oversized literal name"])
        else
          let name ← decodeStringBytes ((buf.drop (1 + used)).take nlen) (b &&& 0x08 ≠ 0)
            "literal name"
          literalValue buf (1 + used + nlen) name
      else if b &&& 0x10 ≠ 0 then do
        let (idx, used) ← decodeInt b 4 rest
        let abs ← postBaseToAbsolute base idx
        let entry ← table.getAbsolute abs
        .ok (entry, 1 + used)
      else do
        let (idx, used) ← decodeInt b 3 rest
        let abs ← postBaseToAbsolute base idx
        let entry ← table.getAbsolute abs
        literalValue buf (1 + used) entry.1

/-- `qpack::Fields`. -/
abbrev Fields := List (Text × Text)

/-- The loop of `decode_field_section_with` over the lines of `buf`; every line takes a byte at
least. -/
def lineLoop : Nat → DynamicTable → Nat → Bytes → Nat → Fields → Result Fields
  | 0, _, _, _, _, out => .ok out
  | fuel + 1, table, base, buf, listSize, out =>
      if buf = [] then .ok out
      else do
        let (entry, used) ← decodeLine table base buf
        let listSize := listSize + H2.entrySize entry
        if maxDecodedHeaderList < listSize then
          .error (bad [.str "qpack: decoded header list exceeds limit"])
        else lineLoop fuel table base (buf.drop used) listSize (out ++ [entry])

/-- What the two integers of the field section prefix say: the Required Insert Count, the Base,
and the bytes they take. -/
def decodePrefix (buf : Bytes) (table : DynamicTable) : Result (Nat × Nat × Nat) :=
  match buf with
  | [] => .error (bad [.str "qpack: empty field section"])
  | b :: rest => do
      let (encRic, n1) ← decodeInt b 8 rest
      let ric ← decodeRequiredInsertCount encRic table.insertCount
      if table.insertCount < ric then
        .error (bad [.str "qpack: Required Insert Count ", .num ric,
          .str " exceeds available inserts ", .num table.insertCount])
      else
        match buf.drop (1 + n1) with
        | [] => .error (bad [.str "qpack: truncated field-section prefix"])
        | s :: rest => do
            let (base, n2) ← decodeBase s rest ric
            .ok (ric, base, 1 + n1 + (1 + n2))

/-- `decode_field_section_with`. -/
def decodeFieldSectionWith (buf : Bytes) (table : DynamicTable) : Result Fields := do
  let (_, base, p) ← decodePrefix buf table
  lineLoop (buf.drop p).length table base (buf.drop p) 0 []

end Rsurl.H3.Qpack
