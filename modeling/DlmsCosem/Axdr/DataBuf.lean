import DlmsCosem.Axdr.Constructed

/-!
# Owned values

A `DataBuf` is a tree: its sequences are lists of trees. `DataBuf.fromData` copies a borrowed value
into one, with each compact array expanded into an array of its rows (`CompactArray.toRows`). The
expansion multiplies, since a description of a few bytes may ask for millions of elements, so the
walk over a compact array spends one of a budget for each node it builds.
-/

namespace Dlms

/-- An owned value. -/
inductive DataBuf
  | null
  | array (items : List DataBuf)
  | structure (items : List DataBuf)
  | boolean (v : Bool)
  | bitString (bits : Nat) (bytes : Bytes)
  | doubleLong (v : Int32)
  | doubleLongUnsigned (v : UInt32)
  | octetString (v : Bytes)
  | visibleString (v : Bytes)
  | utf8String (v : Bytes)
  | bcd (v : Int8)
  | integer (v : Int8)
  | long (v : Int16)
  | unsigned (v : UInt8)
  | longUnsigned (v : UInt16)
  | long64 (v : Int64)
  | long64Unsigned (v : UInt64)
  | enum (v : UInt8)
  | float32 (bits : UInt32)
  | float64 (bits : UInt64)
  | dateTime (v : DateTime)
  | date (v : Date)
  | time (v : Time)
  | deltaInteger (v : Int8)
  | deltaLong (v : Int16)
  | deltaDoubleLong (v : Int32)
  | deltaUnsigned (v : UInt8)
  | deltaLongUnsigned (v : UInt16)
  | deltaDoubleLongUnsigned (v : UInt32)
  | dontCare

namespace DataBuf

mutual

def encode : DataBuf → Emit
  | null => Emit.u8 0
  | array ts => Emit.u8 1 ++ (Emit.length ts.length ++ encodeAll ts)
  | .structure ts => Emit.u8 2 ++ (Emit.length ts.length ++ encodeAll ts)
  | boolean v => Emit.u8 3 ++ Emit.u8 v.toUInt8
  | bitString bits bytes => Emit.u8 4 ++ (Emit.length bits ++ Emit.bytes bytes)
  | doubleLong v => Emit.u8 5 ++ Emit.u32 v.toUInt32
  | doubleLongUnsigned v => Emit.u8 6 ++ Emit.u32 v
  | octetString b => Emit.u8 9 ++ Emit.lengthPrefixed b
  | visibleString b => Emit.u8 10 ++ Emit.lengthPrefixed b
  | utf8String b => Emit.u8 12 ++ Emit.lengthPrefixed b
  | bcd v => Emit.u8 13 ++ Emit.u8 v.toUInt8
  | integer v => Emit.u8 15 ++ Emit.u8 v.toUInt8
  | long v => Emit.u8 16 ++ Emit.u16 v.toUInt16
  | unsigned v => Emit.u8 17 ++ Emit.u8 v
  | longUnsigned v => Emit.u8 18 ++ Emit.u16 v
  | long64 v => Emit.u8 20 ++ Emit.u64 v.toUInt64
  | long64Unsigned v => Emit.u8 21 ++ Emit.u64 v
  | enum v => Emit.u8 22 ++ Emit.u8 v
  | float32 v => Emit.u8 23 ++ Emit.u32 v
  | float64 v => Emit.u8 24 ++ Emit.u64 v
  | dateTime v => Emit.u8 25 ++ Emit.bytes v.toBytes
  | date v => Emit.u8 26 ++ Emit.bytes v.toBytes
  | time v => Emit.u8 27 ++ Emit.bytes v.toBytes
  | deltaInteger v => Emit.u8 28 ++ Emit.u8 v.toUInt8
  | deltaLong v => Emit.u8 29 ++ Emit.u16 v.toUInt16
  | deltaDoubleLong v => Emit.u8 30 ++ Emit.u32 v.toUInt32
  | deltaUnsigned v => Emit.u8 31 ++ Emit.u8 v
  | deltaLongUnsigned v => Emit.u8 32 ++ Emit.u16 v
  | deltaDoubleLongUnsigned v => Emit.u8 33 ++ Emit.u32 v
  | dontCare => Emit.u8 255

/-- The items of a sequence, one after another. -/
def encodeAll : List DataBuf → Emit
  | [] => Emit.empty
  | t :: ts => encode t ++ encodeAll ts

end

/-- `from_data` of a value that is not nested. -/
def ofScalar : Data → Result DataBuf
  | .null => .ok null
  | .dontCare => .ok dontCare
  | .boolean v => .ok (boolean v)
  | .bitString b => .ok (bitString b.bits b.bytes)
  | .doubleLong v => .ok (doubleLong v)
  | .doubleLongUnsigned v => .ok (doubleLongUnsigned v)
  | .octetString b => .ok (octetString b)
  | .visibleString b => .ok (visibleString b)
  | .utf8String b => .ok (utf8String b)
  | .bcd v => .ok (bcd v)
  | .integer v => .ok (integer v)
  | .long v => .ok (long v)
  | .unsigned v => .ok (unsigned v)
  | .longUnsigned v => .ok (longUnsigned v)
  | .long64 v => .ok (long64 v)
  | .long64Unsigned v => .ok (long64Unsigned v)
  | .enum v => .ok (enum v)
  | .float32 v => .ok (float32 v)
  | .float64 v => .ok (float64 v)
  | .dateTime v => .ok (dateTime v)
  | .date v => .ok (date v)
  | .time v => .ok (time v)
  | .deltaInteger v => .ok (deltaInteger v)
  | .deltaLong v => .ok (deltaLong v)
  | .deltaDoubleLong v => .ok (deltaDoubleLong v)
  | .deltaUnsigned v => .ok (deltaUnsigned v)
  | .deltaLongUnsigned v => .ok (deltaLongUnsigned v)
  | .deltaDoubleLongUnsigned v => .ok (deltaDoubleLongUnsigned v)
  | .array _ | .structure _ | .compactArray _ => Error.fail .typeMismatch 0

end DataBuf

/-! ## The expansion of a compact array -/

/-- The most values one compact array may expand to, counting every node of every row. -/
def maxCompactNodes : Nat := 2 ^ 20

/-- A walk over the contents of a compact array, and the nodes that it may still build. -/
structure Expansion where
  contents : Reader
  budget : Nat

/-- A part of such a walk. -/
abbrev Expand (α : Type) := Prog Error Expansion α

namespace Expand

/-- Read from the contents. -/
def read {α : Type} (m : Read α) : Expand α := fun s =>
  ((m s.contents).1, { s with contents := (m s.contents).2 })

def spend : Expand Unit := fun s =>
  match s.budget with
  | 0 => (.error (s.contents.err .workExceeded), s)
  | budget + 1 => (.ok (), { s with budget })

/-- `ensure_progress`. -/
def ensureProgress (before : Nat) : Expand Unit := fun s =>
  if s.contents.offset = before then (.error (s.contents.err .invalidValue), s) else (.ok (), s)

/-- `n` runs of `m` and their values. -/
def repeated {α : Type} (m : Expand α) : Nat → Expand (List α)
  | 0 => pure []
  | n + 1 => do
    let a ← m
    let as ← repeated m n
    return a :: as

end Expand

/-- Decode one leaf value that carries no tag of its own. -/
def leaf (tag : DataTag) : Read Data :=
  match tag with
  | .nullData => return .null
  | .dontCare => return .dontCare
  | .boolean => return .boolean ((← Read.u8) != 0)
  | .bitString => do
    let bits ← Read.length
    let bytes ← Read.take ((bits + 7) / 8)
    match BitStr.new bits bytes with
    | .ok b => return .bitString b
    | .error _ => Read.fail .invalidLength
  | .doubleLong => return .doubleLong (← Read.i32)
  | .doubleLongUnsigned => return .doubleLongUnsigned (← Read.u32)
  | .octetString => return .octetString (← Read.lengthPrefixed)
  | .visibleString => return .visibleString (← Read.lengthPrefixed)
  | .utf8String => return .utf8String (← Read.lengthPrefixed)
  | .bcd => return .bcd (← Read.i8)
  | .integer => return .integer (← Read.i8)
  | .long => return .long (← Read.i16)
  | .unsigned => return .unsigned (← Read.u8)
  | .longUnsigned => return .longUnsigned (← Read.u16)
  | .long64 => return .long64 (← Read.i64)
  | .long64Unsigned => return .long64Unsigned (← Read.u64)
  | .enum => return .enum (← Read.u8)
  | .float32 => return .float32 (← Read.u32)
  | .float64 => return .float64 (← Read.u64)
  | .dateTime => return .dateTime (.fromBytes (← Read.take 12))
  | .date => return .date (.fromBytes (← Read.take 5))
  | .time => return .time (.fromBytes (← Read.take 4))
  | .deltaInteger => return .deltaInteger (← Read.i8)
  | .deltaLong => return .deltaLong (← Read.i16)
  | .deltaDoubleLong => return .deltaDoubleLong (← Read.i32)
  | .deltaUnsigned => return .deltaUnsigned (← Read.u8)
  | .deltaLongUnsigned => return .deltaLongUnsigned (← Read.u16)
  | .deltaDoubleLongUnsigned => return .deltaDoubleLongUnsigned (← Read.u32)
  | .array | .structure | .compactArray => Read.fail (.invalidTag tag.asU8)

/-- The fields of a structure: each is described in turn and built. -/
def buildFields (build : TypeDesc → Expand DataBuf) : Nat → Reader → Expand (List DataBuf)
  | 0, _ => pure []
  | n + 1, fields =>
    match TypeDesc.parseAt maxDepth fields with
    | (.error e, _) => Prog.throw e
    | (.ok inner, fields') => do
      let v ← build inner
      let vs ← buildFields build n fields'
      return v :: vs

/-- `build`, with `left` levels left. -/
def build : Nat → TypeDesc → Expand DataBuf
  | 0, _ => Expand.read (Read.fail .depthExceeded)
  | left + 1, desc => do
    Expand.spend
    match desc with
    | .scalar tag => do
      let d ← Expand.read (leaf tag)
      Prog.ofExcept (DataBuf.ofScalar d)
    | .array len elem =>
      match TypeDesc.parseAt maxDepth (Reader.new elem) with
      | (.error e, _) => Prog.throw e
      | (.ok inner, _) => return .array (← Expand.repeated (build left inner) len.toNat)
    | .structure count fields => return .structure (← buildFields (build left) count (Reader.new fields))

namespace CompactArray

/-- The rows up to the end of the contents. A row takes at least one byte, so there are no more than
the contents have bytes. -/
def rows (row : Expand DataBuf) : Nat → Expand (List DataBuf)
  | 0 => pure []
  | n + 1 => do
    if ← Expand.read Read.isEmpty then return []
    let before ← Expand.read Read.offset
    let t ← row
    Expand.ensureProgress before
    let ts ← rows row n
    return t :: ts

/-- Expand into owned rows. -/
def toRows (c : CompactArray) : Result (List DataBuf) := do
  let desc ← c.description.1
  (rows (build c.left desc) c.contents.length
    ⟨Reader.withBase c.contents c.contentsBase, maxCompactNodes⟩).1

end CompactArray

namespace DataBuf

/-- What `copy` makes of the items of an iterator, up to the first error. -/
def gather (copy : Data → Result DataBuf) : List (Result Data) → Result (List DataBuf)
  | [] => .ok []
  | item :: items => do
    let t ← copy (← item)
    let ts ← gather copy items
    return t :: ts

/-- `from_data`, with `copy` for the items of a sequence. -/
def fromDataWith (copy : Data → Result DataBuf) : Data → Result DataBuf
  | .array s => return array (← gather copy s.iter.collect.1)
  | .structure s => return .structure (← gather copy s.iter.collect.1)
  | .compactArray c => return array (← c.toRows)
  | d => ofScalar d

/-- `from_data` of a value whose items nest at most `levels` levels. -/
def fromDataAt : Nat → Data → Result DataBuf
  | 0 => fromDataWith fun _ => Error.fail .depthExceeded 0
  | levels + 1 => fromDataWith (fromDataAt levels)

/-- How far the items of a value may nest. -/
def levels (d : Data) : Nat := d.seq?.elim 0 Seq.left

/-- `from_data`. -/
def fromData (d : Data) : Result DataBuf := fromDataAt (levels d) d

def parse (bytes : Bytes) : Result DataBuf := do fromData (← Read.fromBytes Data.decode bytes)

end DataBuf

end Dlms
