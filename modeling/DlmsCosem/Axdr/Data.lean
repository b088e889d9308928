import DlmsCosem.Codec.Writer

/-!
# A-XDR data

`Data` is one value of the A-XDR `Data` choice. The elements of an array or a structure stay
encoded: a `Seq` is the bytes that a walk over the elements (`Data.skip`) took, and each element
is decoded when it is asked for. Floats are their bit patterns.

Nesting is bounded by `maxDepth`. The recursive functions take the levels that are left, so the
source's `depth` is `maxDepth` less that number.
-/

namespace Dlms

/-- How deep arrays and structures may nest. -/
def maxDepth : Nat := 16

/-- The tags of `Data`. -/
inductive DataTag
  | nullData | array
  | structure : DataTag
  | boolean | bitString | doubleLong | doubleLongUnsigned
  | octetString | visibleString | utf8String | bcd | integer | long | unsigned | longUnsigned
  | compactArray | long64 | long64Unsigned | enum | float32 | float64 | dateTime | date | time
  | deltaInteger | deltaLong | deltaDoubleLong | deltaUnsigned | deltaLongUnsigned
  | deltaDoubleLongUnsigned | dontCare
  deriving Repr, DecidableEq

namespace DataTag

/-- From the wire. -/
def fromU8 : UInt8 → Option DataTag
  | 0 => some nullData
  | 1 => some array
  | 2 => some .structure
  | 3 => some boolean
  | 4 => some bitString
  | 5 => some doubleLong
  | 6 => some doubleLongUnsigned
  | 9 => some octetString
  | 10 => some visibleString
  | 12 => some utf8String
  | 13 => some bcd
  | 15 => some integer
  | 16 => some long
  | 17 => some unsigned
  | 18 => some longUnsigned
  | 19 => some compactArray
  | 20 => some long64
  | 21 => some long64Unsigned
  | 22 => some enum
  | 23 => some float32
  | 24 => some float64
  | 25 => some dateTime
  | 26 => some date
  | 27 => some time
  | 28 => some deltaInteger
  | 29 => some deltaLong
  | 30 => some deltaDoubleLong
  | 31 => some deltaUnsigned
  | 32 => some deltaLongUnsigned
  | 33 => some deltaDoubleLongUnsigned
  | 255 => some dontCare
  | _ => none

/-- On the wire. -/
def asU8 : DataTag → UInt8
  | nullData => 0
  | array => 1
  | .structure => 2
  | boolean => 3
  | bitString => 4
  | doubleLong => 5
  | doubleLongUnsigned => 6
  | octetString => 9
  | visibleString => 10
  | utf8String => 12
  | bcd => 13
  | integer => 15
  | long => 16
  | unsigned => 17
  | longUnsigned => 18
  | compactArray => 19
  | long64 => 20
  | long64Unsigned => 21
  | enum => 22
  | float32 => 23
  | float64 => 24
  | dateTime => 25
  | date => 26
  | time => 27
  | deltaInteger => 28
  | deltaLong => 29
  | deltaDoubleLong => 30
  | deltaUnsigned => 31
  | deltaLongUnsigned => 32
  | deltaDoubleLongUnsigned => 33
  | dontCare => 255

/-- The length of the contents, for a tag whose contents have one length. -/
def fixedLen : DataTag → Option Nat
  | nullData | dontCare => some 0
  | boolean | bcd | integer | unsigned | enum | deltaInteger | deltaUnsigned => some 1
  | long | longUnsigned | deltaLong | deltaLongUnsigned => some 2
  | doubleLong | doubleLongUnsigned | float32 | deltaDoubleLong | deltaDoubleLongUnsigned => some 4
  | time => some 4
  | date => some 5
  | long64 | long64Unsigned | float64 => some 8
  | dateTime => some 12
  | _ => none

@[simp] theorem fromU8_asU8 (t : DataTag) : fromU8 t.asU8 = some t := by
  cases t <;> rfl

end DataTag

/-- A COSEM date and time, as its fields stand on the wire. -/
structure DateTime where
  year : UInt16
  month : UInt8
  dayOfMonth : UInt8
  dayOfWeek : UInt8
  hour : UInt8
  minute : UInt8
  second : UInt8
  hundredths : UInt8
  deviation : Int16
  status : UInt8
  deriving Repr, DecidableEq

namespace DateTime

/-- `to_bytes`. -/
def toBytes (d : DateTime) : Bytes :=
  beBytes 2 d.year.toNat ++ [d.month, d.dayOfMonth, d.dayOfWeek, d.hour, d.minute, d.second,
    d.hundredths] ++ beBytes 2 d.deviation.toUInt16.toNat ++ [d.status]

/-- `from_bytes`, of twelve bytes. -/
def fromBytes (b : Bytes) : DateTime where
  year := UInt16.ofNat (beNat (b.take 2))
  month := b.getD 2 0
  dayOfMonth := b.getD 3 0
  dayOfWeek := b.getD 4 0
  hour := b.getD 5 0
  minute := b.getD 6 0
  second := b.getD 7 0
  hundredths := b.getD 8 0
  deviation := (UInt16.ofNat (beNat ((b.drop 9).take 2))).toInt16
  status := b.getD 11 0

end DateTime

/-- A COSEM date. -/
structure Date where
  year : UInt16
  month : UInt8
  dayOfMonth : UInt8
  dayOfWeek : UInt8
  deriving Repr, DecidableEq

namespace Date

/-- `to_bytes`. -/
def toBytes (d : Date) : Bytes := beBytes 2 d.year.toNat ++ [d.month, d.dayOfMonth, d.dayOfWeek]

/-- `from_bytes`, of five bytes. -/
def fromBytes (b : Bytes) : Date where
  year := UInt16.ofNat (beNat (b.take 2))
  month := b.getD 2 0
  dayOfMonth := b.getD 3 0
  dayOfWeek := b.getD 4 0

end Date

/-- A COSEM time of day. -/
structure Time where
  hour : UInt8
  minute : UInt8
  second : UInt8
  hundredths : UInt8
  deriving Repr, DecidableEq

namespace Time

/-- `to_bytes`. -/
def toBytes (t : Time) : Bytes := [t.hour, t.minute, t.second, t.hundredths]

/-- `from_bytes`, of four bytes. -/
def fromBytes (b : Bytes) : Time :=
  ⟨b.getD 0 0, b.getD 1 0, b.getD 2 0, b.getD 3 0⟩

end Time

/-- A bit string: `bits` bits in `bytes`, the first in the most significant bit. -/
structure BitStr where
  bits : Nat
  bytes : Bytes
  deriving Repr, DecidableEq

/-- The elements of an array or a structure, still encoded. `left` is how many levels they may
nest. -/
structure Seq where
  count : Nat
  raw : Bytes
  base : Nat
  left : Nat
  deriving Repr, DecidableEq

/-- A compact array: a type description and contents, both still encoded. -/
structure CompactArray where
  desc : Bytes
  contents : Bytes
  descBase : Nat
  contentsBase : Nat
  left : Nat
  deriving Repr, DecidableEq

/-- One value. -/
inductive Data
  | null
  | array (s : Seq)
  | structure (s : Seq)
  | boolean (v : Bool)
  | bitString (v : BitStr)
  | doubleLong (v : Int32)
  | doubleLongUnsigned (v : UInt32)
  | octetString (v : Bytes)
  | visibleString (v : Bytes)
  | utf8String (v : Bytes)
  | bcd (v : Int8)
  | integer (v : Int8)
  | long (v : Int16)
  | unsigned (v : UInt8)
  | longUnsigned (v : UInt16)
  | compactArray (c : CompactArray)
  | long64 (v : Int64)
  | long64Unsigned (v : UInt64)
  | enum (v : UInt8)
  | float32 (bits : UInt32)
  | float64 (bits : UInt64)
  | dateTime (v : DateTime)
  | date (v : Date)
  | time (v : Time)
  | deltaInteger (v : Int8)
  | deltaLong (v : Int16)
  | deltaDoubleLong (v : Int32)
  | deltaUnsigned (v : UInt8)
  | deltaLongUnsigned (v : UInt16)
  | deltaDoubleLongUnsigned (v : UInt32)
  | dontCare
  deriving DecidableEq

/-! ## Type descriptions of compact arrays -/

/-- A type description. The descriptions inside it stay encoded. -/
inductive TypeDesc
  | scalar (tag : DataTag)
  | array (len : UInt16) (elem : Bytes)
  | structure (count : Nat) (fields : Bytes)
  deriving Repr, DecidableEq

/-- Run `f` on a reader over what is left and give how much of it `f` took. -/
def Read.probe (f : Read Unit) : Read Nat := fun r =>
  match f (Reader.withBase r.rest r.offset) with
  | (.ok (), inner) => (.ok inner.pos, r)
  | (.error e, _) => (.error e, r)

namespace TypeDesc

/-- `parse_at`, with `left` levels left. `skip_at` is `parse_at` without its result. -/
def parseAt : Nat → Read TypeDesc
  | 0 => Read.fail .depthExceeded
  | left + 1 => do
    let tagByte ← Read.u8
    match DataTag.fromU8 tagByte with
    | none => Read.errBack (.invalidTag tagByte) 1
    | some .array => do
      let len ← Read.u16
      let used ← Read.probe (do let _ ← parseAt left)
      let elem ← Read.take used
      return array len elem
    | some .structure => do
      let count ← Read.length
      let used ← Read.probe (Prog.times count (do let _ ← parseAt left))
      let fields ← Read.take used
      return .structure count fields
    | some .compactArray => Read.errBack (.invalidTag tagByte) 1
    | some other => return scalar other

/-- `skip_at`. -/
def skipAt (left : Nat) : Read Unit := do
  let _ ← parseAt left

end TypeDesc

namespace CompactArray

/-- `decode_body`, with `left` levels left. -/
def decodeBody (left : Nat) : Read CompactArray :=
  if left = 0 then Read.fail .depthExceeded
  else do
    let descBase ← Read.offset
    let used ← Read.probe (TypeDesc.skipAt left)
    let desc ← Read.take used
    let len ← Read.length
    let contentsBase ← Read.offset
    let contents ← Read.take len
    return { desc, contents, descBase, contentsBase, left }

/-- `skip_body`. -/
def skipBody (left : Nat) : Read Unit := do
  let _ ← decodeBody left

/-- `encode_body`. -/
def encodeBody (c : CompactArray) : Emit := Emit.bytes c.desc ++ Emit.lengthPrefixed c.contents

end CompactArray

namespace Data

/-- `tag`. -/
def tag : Data → DataTag
  | null => .nullData
  | array _ => .array
  | .structure _ => .structure
  | boolean _ => .boolean
  | bitString _ => .bitString
  | doubleLong _ => .doubleLong
  | doubleLongUnsigned _ => .doubleLongUnsigned
  | octetString _ => .octetString
  | visibleString _ => .visibleString
  | utf8String _ => .utf8String
  | bcd _ => .bcd
  | integer _ => .integer
  | long _ => .long
  | unsigned _ => .unsigned
  | longUnsigned _ => .longUnsigned
  | compactArray _ => .compactArray
  | long64 _ => .long64
  | long64Unsigned _ => .long64Unsigned
  | enum _ => .enum
  | float32 _ => .float32
  | float64 _ => .float64
  | dateTime _ => .dateTime
  | date _ => .date
  | time _ => .time
  | deltaInteger _ => .deltaInteger
  | deltaLong _ => .deltaLong
  | deltaDoubleLong _ => .deltaDoubleLong
  | deltaUnsigned _ => .deltaUnsigned
  | deltaLongUnsigned _ => .deltaLongUnsigned
  | deltaDoubleLongUnsigned _ => .deltaDoubleLongUnsigned
  | dontCare => .dontCare

/-- Walk past one value, with `left` levels left. -/
def skip : Nat → Read Unit
  | 0 => Read.fail .depthExceeded
  | left + 1 => do
    let tagByte ← Read.u8
    match DataTag.fromU8 tagByte with
    | none => Read.errBack (.invalidTag tagByte) 1
    | some tag =>
      match tag.fixedLen with
      | some n => Read.skip n
      | none =>
        match tag with
        | .array | .structure => do
          let count ← Read.length
          Prog.times count (skip left)
        | .bitString => do
          let bits ← Read.length
          Read.skip ((bits + 7) / 8)
        | .octetString | .visibleString | .utf8String => do
          let n ← Read.length
          Read.skip n
        | .compactArray => CompactArray.skipBody left
        | _ => Read.fail (.invalidTag tagByte)

/-- The elements of an array or a structure, which may nest `left` levels. -/
def decodeSeq (left : Nat) : Read Seq := do
  let count ← Read.length
  let base ← Read.offset
  let used ← Read.probe (Prog.times count (skip left))
  let raw ← Read.take used
  return { count, raw, base, left }

/-- `decode_at`, with `left` levels left. -/
def decodeAt : Nat → Read Data
  | 0 => Read.fail .depthExceeded
  | left + 1 => do
    let tagByte ← Read.u8
    match DataTag.fromU8 tagByte with
    | none => Read.errBack (.invalidTag tagByte) 1
    | some .nullData => return null
    | some .dontCare => return dontCare
    | some .array => return array (← decodeSeq left)
    | some .structure => return .structure (← decodeSeq left)
    | some .boolean => return boolean ((← Read.u8) != 0)
    | some .bitString => do
      let bits ← Read.length
      let bytes ← Read.take ((bits + 7) / 8)
      return bitString { bits, bytes }
    | some .doubleLong => return doubleLong (← Read.i32)
    | some .doubleLongUnsigned => return doubleLongUnsigned (← Read.u32)
    | some .octetString => return octetString (← Read.lengthPrefixed)
    | some .visibleString => return visibleString (← Read.lengthPrefixed)
    | some .utf8String => return utf8String (← Read.lengthPrefixed)
    | some .bcd => return bcd (← Read.i8)
    | some .integer => return integer (← Read.i8)
    | some .long => return long (← Read.i16)
    | some .unsigned => return unsigned (← Read.u8)
    | some .longUnsigned => return longUnsigned (← Read.u16)
    | some .compactArray => return compactArray (← CompactArray.decodeBody left)
    | some .long64 => return long64 (← Read.i64)
    | some .long64Unsigned => return long64Unsigned (← Read.u64)
    | some .enum => return enum (← Read.u8)
    | some .float32 => return float32 (← Read.u32)
    | some .float64 => return float64 (← Read.u64)
    | some .dateTime => return dateTime (.fromBytes (← Read.take 12))
    | some .date => return date (.fromBytes (← Read.take 5))
    | some .time => return time (.fromBytes (← Read.take 4))
    | some .deltaInteger => return deltaInteger (← Read.i8)
    | some .deltaLong => return deltaLong (← Read.i16)
    | some .deltaDoubleLong => return deltaDoubleLong (← Read.i32)
    | some .deltaUnsigned => return deltaUnsigned (← Read.u8)
    | some .deltaLongUnsigned => return deltaLongUnsigned (← Read.u16)
    | some .deltaDoubleLongUnsigned => return deltaDoubleLongUnsigned (← Read.u32)

def decode : Read Data := decodeAt maxDepth

instance : Decode Data := ⟨decode⟩

/-- What stands after the tag. -/
def contents : Data → Emit
  | null | dontCare => Emit.empty
  | array s | .structure s => Emit.length s.count ++ Emit.bytes s.raw
  | boolean v => Emit.u8 v.toUInt8
  | bitString b => Emit.length b.bits ++ Emit.bytes b.bytes
  | doubleLong v | deltaDoubleLong v => Emit.u32 v.toUInt32
  | doubleLongUnsigned v | deltaDoubleLongUnsigned v => Emit.u32 v
  | octetString b | visibleString b | utf8String b => Emit.lengthPrefixed b
  | bcd v | integer v | deltaInteger v => Emit.u8 v.toUInt8
  | long v | deltaLong v => Emit.u16 v.toUInt16
  | unsigned v | enum v | deltaUnsigned v => Emit.u8 v
  | longUnsigned v | deltaLongUnsigned v => Emit.u16 v
  | compactArray c => c.encodeBody
  | long64 v => Emit.u64 v.toUInt64
  | long64Unsigned v => Emit.u64 v
  | float32 v => Emit.u32 v
  | float64 v => Emit.u64 v
  | dateTime v => Emit.bytes v.toBytes
  | date v => Emit.bytes v.toBytes
  | time v => Emit.bytes v.toBytes

def encode (d : Data) : Emit := Emit.u8 d.tag.asU8 ++ d.contents

/-- The bytes of an octet, visible or UTF-8 string. -/
def asBytes : Data → Option Bytes
  | octetString b | visibleString b | utf8String b => some b
  | _ => none

end Data

end Dlms
