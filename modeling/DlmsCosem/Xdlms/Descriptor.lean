import DlmsCosem.Axdr.Data
import DlmsCosem.Xdlms.Initiate

/-!
# Descriptors, results and lists

What a request names (an attribute or a method of an object), what the server answers for each
name, and the `WireList` of such things: as with `Seq`, its elements stay encoded and are decoded
one after another.
-/

namespace Dlms

/-- A logical name. -/
structure Obis where
  a : UInt8
  b : UInt8
  c : UInt8
  d : UInt8
  e : UInt8
  f : UInt8
  deriving Repr, DecidableEq

namespace Obis

def toBytes (o : Obis) : Bytes := [o.a, o.b, o.c, o.d, o.e, o.f]

/-- Of six bytes. -/
def ofBytes (b : Bytes) : Obis :=
  ⟨b.getD 0 0, b.getD 1 0, b.getD 2 0, b.getD 3 0, b.getD 4 0, b.getD 5 0⟩

def decode : Read Obis := do return ofBytes (← Read.take 6)

end Obis

/-- An attribute of an object. -/
structure AttributeDescriptor where
  classId : UInt16
  instanceId : Obis
  attributeId : Int8
  deriving DecidableEq

namespace AttributeDescriptor

def encode (d : AttributeDescriptor) : Emit :=
  Emit.u16 d.classId ++ Emit.bytes d.instanceId.toBytes ++ Emit.u8 d.attributeId.toUInt8

def decode : Read AttributeDescriptor := do
  return ⟨← Read.u16, ← Obis.decode, ← Read.i8⟩

end AttributeDescriptor

/-- A method of an object. -/
structure MethodDescriptor where
  classId : UInt16
  instanceId : Obis
  methodId : Int8
  deriving DecidableEq

namespace MethodDescriptor

def encode (d : MethodDescriptor) : Emit :=
  Emit.u16 d.classId ++ Emit.bytes d.instanceId.toBytes ++ Emit.u8 d.methodId.toUInt8

def decode : Read MethodDescriptor := do
  return ⟨← Read.u16, ← Obis.decode, ← Read.i8⟩

end MethodDescriptor

/-- A selector for a part of an attribute. -/
structure SelectiveAccess where
  selector : UInt8
  parameters : Data
  deriving DecidableEq

namespace SelectiveAccess

def encode (s : SelectiveAccess) : Emit := Emit.u8 s.selector ++ s.parameters.encode

def decode : Read SelectiveAccess := do return ⟨← Read.u8, ← Data.decode⟩

end SelectiveAccess

/-- An attribute and a selector, as lists hold them. -/
structure AttributeDescriptorWithSelection where
  descriptor : AttributeDescriptor
  access : Option SelectiveAccess
  deriving DecidableEq

namespace AttributeDescriptorWithSelection

def encode (d : AttributeDescriptorWithSelection) : Emit :=
  d.descriptor.encode ++ encodeOptional SelectiveAccess.encode d.access

def decode : Read AttributeDescriptorWithSelection := do
  return ⟨← AttributeDescriptor.decode, ← decodeOptional SelectiveAccess.decode⟩

end AttributeDescriptorWithSelection

/-- The invoke id and priority byte. -/
structure InvokeId where
  val : UInt8
  deriving Repr, DecidableEq

namespace InvokeId

/-- A confirmed request of normal priority. -/
def confirmed (id : UInt8) : InvokeId := ⟨(id &&& 0x0F) ||| 0x40⟩

/-- The number itself. -/
def id (i : InvokeId) : UInt8 := i.val &&& 0x0F

/-- True when an answer is wanted. -/
def isConfirmed (i : InvokeId) : Bool := i.val &&& 0x40 != 0

def encode (i : InvokeId) : Emit := Emit.u8 i.val

def decode : Read InvokeId := do return ⟨← Read.u8⟩

end InvokeId

/-- The four-byte invoke id of ACCESS and of notifications. -/
structure LongInvokeId where
  val : UInt32
  deriving Repr, DecidableEq

namespace LongInvokeId

def new (id : UInt32) : LongInvokeId := ⟨id &&& 0x00FFFFFF⟩

def id (i : LongInvokeId) : UInt32 := i.val &&& 0x00FFFFFF

def isConfirmed (i : LongInvokeId) : Bool := i.val &&& 0x20000000 != 0

def confirmed (i : LongInvokeId) : LongInvokeId := ⟨i.val ||| 0x20000000⟩

end LongInvokeId

/-! ## Results -/

/-- The result of an attribute access. -/
inductive DataAccessResult
  | success | hardwareFault | temporaryFailure | readWriteDenied | objectUndefined
  | objectClassInconsistent | objectUnavailable | typeUnmatched | scopeOfAccessViolated
  | dataBlockUnavailable | longGetAborted | noLongGetInProgress | longSetAborted
  | noLongSetInProgress | dataBlockNumberInvalid | otherReason
  | other (v : UInt8)
  deriving Repr, DecidableEq

namespace DataAccessResult

def fromU8 : UInt8 → DataAccessResult
  | 0 => success
  | 1 => hardwareFault
  | 2 => temporaryFailure
  | 3 => readWriteDenied
  | 4 => objectUndefined
  | 9 => objectClassInconsistent
  | 11 => objectUnavailable
  | 12 => typeUnmatched
  | 13 => scopeOfAccessViolated
  | 14 => dataBlockUnavailable
  | 15 => longGetAborted
  | 16 => noLongGetInProgress
  | 17 => longSetAborted
  | 18 => noLongSetInProgress
  | 19 => dataBlockNumberInvalid
  | 250 => otherReason
  | v => other v

def asU8 : DataAccessResult → UInt8
  | success => 0
  | hardwareFault => 1
  | temporaryFailure => 2
  | readWriteDenied => 3
  | objectUndefined => 4
  | objectClassInconsistent => 9
  | objectUnavailable => 11
  | typeUnmatched => 12
  | scopeOfAccessViolated => 13
  | dataBlockUnavailable => 14
  | longGetAborted => 15
  | noLongGetInProgress => 16
  | longSetAborted => 17
  | noLongSetInProgress => 18
  | dataBlockNumberInvalid => 19
  | otherReason => 250
  | other v => v

def isSuccess (r : DataAccessResult) : Bool := r == success

def encode (r : DataAccessResult) : Emit := Emit.u8 r.asU8

def decode : Read DataAccessResult := do return fromU8 (← Read.u8)

end DataAccessResult

/-- The result of a method. -/
inductive ActionResult
  | success | hardwareFault | temporaryFailure | readWriteDenied | objectUndefined
  | objectClassInconsistent | objectUnavailable | typeUnmatched | scopeOfAccessViolated
  | dataBlockUnavailable | longActionAborted | noLongActionInProgress | otherReason
  | other (v : UInt8)
  deriving Repr, DecidableEq

namespace ActionResult

def fromU8 : UInt8 → ActionResult
  | 0 => success
  | 1 => hardwareFault
  | 2 => temporaryFailure
  | 3 => readWriteDenied
  | 4 => objectUndefined
  | 9 => objectClassInconsistent
  | 11 => objectUnavailable
  | 12 => typeUnmatched
  | 13 => scopeOfAccessViolated
  | 14 => dataBlockUnavailable
  | 15 => longActionAborted
  | 16 => noLongActionInProgress
  | 250 => otherReason
  | v => other v

def asU8 : ActionResult → UInt8
  | success => 0
  | hardwareFault => 1
  | temporaryFailure => 2
  | readWriteDenied => 3
  | objectUndefined => 4
  | objectClassInconsistent => 9
  | objectUnavailable => 11
  | typeUnmatched => 12
  | scopeOfAccessViolated => 13
  | dataBlockUnavailable => 14
  | longActionAborted => 15
  | noLongActionInProgress => 16
  | otherReason => 250
  | other v => v

def isSuccess (r : ActionResult) : Bool := r == success

def encode (r : ActionResult) : Emit := Emit.u8 r.asU8

def decode : Read ActionResult := do return fromU8 (← Read.u8)

end ActionResult

/-- A value or the reason there is none. -/
inductive GetDataResult
  | data (d : Data)
  | error (e : DataAccessResult)
  deriving DecidableEq

namespace GetDataResult

def encode : GetDataResult → Emit
  | data d => Emit.u8 0 ++ d.encode
  | error e => Emit.u8 1 ++ Emit.u8 e.asU8

def decode : Read GetDataResult := do
  match ← Read.u8 with
  | 0 => return data (← Data.decode)
  | 1 => return error (.fromU8 (← Read.u8))
  | other => Read.errBack (.invalidTag other) 1

end GetDataResult

/-- A block of a GET response. -/
structure DataBlockG where
  lastBlock : Bool
  blockNumber : UInt32
  result : Except DataAccessResult Bytes
  deriving DecidableEq

namespace DataBlockG

def encode (b : DataBlockG) : Emit :=
  Emit.u8 b.lastBlock.toUInt8 ++ Emit.u32 b.blockNumber ++
  match b.result with
  | .ok raw => Emit.u8 0 ++ Emit.lengthPrefixed raw
  | .error e => Emit.u8 1 ++ Emit.u8 e.asU8

def decode : Read DataBlockG := do
  let lastBlock := (← Read.u8) != 0
  let blockNumber ← Read.u32
  match ← Read.u8 with
  | 0 => return ⟨lastBlock, blockNumber, .ok (← Read.lengthPrefixed)⟩
  | 1 => return ⟨lastBlock, blockNumber, .error (.fromU8 (← Read.u8))⟩
  | other => Read.errBack (.invalidTag other) 1

end DataBlockG

/-- A block of a SET or ACTION request, or of an ACTION response. -/
structure DataBlockSA where
  lastBlock : Bool
  blockNumber : UInt32
  rawData : Bytes
  deriving DecidableEq

namespace DataBlockSA

def encode (b : DataBlockSA) : Emit :=
  Emit.u8 b.lastBlock.toUInt8 ++ Emit.u32 b.blockNumber ++ Emit.lengthPrefixed b.rawData

def decode : Read DataBlockSA := do
  let lastBlock := (← Read.u8) != 0
  return ⟨lastBlock, ← Read.u32, ← Read.lengthPrefixed⟩

end DataBlockSA

/-! ## Lists -/

/-- A list whose elements are still encoded (`List` of the source). -/
structure WireList where
  count : Nat
  raw : Bytes
  base : Nat
  deriving Repr, DecidableEq

namespace WireList

/-- The elements. Each is decoded where the one before it ended, well or not. -/
def iterFrom {α : Type} (decode : Read α) : Nat → Reader → List (Result α)
  | 0, _ => []
  | n + 1, r => (decode r).1 :: iterFrom decode n (decode r).2

/-- `iter`. -/
def iter {α : Type} (decode : Read α) (l : WireList) : List (Result α) :=
  iterFrom decode l.count (Reader.withBase l.raw l.base)

/-- `from_raw`. -/
def fromRaw (count : Nat) (raw : Bytes) : WireList := ⟨count, raw, 0⟩

/-- Decode the elements to find where the list ends. -/
def decodeOf {α : Type} (decode : Read α) : Read WireList := do
  let count ← Read.length
  let base ← Read.offset
  let used ← Read.probe (Prog.times count (do let _ ← decode))
  let raw ← Read.take used
  return { count, raw, base }

def encode (l : WireList) : Emit := Emit.length l.count ++ Emit.bytes l.raw

end WireList

end Dlms
