import DlmsCosem.Xdlms.Descriptor

/-!
# ACCESS, short-name services and notifications

The remaining services: ACCESS does several operations of any kind in one request, the short-name
services name an attribute by sixteen bits, and a notification is what a server sends of its own.
-/

namespace Dlms

/-- A date and time that may be missing: an octet string of no or of twelve bytes. -/
structure OptionalDateTime where
  val : Option DateTime
  deriving DecidableEq

namespace OptionalDateTime

def encode (t : OptionalDateTime) : Emit :=
  match t.val with
  | none => Emit.length 0
  | some dt => Emit.lengthPrefixed dt.toBytes

def decode : Read OptionalDateTime := do
  let bytes ← Read.lengthPrefixed
  if bytes.length = 0 then return ⟨none⟩
  else if bytes.length = 12 then return ⟨some (.fromBytes bytes)⟩
  else Read.fail .invalidLength

end OptionalDateTime

/-! ## ACCESS -/

/-- How many operations the server takes in one ACCESS request. -/
def maxAccessItems : Nat := 64

/-- One operation of an ACCESS request. -/
inductive AccessRequestSpecification
  | get (d : AttributeDescriptor)
  | set (d : AttributeDescriptor)
  | action (d : MethodDescriptor)
  | getWithSelection (d : AttributeDescriptorWithSelection)
  | setWithSelection (d : AttributeDescriptorWithSelection)
  deriving DecidableEq

namespace AccessRequestSpecification

def encode : AccessRequestSpecification → Emit
  | get d => Emit.u8 1 ++ d.encode
  | set d => Emit.u8 2 ++ d.encode
  | action d => Emit.u8 3 ++ d.encode
  | getWithSelection d => Emit.u8 4 ++ d.encode
  | setWithSelection d => Emit.u8 5 ++ d.encode

def decode : Read AccessRequestSpecification := do
  match ← Read.u8 with
  | 1 => return get (← AttributeDescriptor.decode)
  | 2 => return set (← AttributeDescriptor.decode)
  | 3 => return action (← MethodDescriptor.decode)
  | 4 => return getWithSelection (← AttributeDescriptorWithSelection.decode)
  | 5 => return setWithSelection (← AttributeDescriptorWithSelection.decode)
  | other => Read.errBack (.invalidTag other) 1

end AccessRequestSpecification

/-- The result of one operation of an ACCESS request. -/
inductive AccessResponseSpecification
  | get (r : DataAccessResult)
  | set (r : DataAccessResult)
  | action (r : ActionResult)
  deriving DecidableEq

namespace AccessResponseSpecification

def encode : AccessResponseSpecification → Emit
  | get r => Emit.bytes [1, r.asU8]
  | set r => Emit.bytes [2, r.asU8]
  | action r => Emit.bytes [3, r.asU8]

def decode : Read AccessResponseSpecification := do
  match ← Read.u8 with
  | 1 => return get (← DataAccessResult.decode)
  | 2 => return set (← DataAccessResult.decode)
  | 3 => return action (← ActionResult.decode)
  | other => Read.errBack (.invalidTag other) 1

end AccessResponseSpecification

/-- An ACCESS request. -/
structure AccessRequest where
  longInvokeId : LongInvokeId
  dateTime : OptionalDateTime
  specification : WireList
  data : WireList
  deriving DecidableEq

namespace AccessRequest

def encode (q : AccessRequest) : Emit :=
  Emit.u32 q.longInvokeId.val ++ q.dateTime.encode ++ q.specification.encode ++ q.data.encode

def decode : Read AccessRequest := do
  return ⟨⟨← Read.u32⟩, ← OptionalDateTime.decode,
    ← WireList.decodeOf AccessRequestSpecification.decode, ← WireList.decodeOf Data.decode⟩

end AccessRequest

/-- An ACCESS response. -/
structure AccessResponse where
  longInvokeId : LongInvokeId
  dateTime : OptionalDateTime
  requestSpecification : Option WireList
  data : WireList
  responseSpecification : WireList
  deriving DecidableEq

namespace AccessResponse

def encode (q : AccessResponse) : Emit :=
  Emit.u32 q.longInvokeId.val ++ q.dateTime.encode ++
  encodeOptional WireList.encode q.requestSpecification ++ q.data.encode ++
  q.responseSpecification.encode

def decode : Read AccessResponse := do
  return ⟨⟨← Read.u32⟩, ← OptionalDateTime.decode,
    ← decodeOptional (WireList.decodeOf AccessRequestSpecification.decode),
    ← WireList.decodeOf Data.decode, ← WireList.decodeOf AccessResponseSpecification.decode⟩

end AccessResponse

/-! ## Short names -/

/-- A short name. -/
abbrev ObjectName := UInt16

/-- What a short-name request names. -/
inductive VariableAccess
  | variableName (name : ObjectName)
  | parameterized (name : ObjectName) (selector : UInt8) (parameter : Data)
  | blockNumber (n : UInt16)
  | readDataBlock (lastBlock : Bool) (blockNumber : UInt16) (rawData : Bytes)
  | writeDataBlock (lastBlock : Bool) (blockNumber : UInt16)
  deriving DecidableEq

namespace VariableAccess

/-- The name, for an access that has one. -/
def name : VariableAccess → Option ObjectName
  | variableName n | parameterized n _ _ => some n
  | _ => none

def encode : VariableAccess → Emit
  | variableName n => Emit.u8 2 ++ Emit.u16 n
  | parameterized n selector parameter =>
    Emit.u8 4 ++ Emit.u16 n ++ Emit.u8 selector ++ parameter.encode
  | blockNumber n => Emit.u8 5 ++ Emit.u16 n
  | readDataBlock last n raw =>
    Emit.u8 6 ++ Emit.u8 last.toUInt8 ++ Emit.u16 n ++ Emit.lengthPrefixed raw
  | writeDataBlock last n => Emit.u8 7 ++ Emit.u8 last.toUInt8 ++ Emit.u16 n

def decode : Read VariableAccess := do
  match ← Read.u8 with
  | 2 => return variableName (← Read.u16)
  | 4 => return parameterized (← Read.u16) (← Read.u8) (← Data.decode)
  | 5 => return blockNumber (← Read.u16)
  | 6 => return readDataBlock ((← Read.u8) != 0) (← Read.u16) (← Read.lengthPrefixed)
  | 7 => return writeDataBlock ((← Read.u8) != 0) (← Read.u16)
  | other => Read.errBack (.invalidTag other) 1

end VariableAccess

/-- A Read request. -/
structure ReadRequest where
  specification : WireList
  deriving DecidableEq

namespace ReadRequest

def encode (q : ReadRequest) : Emit := q.specification.encode

def decode : Read ReadRequest := do return ⟨← WireList.decodeOf VariableAccess.decode⟩

end ReadRequest

/-- One result of a Read request. -/
inductive ReadResult
  | data (d : Data)
  | error (e : DataAccessResult)
  | block (lastBlock : Bool) (blockNumber : UInt16) (rawData : Bytes)
  | blockNumber (n : UInt16)
  deriving DecidableEq

namespace ReadResult

def encode : ReadResult → Emit
  | data d => Emit.u8 0 ++ d.encode
  | error e => Emit.u8 1 ++ Emit.u8 e.asU8
  | block last n raw => Emit.u8 2 ++ Emit.u8 last.toUInt8 ++ Emit.u16 n ++ Emit.lengthPrefixed raw
  | blockNumber n => Emit.u8 3 ++ Emit.u16 n

def decode : Read ReadResult := do
  match ← Read.u8 with
  | 0 => return data (← Data.decode)
  | 1 => return error (.fromU8 (← Read.u8))
  | 2 => return block ((← Read.u8) != 0) (← Read.u16) (← Read.lengthPrefixed)
  | 3 => return blockNumber (← Read.u16)
  | other => Read.errBack (.invalidTag other) 1

end ReadResult

/-- A Read response. -/
structure ReadResponse where
  results : WireList
  deriving DecidableEq

namespace ReadResponse

def encode (q : ReadResponse) : Emit := q.results.encode

def decode : Read ReadResponse := do return ⟨← WireList.decodeOf ReadResult.decode⟩

end ReadResponse

/-- A Write request, and an unconfirmed one: they have the same fields. -/
structure WriteRequest where
  specification : WireList
  values : WireList
  deriving DecidableEq

namespace WriteRequest

def encode (q : WriteRequest) : Emit := q.specification.encode ++ q.values.encode

def decode : Read WriteRequest := do
  return ⟨← WireList.decodeOf VariableAccess.decode, ← WireList.decodeOf Data.decode⟩

end WriteRequest

/-- One result of a Write request. -/
inductive WriteResult
  | success
  | error (e : DataAccessResult)
  | blockNumber (n : UInt16)
  deriving DecidableEq

namespace WriteResult

def encode : WriteResult → Emit
  | success => Emit.u8 0
  | error e => Emit.u8 1 ++ Emit.u8 e.asU8
  | blockNumber n => Emit.u8 2 ++ Emit.u16 n

def decode : Read WriteResult := do
  match ← Read.u8 with
  | 0 => return success
  | 1 => return error (.fromU8 (← Read.u8))
  | 2 => return blockNumber (← Read.u16)
  | other => Read.errBack (.invalidTag other) 1

end WriteResult

/-- A Write response. -/
structure WriteResponse where
  results : WireList
  deriving DecidableEq

namespace WriteResponse

def encode (q : WriteResponse) : Emit := q.results.encode

def decode : Read WriteResponse := do return ⟨← WireList.decodeOf WriteResult.decode⟩

end WriteResponse

/-- What a server reports of its own, by short name. -/
structure InformationReportRequest where
  currentTime : Option Bytes
  specification : WireList
  values : WireList
  deriving DecidableEq

namespace InformationReportRequest

def encode (q : InformationReportRequest) : Emit :=
  encodeOptional Emit.lengthPrefixed q.currentTime ++ q.specification.encode ++ q.values.encode

def decode : Read InformationReportRequest := do
  return ⟨← decodeOptional Read.lengthPrefixed, ← WireList.decodeOf VariableAccess.decode,
    ← WireList.decodeOf Data.decode⟩

end InformationReportRequest

/-! ## Notifications -/

/-- A push. -/
structure DataNotification where
  longInvokeId : LongInvokeId
  dateTime : OptionalDateTime
  body : Data
  deriving DecidableEq

namespace DataNotification

def encode (q : DataNotification) : Emit :=
  Emit.u32 q.longInvokeId.val ++ q.dateTime.encode ++ q.body.encode

def decode : Read DataNotification := do
  return ⟨⟨← Read.u32⟩, ← OptionalDateTime.decode, ← Data.decode⟩

end DataNotification

/-- An event, by logical name. -/
structure EventNotification where
  time : Option DateTime
  descriptor : AttributeDescriptor
  value : Data
  deriving DecidableEq

namespace EventNotification

/-- `DateTimeOctets`: a date and time as an octet string. -/
def decodeTime : Read DateTime := do
  let bytes ← Read.lengthPrefixed
  if bytes.length = 12 then return .fromBytes bytes else Read.fail .invalidLength

def encode (q : EventNotification) : Emit :=
  encodeOptional (fun t => Emit.lengthPrefixed t.toBytes) q.time ++ q.descriptor.encode ++
  q.value.encode

def decode : Read EventNotification := do
  return ⟨← decodeOptional decodeTime, ← AttributeDescriptor.decode, ← Data.decode⟩

end EventNotification

end Dlms
