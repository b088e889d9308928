import DlmsCosem.Xdlms.Descriptor

/-!
# GET, SET and ACTION

The requests and responses of the logical-name services. Each starts with the number of its form
and the invoke id.
-/

namespace Dlms

/-- A GET request. -/
inductive GetRequest
  | normal (invokeId : InvokeId) (descriptor : AttributeDescriptor) (access : Option SelectiveAccess)
  | next (invokeId : InvokeId) (blockNumber : UInt32)
  | withList (invokeId : InvokeId) (list : WireList)
  deriving DecidableEq

namespace GetRequest

def encode : GetRequest → Emit
  | normal i d access =>
    Emit.u8 1 ++ i.encode ++ d.encode ++ encodeOptional SelectiveAccess.encode access
  | next i n => Emit.u8 2 ++ i.encode ++ Emit.u32 n
  | withList i list => Emit.u8 3 ++ i.encode ++ list.encode

def decode : Read GetRequest := do
  let choice ← Read.u8
  let i ← InvokeId.decode
  match choice with
  | 1 => return normal i (← AttributeDescriptor.decode) (← decodeOptional SelectiveAccess.decode)
  | 2 => return next i (← Read.u32)
  | 3 => return withList i (← WireList.decodeOf AttributeDescriptorWithSelection.decode)
  | other => Read.errBack (.invalidTag other) 2

end GetRequest

/-- A GET response. -/
inductive GetResponse
  | normal (invokeId : InvokeId) (result : GetDataResult)
  | withDataBlock (invokeId : InvokeId) (block : DataBlockG)
  | withList (invokeId : InvokeId) (results : WireList)
  deriving DecidableEq

namespace GetResponse

def encode : GetResponse → Emit
  | normal i r => Emit.u8 1 ++ i.encode ++ r.encode
  | withDataBlock i b => Emit.u8 2 ++ i.encode ++ b.encode
  | withList i rs => Emit.u8 3 ++ i.encode ++ rs.encode

def decode : Read GetResponse := do
  let choice ← Read.u8
  let i ← InvokeId.decode
  match choice with
  | 1 => return normal i (← GetDataResult.decode)
  | 2 => return withDataBlock i (← DataBlockG.decode)
  | 3 => return withList i (← WireList.decodeOf GetDataResult.decode)
  | other => Read.errBack (.invalidTag other) 2

end GetResponse

/-- A SET request. -/
inductive SetRequest
  | normal (invokeId : InvokeId) (descriptor : AttributeDescriptor)
      (access : Option SelectiveAccess) (value : Data)
  | withFirstDataBlock (invokeId : InvokeId) (descriptor : AttributeDescriptor)
      (access : Option SelectiveAccess) (block : DataBlockSA)
  | withDataBlock (invokeId : InvokeId) (block : DataBlockSA)
  | withList (invokeId : InvokeId) (descriptors : WireList) (values : WireList)
  | withListAndFirstDataBlock (invokeId : InvokeId) (descriptors : WireList) (block : DataBlockSA)
  deriving DecidableEq

namespace SetRequest

def encode : SetRequest → Emit
  | normal i d access v =>
    Emit.u8 1 ++ i.encode ++ d.encode ++ encodeOptional SelectiveAccess.encode access ++ v.encode
  | withFirstDataBlock i d access b =>
    Emit.u8 2 ++ i.encode ++ d.encode ++ encodeOptional SelectiveAccess.encode access ++ b.encode
  | withDataBlock i b => Emit.u8 3 ++ i.encode ++ b.encode
  | withList i ds vs => Emit.u8 4 ++ i.encode ++ ds.encode ++ vs.encode
  | withListAndFirstDataBlock i ds b => Emit.u8 5 ++ i.encode ++ ds.encode ++ b.encode

def decode : Read SetRequest := do
  let choice ← Read.u8
  let i ← InvokeId.decode
  match choice with
  | 1 =>
    return normal i (← AttributeDescriptor.decode) (← decodeOptional SelectiveAccess.decode)
      (← Data.decode)
  | 2 =>
    return withFirstDataBlock i (← AttributeDescriptor.decode)
      (← decodeOptional SelectiveAccess.decode) (← DataBlockSA.decode)
  | 3 => return withDataBlock i (← DataBlockSA.decode)
  | 4 =>
    return withList i (← WireList.decodeOf AttributeDescriptorWithSelection.decode)
      (← WireList.decodeOf Data.decode)
  | 5 =>
    return withListAndFirstDataBlock i
      (← WireList.decodeOf AttributeDescriptorWithSelection.decode) (← DataBlockSA.decode)
  | other => Read.errBack (.invalidTag other) 2

end SetRequest

/-- A SET response. -/
inductive SetResponse
  | normal (invokeId : InvokeId) (result : DataAccessResult)
  | dataBlock (invokeId : InvokeId) (blockNumber : UInt32)
  | lastDataBlock (invokeId : InvokeId) (result : DataAccessResult) (blockNumber : UInt32)
  | lastDataBlockWithList (invokeId : InvokeId) (results : WireList) (blockNumber : UInt32)
  | withList (invokeId : InvokeId) (results : WireList)
  deriving DecidableEq

namespace SetResponse

def encode : SetResponse → Emit
  | normal i r => Emit.u8 1 ++ i.encode ++ r.encode
  | dataBlock i n => Emit.u8 2 ++ i.encode ++ Emit.u32 n
  | lastDataBlock i r n => Emit.u8 3 ++ i.encode ++ r.encode ++ Emit.u32 n
  | lastDataBlockWithList i rs n => Emit.u8 4 ++ i.encode ++ rs.encode ++ Emit.u32 n
  | withList i rs => Emit.u8 5 ++ i.encode ++ rs.encode

def decode : Read SetResponse := do
  let choice ← Read.u8
  let i ← InvokeId.decode
  match choice with
  | 1 => return normal i (← DataAccessResult.decode)
  | 2 => return dataBlock i (← Read.u32)
  | 3 => return lastDataBlock i (← DataAccessResult.decode) (← Read.u32)
  | 4 => return lastDataBlockWithList i (← WireList.decodeOf DataAccessResult.decode) (← Read.u32)
  | 5 => return withList i (← WireList.decodeOf DataAccessResult.decode)
  | other => Read.errBack (.invalidTag other) 2

end SetResponse

/-- The result of a method and what it returned. -/
structure ActionResponseWithOptionalData where
  result : ActionResult
  returnParameters : Option GetDataResult
  deriving DecidableEq

namespace ActionResponseWithOptionalData

def encode (r : ActionResponseWithOptionalData) : Emit :=
  r.result.encode ++ encodeOptional GetDataResult.encode r.returnParameters

def decode : Read ActionResponseWithOptionalData := do
  return ⟨← ActionResult.decode, ← decodeOptional GetDataResult.decode⟩

end ActionResponseWithOptionalData

/-- An ACTION request. -/
inductive ActionRequest
  | normal (invokeId : InvokeId) (descriptor : MethodDescriptor) (parameters : Option Data)
  | nextPblock (invokeId : InvokeId) (blockNumber : UInt32)
  | withList (invokeId : InvokeId) (descriptors : WireList) (parameters : WireList)
  | withFirstPblock (invokeId : InvokeId) (descriptor : MethodDescriptor) (block : DataBlockSA)
  | withListAndFirstPblock (invokeId : InvokeId) (descriptors : WireList) (block : DataBlockSA)
  | withPblock (invokeId : InvokeId) (block : DataBlockSA)
  deriving DecidableEq

namespace ActionRequest

def encode : ActionRequest → Emit
  | normal i d p => Emit.u8 1 ++ i.encode ++ d.encode ++ encodeOptional Data.encode p
  | nextPblock i n => Emit.u8 2 ++ i.encode ++ Emit.u32 n
  | withList i ds ps => Emit.u8 3 ++ i.encode ++ ds.encode ++ ps.encode
  | withFirstPblock i d b => Emit.u8 4 ++ i.encode ++ d.encode ++ b.encode
  | withListAndFirstPblock i ds b => Emit.u8 5 ++ i.encode ++ ds.encode ++ b.encode
  | withPblock i b => Emit.u8 6 ++ i.encode ++ b.encode

def decode : Read ActionRequest := do
  let choice ← Read.u8
  let i ← InvokeId.decode
  match choice with
  | 1 => return normal i (← MethodDescriptor.decode) (← decodeOptional Data.decode)
  | 2 => return nextPblock i (← Read.u32)
  | 3 =>
    return withList i (← WireList.decodeOf MethodDescriptor.decode) (← WireList.decodeOf Data.decode)
  | 4 => return withFirstPblock i (← MethodDescriptor.decode) (← DataBlockSA.decode)
  | 5 =>
    return withListAndFirstPblock i (← WireList.decodeOf MethodDescriptor.decode)
      (← DataBlockSA.decode)
  | 6 => return withPblock i (← DataBlockSA.decode)
  | other => Read.errBack (.invalidTag other) 2

end ActionRequest

/-- An ACTION response. -/
inductive ActionResponse
  | normal (invokeId : InvokeId) (response : ActionResponseWithOptionalData)
  | withPblock (invokeId : InvokeId) (block : DataBlockSA)
  | withList (invokeId : InvokeId) (responses : WireList)
  | nextPblock (invokeId : InvokeId) (blockNumber : UInt32)
  deriving DecidableEq

namespace ActionResponse

def encode : ActionResponse → Emit
  | normal i r => Emit.u8 1 ++ i.encode ++ r.encode
  | withPblock i b => Emit.u8 2 ++ i.encode ++ b.encode
  | withList i rs => Emit.u8 3 ++ i.encode ++ rs.encode
  | nextPblock i n => Emit.u8 4 ++ i.encode ++ Emit.u32 n

def decode : Read ActionResponse := do
  let choice ← Read.u8
  let i ← InvokeId.decode
  match choice with
  | 1 => return normal i (← ActionResponseWithOptionalData.decode)
  | 2 => return withPblock i (← DataBlockSA.decode)
  | 3 => return withList i (← WireList.decodeOf ActionResponseWithOptionalData.decode)
  | 4 => return nextPblock i (← Read.u32)
  | other => Read.errBack (.invalidTag other) 2

end ActionResponse

end Dlms
