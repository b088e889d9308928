import DlmsCosem.Codec.Writer
import Mathlib.Data.BitVec

/-!
# Initiate messages and errors

What the two ends agree on when an association opens: the conformance block, which has a bit for
each service, and the largest APDU each will take. And the two APDUs that refuse a request.
-/

namespace Dlms

/-- A value that may be missing: a presence byte and the value. -/
def encodeOptional {α : Type} (encode : α → Emit) : Option α → Emit
  | none => Emit.u8 0
  | some v => Emit.u8 1 ++ encode v

/-- A value that may be missing. Any presence byte but `0` says that it is there. -/
def decodeOptional {α : Type} (decode : Read α) : Read (Option α) := do
  if (← Read.u8) == 0 then
    return none
  else
    return some (← decode)

/-! ## Conformance -/

/-- The conformance block: bit 0 of the standard is bit 0 here. -/
structure Conformance where
  bits : BitVec 24
  deriving Repr, DecidableEq

namespace Conformance

/-- One bit. -/
def bit (n : Nat) : Conformance := ⟨1#24 <<< n⟩

def generalProtection : Conformance := bit 1
def read : Conformance := bit 3
def write : Conformance := bit 4
def unconfirmedWrite : Conformance := bit 5
def attribute0SupportedWithGet : Conformance := bit 10
def priorityMgmtSupported : Conformance := bit 9
def blockTransferWithGetOrRead : Conformance := bit 11
def blockTransferWithSetOrWrite : Conformance := bit 12
def blockTransferWithAction : Conformance := bit 13
def multipleReferences : Conformance := bit 14
def dataNotification : Conformance := bit 16
def access : Conformance := bit 17
def get : Conformance := bit 19
def set : Conformance := bit 20
def selectiveAccess : Conformance := bit 21
def eventNotification : Conformance := bit 22
def action : Conformance := bit 23

def empty : Conformance := ⟨0⟩

/-- Both. -/
def union (a b : Conformance) : Conformance := ⟨a.bits ||| b.bits⟩

instance : OrOp Conformance := ⟨union⟩

/-- `contains`. -/
def contains (c required : Conformance) : Bool := c.bits &&& required.bits == required.bits

/-- What both ends offer. -/
def negotiate (a b : Conformance) : Conformance := ⟨a.bits &&& b.bits⟩

/-- Refuse an operation that was not negotiated. -/
def require (c required : Conformance) : Result Unit :=
  if c.contains required then .ok () else Error.fail .unexpectedMessage 0

def clientDefault : Conformance :=
  access ||| generalProtection ||| get ||| set ||| action ||| selectiveAccess |||
    multipleReferences ||| blockTransferWithGetOrRead ||| blockTransferWithSetOrWrite |||
    blockTransferWithAction ||| attribute0SupportedWithGet ||| priorityMgmtSupported |||
    eventNotification ||| dataNotification

def serverDefault : Conformance :=
  get ||| set ||| action ||| selectiveAccess ||| multipleReferences |||
    blockTransferWithGetOrRead ||| blockTransferWithSetOrWrite ||| blockTransferWithAction |||
    attribute0SupportedWithGet ||| priorityMgmtSupported ||| access ||| generalProtection

/-- The three bytes: bit 0 is the most significant bit of the first. -/
def toBytes (c : Conformance) : Bytes := beBytes 3 c.bits.reverse.toNat

/-- `from_bytes`, of three bytes. -/
def fromBytes (b : Bytes) : Conformance := ⟨(BitVec.ofNat 24 (beNat b)).reverse⟩

/-- The form with its tag, as Initiate carries it. -/
def encodeTagged (c : Conformance) : Emit := Emit.bytes [0x5F, 0x1F, 0x04, 0x00] ++ Emit.bytes c.toBytes

def decodeTagged : Read Conformance := do
  let t0 ← Read.u8
  let t1 ← Read.u8
  if t0 != 0x5F || t1 != 0x1F then
    Read.errBack (.invalidTag t0) 2
  else
    let len ← Read.u8
    if len != 4 then
      Read.errBack .invalidLength 1
    else
      let unused ← Read.u8
      if unused != 0 then
        Read.errBack .invalidValue 1
      else
        return fromBytes (← Read.take 3)

@[simp] theorem contains_empty (c : Conformance) : c.contains empty = true := by
  simp [contains, empty]

/-- Nothing was proposed. -/
@[simp] theorem negotiate_empty (c : Conformance) : c.negotiate empty = empty :=
  congrArg mk BitVec.and_zero

/-- What was agreed was offered by both. -/
theorem negotiate_contains {a b c : Conformance} (h : (a.negotiate b).contains c = true) :
    a.contains c = true ∧ b.contains c = true := by
  simp only [contains, negotiate, beq_iff_eq] at *
  constructor
  · rw [← h]; ext i; simp; grind
  · rw [← h]; ext i; simp; grind

end Conformance

/-! ## Initiate -/

/-- The version of DLMS that is spoken. -/
def dlmsVersion : UInt8 := 6

/-- The VAA name of a logical-name association. -/
def vaaNameLn : UInt16 := 0x0007

/-- What the client proposes. -/
structure InitiateRequest where
  dedicatedKey : Option Bytes := none
  responseAllowed : Option Bool := none
  proposedQualityOfService : Option Int8 := none
  proposedDlmsVersion : UInt8 := dlmsVersion
  proposedConformance : Conformance := .clientDefault
  clientMaxReceivePduSize : UInt16 := 1024
  deriving DecidableEq

namespace InitiateRequest

def encode (q : InitiateRequest) : Emit :=
  encodeOptional Emit.lengthPrefixed q.dedicatedKey ++
  encodeOptional (fun v => Emit.u8 v.toUInt8) q.responseAllowed ++
  encodeOptional (fun v => Emit.u8 v.toUInt8) q.proposedQualityOfService ++
  Emit.u8 q.proposedDlmsVersion ++ q.proposedConformance.encodeTagged ++
  Emit.u16 q.clientMaxReceivePduSize

def decode : Read InitiateRequest := do
  let dedicatedKey ← decodeOptional Read.lengthPrefixed
  let responseAllowed ← decodeOptional (do return (← Read.u8) != 0)
  let proposedQualityOfService ← decodeOptional Read.i8
  let proposedDlmsVersion ← Read.u8
  let proposedConformance ← Conformance.decodeTagged
  let clientMaxReceivePduSize ← Read.u16
  return { dedicatedKey, responseAllowed, proposedQualityOfService, proposedDlmsVersion
           proposedConformance, clientMaxReceivePduSize }

end InitiateRequest

/-- What the server grants. -/
structure InitiateResponse where
  negotiatedQualityOfService : Option Int8 := none
  negotiatedDlmsVersion : UInt8 := dlmsVersion
  negotiatedConformance : Conformance := .empty
  serverMaxReceivePduSize : UInt16 := 1024
  vaaName : UInt16 := vaaNameLn
  deriving DecidableEq

namespace InitiateResponse

def encode (q : InitiateResponse) : Emit :=
  encodeOptional (fun v => Emit.u8 v.toUInt8) q.negotiatedQualityOfService ++
  Emit.u8 q.negotiatedDlmsVersion ++ q.negotiatedConformance.encodeTagged ++
  Emit.u16 q.serverMaxReceivePduSize ++ Emit.u16 q.vaaName

def decode : Read InitiateResponse := do
  let negotiatedQualityOfService ← decodeOptional Read.i8
  let negotiatedDlmsVersion ← Read.u8
  let negotiatedConformance ← Conformance.decodeTagged
  let serverMaxReceivePduSize ← Read.u16
  let vaaName ← Read.u16
  return { negotiatedQualityOfService, negotiatedDlmsVersion, negotiatedConformance
           serverMaxReceivePduSize, vaaName }

/-- Refuse another version. -/
def checkVersion (q : InitiateResponse) : Result Unit :=
  if q.negotiatedDlmsVersion == dlmsVersion then .ok () else Error.fail .unsupported 0

end InitiateResponse

/-! ## Errors of a service -/

/-- What was wrong with the state of the server. -/
inductive StateError
  | serviceNotAllowed
  | serviceUnknown
  | other (v : UInt8)
  deriving Repr, DecidableEq

namespace StateError

def fromU8 : UInt8 → StateError
  | 1 => serviceNotAllowed
  | 2 => serviceUnknown
  | v => other v

def asU8 : StateError → UInt8
  | serviceNotAllowed => 1
  | serviceUnknown => 2
  | other v => v

end StateError

/-- What was wrong with the request. -/
inductive ServiceError
  | operationNotPossible
  | serviceNotSupported
  | otherReason
  | pduTooLong
  | decipheringError
  | invocationCounterError
  | other (v : UInt8)
  deriving Repr, DecidableEq

namespace ServiceError

def fromU8 : UInt8 → ServiceError
  | 1 => operationNotPossible
  | 2 => serviceNotSupported
  | 3 => otherReason
  | 4 => pduTooLong
  | 5 => decipheringError
  | 6 => invocationCounterError
  | v => other v

def asU8 : ServiceError → UInt8
  | operationNotPossible => 1
  | serviceNotSupported => 2
  | otherReason => 3
  | pduTooLong => 4
  | decipheringError => 5
  | invocationCounterError => 6
  | other v => v

end ServiceError

/-- The server cannot serve a request at all. -/
structure ExceptionResponse where
  stateError : StateError
  serviceError : ServiceError
  expectedInvocationCounter : Option UInt32
  deriving Repr, DecidableEq

namespace ExceptionResponse

def encode (x : ExceptionResponse) : Emit :=
  Emit.u8 x.stateError.asU8 ++ Emit.u8 x.serviceError.asU8 ++
  match x.expectedInvocationCounter with
  | some ic => Emit.u32 ic
  | none => Emit.empty

def decode : Read ExceptionResponse := do
  let stateError := StateError.fromU8 (← Read.u8)
  let serviceError := ServiceError.fromU8 (← Read.u8)
  -- The counter stands only with the counter error, and not in the early editions.
  if serviceError == .invocationCounterError && 4 ≤ (← Read.remaining) then
    return ⟨stateError, serviceError, some (← Read.u32)⟩
  else
    return ⟨stateError, serviceError, none⟩

end ExceptionResponse

/-- The server refused a service. -/
structure ConfirmedServiceError where
  service : UInt8
  errorClass : UInt8
  errorCode : UInt8
  deriving Repr, DecidableEq

namespace ConfirmedServiceError

def encode (x : ConfirmedServiceError) : Emit := Emit.bytes [x.service, x.errorClass, x.errorCode]

def decode : Read ConfirmedServiceError := do
  return ⟨← Read.u8, ← Read.u8, ← Read.u8⟩

end ConfirmedServiceError

end Dlms
