import DlmsCosem.Acse.Apdu
import DlmsCosem.Xdlms.Access
import DlmsCosem.Xdlms.Service
import DlmsCosem.Xdlms.Tag

/-!
# APDUs

The wrappers that ciphering puts around an APDU, the block of a general block transfer, and
`Apdu`: any message of an association. All but the ACSE messages are a tag and a body.
-/

namespace Dlms

/-! ## Ciphered bodies -/

/-- The security control byte: the suite and how the APDU is protected. -/
structure SecurityControl where
  val : UInt8
  deriving Repr, DecidableEq

namespace SecurityControl

/-- `new`. -/
def new (suite : UInt8) (authenticated encrypted : Bool) : SecurityControl :=
  let v := suite &&& 0x0F
  let v := if authenticated then v ||| 0x10 else v
  let v := if encrypted then v ||| 0x20 else v
  ⟨v⟩

/-- With the bit that names the broadcast key set or cleared. -/
def withBroadcast (c : SecurityControl) (broadcast : Bool) : SecurityControl :=
  ⟨if broadcast then c.val ||| 0x40 else c.val &&& ~~~0x40⟩

def suite (c : SecurityControl) : UInt8 := c.val &&& 0x0F

def authenticated (c : SecurityControl) : Bool := c.val &&& 0x10 != 0

def encrypted (c : SecurityControl) : Bool := c.val &&& 0x20 != 0

def broadcastKey (c : SecurityControl) : Bool := c.val &&& 0x40 != 0

def compressed (c : SecurityControl) : Bool := c.val &&& 0x80 != 0

/-- Neither authenticated nor encrypted. -/
def isPlain (c : SecurityControl) : Bool := !c.authenticated && !c.encrypted

end SecurityControl

/-- What stands after the tag of a ciphered APDU. -/
structure CipheredService where
  securityControl : SecurityControl
  invocationCounter : UInt32
  payload : Bytes
  deriving Repr, DecidableEq

namespace CipheredService

def encode (s : CipheredService) : Emit :=
  Emit.length (5 + s.payload.length) ++ Emit.u8 s.securityControl.val ++
  Emit.u32 s.invocationCounter ++ Emit.bytes s.payload

/-- The fields inside the length. -/
def decodeBody : Read CipheredService := do
  return ⟨⟨← Read.u8⟩, ← Read.u32, ← Read.takeRest⟩

def decode : Read CipheredService := do
  let body ← Read.lengthPrefixed
  let offset ← Read.offset
  Prog.ofExcept (decodeBody (Reader.withBase body (offset - body.length))).1

end CipheredService

/-- A ciphered APDU that names its sender. -/
structure GeneralGloCiphering where
  systemTitle : Bytes
  ciphered : CipheredService
  deriving Repr, DecidableEq

namespace GeneralGloCiphering

def encode (g : GeneralGloCiphering) : Emit :=
  Emit.lengthPrefixed g.systemTitle ++ g.ciphered.encode

def decode : Read GeneralGloCiphering := do
  return ⟨← Read.lengthPrefixed, ← CipheredService.decode⟩

end GeneralGloCiphering

/-- Which key a general-ciphering APDU is under. -/
inductive KeyInfo
  | identified (keyId : UInt8)
  | wrapped (kekId : UInt8) (cipheredKey : Bytes)
  | agreed (parameters : Bytes) (cipheredKey : Bytes)
  deriving Repr, DecidableEq

namespace KeyInfo

def encode : KeyInfo → Emit
  | identified k => Emit.bytes [0, k]
  | wrapped k key => Emit.bytes [1, k] ++ Emit.lengthPrefixed key
  | agreed p key => Emit.u8 2 ++ Emit.lengthPrefixed p ++ Emit.lengthPrefixed key

def decode : Read KeyInfo := do
  match ← Read.u8 with
  | 0 => return identified (← Read.u8)
  | 1 => return wrapped (← Read.u8) (← Read.lengthPrefixed)
  | 2 => return agreed (← Read.lengthPrefixed) (← Read.lengthPrefixed)
  | other => Read.errBack (.invalidTag other) 1

end KeyInfo

/-- A ciphered APDU with a header that says who sent it to whom and under which key. -/
structure GeneralCiphering where
  transactionId : Bytes
  originatorSystemTitle : Bytes
  recipientSystemTitle : Bytes
  dateTime : Bytes
  otherInformation : Bytes
  keyInfo : Option KeyInfo
  ciphered : CipheredService
  deriving Repr, DecidableEq

namespace GeneralCiphering

def encode (g : GeneralCiphering) : Emit :=
  Emit.lengthPrefixed g.transactionId ++ Emit.lengthPrefixed g.originatorSystemTitle ++
  Emit.lengthPrefixed g.recipientSystemTitle ++ Emit.lengthPrefixed g.dateTime ++
  Emit.lengthPrefixed g.otherInformation ++ encodeOptional KeyInfo.encode g.keyInfo ++
  g.ciphered.encode

def decode : Read GeneralCiphering := do
  return ⟨← Read.lengthPrefixed, ← Read.lengthPrefixed, ← Read.lengthPrefixed,
    ← Read.lengthPrefixed, ← Read.lengthPrefixed, ← decodeOptional KeyInfo.decode,
    ← CipheredService.decode⟩

end GeneralCiphering

/-- A signed APDU. -/
structure GeneralSigning where
  transactionId : Bytes
  originatorSystemTitle : Bytes
  recipientSystemTitle : Bytes
  dateTime : Bytes
  otherInformation : Bytes
  content : Bytes
  signature : Bytes
  deriving Repr, DecidableEq

namespace GeneralSigning

def encode (g : GeneralSigning) : Emit :=
  Emit.lengthPrefixed g.transactionId ++ Emit.lengthPrefixed g.originatorSystemTitle ++
  Emit.lengthPrefixed g.recipientSystemTitle ++ Emit.lengthPrefixed g.dateTime ++
  Emit.lengthPrefixed g.otherInformation ++ Emit.lengthPrefixed g.content ++
  Emit.lengthPrefixed g.signature

def decode : Read GeneralSigning := do
  return ⟨← Read.lengthPrefixed, ← Read.lengthPrefixed, ← Read.lengthPrefixed,
    ← Read.lengthPrefixed, ← Read.lengthPrefixed, ← Read.lengthPrefixed, ← Read.lengthPrefixed⟩

end GeneralSigning

/-- A block of a general block transfer. -/
structure GeneralBlockTransfer where
  control : UInt8
  blockNumber : UInt16
  blockNumberAck : UInt16
  blockData : Bytes
  deriving Repr, DecidableEq

namespace GeneralBlockTransfer

def encode (g : GeneralBlockTransfer) : Emit :=
  Emit.u8 g.control ++ Emit.u16 g.blockNumber ++ Emit.u16 g.blockNumberAck ++
  Emit.lengthPrefixed g.blockData

def decode : Read GeneralBlockTransfer := do
  return ⟨← Read.u8, ← Read.u16, ← Read.u16, ← Read.lengthPrefixed⟩

end GeneralBlockTransfer

/-! ## Any APDU -/

/-- A message of an association. -/
inductive Apdu
  | aarq (v : Aarq)
  | aare (v : Aare)
  | rlrq (v : Rlrq)
  | rlre (v : Rlre)
  | initiateRequest (v : InitiateRequest)
  | initiateResponse (v : InitiateResponse)
  | getRequest (v : GetRequest)
  | getResponse (v : GetResponse)
  | setRequest (v : SetRequest)
  | setResponse (v : SetResponse)
  | actionRequest (v : ActionRequest)
  | actionResponse (v : ActionResponse)
  | accessRequest (v : AccessRequest)
  | accessResponse (v : AccessResponse)
  | dataNotification (v : DataNotification)
  | eventNotification (v : EventNotification)
  | readRequest (v : ReadRequest)
  | readResponse (v : ReadResponse)
  | writeRequest (v : WriteRequest)
  | writeResponse (v : WriteResponse)
  | unconfirmedWriteRequest (v : WriteRequest)
  | informationReportRequest (v : InformationReportRequest)
  | exceptionResponse (v : ExceptionResponse)
  | confirmedServiceError (v : ConfirmedServiceError)
  | generalBlockTransfer (v : GeneralBlockTransfer)
  | ciphered (protection : Protection) (service : ApduTag) (body : CipheredService)
  | generalCiphered (protection : Protection) (body : GeneralGloCiphering)
  | generalCiphering (v : GeneralCiphering)
  | generalSigning (v : GeneralSigning)
  | gateway (response : Bool) (networkId : UInt8) (physicalDeviceAddress : Bytes) (payload : Bytes)
  deriving DecidableEq

namespace Apdu

/-- The tag the APDU is written under. -/
def tag : Apdu → ApduTag
  | aarq _ => .aarq
  | aare _ => .aare
  | rlrq _ => .releaseRequest
  | rlre _ => .releaseResponse
  | initiateRequest _ => .initiateRequest
  | initiateResponse _ => .initiateResponse
  | getRequest _ => .getRequest
  | getResponse _ => .getResponse
  | setRequest _ => .setRequest
  | setResponse _ => .setResponse
  | actionRequest _ => .actionRequest
  | actionResponse _ => .actionResponse
  | accessRequest _ => .accessRequest
  | accessResponse _ => .accessResponse
  | dataNotification _ => .dataNotification
  | eventNotification _ => .eventNotificationRequest
  | readRequest _ => .readRequest
  | readResponse _ => .readResponse
  | writeRequest _ => .writeRequest
  | writeResponse _ => .writeResponse
  | unconfirmedWriteRequest _ => .unconfirmedWriteRequest
  | informationReportRequest _ => .informationReportRequest
  | exceptionResponse _ => .exceptionResponse
  | confirmedServiceError _ => .confirmedServiceError
  | generalBlockTransfer _ => .generalBlockTransfer
  | ciphered protection service _ => (service.protectedAs protection).getD service
  | generalCiphered .dedicated _ => .generalDedCiphering
  | generalCiphered _ _ => .generalGloCiphering
  | generalCiphering _ => .generalCiphering
  | generalSigning _ => .generalSigning
  | gateway true _ _ _ => .gatewayResponse
  | gateway false _ _ _ => .gatewayRequest

/-- What stands after the tag. The ACSE APDUs write their own tag. -/
def body : Apdu → Emit
  | aarq _ | aare _ | rlrq _ | rlre _ => Emit.fail .invalidValue
  | initiateRequest v => v.encode
  | initiateResponse v => v.encode
  | getRequest v => v.encode
  | getResponse v => v.encode
  | setRequest v => v.encode
  | setResponse v => v.encode
  | actionRequest v => v.encode
  | actionResponse v => v.encode
  | accessRequest v => v.encode
  | accessResponse v => v.encode
  | dataNotification v => v.encode
  | eventNotification v => v.encode
  | readRequest v => v.encode
  | readResponse v => v.encode
  | writeRequest v => v.encode
  | writeResponse v => v.encode
  | unconfirmedWriteRequest v => v.encode
  | informationReportRequest v => v.encode
  | exceptionResponse v => v.encode
  | confirmedServiceError v => v.encode
  | generalBlockTransfer v => v.encode
  | ciphered _ _ body => body.encode
  | generalCiphered _ body => body.encode
  | generalCiphering v => v.encode
  | generalSigning v => v.encode
  | gateway _ networkId address payload =>
    Emit.u8 networkId ++ Emit.lengthPrefixed address ++ Emit.bytes payload

def encode : Apdu → Emit
  | aarq v => v.encode
  | aare v => v.encode
  | rlrq v => Rlrq.encode v
  | rlre v => Rlre.encode v
  | ciphered protection service body =>
    match service.protectedAs protection with
    | none => Emit.fail .invalidValue
    | some t => Emit.u8 t.asU8 ++ body.encode
  | a => Emit.u8 a.tag.asU8 ++ a.body

/-- The body under a plain tag, which has been read. -/
def decodePlain (tag : ApduTag) : Read Apdu :=
  match tag with
  | .initiateRequest => do return initiateRequest (← InitiateRequest.decode)
  | .initiateResponse => do return initiateResponse (← InitiateResponse.decode)
  | .getRequest => do return getRequest (← GetRequest.decode)
  | .getResponse => do return getResponse (← GetResponse.decode)
  | .setRequest => do return setRequest (← SetRequest.decode)
  | .setResponse => do return setResponse (← SetResponse.decode)
  | .actionRequest => do return actionRequest (← ActionRequest.decode)
  | .actionResponse => do return actionResponse (← ActionResponse.decode)
  | .accessRequest => do return accessRequest (← AccessRequest.decode)
  | .accessResponse => do return accessResponse (← AccessResponse.decode)
  | .dataNotification => do return dataNotification (← DataNotification.decode)
  | .eventNotificationRequest => do return eventNotification (← EventNotification.decode)
  | .readRequest => do return readRequest (← ReadRequest.decode)
  | .readResponse => do return readResponse (← ReadResponse.decode)
  | .writeRequest => do return writeRequest (← WriteRequest.decode)
  | .writeResponse => do return writeResponse (← WriteResponse.decode)
  | .unconfirmedWriteRequest => do return unconfirmedWriteRequest (← WriteRequest.decode)
  | .informationReportRequest => do return informationReportRequest (← InformationReportRequest.decode)
  | .exceptionResponse => do return exceptionResponse (← ExceptionResponse.decode)
  | .confirmedServiceError => do return confirmedServiceError (← ConfirmedServiceError.decode)
  | .generalBlockTransfer => do return generalBlockTransfer (← GeneralBlockTransfer.decode)
  | .generalGloCiphering => do return generalCiphered .global (← GeneralGloCiphering.decode)
  | .generalDedCiphering => do return generalCiphered .dedicated (← GeneralGloCiphering.decode)
  | .generalCiphering => do return generalCiphering (← GeneralCiphering.decode)
  | .generalSigning => do return generalSigning (← GeneralSigning.decode)
  | .gatewayRequest => do return gateway false (← Read.u8) (← Read.lengthPrefixed) (← Read.takeRest)
  | .gatewayResponse => do return gateway true (← Read.u8) (← Read.lengthPrefixed) (← Read.takeRest)
  | _ => Read.errBack (.invalidTag tag.asU8) 1

def decode : Read Apdu := do
  let tagByte ← Read.peekU8
  match ApduTag.fromU8 tagByte with
  | none => Read.fail (.invalidTag tagByte)
  | some .aarq => return aarq (← Aarq.decode)
  | some .aare => return aare (← Aare.decode)
  | some .releaseRequest => return rlrq (← Rlrq.decode)
  | some .releaseResponse => return rlre (← Rlre.decode)
  | some tag => do
    Read.skip 1
    match tag.unprotect with
    | some (protection, service) => return ciphered protection service (← CipheredService.decode)
    | none => decodePlain tag

/-- `Apdu::from_bytes`. -/
def fromBytes (bytes : Bytes) : Result Apdu := Read.fromBytes decode bytes

end Apdu

end Dlms
