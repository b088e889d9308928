import DlmsCosem.Codec.Writer

/-!
# APDU tags

The first byte of every xDLMS APDU. A service that has a ciphered form has one for the global key
and one for the dedicated key, each at a fixed distance from the plain tag.
-/

namespace Dlms

/-- The tags. -/
inductive ApduTag
  | initiateRequest | readRequest | writeRequest | initiateResponse | readResponse
  | writeResponse | confirmedServiceError | dataNotification | unconfirmedWriteRequest
  | informationReportRequest | gloInitiateRequest | gloReadRequest | gloWriteRequest
  | gloInitiateResponse | gloReadResponse | gloWriteResponse | gloConfirmedServiceError
  | gloUnconfirmedWriteRequest | gloInformationReport | dedInitiateRequest | dedReadRequest
  | dedWriteRequest | dedInitiateResponse | dedReadResponse | dedWriteResponse
  | dedConfirmedServiceError | dedUnconfirmedWriteRequest | dedInformationReport | aarq | aare
  | releaseRequest | releaseResponse | getRequest | setRequest | eventNotificationRequest
  | actionRequest | getResponse | setResponse | actionResponse | gloGetRequest | gloSetRequest
  | gloEventNotification | gloActionRequest | gloGetResponse | gloSetResponse | gloActionResponse
  | dedGetRequest | dedSetRequest | dedEventNotification | dedActionRequest | dedGetResponse
  | dedSetResponse | dedActionResponse | exceptionResponse | accessRequest | accessResponse
  | generalGloCiphering | generalDedCiphering | generalCiphering | generalSigning
  | generalBlockTransfer | gatewayRequest | gatewayResponse | pingRequest | pingResponse
  | registerRequest | discoverRequest | discoverReport | repeatCallRequest
  deriving Repr, DecidableEq

/-- Which key an APDU is ciphered under. -/
inductive Protection
  | none
  | global
  | dedicated
  deriving Repr, DecidableEq

namespace ApduTag

/-- From the wire. -/
def fromU8 : UInt8 → Option ApduTag
  | 0x01 => some initiateRequest
  | 0x05 => some readRequest
  | 0x06 => some writeRequest
  | 0x08 => some initiateResponse
  | 0x0C => some readResponse
  | 0x0D => some writeResponse
  | 0x0E => some confirmedServiceError
  | 0x0F => some dataNotification
  | 0x16 => some unconfirmedWriteRequest
  | 0x18 => some informationReportRequest
  | 0x19 => some pingRequest
  | 0x1A => some pingResponse
  | 0x1C => some registerRequest
  | 0x1D => some discoverRequest
  | 0x1E => some discoverReport
  | 0x1F => some repeatCallRequest
  | 0x21 => some gloInitiateRequest
  | 0x25 => some gloReadRequest
  | 0x26 => some gloWriteRequest
  | 0x28 => some gloInitiateResponse
  | 0x2C => some gloReadResponse
  | 0x2D => some gloWriteResponse
  | 0x2E => some gloConfirmedServiceError
  | 0x36 => some gloUnconfirmedWriteRequest
  | 0x38 => some gloInformationReport
  | 0x41 => some dedInitiateRequest
  | 0x45 => some dedReadRequest
  | 0x46 => some dedWriteRequest
  | 0x48 => some dedInitiateResponse
  | 0x4C => some dedReadResponse
  | 0x4D => some dedWriteResponse
  | 0x4E => some dedConfirmedServiceError
  | 0x56 => some dedUnconfirmedWriteRequest
  | 0x58 => some dedInformationReport
  | 0x60 => some aarq
  | 0x61 => some aare
  | 0x62 => some releaseRequest
  | 0x63 => some releaseResponse
  | 0xC0 => some getRequest
  | 0xC1 => some setRequest
  | 0xC2 => some eventNotificationRequest
  | 0xC3 => some actionRequest
  | 0xC4 => some getResponse
  | 0xC5 => some setResponse
  | 0xC7 => some actionResponse
  | 0xC8 => some gloGetRequest
  | 0xC9 => some gloSetRequest
  | 0xCA => some gloEventNotification
  | 0xCB => some gloActionRequest
  | 0xCC => some gloGetResponse
  | 0xCD => some gloSetResponse
  | 0xCF => some gloActionResponse
  | 0xD0 => some dedGetRequest
  | 0xD1 => some dedSetRequest
  | 0xD2 => some dedEventNotification
  | 0xD3 => some dedActionRequest
  | 0xD4 => some dedGetResponse
  | 0xD5 => some dedSetResponse
  | 0xD7 => some dedActionResponse
  | 0xD8 => some exceptionResponse
  | 0xD9 => some accessRequest
  | 0xDA => some accessResponse
  | 0xDB => some generalGloCiphering
  | 0xDC => some generalDedCiphering
  | 0xDD => some generalCiphering
  | 0xDF => some generalSigning
  | 0xE0 => some generalBlockTransfer
  | 0xE6 => some gatewayRequest
  | 0xE7 => some gatewayResponse
  | _ => none

/-- On the wire. -/
def asU8 : ApduTag → UInt8
  | initiateRequest => 0x01
  | readRequest => 0x05
  | writeRequest => 0x06
  | initiateResponse => 0x08
  | readResponse => 0x0C
  | writeResponse => 0x0D
  | confirmedServiceError => 0x0E
  | dataNotification => 0x0F
  | unconfirmedWriteRequest => 0x16
  | informationReportRequest => 0x18
  | gloInitiateRequest => 0x21
  | gloReadRequest => 0x25
  | gloWriteRequest => 0x26
  | gloInitiateResponse => 0x28
  | gloReadResponse => 0x2C
  | gloWriteResponse => 0x2D
  | gloConfirmedServiceError => 0x2E
  | gloUnconfirmedWriteRequest => 0x36
  | gloInformationReport => 0x38
  | dedInitiateRequest => 0x41
  | dedReadRequest => 0x45
  | dedWriteRequest => 0x46
  | dedInitiateResponse => 0x48
  | dedReadResponse => 0x4C
  | dedWriteResponse => 0x4D
  | dedConfirmedServiceError => 0x4E
  | dedUnconfirmedWriteRequest => 0x56
  | dedInformationReport => 0x58
  | aarq => 0x60
  | aare => 0x61
  | releaseRequest => 0x62
  | releaseResponse => 0x63
  | getRequest => 0xC0
  | setRequest => 0xC1
  | eventNotificationRequest => 0xC2
  | actionRequest => 0xC3
  | getResponse => 0xC4
  | setResponse => 0xC5
  | actionResponse => 0xC7
  | gloGetRequest => 0xC8
  | gloSetRequest => 0xC9
  | gloEventNotification => 0xCA
  | gloActionRequest => 0xCB
  | gloGetResponse => 0xCC
  | gloSetResponse => 0xCD
  | gloActionResponse => 0xCF
  | dedGetRequest => 0xD0
  | dedSetRequest => 0xD1
  | dedEventNotification => 0xD2
  | dedActionRequest => 0xD3
  | dedGetResponse => 0xD4
  | dedSetResponse => 0xD5
  | dedActionResponse => 0xD7
  | exceptionResponse => 0xD8
  | accessRequest => 0xD9
  | accessResponse => 0xDA
  | generalGloCiphering => 0xDB
  | generalDedCiphering => 0xDC
  | generalCiphering => 0xDD
  | generalSigning => 0xDF
  | generalBlockTransfer => 0xE0
  | gatewayRequest => 0xE6
  | gatewayResponse => 0xE7
  | pingRequest => 0x19
  | pingResponse => 0x1A
  | registerRequest => 0x1C
  | discoverRequest => 0x1D
  | discoverReport => 0x1E
  | repeatCallRequest => 0x1F

/-- What a ciphered tag is the ciphered form of. -/
def unprotect (t : ApduTag) : Option (Protection × ApduTag) :=
  let v := t.asU8
  let found : Option (Protection × UInt8) :=
    if v ∈ [0x21, 0x25, 0x26, 0x28, 0x2C, 0x2D, 0x2E, 0x36, 0x38] then some (.global, v - 0x20)
    else if v ∈ [0x41, 0x45, 0x46, 0x48, 0x4C, 0x4D, 0x4E, 0x56, 0x58] then some (.dedicated, v - 0x40)
    else if 0xC8 ≤ v ∧ v ≤ 0xCF then some (.global, v - 0x08)
    else if 0xD0 ≤ v ∧ v ≤ 0xD7 then some (.dedicated, v - 0x10)
    else Option.none
  found.bind fun (protection, plain) => (fromU8 plain).map fun p => (protection, p)

/-- The plain tags below `0x20` that have ciphered forms. -/
def shortPlain : List UInt8 := [0x01, 0x05, 0x06, 0x08, 0x0C, 0x0D, 0x0E, 0x16, 0x18]

/-- The ciphered form of a plain tag. -/
def protectedAs (t : ApduTag) (protection : Protection) : Option ApduTag :=
  let v := t.asU8
  match protection with
  | .none => fromU8 v
  | .global =>
    if v ∈ shortPlain then fromU8 (v + 0x20)
    else if 0xC0 ≤ v ∧ v ≤ 0xC7 then fromU8 (v + 0x08)
    else Option.none
  | .dedicated =>
    if v ∈ shortPlain then fromU8 (v + 0x40)
    else if 0xC0 ≤ v ∧ v ≤ 0xC7 then fromU8 (v + 0x10)
    else Option.none

@[simp] theorem fromU8_asU8 (t : ApduTag) : fromU8 t.asU8 = some t := by
  cases t <;> rfl

theorem asU8_of_fromU8 {v : UInt8} {t : ApduTag} (h : fromU8 v = some t) : t.asU8 = v := by
  unfold fromU8 at h
  split at h <;> simp_all only [Option.some.injEq, reduceCtorEq] <;> subst h <;> rfl

theorem head_of_fromU8 {apdu : Bytes} {tag : ApduTag} (h : fromU8 (apdu.headD 0) = some tag) :
    apdu.head? = some tag.asU8 := by
  have ht := asU8_of_fromU8 h
  cases apdu with
  | nil => exact absurd h (by decide +revert)
  | cons b bs => rw [ht]; rfl

theorem asU8_injective {s t : ApduTag} (h : s.asU8 = t.asU8) : s = t := by
  have := congrArg fromU8 h
  rwa [fromU8_asU8, fromU8_asU8, Option.some.injEq] at this

/-- A ciphered form leads back to its plain tag. -/
theorem unprotect_protectedAs {t c : ApduTag} {protection : Protection} (hp : protection ≠ .none)
    (h : t.protectedAs protection = some c) : c.unprotect = some (protection, t) := by
  cases protection with
  | none => contradiction
  | global => cases t <;> cases h <;> rfl
  | dedicated => cases t <;> cases h <;> rfl

end ApduTag

end Dlms
