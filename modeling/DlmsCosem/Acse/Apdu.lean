import DlmsCosem.Codec.Ber

/-!
# ACSE: opening and releasing an association

The four association-control APDUs, their encoders and their decoders. A decoder walks the TLVs
of the APDU and fills a structure of defaults: each TLV whose context number it knows sets one
field, so of several with one number the last counts. A TLV it does not know is passed over.
-/

namespace Dlms

open Ber

/-- `2.16.756.5.8`, the object identifier that all DLMS names start with. -/
def oidPrefix : Bytes := [0x60, 0x85, 0x74, 0x05, 0x08]

/-- How objects are addressed in an association. -/
inductive Referencing
  | logicalName
  | shortName
  deriving Repr, DecidableEq

/-- Which naming and protection the association uses. -/
inductive ApplicationContext
  | logicalName
  | shortName
  | logicalNameCiphered
  | shortNameCiphered
  | other (arc : UInt8)
  deriving Repr, DecidableEq

namespace ApplicationContext

/-- The final arc of the object identifier. -/
def arc : ApplicationContext → UInt8
  | logicalName => 1
  | shortName => 2
  | logicalNameCiphered => 3
  | shortNameCiphered => 4
  | other v => v

/-- The context of a final arc. -/
def fromArc (v : UInt8) : ApplicationContext :=
  if v = 1 then logicalName
  else if v = 2 then shortName
  else if v = 3 then logicalNameCiphered
  else if v = 4 then shortNameCiphered
  else other v

/-- True when the association protects its APDUs. -/
def isCiphered : ApplicationContext → Bool
  | logicalNameCiphered | shortNameCiphered => true
  | _ => false

/-- True when objects are addressed by logical name. -/
def isLogicalName : ApplicationContext → Bool
  | logicalName | logicalNameCiphered => true
  | _ => false

/-- The context for a way of addressing, ciphered or not. -/
def forReferencing : Referencing → Bool → ApplicationContext
  | .logicalName, false => logicalName
  | .logicalName, true => logicalNameCiphered
  | .shortName, false => shortName
  | .shortName, true => shortNameCiphered

/-- How this context addresses objects. -/
def referencing (c : ApplicationContext) : Referencing :=
  if c.isLogicalName then .logicalName else .shortName

@[simp] theorem arc_fromArc (v : UInt8) : (fromArc v).arc = v := by
  unfold fromArc
  split_ifs <;> simp_all [arc]

end ApplicationContext

/-- How the client proves who it is. -/
inductive AuthMechanism
  | none
  | low
  | highManufacturer
  | highMd5
  | highSha1
  | highGmac
  | highSha256
  | highEcdsa
  | other (arc : UInt8)
  deriving Repr, DecidableEq

namespace AuthMechanism

/-- The final arc of the object identifier. -/
def arc : AuthMechanism → UInt8
  | none => 0
  | low => 1
  | highManufacturer => 2
  | highMd5 => 3
  | highSha1 => 4
  | highGmac => 5
  | highSha256 => 6
  | highEcdsa => 7
  | other v => v

/-- The mechanism of a final arc. -/
def fromArc (v : UInt8) : AuthMechanism :=
  if v = 0 then none
  else if v = 1 then low
  else if v = 2 then highManufacturer
  else if v = 3 then highMd5
  else if v = 4 then highSha1
  else if v = 5 then highGmac
  else if v = 6 then highSha256
  else if v = 7 then highEcdsa
  else other v

/-- True when the mechanism exchanges challenges in two more passes. -/
def isHighLevel : AuthMechanism → Bool
  | none | low => false
  | _ => true

@[simp] theorem arc_fromArc (v : UInt8) : (fromArc v).arc = v := by
  unfold fromArc
  split_ifs <;> simp_all [arc]

end AuthMechanism

/-- Whether the server accepted the association. -/
inductive AssociationResult
  | accepted
  | rejectedPermanent
  | rejectedTransient
  | other (v : UInt8)
  deriving Repr, DecidableEq

namespace AssociationResult

/-- From the wire. -/
def fromU8 (v : UInt8) : AssociationResult :=
  if v = 0 then accepted
  else if v = 1 then rejectedPermanent
  else if v = 2 then rejectedTransient
  else other v

/-- On the wire. -/
def asU8 : AssociationResult → UInt8
  | accepted => 0
  | rejectedPermanent => 1
  | rejectedTransient => 2
  | other v => v

@[simp] theorem asU8_fromU8 (v : UInt8) : (fromU8 v).asU8 = v := by
  unfold fromU8
  split_ifs <;> simp_all [asU8]

end AssociationResult

/-- The `acse-service-user` diagnostics. -/
inductive UserDiagnostic
  | null
  | noReasonGiven
  | applicationContextNameNotSupported
  | authenticationMechanismNameNotRecognised
  | authenticationMechanismNameRequired
  | authenticationFailure
  | authenticationRequired
  | other (v : UInt8)
  deriving Repr, DecidableEq

namespace UserDiagnostic

/-- From the wire. -/
def fromU8 (v : UInt8) : UserDiagnostic :=
  if v = 0 then null
  else if v = 1 then noReasonGiven
  else if v = 2 then applicationContextNameNotSupported
  else if v = 11 then authenticationMechanismNameNotRecognised
  else if v = 12 then authenticationMechanismNameRequired
  else if v = 13 then authenticationFailure
  else if v = 14 then authenticationRequired
  else other v

/-- On the wire. -/
def asU8 : UserDiagnostic → UInt8
  | null => 0
  | noReasonGiven => 1
  | applicationContextNameNotSupported => 2
  | authenticationMechanismNameNotRecognised => 11
  | authenticationMechanismNameRequired => 12
  | authenticationFailure => 13
  | authenticationRequired => 14
  | other v => v

@[simp] theorem asU8_fromU8 (v : UInt8) : (fromU8 v).asU8 = v := by
  unfold fromU8
  split_ifs <;> simp_all [asU8]

end UserDiagnostic

/-- Why the server answered as it did. -/
inductive Diagnostic
  | user (d : UserDiagnostic)
  | provider (v : UInt8)
  deriving Repr, DecidableEq

/-- Why an association is released. -/
inductive ReleaseReason
  | normal
  | urgent
  | userDefined
  | other (v : UInt8)
  deriving Repr, DecidableEq

namespace ReleaseReason

/-- From the wire. -/
def fromU8 (v : UInt8) : ReleaseReason :=
  if v = 0 then normal
  else if v = 1 then urgent
  else if v = 30 then userDefined
  else other v

/-- On the wire. -/
def asU8 : ReleaseReason → UInt8
  | normal => 0
  | urgent => 1
  | userDefined => 30
  | other v => v

@[simp] theorem asU8_fromU8 (v : UInt8) : (fromU8 v).asU8 = v := by
  unfold fromU8
  split_ifs <;> simp_all [asU8]

end ReleaseReason

/-! ## Object identifiers and octet strings -/

/-- `2.16.756.5.8.<branch>.<arc>` as BER contents. -/
def oid (branch arc : UInt8) : Bytes := oidPrefix ++ [branch, arc]

/-- The final arc of an object identifier that starts with the DLMS prefix. -/
def checkOidPrefix (value : Bytes) (offset : Nat) : Result UInt8 :=
  match value with
  | [a, b, c, d, e, _, arc] =>
    if [a, b, c, d, e] = oidPrefix then .ok arc else Error.fail .invalidValue offset
  | _ => Error.fail .invalidValue offset

/-- The final arc of an object identifier in an explicitly tagged container. -/
def oidArc (tlv : Tlv) : Result UInt8 := do
  let inner ← (readTlv tlv.reader).1
  if inner.tag != 0x06 then
    Error.fail (.invalidTag inner.tag) inner.offset
  else
    checkOidPrefix inner.value inner.offset

/-- The final arc of an implicitly tagged object identifier. -/
def implicitOidArc (tlv : Tlv) : Result UInt8 := checkOidPrefix tlv.value tlv.offset

/-- The contents of the TLV of tag `expected` in `tlv`, or of `tlv` itself when it is primitive. -/
def innerOctets (tlv : Tlv) (expected : UInt8) : Result Bytes :=
  if !tlv.isConstructed then .ok tlv.value
  else do
    let inner ← (readTlv tlv.reader).1
    if inner.tag != expected then
      Error.fail (.invalidTag inner.tag) inner.offset
    else
      return inner.value

/-- The `authentication` bit of an ACSE-requirements bit string. -/
def authenticationBit (value : Bytes) : Bool :=
  match value[1]? with
  | some b => b &&& 0x80 != 0
  | none => false

/-- An octet string in a constructed container. -/
def octets (container inner : UInt8) (value : Bytes) : Emit :=
  writeConstructed container (writeTlv inner value)

/-! ## AARQ -/

/-- The client's association request. -/
structure Aarq where
  applicationContext : Option ApplicationContext := none
  calledApTitle : Option Bytes := none
  callingApTitle : Option Bytes := none
  callingAeQualifier : Option Bytes := none
  senderAcseRequirements : Bool := false
  mechanismName : Option AuthMechanism := none
  callingAuthenticationValue : Option Bytes := none
  userInformation : Option Bytes := none
  deriving Repr, DecidableEq

namespace Aarq

/-- What stands inside the outer TLV. -/
def body (a : Aarq) : Emit :=
  opt a.applicationContext (fun c => writeConstructed 0xA1 (writeTlv 0x06 (oid 1 c.arc))) ++
  opt a.calledApTitle (octets 0xA2 0x04) ++
  opt a.callingApTitle (octets 0xA6 0x04) ++
  opt a.callingAeQualifier (octets 0xA7 0x04) ++
  (if a.senderAcseRequirements then writeTlv 0x8A [0x07, 0x80] else Emit.empty) ++
  opt a.mechanismName (fun m => writeTlv 0x8B (oid 2 m.arc)) ++
  opt a.callingAuthenticationValue (octets 0xAC 0x80) ++
  opt a.userInformation (octets 0xBE 0x04)

def encode (a : Aarq) : Emit := writeConstructed 0x60 a.body

/-- What one TLV of an AARQ sets. -/
def field (out : Aarq) (tlv : Tlv) : Result Aarq :=
  match tlv.contextNumber with
  | some 1 => do return { out with applicationContext := some (.fromArc (← oidArc tlv)) }
  | some 2 => do return { out with calledApTitle := some (← innerOctets tlv 0x04) }
  | some 6 => do return { out with callingApTitle := some (← innerOctets tlv 0x04) }
  | some 7 => do return { out with callingAeQualifier := some (← innerOctets tlv 0x04) }
  | some 10 => .ok { out with senderAcseRequirements := authenticationBit tlv.value }
  | some 11 => do return { out with mechanismName := some (.fromArc (← implicitOidArc tlv)) }
  | some 12 => do return { out with callingAuthenticationValue := some (← innerOctets tlv 0x80) }
  | some 30 => do return { out with userInformation := some (← innerOctets tlv 0x04) }
  | _ => .ok out

def decode : Read Aarq := do
  let outer ← readTlv
  if outer.tag != 0x60 then
    Prog.throw ⟨.invalidTag outer.tag, outer.offset⟩
  else
    Prog.ofExcept (foldTlvs field {} (iterTlv outer.value outer.offset))

instance : Decode Aarq := ⟨decode⟩

end Aarq

/-! ## AARE -/

/-- The server's answer. -/
structure Aare where
  applicationContext : Option ApplicationContext := none
  result : AssociationResult := .accepted
  diagnostic : Diagnostic := .user .null
  respondingApTitle : Option Bytes := none
  responderAcseRequirements : Bool := false
  mechanismName : Option AuthMechanism := none
  respondingAuthenticationValue : Option Bytes := none
  userInformation : Option Bytes := none
  deriving Repr, DecidableEq

namespace Aare

/-- True when the server accepted. -/
def isAccepted (a : Aare) : Bool := a.result == .accepted

/-- The diagnostic in its container. -/
def diagnosticBody : Diagnostic → Emit
  | .user d => writeConstructed 0xA1 (writeTlv 0x02 [d.asU8])
  | .provider d => writeConstructed 0xA2 (writeTlv 0x02 [d])

/-- What stands inside the outer TLV. -/
def body (a : Aare) : Emit :=
  opt a.applicationContext (fun c => writeConstructed 0xA1 (writeTlv 0x06 (oid 1 c.arc))) ++
  writeConstructed 0xA2 (writeTlv 0x02 [a.result.asU8]) ++
  writeConstructed 0xA3 (diagnosticBody a.diagnostic) ++
  opt a.respondingApTitle (octets 0xA4 0x04) ++
  (if a.responderAcseRequirements then writeTlv 0x88 [0x07, 0x80] else Emit.empty) ++
  opt a.mechanismName (fun m => writeTlv 0x89 (oid 2 m.arc)) ++
  opt a.respondingAuthenticationValue (octets 0xAA 0x80) ++
  opt a.userInformation (octets 0xBE 0x04)

def encode (a : Aare) : Emit := writeConstructed 0x61 a.body

/-- The result in its container. -/
def readResult (tlv : Tlv) : Result AssociationResult := do
  let inner ← (readTlv tlv.reader).1
  return .fromU8 (← inner.asU8)

/-- The diagnostic in its container. -/
def readDiagnostic (tlv : Tlv) : Result Diagnostic := do
  let inner ← (readTlv tlv.reader).1
  let value ← (← (readTlv inner.reader).1).asU8
  match inner.contextNumber with
  | some 1 => return .user (.fromU8 value)
  | _ => return .provider value

/-- What one TLV of an AARE sets. -/
def field (out : Aare) (tlv : Tlv) : Result Aare :=
  match tlv.contextNumber with
  | some 1 => do return { out with applicationContext := some (.fromArc (← oidArc tlv)) }
  | some 2 => do return { out with result := ← readResult tlv }
  | some 3 => do return { out with diagnostic := ← readDiagnostic tlv }
  | some 4 => do return { out with respondingApTitle := some (← innerOctets tlv 0x04) }
  | some 8 => .ok { out with responderAcseRequirements := authenticationBit tlv.value }
  | some 9 => do return { out with mechanismName := some (.fromArc (← implicitOidArc tlv)) }
  | some 10 => do return { out with respondingAuthenticationValue := some (← innerOctets tlv 0x80) }
  | some 30 => do return { out with userInformation := some (← innerOctets tlv 0x04) }
  | _ => .ok out

def decode : Read Aare := do
  let outer ← readTlv
  if outer.tag != 0x61 then
    Prog.throw ⟨.invalidTag outer.tag, outer.offset⟩
  else
    Prog.ofExcept (foldTlvs field {} (iterTlv outer.value outer.offset))

instance : Decode Aare := ⟨decode⟩

end Aare

/-! ## RLRQ and RLRE -/

/-- The contents of a release request or of its answer: both have the same fields. -/
structure Release where
  reason : Option ReleaseReason := none
  userInformation : Option Bytes := none
  deriving Repr, DecidableEq

namespace Release

/-- What stands inside the outer TLV. -/
def body (a : Release) : Emit :=
  opt a.reason (fun r => writeTlv 0x80 [r.asU8]) ++ opt a.userInformation (octets 0xBE 0x04)

/-- What one TLV of a release APDU sets. -/
def field (out : Release) (tlv : Tlv) : Result Release :=
  match tlv.contextNumber with
  | some 0 => do return { out with reason := some (.fromU8 (← tlv.asU8)) }
  | some 30 => do return { out with userInformation := some (← innerOctets tlv 0x04) }
  | _ => .ok out

/-- `release_codec!`: the encoder of the release APDU of tag `tag`. -/
def encodeAs (tag : UInt8) (a : Release) : Emit := writeConstructed tag a.body

/-- `release_codec!`: the decoder of the release APDU of tag `tag`. -/
def decodeAs (tag : UInt8) : Read Release := do
  let outer ← readTlv
  if outer.tag != tag then
    Prog.throw ⟨.invalidTag outer.tag, outer.offset⟩
  else
    Prog.ofExcept (foldTlvs field {} (iterTlv outer.value outer.offset))

end Release

/-- The client asks to release the association. -/
abbrev Rlrq := Release

/-- The server confirms the release. -/
abbrev Rlre := Release

def Rlrq.encode (a : Rlrq) : Emit := a.encodeAs 0x62

def Rlrq.decode : Read Rlrq := Release.decodeAs 0x62

def Rlre.encode (a : Rlre) : Emit := a.encodeAs 0x63

def Rlre.decode : Read Rlre := Release.decodeAs 0x63

/-! ## How long they get -/

theorem octets_bounded {container inner : UInt8} {b : Bytes} {n : Nat} (h : b.length ≤ n)
    (hn : n < 2 ^ 29) : Bounded (octets container inner b) (n + 12) :=
  .constructed container (.tlv inner h (by omega)) (by omega)

theorem opt_octets_bounded {container inner : UInt8} {o : Option Bytes} {n : Nat}
    (h : ∀ b, o = some b → b.length ≤ n) (hn : n < 2 ^ 29) :
    Bounded (opt o (octets container inner)) (n + 12) :=
  .opt fun b hb => octets_bounded (h b hb) hn

theorem bit_bounded (b : Bool) (tag : UInt8) :
    Bounded (if b then writeTlv tag [0x07, 0x80] else Emit.empty) (2 + 6) := by
  split
  · exact .tlv _ (by simp) (by omega)
  · exact ⟨rfl, Nat.zero_le _⟩

theorem length_oid (branch arc : UInt8) : (oid branch arc).length = 7 := rfl

/-- An AARQ whose octet strings are short is written without a fault. -/
theorem Aarq.encode_bounded {v : Aarq} {n : Nat} (hn : n < 2 ^ 29)
    (h₁ : ∀ b, v.calledApTitle = some b → b.length ≤ n)
    (h₂ : ∀ b, v.callingApTitle = some b → b.length ≤ n)
    (h₃ : ∀ b, v.callingAeQualifier = some b → b.length ≤ n)
    (h₄ : ∀ b, v.callingAuthenticationValue = some b → b.length ≤ n)
    (h₅ : ∀ b, v.userInformation = some b → b.length ≤ n) :
    Bounded v.encode (5 * n + 200) := by
  have hbody : Bounded v.body _ :=
    .append (.append (.append (.append (.append (.append (.append
      (.opt fun c _ => .constructed (n := 7 + 6) 0xA1 (.tlv 0x06 (length_oid 1 c.arc).le (by omega))
        (by omega))
      (opt_octets_bounded h₁ hn)) (opt_octets_bounded h₂ hn)) (opt_octets_bounded h₃ hn))
      (bit_bounded ..)) (.opt fun m _ => .tlv 0x8B (length_oid 2 m.arc).le (by omega)))
      (opt_octets_bounded h₄ hn)) (opt_octets_bounded h₅ hn)
  have h := Bounded.constructed 0x60 hbody (by omega)
  exact ⟨h.1, h.2.trans (by omega)⟩

/-- An AARE whose octet strings are short is written without a fault. -/
theorem Aare.encode_bounded {v : Aare} {n : Nat} (hn : n < 2 ^ 29)
    (h₁ : ∀ b, v.respondingApTitle = some b → b.length ≤ n)
    (h₂ : ∀ b, v.respondingAuthenticationValue = some b → b.length ≤ n)
    (h₃ : ∀ b, v.userInformation = some b → b.length ≤ n) :
    Bounded v.encode (3 * n + 200) := by
  have hbyte (container v : UInt8) : Bounded (writeConstructed container (writeTlv 0x02 [v])) 13 :=
    .constructed container (.tlv (n := 1) 0x02 (by simp) (by omega)) (by omega)
  have hdiag : Bounded (diagnosticBody v.diagnostic) 13 := by
    unfold diagnosticBody
    split <;> exact hbyte _ _
  have hbody : Bounded v.body _ :=
    .append (.append (.append (.append (.append (.append (.append
      (.opt fun c _ => .constructed (n := 7 + 6) 0xA1 (.tlv 0x06 (length_oid 1 c.arc).le (by omega))
        (by omega))
      (hbyte 0xA2 v.result.asU8)) (.constructed 0xA3 hdiag (by omega))) (opt_octets_bounded h₁ hn))
      (bit_bounded ..)) (.opt fun m _ => .tlv 0x89 (length_oid 2 m.arc).le (by omega)))
      (opt_octets_bounded h₂ hn)) (opt_octets_bounded h₃ hn)
  have h := Bounded.constructed 0x61 hbody (by omega)
  exact ⟨h.1, h.2.trans (by omega)⟩

end Dlms
