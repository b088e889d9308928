import DlmsCosem.Xdlms.Access

/-!
# Access rights

What an association may do with an attribute or a method: a bit for each operation, and bits that
demand protection of the request or promise it for the response. And what a short name stands for.
-/

namespace Dlms

/-- Version 3 attribute access. -/
structure AttributeAccess where
  bits : UInt8
  deriving Repr, DecidableEq

/-- Version 3 method access. -/
structure MethodAccess where
  bits : UInt8
  deriving Repr, DecidableEq

/-- The bits that demand protection of a request: `AUTHENTICATED_REQUEST`, `ENCRYPTED_REQUEST` and
`DIGITALLY_SIGNED_REQUEST`. They are the same for attributes and for methods. -/
structure Demands where
  authenticated : Bool
  encrypted : Bool
  signed : Bool
  deriving Repr, DecidableEq

/-- The demands among access bits. -/
def Demands.ofBits (bits : UInt8) : Demands where
  authenticated := bits &&& 0x04 != 0
  encrypted := bits &&& 0x08 != 0
  signed := bits &&& 0x10 != 0

/-- What the rights of an attribute are asked for. -/
inductive Operation
  | read
  | write
  /-- To gather the blocks of a value, which is written when the last one is there. -/
  | gather
  deriving Repr, DecidableEq

namespace AttributeAccess

def empty : AttributeAccess := ⟨0⟩

/-- The version 0 to 2 enumeration as version 3 bits. -/
def fromLegacy : UInt8 → AttributeAccess
  | 1 => ⟨0x01⟩
  | 2 => ⟨0x02⟩
  | 3 => ⟨0x03⟩
  | 4 => ⟨0x05⟩
  | 5 => ⟨0x06⟩
  | 6 => ⟨0x07⟩
  | _ => empty

def canRead (a : AttributeAccess) : Bool := a.bits &&& 0x01 != 0

def canWrite (a : AttributeAccess) : Bool := a.bits &&& 0x02 != 0

/-- Whether the attribute may be asked for an operation. -/
def allows (a : AttributeAccess) : Operation → Bool
  | .read => a.canRead
  | .write | .gather => a.canWrite

/-- What the attribute demands of a request. -/
def demands (a : AttributeAccess) : Demands := .ofBits a.bits

/-- True when a request must be protected somehow. -/
def requiresProtection (a : AttributeAccess) : Bool := a.bits &&& 0x1C != 0

end AttributeAccess

namespace MethodAccess

def empty : MethodAccess := ⟨0⟩

/-- The version 0 to 2 enumeration as version 3 bits. -/
def fromLegacy : UInt8 → MethodAccess
  | 1 => ⟨0x01⟩
  | 2 => ⟨0x05⟩
  | _ => empty

def canInvoke (a : MethodAccess) : Bool := a.bits &&& 0x01 != 0

/-- What the method demands of a request. -/
def demands (a : MethodAccess) : Demands := .ofBits a.bits

end MethodAccess

/-- `requires_protection` says whether there is a demand. -/
theorem AttributeAccess.requiresProtection_eq (a : AttributeAccess) :
    a.requiresProtection = (a.demands.authenticated || a.demands.encrypted || a.demands.signed) := by
  obtain ⟨⟨b⟩⟩ := a
  revert b
  decide +kernel

/-- What a short name stands for. -/
inductive ShortNameTarget
  | attribute (d : AttributeDescriptor)
  | method (d : MethodDescriptor)
  deriving DecidableEq

end Dlms
