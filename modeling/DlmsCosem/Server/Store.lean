import DlmsCosem.Acse.Apdu
import DlmsCosem.Cosem.Access

/-!
# Where a server's objects live

An `ObjectStore` is any code that says what may be done with an object, what it holds and what its
methods do. All its functions take the store and give the store after the call: one that only
reads may still count its calls. A value is not returned but written into the server's buffer, so
reading and invoking are programs over a writer.
-/

namespace Dlms

/-- What a server was asked to do, and what came of it. -/
inductive AuditEvent
  | associated (mechanism : AuthMechanism) (ciphered : Bool)
  | associationRefused (diagnostic : UserDiagnostic)
  | released
  | attributeRead (target : AttributeDescriptor) (outcome : DataAccessResult)
  | attributeWritten (target : AttributeDescriptor) (outcome : DataAccessResult)
  | methodInvoked (target : MethodDescriptor) (outcome : ActionResult)
  deriving DecidableEq

/-- The objects that a server hosts, as a store in the state `σ`. -/
structure ObjectStore (σ : Type) where
  getAttribute : σ → AttributeDescriptor → Option SelectiveAccess →
    WriteProg (Except DataAccessResult Unit × σ)
  setAttribute : σ → AttributeDescriptor → Option SelectiveAccess → Data →
    Except DataAccessResult Unit × σ
  invokeMethod : σ → MethodDescriptor → Option Data → WriteProg (Except ActionResult Bool × σ)
  attributeAccess : σ → AttributeDescriptor → AttributeAccess × σ
  methodAccess : σ → MethodDescriptor → MethodAccess × σ
  resolveShortName : σ → ObjectName → Option ShortNameTarget × σ
  audit : σ → AuditEvent → σ

namespace ObjectStore

/-- The store that implements `get_attribute` and nothing else: it refuses everything. -/
def refusing (σ : Type) (get : σ → AttributeDescriptor → Option SelectiveAccess →
    WriteProg (Except DataAccessResult Unit × σ)) : ObjectStore σ where
  getAttribute := get
  setAttribute s _ _ _ := (.error .readWriteDenied, s)
  invokeMethod s _ _ := .done (.error .objectUndefined, s)
  attributeAccess s _ := (.empty, s)
  methodAccess s _ := (.empty, s)
  resolveShortName s _ := (none, s)
  audit s _ := s

/-- A store whose attributes all hold the one encoded value, under the same rights. -/
def constant (value : Bytes) (rights : AttributeAccess) : ObjectStore Unit :=
  { refusing Unit fun s _ _ => .write value fun r =>
      .done (r.mapError fun _ => .otherReason, s) with
    attributeAccess := fun s _ => (rights, s) }

end ObjectStore

/-- What the server asked of its store, with the answers that decide what it asks next. -/
inductive StoreCall
  | attributeAccess (op : Operation) (target : AttributeDescriptor) (rights : AttributeAccess)
  | methodAccess (target : MethodDescriptor) (rights : MethodAccess)
  | resolveShortName (name : ObjectName) (target : Option ShortNameTarget)
  | getAttribute (target : AttributeDescriptor) (access : Option SelectiveAccess)
  | setAttribute (target : AttributeDescriptor) (access : Option SelectiveAccess) (value : Data)
  | invokeMethod (target : MethodDescriptor) (parameters : Option Data)
  | audit (event : AuditEvent)
  deriving DecidableEq

end Dlms
