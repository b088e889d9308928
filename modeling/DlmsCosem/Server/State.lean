import DlmsCosem.Security.Wrap
import DlmsCosem.Server.Store

/-!
# The state of a server

A server holds one association over its store and its keys. A handler is a program over the
`Server`: a refusal is a reply, and what a handler changed before it ended with an error stays
changed.

`trace` is not in the program, and nothing reads it: it records what the server asked of its store
and what the handshake rests on, so that a property of a run can speak about them.
-/

namespace Dlms

/-! ## Buffers -/

/-- `[u8; N]`. -/
structure Buffer (N : Nat) where
  bytes : Bytes
  length_eq : bytes.length = N
  deriving DecidableEq

namespace Buffer

variable {N : Nat}

/-- `[0u8; N]`. -/
def zero (N : Nat) : Buffer N := ⟨zeros N, length_zeros N⟩

/-- `get(lo..hi).unwrap_or(&[])`. -/
def get (b : Buffer N) (lo hi : Nat) : Bytes :=
  if lo ≤ hi ∧ hi ≤ N then (b.bytes.take hi).drop lo else []

/-- Copy `src` to `at'`, where `get_mut` finds room for it. -/
def copyAt (b : Buffer N) (at' : Nat) (src : Bytes) : Option (Buffer N) :=
  if h : at' + src.length ≤ N then
    some ⟨SliceWriter.splice b.bytes at' src, by
      rw [SliceWriter.length_splice (by rw [b.length_eq]; exact h), b.length_eq]⟩
  else none

/-- The buffer under a writer that was put on it. -/
def ofWriter (b : Buffer N) (w : SliceWriter) : Buffer N :=
  if h : w.buf.length = N then ⟨w.buf, h⟩ else b

end Buffer

/-! ## Configuration and state -/

/-- What a server is. -/
structure ServerConfig where
  systemTitle : Option SystemTitle := none
  mechanism : AuthMechanism := .none
  password : Option Secret := none
  security : SecurityPolicy := .none
  referencing : Referencing := .logicalName
  maxPduSize : UInt16 := 1024
  conformance : Conformance := .serverDefault
  challengeLen : Nat := 16
  invocationCounter : UInt32 := 0
  replayWindow : UInt32 := 0

/-- Where the association is. -/
inductive ServerState
  | idle
  | awaitingHlsReply
  | associated
  | closed
  deriving Repr, DecidableEq

/-- Which service a value goes out in answer to. -/
inductive Outbound
  | get
  | action
  | read
  deriving Repr, DecidableEq

/-- A transfer in flight. Its bytes are in the response buffer. -/
inductive Transfer
  | idle
  | sending (invokeId : InvokeId) (service : Outbound) (len sent : Nat) (block : UInt32)
  | receivingSet (invokeId : InvokeId) (descriptor : AttributeDescriptor) (list : Bool)
      (headerEnd len : Nat) (block : UInt32)
  | receivingAction (invokeId : InvokeId) (descriptor : MethodDescriptor) (len : Nat)
      (block : UInt32)
  deriving DecidableEq

/-- What the trace of a server records. -/
inductive Event
  /-- The store was called. -/
  | store (call : StoreCall)
  /-- An AARQ was decoded, and what the association before it left was cleared. -/
  | aarq (a : Aarq)
  /-- The protection of a frame was taken off. -/
  | opened (frame : Frame)
  /-- The AARQ carried this InitiateRequest, in this frame. -/
  | initiate (frame : Option Frame) (request : InitiateRequest)
  /-- A request was decoded, which came in this frame. -/
  | request (frame : Option Frame) (apdu : Apdu)
  /-- A proof over the server's challenge was found to be the peer's. -/
  | hlsVerified (peer : SystemTitle) (challenge proof : Bytes)
  /-- The server answered a challenge. -/
  | hlsResponse (title : SystemTitle) (counter : UInt32) (challenge proof : Bytes)
  /-- A number was taken for a message. -/
  | counter (value : UInt32)
  /-- The protector was given this title and number to protect with. -/
  | protecting (title : SystemTitle) (counter : UInt32)
  deriving DecidableEq

/-- A server over a store `σ` with keys `π`. `N` is the size of its buffers. -/
structure Server (σ π : Type) (N : Nat) where
  config : ServerConfig
  store : σ
  protector : Protector π
  state : ServerState
  clientSystemTitle : Option SystemTitle
  clientChallenge : Bytes
  serverChallenge : Bytes
  invocationCounter : InvocationCounter
  peerReplay : ReplayWindow
  replayOwner : Option SystemTitle
  negotiated : Conformance
  cipheredAssociation : Bool
  clientMaxPduSize : UInt16
  transfer : Transfer
  response : Buffer N
  scratch : Buffer N
  trace : List Event

/-- A handler. -/
abbrev Srv (σ π : Type) (N : Nat) (α : Type) := Prog Error (Server σ π N) α

/-- Random bytes, as many as are asked for, or none at all. -/
structure Entropy where
  fill : Nat → Result Bytes
  length_fill : ∀ n b, fill n = .ok b → b.length = n

/-- Random bytes that are all zero. -/
def Entropy.zeros : Entropy where
  fill n := .ok (Dlms.zeros n)
  length_fill n b h := by
    obtain rfl := Except.ok.inj h
    exact length_zeros n

variable {σ π : Type} {N : Nat}

namespace Server

/-- `new`. -/
def new (N : Nat) (config : ServerConfig) (store : σ) (provider : π) : Server σ π N where
  config
  store
  protector := ⟨provider, config.security.global⟩
  state := .idle
  clientSystemTitle := none
  clientChallenge := []
  serverChallenge := []
  invocationCounter := ⟨config.invocationCounter⟩
  peerReplay := .new config.replayWindow
  replayOwner := none
  negotiated := .empty
  cipheredAssociation := false
  clientMaxPduSize := config.maxPduSize
  transfer := .idle
  response := .zero N
  scratch := .zero N
  trace := []

/-- Record an event. -/
def log (e : Event) (s : Server σ π N) : Server σ π N := { s with trace := s.trace ++ [e] }

/-- What protection adds to an APDU at most. -/
def protectionMax : Nat := 1 + 5 + 1 + 4 + 12

/-- `protection_overhead`. -/
def protectionOverhead (s : Server σ π N) : Nat :=
  if s.config.security.isNone then 0 else protectionMax

/-- What a GET response with a block has around its fragment at most. -/
def blockHeaderMax : Nat := 1 + 1 + 1 + 1 + 4 + 1 + 5

/-- `max_fragment`: the largest fragment that a block can carry to this client. -/
def maxFragment (s : Server σ π N) : Nat :=
  min (s.clientMaxPduSize.toNat - blockHeaderMax - s.protectionOverhead) N

/-- Whether `n` bytes after a header of `header` fit an APDU to this client. -/
def fitsOne (s : Server σ π N) (header n : Nat) : Bool :=
  n + header + s.protectionOverhead ≤ s.clientMaxPduSize.toNat

/-- `unprotect_into` and `unprotect_initiate` differ in the policy and in the plain tags. -/
def incoming (C : CryptoProvider π) (s : Server σ π N) (policy : SecurityPolicy)
    (plainAllowed : List ApduTag) : Incoming where
  localTitle := s.config.systemTitle
  peer := s.clientSystemTitle
  authKey := C.authenticationKey s.protector.provider
  policy
  plainAllowed

end Server

namespace Srv

/-- Record an event. -/
def log (e : Event) : Srv σ π N Unit := Prog.modify (Server.log e)

/-- A value that has to be there. -/
def need {α : Type} (a : Option α) (kind : ErrorKind) : Srv σ π N α :=
  match a with
  | some a => pure a
  | none => Prog.throw ⟨kind, 0⟩

/-- Run a writer of the handler's own. -/
def onWriter {α : Type} (m : Write α) (w : SliceWriter) : Srv σ π N (α × SliceWriter) :=
  match m w with
  | (.ok a, w') => pure (a, w')
  | (.error e, _) => Prog.throw e

/-- Encode into a writer of the handler's own. -/
def emit (e : Emit) (w : SliceWriter) : Srv σ π N SliceWriter := do
  return (← onWriter (SliceWriter.emit e) w).2

/-- Rewind a writer of the handler's own. -/
def truncate (at' : Nat) (w : SliceWriter) : Srv σ π N SliceWriter := do
  return (← onWriter (SliceWriter.truncate at') w).2

/-- A reply written whole into `room` bytes. -/
def reply (e : Emit) (room : Nat) : Srv σ π N Bytes :=
  Prog.ofExcept (SliceWriter.encodeInto e (zeros room))

/-- `next_counter`. -/
def nextCounter : Srv σ π N UInt32 := do
  let c ← Prog.gets Server.invocationCounter
  let (value, c) ← Prog.ofExcept c.next
  Prog.modify fun s => { s with invocationCounter := c }
  log (.counter value)
  return value

/-- `auth_key`. -/
def authKey (C : CryptoProvider π) : Srv σ π N Bytes := do
  need (C.authenticationKey (← Prog.gets fun s => s.protector.provider)) .unsupported

/-- Change the transfer. -/
def setTransfer (t : Transfer) : Srv σ π N Unit := Prog.modify fun s => { s with transfer := t }

/-- Change the state. -/
def setState (t : ServerState) : Srv σ π N Unit := Prog.modify fun s => { s with state := t }

/-- `set_dedicated`. -/
def setDedicated (dedicated : Bool) : Srv σ π N Unit :=
  Prog.modify fun s => { s with protector := s.protector.setDedicated dedicated }

/-- Put `bytes` at `at'` of the response buffer. -/
def putResponse (at' : Nat) (bytes : Bytes) (needed : Nat) : Srv σ π N Unit := fun s =>
  match s.response.copyAt at' bytes with
  | some b => (.ok (), { s with response := b })
  | none => (.error ⟨.bufferTooSmall needed, 0⟩, s)

/-- Encode at the start of the response buffer, and give how much was written. -/
def encodeResponse (e : Emit) : Srv σ π N Nat := fun s =>
  let (r, w) := SliceWriter.emit e (SliceWriter.new s.response.bytes)
  (r.map fun _ => w.pos, { s with response := s.response.ofWriter w })

/-- Encode into the scratch buffer, and give what was written. -/
def encodeScratch (e : Emit) : Srv σ π N Bytes := fun s =>
  let (r, w) := SliceWriter.emit e (SliceWriter.new s.scratch.bytes)
  (r.map fun _ => w.asSlice, { s with scratch := s.scratch.ofWriter w })

/-! ## Calls of the store -/

section Store

variable (S : ObjectStore σ)

/-- The rights of an attribute. What they are asked for is only recorded. -/
def attributeAccess (op : Operation) (d : AttributeDescriptor) : Srv σ π N AttributeAccess := do
  let (rights, store) ← Prog.gets fun s => S.attributeAccess s.store d
  Prog.modify fun s => { s with store }
  log (.store (.attributeAccess op d rights))
  return rights

def methodAccess (d : MethodDescriptor) : Srv σ π N MethodAccess := do
  let (rights, store) ← Prog.gets fun s => S.methodAccess s.store d
  Prog.modify fun s => { s with store }
  log (.store (.methodAccess d rights))
  return rights

def resolveShortName (name : ObjectName) : Srv σ π N (Option ShortNameTarget) := do
  let (target, store) ← Prog.gets fun s => S.resolveShortName s.store name
  Prog.modify fun s => { s with store }
  log (.store (.resolveShortName name target))
  return target

def getAttribute (d : AttributeDescriptor) (access : Option SelectiveAccess) (w : SliceWriter) :
    Srv σ π N (Except DataAccessResult Unit × SliceWriter) := do
  let ((result, store), w) ← Prog.gets fun s => (S.getAttribute s.store d access).run w
  Prog.modify fun s => { s with store }
  log (.store (.getAttribute d access))
  return (result, w)

def setAttribute (d : AttributeDescriptor) (access : Option SelectiveAccess) (value : Data) :
    Srv σ π N (Except DataAccessResult Unit) := do
  let (result, store) ← Prog.gets fun s => S.setAttribute s.store d access value
  Prog.modify fun s => { s with store }
  log (.store (.setAttribute d access value))
  return result

def invokeMethod (d : MethodDescriptor) (parameters : Option Data) (w : SliceWriter) :
    Srv σ π N (Except ActionResult Bool × SliceWriter) := do
  let ((result, store), w) ← Prog.gets fun s => (S.invokeMethod s.store d parameters).run w
  Prog.modify fun s => { s with store }
  log (.store (.invokeMethod d parameters))
  return (result, w)

def audit (e : AuditEvent) : Srv σ π N Unit := do
  Prog.modify fun s => { s with store := S.audit s.store e }
  log (.store (.audit e))

end Store

/-! ## Replies -/

/-- `check_fits`. -/
def checkFits (len : Nat) : Srv σ π N Unit := do
  let max := (← Prog.gets Server.clientMaxPduSize).toNat
  if max < len then Prog.throw ⟨.bufferTooSmall (len - max), 0⟩ else pure ()

/-- `send`: a reply under the protection of the association. -/
def send (C : CryptoProvider π) (apdu : Apdu) (room : Nat) : Srv σ π N Bytes := do
  let plain ← encodeScratch apdu.encode
  let config ← Prog.gets Server.config
  if config.security.isNone then do
    checkFits plain.length
    reply (Emit.bytes plain) room
  else do
    let systemTitle ← need config.systemTitle .unexpectedMessage
    let invocationCounter ← nextCounter
    let protector ← Prog.gets Server.protector
    let negotiated ← Prog.gets Server.negotiated
    let ctx : Outgoing := {
      systemTitle, invocationCounter
      authKey := C.authenticationKey protector.provider
      policy := protector.policy
      generalAllowed := negotiated.contains .generalProtection }
    log (.protecting systemTitle invocationCounter)
    let bytes ← Prog.ofExcept (protectApdu C protector ctx plain room)
    checkFits bytes.length
    return bytes

/-- `counter_exception`. -/
def counterException (expected : UInt32) (room : Nat) : Srv σ π N Bytes :=
  reply (Apdu.exceptionResponse ⟨.serviceNotAllowed, .invocationCounterError, some expected⟩).encode
    room

/-- `exception`: refuse an APDU, under protection where that is possible. -/
def exception (C : CryptoProvider π) (stateError : StateError) (serviceError : ServiceError)
    (room : Nat) : Srv σ π N Bytes := do
  let apdu := Apdu.exceptionResponse ⟨stateError, serviceError, none⟩
  let config ← Prog.gets Server.config
  let negotiated ← Prog.gets Server.negotiated
  if config.security.isNone || !negotiated.contains .generalProtection then
    reply apdu.encode room
  else
    send C apdu room

end Srv

end Dlms
