import DlmsCosem.Server.State

/-!
# The state of a client session

A session builds the requests of one association and takes its responses. As on the server a method
is a program over the session: what it changed before it ended with an error stays changed.

The scratch buffer is not part of the state: `send` writes it and reads back what it wrote. `trace`
is not in the program, and nothing reads it: it records what went out and what was returned.
-/

namespace Dlms

/-! ## Configuration and state -/

/-- How a client identifies itself and what it demands. -/
structure ClientConfig where
  systemTitle : Option SystemTitle := none
  mechanism : AuthMechanism := .none
  password : Option Secret := none
  security : SecurityPolicy := .none
  maxPduSize : UInt16 := 1024
  conformance : Conformance := .clientDefault
  referencing : Referencing := .logicalName
  challengeLen : Nat := 16
  invocationCounter : UInt32 := 0
  replayWindow : UInt32 := 0

/-- What a session is doing. -/
inductive SessionState
  | idle
  | associating
  | authenticatingHls
  | associated
  | releasing
  | closed
  deriving Repr, DecidableEq

/-- What the client does next in the handshake. -/
inductive AssociationStep
  | established
  | hlsReplyRequired
  | rejected (result : AssociationResult) (diagnostic : Diagnostic)
  | exception (e : ExceptionResponse)
  deriving DecidableEq

/-- What a response carried. -/
inductive Response
  | data (d : Data)
  | dataList (l : WireList)
  | dataError (e : DataAccessResult)
  | block (last : Bool) (number : UInt32) (data : Bytes)
  | resultList (l : WireList)
  | actionResults (l : WireList)
  | blockAccepted (number : UInt32)
  | access (data results : WireList)
  | readResults (l : WireList)
  | writeResults (l : WireList)
  | ok
  | actionResult (result : ActionResult) (value : Option Data)
  | exception (e : ExceptionResponse)
  | released
  deriving DecidableEq

/-- What the trace of a session records. -/
inductive ClientEvent
  /-- A request went out, in these bytes. -/
  | sent (request : Apdu) (bytes : Bytes)
  /-- A response was returned. -/
  | returned (apdu : Apdu) (response : Response)
  /-- The answer to the client's proof ended the handshake. -/
  | authenticated (apdu : Apdu)
  /-- The protector was given this title and number to protect with. -/
  | protecting (title : SystemTitle) (counter : UInt32)
  deriving DecidableEq

/-- A session with keys `π`. `N` is the size of its scratch buffer. -/
structure ClientSession (π : Type) (N : Nat) where
  config : ClientConfig
  protector : Protector π
  state : SessionState
  invokeId : UInt8
  outstanding : Option InvokeId
  invocationCounter : InvocationCounter
  peerReplay : ReplayWindow
  negotiated : Option InitiateResponse
  serverSystemTitle : Option SystemTitle
  clientChallenge : Bytes
  serverChallenge : Bytes
  trace : List ClientEvent

/-- A method of a session. -/
abbrev Cli (π : Type) (N : Nat) (α : Type) := Prog Error (ClientSession π N) α

variable {π : Type} {N : Nat}

namespace ClientSession

/-- `new`. -/
def new (N : Nat) (config : ClientConfig) (provider : π) : ClientSession π N where
  config
  protector := ⟨provider, config.security.global⟩
  state := .idle
  invokeId := 0
  outstanding := none
  invocationCounter := ⟨config.invocationCounter⟩
  peerReplay := .new config.replayWindow
  negotiated := none
  serverSystemTitle := none
  clientChallenge := []
  serverChallenge := []
  trace := []

/-- Record an event. -/
def log (e : ClientEvent) (s : ClientSession π N) : ClientSession π N :=
  { s with trace := s.trace ++ [e] }

/-- `application_context`. -/
def applicationContext (s : ClientSession π N) : ApplicationContext :=
  .forReferencing s.config.referencing (!s.config.security.isNone)

/-- `general_protection_agreed`. -/
def generalProtectionAgreed (s : ClientSession π N) : Bool :=
  s.negotiated.any fun n => n.negotiatedConformance.contains .generalProtection

/-- What a block has around its fragment at most. -/
def headerMax : Nat := 1 + 1 + 1 + 9 + 1 + 1 + 4 + 5

/-- What protection adds to a block at most. -/
def protectionMax : Nat := 1 + 5 + 1 + 4 + 12

/-- The largest APDU for this server. -/
def ceiling (s : ClientSession π N) : UInt16 :=
  match s.negotiated with
  | some n => n.serverMaxReceivePduSize
  | none => s.config.maxPduSize

/-- `max_fragment_less`: the largest fragment beside `extra` bytes of header. -/
def maxFragmentLess (s : ClientSession π N) (extra : Nat) : Result { n : Nat // 0 < n } :=
  let overhead := if s.config.security.isNone then 0 else protectionMax
  let fragment := min (s.ceiling.toNat - headerMax - overhead - extra) N
  if h : 0 < fragment then .ok ⟨fragment, h⟩ else Error.fail .invalidLength 0

/-- `unprotect_into` and `unprotect_initiate` differ in the policy and in the plain tags. -/
def incoming (C : CryptoProvider π) (s : ClientSession π N) (policy : SecurityPolicy)
    (plainAllowed : List ApduTag) : Incoming where
  localTitle := s.config.systemTitle
  peer := s.serverSystemTitle
  authKey := C.authenticationKey s.protector.provider
  policy
  plainAllowed

end ClientSession

namespace Cli

/-- Record an event. -/
def log (e : ClientEvent) : Cli π N Unit := Prog.modify (ClientSession.log e)

/-- A value that has to be there. -/
def need {α : Type} (a : Option α) (kind : ErrorKind) : Cli π N α :=
  match a with
  | some a => pure a
  | none => Prog.throw ⟨kind, 0⟩

/-- An encoding in `room` bytes. -/
def encode (e : Emit) (room : Nat) : Cli π N Bytes :=
  Prog.ofExcept (SliceWriter.encodeInto e (zeros room))

/-- Two encodings, one behind the other in `room` bytes. -/
def encodeTwo (a b : Emit) (room : Nat) : Cli π N (Bytes × Bytes) := do
  let front ← encode a room
  let both ← encode (a ++ b) room
  return (front, both.drop front.length)

/-- Change the state. -/
def setState (t : SessionState) : Cli π N Unit := Prog.modify fun s => { s with state := t }

/-- `next_counter`. -/
def nextCounter : Cli π N UInt32 := do
  let c ← Prog.gets ClientSession.invocationCounter
  let (value, c) ← Prog.ofExcept c.next
  Prog.modify fun s => { s with invocationCounter := c }
  return value

/-- `auth_key`. -/
def authKey (C : CryptoProvider π) : Cli π N Bytes := do
  need (C.authenticationKey (← Prog.gets fun s => s.protector.provider)) .unsupported

/-- `next_invoke_id`. -/
def nextInvokeId : Cli π N InvokeId := do
  Prog.modify fun s => { s with invokeId := (s.invokeId + 1) &&& 0x0F }
  let id := InvokeId.confirmed (← Prog.gets ClientSession.invokeId)
  Prog.modify fun s => { s with outstanding := some id }
  return id

/-- `next_long_invoke_id`. No short id is outstanding under an ACCESS request. -/
def nextLongInvokeId : Cli π N LongInvokeId := do
  Prog.modify fun s => { s with invokeId := (s.invokeId + 1) &&& 0x0F, outstanding := none }
  return (LongInvokeId.new (← Prog.gets ClientSession.invokeId).toUInt32).confirmed

/-- The id of the request that is continued. -/
def outstandingId : Cli π N InvokeId := do
  need (← Prog.gets ClientSession.outstanding) .unexpectedMessage

/-! ## What a request needs -/

/-- `require_associated`. -/
def requireAssociated : Cli π N Unit := do
  if (← Prog.gets ClientSession.state) = .associated then pure ()
  else Prog.throw ⟨.unexpectedMessage, 0⟩

/-- `require_conformance`. -/
def requireConformance (required : Conformance) : Cli π N Unit := do
  match ← Prog.gets ClientSession.negotiated with
  | some n => Prog.ofExcept (n.negotiatedConformance.require required)
  | none => pure ()

/-- `require_short_name`. -/
def requireShortName : Cli π N Unit := do
  if (← Prog.gets fun s => s.config.referencing) = .shortName then pure ()
  else Prog.throw ⟨.unexpectedMessage, 0⟩

/-- A selector has to be agreed to as well. -/
def requireSelection (used : Bool) : Cli π N Unit :=
  if used then requireConformance .selectiveAccess else pure ()

/-- Refuse arguments that say nothing a server could answer. -/
def requireArguments (valid : Bool) : Cli π N Unit :=
  if valid then pure () else Prog.throw ⟨.invalidValue, 0⟩

/-! ## Going out -/

section Sending

variable (C : CryptoProvider π)

/-- `send_plain`. -/
def sendPlain (plain : Bytes) (room : Nat) : Cli π N Bytes := do
  let config ← Prog.gets ClientSession.config
  if config.security.isNone then
    encode (Emit.bytes plain) room
  else do
    let systemTitle ← need config.systemTitle .unexpectedMessage
    let invocationCounter ← nextCounter
    let protector ← Prog.gets ClientSession.protector
    let generalAllowed ← Prog.gets ClientSession.generalProtectionAgreed
    let ctx : Outgoing := {
      systemTitle, invocationCounter
      authKey := C.authenticationKey protector.provider
      policy := protector.policy
      generalAllowed }
    log (.protecting systemTitle invocationCounter)
    Prog.ofExcept (protectApdu C protector ctx plain room)

/-- `send`: encode an APDU into the scratch buffer, and protect it. -/
def send (apdu : Apdu) (room : Nat) : Cli π N Bytes := do
  let plain ← encode apdu.encode N
  let bytes ← sendPlain C plain room
  log (.sent apdu bytes)
  return bytes

end Sending

/-! ## Coming in -/

section Receiving

variable (C : CryptoProvider π)

/-- The APDUs that a server may send without protection. -/
def plainFromServer : List ApduTag := [.aare, .releaseResponse, .exceptionResponse]

/-- What the user information of an AARE may be without protection. -/
def plainInitiate : List ApduTag := [.initiateResponse, .confirmedServiceError]

/-- Take the protection off `apdu` in a buffer of `size` bytes. -/
def unprotect (policy : SecurityPolicy) (plainAllowed : List ApduTag) (size : Nat) (apdu : Bytes) :
    Cli π N Bytes := fun s =>
  let (r, t) := unprotectApdu C s.protector (s.incoming C policy plainAllowed) apdu
    ⟨s.peerReplay, zeros size⟩
  (r.map Opened.plain, { s with peerReplay := t.replay })

/-- `unprotect_into`. -/
def unprotectInto (apdu : Bytes) (size : Nat) : Cli π N Bytes := do
  unprotect C (← Prog.gets fun s => s.protector.policy) plainFromServer size apdu

/-- `unprotect_initiate`: under the global key, whatever the association goes on to use. -/
def unprotectInitiate (apdu : Bytes) : Cli π N Bytes := do
  unprotect C (← Prog.gets fun s => s.config.security.global) plainInitiate 256 apdu

end Receiving

end Cli

end Dlms
