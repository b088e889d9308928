import DlmsCosem.Client.State

/-!
# The client session

The handshake, the request builders, and `handleResponse`, which takes the answer to a request. A
long value goes out block by block through a `BlockSender`, which the caller keeps: a program of
`Sending` runs on the session and on the sender.

A run is a list of `ClientOp`s, one for each method that can change the session.
-/

namespace Dlms

/-! ## What a request is made of -/

/-- One operation of an ACCESS request. -/
inductive AccessItem
  | get (descriptor : AttributeDescriptor) (access : Option SelectiveAccess)
  | set (descriptor : AttributeDescriptor) (access : Option SelectiveAccess) (value : Data)
  | action (descriptor : MethodDescriptor) (parameters : Option Data)
  deriving DecidableEq

namespace AccessItem

/-- `specification`. -/
def specification : AccessItem → AccessRequestSpecification
  | get d none => .get d
  | get d (some access) => .getWithSelection ⟨d, some access⟩
  | set d none _ => .set d
  | set d (some access) _ => .setWithSelection ⟨d, some access⟩
  | action d _ => .action d

/-- The entry of the data list: null where there is nothing to send. -/
def value : AccessItem → Data
  | get _ _ => .null
  | set _ _ v => v
  | action _ p => p.getD .null

end AccessItem

/-- Which service a `BlockSender` feeds. -/
inductive BlockTarget
  | attribute (descriptor : AttributeDescriptor) (access : Option SelectiveAccess)
  | method (descriptor : MethodDescriptor)
  | attributeList (list : WireList)
  deriving DecidableEq

/-- A value that goes out block by block. -/
structure BlockSender where
  target : BlockTarget
  bytes : Bytes
  sent : Nat
  block : UInt32
  fragment : { n : Nat // 0 < n }
  deriving DecidableEq

namespace BlockSender

/-- A sender of which nothing has gone out. -/
def start (target : BlockTarget) (bytes : Bytes) (fragment : { n : Nat // 0 < n }) : BlockSender :=
  { target, bytes, sent := 0, block := 0, fragment }

/-- `is_done`. -/
def isDone (b : BlockSender) : Bool := 0 < b.block && b.bytes.length ≤ b.sent

/-- `blocks`. An empty value is one block. -/
def blocks (b : BlockSender) : Nat :=
  let n := (b.bytes.length + b.fragment - 1) / b.fragment
  if n = 0 then 1 else n

/-- Where the next fragment ends. -/
def stop (b : BlockSender) : Nat := min (b.sent + b.fragment) b.bytes.length

/-- The number after the last block's (`saturating_add`). -/
def nextNumber (b : BlockSender) : UInt32 :=
  if b.block = 0xFFFFFFFF then b.block else b.block + 1

/-- The next block. -/
def nextBlock (b : BlockSender) : DataBlockSA where
  lastBlock := b.stop = b.bytes.length
  blockNumber := b.nextNumber
  rawData := (b.bytes.take b.stop).drop b.sent

/-- The request that carries the next block. The first one carries the descriptor as well. -/
def request (b : BlockSender) (invokeId : InvokeId) : Apdu :=
  match b.target, b.block == 0 with
  | .attribute d access, true =>
    .setRequest (.withFirstDataBlock invokeId d access b.nextBlock)
  | .attribute _ _, false => .setRequest (.withDataBlock invokeId b.nextBlock)
  | .method d, true => .actionRequest (.withFirstPblock invokeId d b.nextBlock)
  | .method _, false => .actionRequest (.withPblock invokeId b.nextBlock)
  | .attributeList ds, true => .setRequest (.withListAndFirstDataBlock invokeId ds b.nextBlock)
  | .attributeList _, false => .setRequest (.withDataBlock invokeId b.nextBlock)

/-- The sender once the next block has gone out. -/
def advance (b : BlockSender) : BlockSender := { b with sent := b.stop, block := b.nextNumber }

end BlockSender

/-- A program over a session and a sender of its caller's. -/
abbrev Sending (π : Type) (N : Nat) (α : Type) := Prog Error (ClientSession π N × BlockSender) α

/-- A method of the session alone. -/
def Sending.onSession {π : Type} {N : Nat} {α : Type} (m : Cli π N α) : Sending π N α := fun (s, b) =>
  ((m s).1, ((m s).2, b))

theorem Sending.onSession_run {π : Type} {N : Nat} {α : Type} {m : Cli π N α} {s t : ClientSession π N}
    {r : Except Error α} (h : m s = (r, t)) (b : BlockSender) : onSession m (s, b) = (r, (t, b)) := by
  simp only [onSession, h]

/-- A program over a session and a sender, from a sender that is given. -/
def Sending.inSession {π : Type} {N : Nat} {α : Type} (m : Sending π N α) (b : BlockSender) : Cli π N α :=
  fun s => ((m (s, b)).1, (m (s, b)).2.1)

/-! ## Responses -/

/-- `response_invoke_id`: the short id of a response, where its service has one. -/
def Apdu.responseInvokeId : Apdu → Option InvokeId
  | getResponse (.normal i _) | getResponse (.withDataBlock i _) | getResponse (.withList i _) => some i
  | setResponse (.normal i _) | setResponse (.dataBlock i _) | setResponse (.lastDataBlock i _ _)
  | setResponse (.lastDataBlockWithList i _ _) | setResponse (.withList i _) => some i
  | actionResponse (.normal i _) | actionResponse (.withPblock i _) | actionResponse (.withList i _)
  | actionResponse (.nextPblock i _) => some i
  | _ => none

/-- The value of a result, where there is one. -/
def GetDataResult.toOption : GetDataResult → Option Data
  | data d => some d
  | error _ => none

/-- The result of a write. -/
def DataAccessResult.response (r : DataAccessResult) : Response :=
  if r.isSuccess then .ok else .dataError r

/-- What a response carries. -/
def Apdu.response : Apdu → Result Response
  | getResponse (.normal _ (.data d)) => .ok (.data d)
  | getResponse (.normal _ (.error e)) => .ok (.dataError e)
  | getResponse (.withList _ results) => .ok (.dataList results)
  | getResponse (.withDataBlock _ ⟨last, number, .ok data⟩) => .ok (.block last number data)
  | getResponse (.withDataBlock _ ⟨_, _, .error e⟩) => .ok (.dataError e)
  | setResponse (.normal _ r) | setResponse (.lastDataBlock _ r _) => .ok r.response
  | setResponse (.dataBlock _ n) => .ok (.blockAccepted n)
  | setResponse (.withList _ results) | setResponse (.lastDataBlockWithList _ results _) =>
    .ok (.resultList results)
  | actionResponse (.normal _ r) =>
    .ok (.actionResult r.result (r.returnParameters.bind GetDataResult.toOption))
  | actionResponse (.nextPblock _ n) => .ok (.blockAccepted n)
  | actionResponse (.withList _ responses) => .ok (.actionResults responses)
  | actionResponse (.withPblock _ b) => .ok (.block b.lastBlock b.blockNumber b.rawData)
  | accessResponse r => .ok (.access r.data r.responseSpecification)
  | readResponse r => .ok (.readResults r.results)
  | writeResponse r => .ok (.writeResults r.results)
  | exceptionResponse e => .ok (.exception e)
  | rlre _ => .ok .released
  | _ => Error.fail .unexpectedMessage 0

/-- Whether a response has a short id that is not that of the request which is outstanding. -/
def Apdu.misdirected (apdu : Apdu) (outstanding : Option InvokeId) : Bool :=
  match outstanding, apdu.responseInvokeId with
  | some asked, some got => got.id != asked.id
  | _, _ => false

/-- What the user information of an AARE holds. -/
inductive Granted
  | initiated (r : InitiateResponse)
  | refused
  deriving DecidableEq

/-- Read the opened user information of an AARE. -/
def readGranted : Read Granted := do
  let tag ← Read.u8
  match ApduTag.fromU8 tag with
  | some .initiateResponse => do
    let r ← InitiateResponse.decode
    Prog.ofExcept r.checkVersion
    return .initiated r
  | some .confirmedServiceError => return .refused
  | _ => Prog.throw ⟨.unexpectedMessage, 0⟩

namespace Cli

variable {π : Type} {N : Nat} (C : CryptoProvider π)

/-! ## The handshake -/

/-- The InitiateRequest, with its tag. -/
def initiateRequest (config : ClientConfig) (dedicatedKey : Option Bytes) : Emit :=
  let request : InitiateRequest := {
    dedicatedKey
    proposedConformance := config.conformance
    clientMaxReceivePduSize := config.maxPduSize }
  Emit.u8 ApduTag.initiateRequest.asU8 ++ request.encode

/-- The dedicated key that is offered. It goes out in a ciphered context only. -/
def offeredKey (config : ClientConfig) : Cli π N (Option Bytes) := do
  if !config.security.isNone && config.security.dedicated then do
    let key ← need (C.dedicatedKey (← Prog.gets fun s => s.protector.provider)) .unsupported
    return some key
  else
    return none

/-- The user information of the AARQ. Its protection is under the global key: the dedicated key is
delivered in it. -/
def requestInfo (config : ClientConfig) (plain : Bytes) : Cli π N Bytes := do
  if config.security.isNone then
    return plain
  else do
    let ic ← nextCounter
    let title ← need config.systemTitle .unexpectedMessage
    let authKey ← authKey C
    log (.protecting title ic)
    let protector ← Prog.gets ClientSession.protector
    let payload ← Prog.ofExcept
      (protector.protectAs C config.security.global title ic authKey plain 128)
    let tag ← need (ApduTag.initiateRequest.protectedAs .global) .unsupported
    encode (Emit.u8 tag.asU8 ++ CipheredService.encode ⟨config.security.control, ic, payload⟩) 160

/-- How long the client's challenge is. -/
def challengeLen (config : ClientConfig) : Nat := max 8 (min config.challengeLen 64)

/-- What the AARQ authenticates itself with: a challenge, or the password. -/
def offeredAuthentication (config : ClientConfig) (rng : Entropy) : Cli π N (Option Bytes) := do
  if config.mechanism.isHighLevel then do
    let challenge ← Prog.ofExcept (rng.fill (challengeLen config))
    Prog.modify fun s => { s with clientChallenge := challenge }
    return some challenge
  else
    return config.password.map Secret.bytes

/-- The AARQ. -/
def requestAarq (config : ClientConfig) (context : ApplicationContext) (authentication : Option Bytes)
    (userInfo : Bytes) : Aarq where
  applicationContext := some context
  callingApTitle := config.systemTitle.map SystemTitle.bytes
  senderAcseRequirements := config.mechanism ≠ .none
  mechanismName := if config.mechanism ≠ .none then some config.mechanism else none
  callingAuthenticationValue := authentication
  userInformation := some userInfo

/-- `associate_request`. -/
def associateRequest (room : Nat) (rng : Entropy) : Cli π N Bytes := do
  let config ← Prog.gets ClientSession.config
  if (!config.security.isNone || config.mechanism == .highGmac) && config.systemTitle.isNone then
    Prog.throw ⟨.unexpectedMessage, 0⟩
  else do
    let dedicatedKey ← offeredKey C config
    let plain ← encode (initiateRequest config dedicatedKey) 64
    let userInfo ← requestInfo C config plain
    let authentication ← offeredAuthentication config rng
    let context ← Prog.gets ClientSession.applicationContext
    let aarq ← encode (requestAarq config context authentication userInfo).encode room
    setState .associating
    return aarq

/-- Close the session, for a reason of the client's own. -/
def reject (diagnostic : Diagnostic) : Cli π N AssociationStep := do
  setState .closed
  return .rejected .rejectedPermanent diagnostic

/-- Go on where an AARE accepts: its user information, and then the proofs where there are some. -/
def takeGranted (aare : Aare) : Cli π N (Option AssociationStep) := do
  match aare.userInformation with
  | none => return none
  | some userInfo => do
    let plain ← unprotectInitiate C userInfo
    match ← Prog.ofExcept (readGranted (Reader.new plain)).1 with
    | .initiated r => do
      Prog.modify fun s => { s with negotiated := some r }
      return none
    | .refused => return some (← reject aare.diagnostic)

/-- What follows once the association is granted. -/
def openSession (config : ClientConfig) (aare : Aare) : Cli π N AssociationStep := do
  Prog.modify fun s =>
    if config.security.dedicated then { s with protector := s.protector.setDedicated true } else s
  if config.mechanism.isHighLevel then do
    let challenge ← need aare.respondingAuthenticationValue .unexpectedMessage
    if 64 < challenge.length then Prog.throw ⟨.invalidLength, 0⟩
    else do
      Prog.modify fun s => { s with serverChallenge := challenge }
      setState .authenticatingHls
      return .hlsReplyRequired
  else do
    setState .associated
    return .established

/-- The title of the AARE. -/
def respondingTitle (aare : Aare) : Cli π N Unit := do
  match aare.respondingApTitle with
  | none => pure ()
  | some title => do
    let title ← Prog.ofExcept (SystemTitle.fromSlice title)
    Prog.modify fun s => { s with serverSystemTitle := some title }

/-- `handle_associate_response`. -/
def handleAssociateResponse (apdu : Bytes) : Cli π N AssociationStep := do
  if apdu.head? = some ApduTag.exceptionResponse.asU8 then do
    setState .closed
    return .exception (← Prog.ofExcept (Read.fromBytes ExceptionResponse.decode (apdu.drop 1)))
  else do
    let aare ← Prog.ofExcept (Read.fromBytes Aare.decode apdu)
    respondingTitle aare
    let config ← Prog.gets ClientSession.config
    let proposed ← Prog.gets ClientSession.applicationContext
    if !aare.isAccepted then do
      setState .closed
      return .rejected aare.result aare.diagnostic
    else if aare.applicationContext.any (· != proposed) then
      reject (.user .applicationContextNameNotSupported)
    else if aare.mechanismName.any (· != config.mechanism) then
      reject (.user .authenticationMechanismNameNotRecognised)
    else if config.mechanism ≠ .none ∧ aare.mechanismName.isNone then
      reject (.user .authenticationRequired)
    else do
      match ← takeGranted C aare with
      | some step => return step
      | none => openSession config aare

/-- The method that takes the client's proof: of the current association. -/
def hlsMethod : MethodDescriptor := ⟨15, ⟨0, 0, 40, 0, 0, 255⟩, 1⟩

/-- `hls_reply_request`. -/
def hlsReplyRequest (room : Nat) : Cli π N Bytes := do
  let config ← Prog.gets ClientSession.config
  if (← Prog.gets ClientSession.state) ≠ .authenticatingHls then Prog.throw ⟨.unexpectedMessage, 0⟩
  else if config.mechanism ≠ .highGmac then Prog.throw ⟨.unsupported, 0⟩
  else do
    let title ← need config.systemTitle .unexpectedMessage
    let ic ← nextCounter
    let authKey ← authKey C
    log (.protecting title ic)
    let protector ← Prog.gets ClientSession.protector
    let challenge ← Prog.gets ClientSession.serverChallenge
    let proof ← Prog.ofExcept (protector.hlsGmacResponse C title ic authKey challenge)
    let invokeId ← nextInvokeId
    send C (.actionRequest (.normal invokeId hlsMethod (some (.octetString proof)))) room

/-- The server's proof in the answer to the client's. -/
def hlsProof (r : ActionResponseWithOptionalData) : Option Bytes :=
  (r.returnParameters.bind GetDataResult.toOption).bind Data.asBytes

/-- `handle_hls_reply_response`. -/
def handleHlsReplyResponse (apdu : Bytes) : Cli π N AssociationStep := do
  let plain ← unprotectInto C apdu 512
  match ← Prog.ofExcept (Apdu.fromBytes plain) with
  | .actionResponse (.normal invokeId response) =>
    if !response.result.isSuccess then do
      log (.authenticated (.actionResponse (.normal invokeId response)))
      reject (.user .authenticationFailure)
    else do
      let proof ← need (hlsProof response) .unexpectedMessage
      let peer ← need (← Prog.gets ClientSession.serverSystemTitle) .unexpectedMessage
      let authKey ← authKey C
      let protector ← Prog.gets ClientSession.protector
      let challenge ← Prog.gets ClientSession.clientChallenge
      Prog.ofExcept (protector.verifyHlsGmac C peer authKey challenge proof)
      log (.authenticated (.actionResponse (.normal invokeId response)))
      setState .associated
      return .established
  | _ => Prog.throw ⟨.unexpectedMessage, 0⟩

/-! ## Requests -/

/-- `get_request`. -/
def getRequest (d : AttributeDescriptor) (access : Option SelectiveAccess) (room : Nat) :
    Cli π N Bytes := do
  requireAssociated
  requireConformance .get
  requireSelection access.isSome
  send C (.getRequest (.normal (← nextInvokeId) d access)) room

/-- The encodings of a list. -/
def encodeAll {α : Type} (encode : α → Emit) (xs : List α) : Emit := Emit.concat (xs.map encode)

/-- Whether an entry of a list has a selector. -/
def selects (items : List AttributeDescriptorWithSelection) : Bool := items.any (·.access.isSome)

/-- `get_request_with_list`. -/
def getRequestWithList (items : List AttributeDescriptorWithSelection) (room : Nat) :
    Cli π N Bytes := do
  requireAssociated
  requireConformance .get
  requireConformance .multipleReferences
  requireArguments (!items.isEmpty)
  requireSelection (selects items)
  let raw ← encode (encodeAll AttributeDescriptorWithSelection.encode items) N
  send C (.getRequest (.withList (← nextInvokeId) (.fromRaw items.length raw))) room

/-- `get_next_block_request`. -/
def getNextBlockRequest (blockNumber : UInt32) (room : Nat) : Cli π N Bytes := do
  requireAssociated
  send C (.getRequest (.next (← outstandingId) blockNumber)) room

/-- `set_request`. -/
def setRequest (d : AttributeDescriptor) (access : Option SelectiveAccess) (value : Data)
    (room : Nat) : Cli π N Bytes := do
  requireAssociated
  requireConformance .set
  requireSelection access.isSome
  send C (.setRequest (.normal (← nextInvokeId) d access value)) room

/-- `set_request_with_list`. -/
def setRequestWithList (items : List AttributeDescriptorWithSelection) (values : List Data)
    (room : Nat) : Cli π N Bytes := do
  requireAssociated
  requireConformance .set
  requireConformance .multipleReferences
  requireArguments (!items.isEmpty && items.length == values.length)
  requireSelection (selects items)
  let (ds, vs) ← encodeTwo (encodeAll AttributeDescriptorWithSelection.encode items)
    (encodeAll Data.encode values) N
  send C (.setRequest (.withList (← nextInvokeId) (.fromRaw items.length ds)
    (.fromRaw values.length vs))) room

/-- `action_request`. -/
def actionRequest (d : MethodDescriptor) (parameters : Option Data) (room : Nat) : Cli π N Bytes := do
  requireAssociated
  requireConformance .action
  send C (.actionRequest (.normal (← nextInvokeId) d parameters)) room

/-- `action_request_with_list`. -/
def actionRequestWithList (descriptors : List MethodDescriptor) (parameters : List (Option Data))
    (room : Nat) : Cli π N Bytes := do
  requireAssociated
  requireConformance .action
  requireConformance .multipleReferences
  requireArguments (!descriptors.isEmpty && descriptors.length == parameters.length &&
    descriptors.length ≤ maxAccessItems)
  let (ds, ps) ← encodeTwo (encodeAll MethodDescriptor.encode descriptors)
    (encodeAll (fun p => Data.encode (p.getD .null)) parameters) N
  send C (.actionRequest (.withList (← nextInvokeId) (.fromRaw descriptors.length ds)
    (.fromRaw parameters.length ps))) room

/-- `action_next_block_request`. -/
def actionNextBlockRequest (blockNumber : UInt32) (room : Nat) : Cli π N Bytes := do
  requireAssociated
  send C (.actionRequest (.nextPblock (← outstandingId) blockNumber)) room

/-- `access_request`. -/
def accessRequest (items : List AccessItem) (room : Nat) : Cli π N Bytes := do
  requireAssociated
  requireConformance .access
  requireArguments (!items.isEmpty && items.length ≤ maxAccessItems)
  let (specification, data) ← encodeTwo
    (encodeAll (fun i => AccessRequestSpecification.encode i.specification) items)
    (encodeAll (fun i => Data.encode i.value) items) N
  send C (.accessRequest ⟨← nextLongInvokeId, ⟨none⟩, .fromRaw items.length specification,
    .fromRaw items.length data⟩) room

/-- The short-name services have no invoke id, so none is outstanding under them. -/
def sendShortName (apdu : Apdu) (room : Nat) : Cli π N Bytes := do
  Prog.modify fun s => { s with outstanding := none }
  send C apdu room

/-- `read_request`. -/
def readRequest (items : List VariableAccess) (room : Nat) : Cli π N Bytes := do
  requireAssociated
  requireShortName
  requireConformance .read
  requireArguments (!items.isEmpty)
  let raw ← encode (encodeAll VariableAccess.encode items) N
  sendShortName C (.readRequest ⟨.fromRaw items.length raw⟩) room

/-- `require_short_name_write`. -/
def requireShortNameWrite (items : List VariableAccess) (values : List Data) : Cli π N Unit := do
  requireAssociated
  requireShortName
  requireConformance .write
  requireArguments (!items.isEmpty && items.length == values.length)

/-- The lists of a write. -/
def encodeWrite (items : List VariableAccess) (values : List Data) : Cli π N WriteRequest := do
  let (specification, vs) ← encodeTwo (encodeAll VariableAccess.encode items)
    (encodeAll Data.encode values) N
  return ⟨.fromRaw items.length specification, .fromRaw values.length vs⟩

/-- `write_request`. -/
def writeRequest (items : List VariableAccess) (values : List Data) (room : Nat) :
    Cli π N Bytes := do
  requireShortNameWrite items values
  sendShortName C (.writeRequest (← encodeWrite items values)) room

/-- `unconfirmed_write_request`. -/
def unconfirmedWriteRequest (items : List VariableAccess) (values : List Data) (room : Nat) :
    Cli π N Bytes := do
  requireShortNameWrite items values
  requireConformance .unconfirmedWrite
  sendShortName C (.unconfirmedWriteRequest (← encodeWrite items values)) room

/-- `release_request`. -/
def releaseRequest (room : Nat) : Cli π N Bytes := do
  let bytes ← encode (Rlrq.encode { reason := some .normal, userInformation := none }) room
  setState .releasing
  return bytes

/-! ## Long values -/

/-- `set_transfer`. -/
def setTransfer (d : AttributeDescriptor) (access : Option SelectiveAccess) (value : Bytes) :
    Cli π N BlockSender := do
  requireAssociated
  requireConformance .set
  requireConformance .blockTransferWithSetOrWrite
  let extra := (access.map fun a => a.encode.size).getD 0
  let fragment ← Prog.ofExcept ((← Prog.gets id).maxFragmentLess extra)
  return .start (.attribute d access) value fragment

/-- `action_transfer`. -/
def actionTransfer (d : MethodDescriptor) (parameters : Bytes) : Cli π N BlockSender := do
  requireAssociated
  requireConformance .action
  requireConformance .blockTransferWithAction
  let fragment ← Prog.ofExcept ((← Prog.gets id).maxFragmentLess 0)
  return .start (.method d) parameters fragment

/-- `set_transfer_with_list`, with a scratch buffer of `scratch` bytes. -/
def setTransferWithList (items : List AttributeDescriptorWithSelection) (values : Bytes)
    (scratch : Nat) : Cli π N BlockSender := do
  requireAssociated
  requireConformance .set
  requireConformance .multipleReferences
  requireConformance .blockTransferWithSetOrWrite
  requireArguments (!items.isEmpty && items.length ≤ maxAccessItems)
  let raw ← encode (encodeAll AttributeDescriptorWithSelection.encode items) scratch
  let list := WireList.fromRaw items.length raw
  let fragment ← Prog.ofExcept ((← Prog.gets id).maxFragmentLess list.encode.size)
  return .start (.attributeList list) values fragment

/-- `next_block_request`. The later blocks carry the id that the session holds as outstanding. -/
def nextBlockRequest (room : Nat) : Sending π N Bytes := do
  Sending.onSession requireAssociated
  let sender ← Prog.gets Prod.snd
  if sender.isDone then Prog.throw ⟨.unexpectedMessage, 0⟩
  else do
    let invokeId ← Sending.onSession (if sender.block = 0 then nextInvokeId else outstandingId)
    let bytes ← Sending.onSession (send C (sender.request invokeId) room)
    Prog.modify fun (s, b) => (s, b.advance)
    return bytes

/-! ## Responses -/

/-- `handle_response`, with a buffer of `size` bytes. -/
def handleResponse (apdu : Bytes) (size : Nat) : Cli π N Response := do
  let plain ← unprotectInto C apdu size
  let decoded ← Prog.ofExcept (Apdu.fromBytes plain)
  let outstanding ← Prog.gets ClientSession.outstanding
  if decoded.misdirected outstanding then Prog.throw ⟨.unexpectedMessage, 0⟩
  else do
    let response ← Prog.ofExcept decoded.response
    Prog.modify fun s => if response = .released then { s with state := .closed } else s
    log (.returned decoded response)
    return response

end Cli

/-! ## Runs -/

/-- What may happen to a session. `next_block_request` is called with a sender of the caller's. -/
inductive ClientOp
  | associateRequest (room : Nat) (rng : Entropy)
  | handleAssociateResponse (apdu : Bytes)
  | hlsReplyRequest (room : Nat)
  | handleHlsReplyResponse (apdu : Bytes)
  | setInvocationCounter (value : UInt32)
  | getRequest (d : AttributeDescriptor) (access : Option SelectiveAccess) (room : Nat)
  | getRequestWithList (items : List AttributeDescriptorWithSelection) (room : Nat)
  | getNextBlockRequest (blockNumber : UInt32) (room : Nat)
  | setRequest (d : AttributeDescriptor) (access : Option SelectiveAccess) (value : Data) (room : Nat)
  | setRequestWithList (items : List AttributeDescriptorWithSelection) (values : List Data)
      (room : Nat)
  | actionRequest (d : MethodDescriptor) (parameters : Option Data) (room : Nat)
  | actionRequestWithList (descriptors : List MethodDescriptor) (parameters : List (Option Data))
      (room : Nat)
  | actionNextBlockRequest (blockNumber : UInt32) (room : Nat)
  | accessRequest (items : List AccessItem) (room : Nat)
  | readRequest (items : List VariableAccess) (room : Nat)
  | writeRequest (items : List VariableAccess) (values : List Data) (room : Nat)
  | unconfirmedWriteRequest (items : List VariableAccess) (values : List Data) (room : Nat)
  | releaseRequest (room : Nat)
  | nextBlockRequest (sender : BlockSender) (room : Nat)
  | handleResponse (apdu : Bytes) (size : Nat)

namespace ClientSession

variable {π : Type} {N : Nat} (C : CryptoProvider π)

/-- `set_invocation_counter`. -/
def setInvocationCounter (value : UInt32) (s : ClientSession π N) : ClientSession π N :=
  { s with invocationCounter := ⟨value⟩ }

/-- One step. -/
def step (s : ClientSession π N) : ClientOp → ClientSession π N
  | .associateRequest room rng => (Cli.associateRequest C room rng s).2
  | .handleAssociateResponse apdu => (Cli.handleAssociateResponse C apdu s).2
  | .hlsReplyRequest room => (Cli.hlsReplyRequest C room s).2
  | .handleHlsReplyResponse apdu => (Cli.handleHlsReplyResponse C apdu s).2
  | .setInvocationCounter value => s.setInvocationCounter value
  | .getRequest d access room => (Cli.getRequest C d access room s).2
  | .getRequestWithList items room => (Cli.getRequestWithList C items room s).2
  | .getNextBlockRequest n room => (Cli.getNextBlockRequest C n room s).2
  | .setRequest d access value room => (Cli.setRequest C d access value room s).2
  | .setRequestWithList items values room => (Cli.setRequestWithList C items values room s).2
  | .actionRequest d parameters room => (Cli.actionRequest C d parameters room s).2
  | .actionRequestWithList ds ps room => (Cli.actionRequestWithList C ds ps room s).2
  | .actionNextBlockRequest n room => (Cli.actionNextBlockRequest C n room s).2
  | .accessRequest items room => (Cli.accessRequest C items room s).2
  | .readRequest items room => (Cli.readRequest C items room s).2
  | .writeRequest items values room => (Cli.writeRequest C items values room s).2
  | .unconfirmedWriteRequest items values room =>
    (Cli.unconfirmedWriteRequest C items values room s).2
  | .releaseRequest room => (Cli.releaseRequest room s).2
  | .nextBlockRequest sender room => (Cli.nextBlockRequest C room (s, sender)).2.1
  | .handleResponse apdu size => (Cli.handleResponse C apdu size s).2

end ClientSession

/-- The method of a step. A value that it gives is dropped. -/
def ClientOp.method {π : Type} {N : Nat} (C : CryptoProvider π) : ClientOp → Cli π N Unit
  | .associateRequest room rng => (Cli.associateRequest C room rng).drop
  | .handleAssociateResponse apdu => (Cli.handleAssociateResponse C apdu).drop
  | .hlsReplyRequest room => (Cli.hlsReplyRequest C room).drop
  | .handleHlsReplyResponse apdu => (Cli.handleHlsReplyResponse C apdu).drop
  | .setInvocationCounter value => Prog.modify (ClientSession.setInvocationCounter value)
  | .getRequest d access room => (Cli.getRequest C d access room).drop
  | .getRequestWithList items room => (Cli.getRequestWithList C items room).drop
  | .getNextBlockRequest n room => (Cli.getNextBlockRequest C n room).drop
  | .setRequest d access value room => (Cli.setRequest C d access value room).drop
  | .setRequestWithList items values room => (Cli.setRequestWithList C items values room).drop
  | .actionRequest d parameters room => (Cli.actionRequest C d parameters room).drop
  | .actionRequestWithList ds ps room => (Cli.actionRequestWithList C ds ps room).drop
  | .actionNextBlockRequest n room => (Cli.actionNextBlockRequest C n room).drop
  | .accessRequest items room => (Cli.accessRequest C items room).drop
  | .readRequest items room => (Cli.readRequest C items room).drop
  | .writeRequest items values room => (Cli.writeRequest C items values room).drop
  | .unconfirmedWriteRequest items values room =>
    (Cli.unconfirmedWriteRequest C items values room).drop
  | .releaseRequest room => (Cli.releaseRequest room).drop
  | .nextBlockRequest sender room => ((Cli.nextBlockRequest C room).inSession sender).drop
  | .handleResponse apdu size => (Cli.handleResponse C apdu size).drop

theorem ClientSession.step_eq {π : Type} {N : Nat} (C : CryptoProvider π) (s : ClientSession π N)
    (op : ClientOp) : s.step C op = (op.method C s).2 := by
  cases op with
  | setInvocationCounter value => rfl
  | nextBlockRequest sender room =>
    exact (Prog.drop_snd ((Cli.nextBlockRequest C room).inSession sender) s).symm
  | _ => exact (Prog.drop_snd ..).symm

end Dlms
