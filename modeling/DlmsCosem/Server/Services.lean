import DlmsCosem.Server.State

/-!
# The services of a server

One handler for each form of GET, SET, ACTION, ACCESS and of the short-name services. Every access
to an object is one of three programs, which ask the store for the rights first: `writeOne`,
`runMethod`, and a read. A value that does not fit one APDU goes out in blocks (`sendNextBlock`),
and one that arrives in blocks gathers in the response buffer.
-/

namespace Dlms

namespace Srv

variable {σ π : Type} {N : Nat} (C : CryptoProvider π) (S : ObjectStore σ)

/-! ## Refusals -/

/-- What a GET or a SET response has around its value. -/
def normalHeaderMax : Nat := 1 + 1 + 1 + 1

/-- What an ACTION response has around its value. -/
def actionHeaderMax : Nat := 1 + 1 + 1 + 1 + 1 + 1

def getError (invokeId : InvokeId) (e : DataAccessResult) (room : Nat) : Srv σ π N Bytes :=
  send C (.getResponse (.normal invokeId (.error e))) room

def actionError (invokeId : InvokeId) (e : ActionResult) (room : Nat) : Srv σ π N Bytes :=
  send C (.actionResponse (.normal invokeId ⟨e, none⟩)) room

def setError (invokeId : InvokeId) (e : DataAccessResult) (room : Nat) : Srv σ π N Bytes :=
  send C (.setResponse (.normal invokeId e)) room

def setLastBlock (invokeId : InvokeId) (result : DataAccessResult) (blockNumber : UInt32)
    (room : Nat) : Srv σ π N Bytes :=
  send C (.setResponse (.lastDataBlock invokeId result blockNumber)) room

def readError (e : DataAccessResult) (room : Nat) : Srv σ π N Bytes := do
  let w ← emit (ReadResult.error e).encode (SliceWriter.new (zeros 2))
  send C (.readResponse ⟨.fromRaw 1 w.asSlice⟩) room

/-- The two checks that the handlers of services start with. -/
def serving (required : Conformance) (room : Nat) (m : Srv σ π N Bytes) : Srv σ π N Bytes := do
  let state ← Prog.gets Server.state
  let negotiated ← Prog.gets Server.negotiated
  if state ≠ .associated then
    exception C .serviceNotAllowed .operationNotPossible room
  else if !negotiated.contains required then
    exception C .serviceUnknown .serviceNotSupported room
  else
    m

/-- `m`, where several references in one request were agreed to. -/
def withReferences (room : Nat) (m : Srv σ π N Bytes) : Srv σ π N Bytes := do
  let negotiated ← Prog.gets Server.negotiated
  if !negotiated.contains .multipleReferences then
    exception C .serviceUnknown .serviceNotSupported room
  else
    m

/-! ## Access to objects -/

def auditRead (d : AttributeDescriptor) (outcome : DataAccessResult) : Srv σ π N Unit :=
  audit S (.attributeRead d outcome)

/-- `write_one`: one write, where the rights allow it. -/
def writeOne (d : AttributeDescriptor) (access : Option SelectiveAccess) (value : Data) :
    Srv σ π N DataAccessResult := do
  let rights ← attributeAccess S .write d
  let result ← (if rights.canWrite then do
      match ← setAttribute S d access value with
      | .ok () => return .success
      | .error e => return e
    else pure .readWriteDenied)
  audit S (.attributeWritten d result)
  return result

/-- `run_method`: one invocation, where the rights allow it. -/
def runMethod (d : MethodDescriptor) (parameters : Option Data) (w : SliceWriter) :
    Srv σ π N (Except ActionResult Bool × SliceWriter) := do
  let rights ← methodAccess S d
  let (outcome, w) ← (if rights.canInvoke then invokeMethod S d parameters w
    else pure (.error .readWriteDenied, w))
  audit S (.methodInvoked d (match outcome with
    | .ok _ => .success
    | .error e => e))
  return (outcome, w)

/-! ## Delivery in blocks -/

/-- The APDU of one block. -/
def blockApdu (invokeId : InvokeId) (service : Outbound) (lastBlock : Bool) (number : UInt32)
    (payload : Bytes) : Srv σ π N Apdu :=
  match service with
  | .read =>
    -- A short-name block has a number of sixteen bits.
    if 0x10000 ≤ number.toNat then Prog.throw ⟨.invalidLength, 0⟩
    else do
      let w ← emit (ReadResult.block lastBlock (UInt16.ofNat number.toNat) payload).encode
        (SliceWriter.new (zeros N))
      return .readResponse ⟨.fromRaw 1 w.asSlice⟩
  | .get => pure (.getResponse (.withDataBlock invokeId ⟨lastBlock, number, .ok payload⟩))
  | .action => pure (.actionResponse (.withPblock invokeId ⟨lastBlock, number, payload⟩))

/-- `number + 1`, or `number` where there is none (`saturating_add`). -/
def nextNumber (number : UInt32) : UInt32 := if number = 0xFFFFFFFF then number else number + 1

/-- The refusal of a transfer in its own service. -/
def transferError (invokeId : InvokeId) (service : Outbound) (get : DataAccessResult)
    (action : ActionResult) (room : Nat) : Srv σ π N Bytes :=
  match service with
  | .get => getError C invokeId get room
  | .action => actionError C invokeId action room
  | .read => readError C get room

/-- `send_next_block`: the next fragment of what is being sent. -/
def sendNextBlock (room : Nat) : Srv σ π N Bytes := do
  match ← Prog.gets Server.transfer with
  | .sending invokeId service len sent block => do
    let max ← Prog.gets Server.maxFragment
    if max = 0 then do
      setTransfer .idle
      transferError C invokeId service .longGetAborted .longActionAborted room
    else do
      let end' := min (sent + max) len
      let take := end' - sent
      if N < take then Prog.throw ⟨.bufferTooSmall take, 0⟩
      else do
        let payload ← Prog.gets fun s => s.response.get sent end'
        let lastBlock := end' == len
        let number := nextNumber block
        let apdu ← blockApdu invokeId service lastBlock number payload
        let bytes ← send C apdu room
        setTransfer (if lastBlock then .idle else .sending invokeId service len end' number)
        return bytes
  | _ => exception C .serviceNotAllowed .operationNotPossible room

/-- What a service needs agreed to before it sends in blocks. -/
def Outbound.required : Outbound → Conformance
  | .get | .read => .blockTransferWithGetOrRead
  | .action => .blockTransferWithAction

/-- `deliver_blocked`: start sending what the response buffer holds. -/
def deliverBlocked (invokeId : InvokeId) (service : Outbound) (len room : Nat) :
    Srv σ π N Bytes := do
  let negotiated ← Prog.gets Server.negotiated
  if !negotiated.contains (Outbound.required service) then do
    setTransfer .idle
    transferError C invokeId service .dataBlockUnavailable .dataBlockUnavailable room
  else do
    setTransfer (.sending invokeId service len 0 0)
    sendNextBlock C room

/-! ## GET -/

/-- `handle_get`, for one attribute. -/
def getNormal (invokeId : InvokeId) (d : AttributeDescriptor) (access : Option SelectiveAccess)
    (room : Nat) : Srv σ π N Bytes := do
  setTransfer .idle
  let rights ← attributeAccess S .read d
  if !rights.canRead then do
    auditRead S d .readWriteDenied
    getError C invokeId .readWriteDenied room
  else do
    let (result, w) ← getAttribute S d access (SliceWriter.new (zeros N))
    match result with
    | .error e => do
      auditRead S d e
      getError C invokeId e room
    | .ok () => do
      auditRead S d .success
      let value := w.asSlice
      if w.pos = 0 then do
        -- The store said that it wrote a value and did not.
        auditRead S d .otherReason
        getError C invokeId .otherReason room
      else if ← Prog.gets fun s => s.fitsOne normalHeaderMax w.pos then do
        let data ← Prog.ofExcept (Read.fromBytes Data.decode value)
        send C (.getResponse (.normal invokeId (.data data))) room
      else do
        let negotiated ← Prog.gets Server.negotiated
        if !negotiated.contains .blockTransferWithGetOrRead then
          getError C invokeId .dataBlockUnavailable room
        else do
          putResponse 0 value w.pos
          setTransfer (.sending invokeId .get w.pos 0 0)
          sendNextBlock C room

/-- One item of a GET with a list: a choice byte and the value, or the reason there is none. -/
def getListItem (w : SliceWriter) (item : Result AttributeDescriptorWithSelection) :
    Srv σ π N SliceWriter := do
  let item ← Prog.ofExcept item
  let d := item.descriptor
  let rights ← attributeAccess S .read d
  if rights.canRead then do
    let w ← emit (Emit.u8 0) w
    let before := w.pos
    let (result, w) ← getAttribute S d item.access w
    match result with
    | .ok () =>
      if w.pos = before then do
        let w ← truncate (before - 1) w
        let w ← emit (Emit.u8 1 ++ Emit.u8 DataAccessResult.otherReason.asU8) w
        auditRead S d .otherReason
        return w
      else do
        auditRead S d .success
        return w
    | .error e => do
      let w ← truncate (before - 1) w
      let w ← emit (Emit.u8 1 ++ Emit.u8 e.asU8) w
      auditRead S d e
      return w
  else do
    let w ← emit (Emit.u8 1 ++ Emit.u8 DataAccessResult.readWriteDenied.asU8) w
    auditRead S d .readWriteDenied
    return w

/-- The count of a list, as it is written. -/
def countPrefix (count : Nat) : Srv σ π N Bytes := do
  return (← emit (Emit.length count) (SliceWriter.new (zeros 5))).asSlice

/-- `handle_get_with_list`. -/
def handleGetWithList (invokeId : InvokeId) (list : WireList) (room : Nat) : Srv σ π N Bytes :=
  withReferences C room do
    setTransfer .idle
    let items := list.iter AttributeDescriptorWithSelection.decode
    let w ← Prog.fold (getListItem S) (SliceWriter.new (zeros N)) items
    let results := w.asSlice
    let count ← countPrefix items.length
    let bodyLen := count.length + w.pos
    if ← Prog.gets fun s => s.fitsOne normalHeaderMax bodyLen then
      send C (.getResponse (.withList invokeId (.fromRaw items.length results))) room
    else do
      let negotiated ← Prog.gets Server.negotiated
      if !negotiated.contains .blockTransferWithGetOrRead then
        getError C invokeId .dataBlockUnavailable room
      else do
        -- What is blocked is the encoded list, its count included.
        putResponse 0 count bodyLen
        putResponse count.length results bodyLen
        setTransfer (.sending invokeId .get bodyLen 0 0)
        sendNextBlock C room

/-- `handle_get_next` and `handle_action_next`: the client acknowledges a block. -/
def handleNext (service : Outbound) (missing wrong : Srv σ π N Bytes) (invokeId : InvokeId)
    (acked : UInt32) (room : Nat) : Srv σ π N Bytes := do
  match ← Prog.gets Server.transfer with
  | .sending id svc _ _ block =>
    if svc ≠ service then missing
    else if invokeId ≠ id ∨ acked ≠ block then do
      setTransfer .idle
      wrong
    else sendNextBlock C room
  | _ => missing

def handleGetNext (invokeId : InvokeId) (acked : UInt32) (room : Nat) : Srv σ π N Bytes :=
  handleNext C .get (getError C invokeId .noLongGetInProgress room)
    (getError C invokeId .dataBlockNumberInvalid room) invokeId acked room

def handleActionNext (invokeId : InvokeId) (acked : UInt32) (room : Nat) : Srv σ π N Bytes :=
  handleNext C .action (actionError C invokeId .noLongActionInProgress room)
    (actionError C invokeId .dataBlockUnavailable room) invokeId acked room

/-- `handle_get`. -/
def handleGet (req : GetRequest) (room : Nat) : Srv σ π N Bytes :=
  serving C .get room
    (match req with
    | .normal invokeId d access => getNormal C S invokeId d access room
    | .next invokeId blockNumber => handleGetNext C invokeId blockNumber room
    | .withList invokeId list => handleGetWithList C S invokeId list room)

/-! ## SET -/

/-- One pair of a SET with a list. -/
def setListItem (w : SliceWriter) (x : Result AttributeDescriptorWithSelection × Result Data) :
    Srv σ π N SliceWriter := do
  let item ← Prog.ofExcept x.1
  let value ← Prog.ofExcept x.2
  let result ← writeOne S item.descriptor item.access value
  emit (Emit.u8 result.asU8) w

/-- `handle_set_with_list`. -/
def handleSetWithList (invokeId : InvokeId) (descriptors values : WireList) (room : Nat) :
    Srv σ π N Bytes :=
  withReferences C room do
    if descriptors.count ≠ values.count then
      exception C .serviceNotAllowed .operationNotPossible room
    else do
      setTransfer .idle
      let items := (descriptors.iter AttributeDescriptorWithSelection.decode).zip
        (values.iter Data.decode)
      let w ← Prog.fold (setListItem S) (SliceWriter.new (zeros N)) items
      send C (.setResponse (.withList invokeId (.fromRaw items.length w.asSlice))) room

/-- `finish_blocked_list_set`: the list that came with the first block, and the values that the
blocks brought. -/
def finishBlockedListSet (invokeId : InvokeId) (headerEnd len : Nat) (blockNumber : UInt32)
    (room : Nat) : Srv σ π N Bytes := do
  let header ← Prog.gets fun s => s.response.get 0 headerEnd
  let valuesBytes ← Prog.gets fun s => s.response.get headerEnd (headerEnd + len)
  let descriptors ← Prog.ofExcept
    (Read.fromBytes (WireList.decodeOf AttributeDescriptorWithSelection.decode) header)
  let values ← Prog.ofExcept (Read.fromBytes (WireList.decodeOf Data.decode) valuesBytes)
  if descriptors.count ≠ values.count then do
    setTransfer .idle
    setError C invokeId .typeUnmatched room
  else do
    let items := (descriptors.iter AttributeDescriptorWithSelection.decode).zip
      (values.iter Data.decode)
    let w ← Prog.fold (setListItem S) (SliceWriter.new (zeros maxAccessItems)) items
    send C (.setResponse (.lastDataBlockWithList invokeId (.fromRaw items.length w.asSlice)
      blockNumber)) room

/-- The last block of a blocked write: decode what gathered and write it. -/
def finishBlockedSet (invokeId : InvokeId) (d : AttributeDescriptor) (headerEnd len : Nat)
    (blockNumber : UInt32) (room : Nat) : Srv σ π N Bytes := do
  let header ← Prog.gets fun s => s.response.get 0 headerEnd
  let selective ← (if headerEnd = 0 then pure none
    else some <$> Prog.ofExcept (Read.fromBytes SelectiveAccess.decode header))
  let bytes ← Prog.gets fun s => s.response.get headerEnd (headerEnd + len)
  let value ← Prog.ofExcept (Read.fromBytes Data.decode bytes)
  let result ← writeOne S d selective value
  setLastBlock C invokeId result blockNumber room

/-- `continue_blocked_set`: a block of a long SET, the first one too. -/
def continueBlockedSet (invokeId : InvokeId) (block : DataBlockSA) (room : Nat) :
    Srv σ π N Bytes := do
  match ← Prog.gets Server.transfer with
  | .receivingSet id d list headerEnd len last =>
    if invokeId ≠ id ∨ block.blockNumber ≠ nextNumber last then do
      setTransfer .idle
      setError C invokeId .dataBlockNumberInvalid room
    else do
      let response ← Prog.gets Server.response
      match response.copyAt (headerEnd + len) block.rawData with
      | none => do
        setTransfer .idle
        setError C invokeId .longSetAborted room
      | some response => do
        Prog.modify fun s => { s with response }
        let len := len + block.rawData.length
        if !block.lastBlock then do
          setTransfer (.receivingSet invokeId d list headerEnd len block.blockNumber)
          send C (.setResponse (.dataBlock invokeId block.blockNumber)) room
        else do
          setTransfer .idle
          if list then finishBlockedListSet C S invokeId headerEnd len block.blockNumber room
          else finishBlockedSet C S invokeId d headerEnd len block.blockNumber room
  | _ => setError C invokeId .noLongSetInProgress room

/-- `begin_blocked_set`: the first block. The selector waits for the last one at the front of the
response buffer. -/
def beginBlockedSet (invokeId : InvokeId) (d : AttributeDescriptor)
    (access : Option SelectiveAccess) (block : DataBlockSA) (room : Nat) : Srv σ π N Bytes := do
  setTransfer .idle
  let negotiated ← Prog.gets Server.negotiated
  if !negotiated.contains .blockTransferWithSetOrWrite then
    setError C invokeId .dataBlockUnavailable room
  else do
    let rights ← attributeAccess S .gather d
    if !rights.canWrite then do
      audit S (.attributeWritten d .readWriteDenied)
      setLastBlock C invokeId .readWriteDenied block.blockNumber room
    else do
      let headerEnd ← (match access with
        | none => pure 0
        | some sa => encodeResponse sa.encode)
      setTransfer (.receivingSet invokeId d false headerEnd 0 0)
      continueBlockedSet C S invokeId block room

/-- `begin_blocked_list_set`: the first block of a batched write. The list waits for the last
block at the front of the response buffer. -/
def beginBlockedListSet (invokeId : InvokeId) (descriptors : WireList) (block : DataBlockSA)
    (room : Nat) : Srv σ π N Bytes := do
  setTransfer .idle
  let negotiated ← Prog.gets Server.negotiated
  if !negotiated.contains .multipleReferences ∨
      !negotiated.contains .blockTransferWithSetOrWrite then
    setError C invokeId .dataBlockUnavailable room
  else if maxAccessItems < descriptors.count then
    setError C invokeId .otherReason room
  else do
    let headerEnd ← encodeResponse descriptors.encode
    setTransfer (.receivingSet invokeId ⟨0, ⟨0, 0, 0, 0, 0, 0⟩, 0⟩ true headerEnd 0 0)
    continueBlockedSet C S invokeId block room

/-- `handle_set`. -/
def handleSet (req : SetRequest) (room : Nat) : Srv σ π N Bytes :=
  serving C .set room
    (match req with
    | .normal invokeId d access value => do
      setTransfer .idle
      let result ← writeOne S d access value
      send C (.setResponse (.normal invokeId result)) room
    | .withFirstDataBlock invokeId d access block => beginBlockedSet C S invokeId d access block room
    | .withDataBlock invokeId block => continueBlockedSet C S invokeId block room
    | .withList invokeId descriptors values =>
      handleSetWithList C S invokeId descriptors values room
    | .withListAndFirstDataBlock invokeId descriptors block =>
      beginBlockedListSet C S invokeId descriptors block room)

/-! ## ACTION -/

/-- `answer_method`: a method's outcome as a reply, in blocks where it is long. -/
def answerMethod (invokeId : InvokeId) (outcome : Except ActionResult Bool) (value : Bytes)
    (room : Nat) : Srv σ π N Bytes := do
  match outcome with
  | .error e => actionError C invokeId e room
  | .ok false => send C (.actionResponse (.normal invokeId ⟨.success, none⟩)) room
  | .ok true =>
    if value = [] then actionError C invokeId .otherReason room
    else if ← Prog.gets fun s => s.fitsOne actionHeaderMax value.length then do
      let data ← Prog.ofExcept (Read.fromBytes Data.decode value)
      send C (.actionResponse (.normal invokeId ⟨.success, some (.data data)⟩)) room
    else do
      putResponse 0 value value.length
      deliverBlocked C invokeId .action value.length room

/-- `invoke_and_answer`. -/
def invokeAndAnswer (invokeId : InvokeId) (d : MethodDescriptor) (parameters : Option Data)
    (room : Nat) : Srv σ π N Bytes := do
  let (outcome, w) ← runMethod S d parameters (SliceWriter.new (zeros N))
  answerMethod C invokeId outcome w.asSlice room

/-- `continue_blocked_action`: a block of a long ACTION parameter. -/
def continueBlockedAction (invokeId : InvokeId) (block : DataBlockSA) (room : Nat) :
    Srv σ π N Bytes := do
  match ← Prog.gets Server.transfer with
  | .receivingAction id d len last =>
    if invokeId ≠ id ∨ block.blockNumber ≠ nextNumber last then do
      setTransfer .idle
      actionError C invokeId .dataBlockUnavailable room
    else do
      let response ← Prog.gets Server.response
      match response.copyAt len block.rawData with
      | none => do
        setTransfer .idle
        actionError C invokeId .longActionAborted room
      | some response => do
        Prog.modify fun s => { s with response }
        let end' := len + block.rawData.length
        if !block.lastBlock then do
          setTransfer (.receivingAction invokeId d end' block.blockNumber)
          send C (.actionResponse (.nextPblock invokeId block.blockNumber)) room
        else do
          setTransfer .idle
          let bytes ← Prog.gets fun s => s.response.get 0 end'
          let parameters ← Prog.ofExcept (Read.fromBytes Data.decode bytes)
          invokeAndAnswer C S invokeId d (some parameters) room
  | _ => actionError C invokeId .noLongActionInProgress room

/-- `null-data` stands for no parameter. -/
def parameterOf (value : Data) : Option Data := if value = .null then none else some value

/-- One method of an ACTION with a list. -/
def actionListItem (w : SliceWriter) (x : Result MethodDescriptor × Result Data) :
    Srv σ π N SliceWriter := do
  let d ← Prog.ofExcept x.1
  let parameter ← Prog.ofExcept x.2
  let before := w.pos
  -- The result, the flag of the return value and its choice; the store writes behind them.
  let w ← emit (Emit.u8 ActionResult.success.asU8 ++ Emit.u8 1 ++ Emit.u8 0) w
  let valueAt := w.pos
  let (outcome, w) ← runMethod S d (parameterOf parameter) w
  match outcome with
  | .ok true =>
    if w.pos = valueAt then do
      let w ← truncate before w
      emit (Emit.u8 ActionResult.otherReason.asU8 ++ Emit.u8 0) w
    else pure w
  | .ok false => do
    let w ← truncate before w
    emit (Emit.u8 ActionResult.success.asU8 ++ Emit.u8 0) w
  | .error e => do
    let w ← truncate before w
    emit (Emit.u8 e.asU8 ++ Emit.u8 0) w

/-- `handle_action_with_list`. -/
def handleActionWithList (invokeId : InvokeId) (descriptors parameters : WireList) (room : Nat) :
    Srv σ π N Bytes :=
  withReferences C room do
    if descriptors.count ≠ parameters.count ∨ maxAccessItems < descriptors.count then
      exception C .serviceNotAllowed .operationNotPossible room
    else do
      setTransfer .idle
      let items := (descriptors.iter MethodDescriptor.decode).zip (parameters.iter Data.decode)
      let w ← Prog.fold (actionListItem S) (SliceWriter.new (zeros N)) items
      send C (.actionResponse (.withList invokeId (.fromRaw items.length w.asSlice))) room

/-- `handle_action`, after the HLS reply was told apart. -/
def serveAction (req : ActionRequest) (room : Nat) : Srv σ π N Bytes :=
  serving C .action room
    (match req with
    | .normal invokeId d parameters => do
      setTransfer .idle
      invokeAndAnswer C S invokeId d parameters room
    | .nextPblock invokeId blockNumber => handleActionNext C invokeId blockNumber room
    | .withFirstPblock invokeId d block => do
      setTransfer .idle
      let negotiated ← Prog.gets Server.negotiated
      if !negotiated.contains .blockTransferWithAction then
        actionError C invokeId .dataBlockUnavailable room
      else do
        setTransfer (.receivingAction invokeId d 0 0)
        continueBlockedAction C S invokeId block room
    | .withPblock invokeId block => continueBlockedAction C S invokeId block room
    | .withList invokeId descriptors parameters =>
      handleActionWithList C S invokeId descriptors parameters room
    | .withListAndFirstPblock _ _ _ => exception C .serviceUnknown .serviceNotSupported room)

/-! ## ACCESS -/

/-- `access_one`: one read or write of an ACCESS request. The data list keeps a place for it. -/
def accessOne (d : AttributeDescriptor) (access : Option SelectiveAccess) (value : Data)
    (isGet : Bool) (dw : SliceWriter) : Srv σ π N (AccessResponseSpecification × SliceWriter) := do
  if !isGet then do
    let result ← writeOne S d access value
    match SliceWriter.emit Data.null.encode dw with
    | (.error _, dw) => return (.set .otherReason, dw)
    | (.ok (), dw) => return (.set result, dw)
  else do
    let rights ← attributeAccess S .read d
    let before := dw.pos
    let (outcome, dw) ← (if rights.canRead then do
        let (result, dw) ← getAttribute S d access dw
        return (match result with
          | .ok () => if dw.pos = before then .otherReason else .success
          | .error e => e, dw)
      else pure (.readWriteDenied, dw))
    if outcome ≠ .success then
      match (do SliceWriter.truncate before; SliceWriter.emit Data.null.encode : Write Unit) dw with
      | (.error _, dw) => return (.get .otherReason, dw)
      | (.ok (), dw) => do
        auditRead S d outcome
        return (.get outcome, dw)
    else do
      auditRead S d outcome
      return (.get outcome, dw)

/-- A method of an ACCESS request. -/
def accessAction (d : MethodDescriptor) (value : Data) (dw : SliceWriter) :
    Srv σ π N (AccessResponseSpecification × SliceWriter) := do
  let before := dw.pos
  let (outcome, dw) ← runMethod S d (parameterOf value) dw
  match outcome with
  | .ok true => return (.action .success, dw)
  | .ok false => return (.action .success, ← emit Data.null.encode dw)
  | .error e => do
    let dw ← truncate before dw
    return (.action e, ← emit Data.null.encode dw)

/-- One operation of an ACCESS request, with its value: the data list and the result list grow
side by side. -/
def accessItem (w : SliceWriter × SliceWriter)
    (x : Result AccessRequestSpecification × Result Data) :
    Srv σ π N (SliceWriter × SliceWriter) := do
  let spec ← Prog.ofExcept x.1
  let value ← Prog.ofExcept x.2
  let (outcome, dw) ← (match spec with
    | .get d => accessOne S d none value true w.1
    | .set d => accessOne S d none value false w.1
    | .getWithSelection d => accessOne S d.descriptor d.access value true w.1
    | .setWithSelection d => accessOne S d.descriptor d.access value false w.1
    | .action d => accessAction S d value w.1)
  return (dw, ← emit outcome.encode w.2)

/-- `handle_access`. -/
def handleAccess (req : AccessRequest) (room : Nat) : Srv σ π N Bytes :=
  serving C .access room do
    if req.specification.count ≠ req.data.count then
      exception C .serviceNotAllowed .operationNotPossible room
    else if maxAccessItems < req.specification.count then
      exception C .serviceNotAllowed .pduTooLong room
    else do
      setTransfer .idle
      let items := (req.specification.iter AccessRequestSpecification.decode).zip
        (req.data.iter Data.decode)
      let w ← Prog.fold (accessItem S)
        (SliceWriter.new (zeros N), SliceWriter.new (zeros (maxAccessItems * 2))) items
      send C (.accessResponse {
        longInvokeId := req.longInvokeId
        dateTime := ⟨none⟩
        requestSpecification := none
        data := .fromRaw items.length w.1.asSlice
        responseSpecification := .fromRaw items.length w.2.asSlice }) room

/-! ## Short names -/

/-- `action_to_data_access`: a method's outcome in a short-name response. -/
def actionToDataAccess : ActionResult → DataAccessResult
  | .success => .success
  | .hardwareFault => .hardwareFault
  | .temporaryFailure => .temporaryFailure
  | .readWriteDenied => .readWriteDenied
  | .objectUndefined => .objectUndefined
  | .objectClassInconsistent => .objectClassInconsistent
  | .objectUnavailable => .objectUnavailable
  | .typeUnmatched => .typeUnmatched
  | .scopeOfAccessViolated => .scopeOfAccessViolated
  | .dataBlockUnavailable => .dataBlockUnavailable
  | .longActionAborted => .longGetAborted
  | .noLongActionInProgress => .noLongGetInProgress
  | .otherReason | .other _ => .otherReason

/-- The name and the selector of an entry that has a name. -/
def namedEntry : VariableAccess → Option (ObjectName × Option SelectiveAccess)
  | .variableName name => some (name, none)
  | .parameterized name selector parameter => some (name, some ⟨selector, parameter⟩)
  | _ => none

/-- `read_one`: one entry of a short-name read. Reading a method's name invokes it. -/
def readOne (entry : VariableAccess) (w : SliceWriter) :
    Srv σ π N (Except DataAccessResult Unit × SliceWriter) := do
  match namedEntry entry with
  | none => return (.error .otherReason, w)
  | some (name, access) => do
    match ← resolveShortName S name with
    | none => return (.error .objectUndefined, w)
    | some (.attribute d) => do
      let rights ← attributeAccess S .read d
      if !rights.canRead then do
        auditRead S d .readWriteDenied
        return (.error .readWriteDenied, w)
      else do
        let (outcome, w) ← getAttribute S d access w
        auditRead S d (match outcome with
          | .ok () => .success
          | .error e => e)
        return (outcome, w)
    | some (.method d) => do
      let (outcome, w) ← runMethod S d (access.map SelectiveAccess.parameters) w
      match outcome with
      | .ok true => return (.ok (), w)
      | .ok false =>
        match SliceWriter.emit Data.null.encode w with
        | (.ok (), w) => return (.ok (), w)
        | (.error _, w) => return (.error .otherReason, w)
      | .error e => return (.error (actionToDataAccess e), w)

/-- One entry of a short-name read with its choice byte. -/
def readItem (w : SliceWriter) (entry : Result VariableAccess) : Srv σ π N SliceWriter := do
  let entry ← Prog.ofExcept entry
  let before := w.pos
  let w ← emit (Emit.u8 0) w
  let valueAt := w.pos
  let (outcome, w) ← readOne S entry w
  match outcome with
  | .ok () =>
    if w.pos = valueAt then do
      let w ← truncate before w
      emit (ReadResult.error .otherReason).encode w
    else pure w
  | .error e => do
    let w ← truncate before w
    emit (ReadResult.error e).encode w

/-- `continue_read_block`. -/
def continueReadBlock (acked : UInt16) (room : Nat) : Srv σ π N Bytes := do
  match ← Prog.gets Server.transfer with
  | .sending _ .read _ _ block =>
    if acked.toNat ≠ block.toNat then do
      setTransfer .idle
      readError C .dataBlockNumberInvalid room
    else sendNextBlock C room
  | _ => readError C .noLongGetInProgress room

/-- A Read that starts: its entries, and the delivery of their results. -/
def readEntries (req : ReadRequest) (room : Nat) : Srv σ π N Bytes := do
  setTransfer .idle
  let items := req.specification.iter VariableAccess.decode
  let w ← Prog.fold (readItem S) (SliceWriter.new (zeros N)) items
  let results := w.asSlice
  let count ← countPrefix items.length
  let bodyLen := count.length + w.pos
  if ← Prog.gets fun s => s.fitsOne normalHeaderMax bodyLen then
    send C (.readResponse ⟨.fromRaw items.length results⟩) room
  else do
    let negotiated ← Prog.gets Server.negotiated
    if items.length ≠ 1 ∨ !negotiated.contains .blockTransferWithGetOrRead then
      readError C .dataBlockUnavailable room
    else do
      -- The blocks carry the value of the one entry, without count and choice.
      let value := results.drop 1
      putResponse 0 value value.length
      setTransfer (.sending ⟨0⟩ .read value.length 0 0)
      sendNextBlock C room

/-- The block that a Read of one entry acknowledges. -/
def ackedBlock (req : ReadRequest) : Option UInt16 :=
  if req.specification.count = 1 then
    match (req.specification.iter VariableAccess.decode).head? with
    | some (.ok (.blockNumber acked)) => some acked
    | _ => none
  else none

/-- `handle_read`. -/
def handleRead (req : ReadRequest) (room : Nat) : Srv σ π N Bytes :=
  serving C .read room do
    if req.specification.count = 0 ∨ maxAccessItems < req.specification.count then
      exception C .serviceNotAllowed .operationNotPossible room
    else
      match ackedBlock req with
      | some acked => continueReadBlock C acked room
      | none => readEntries C S req room

/-- One write of a named entry. Writing a method's name invokes it with the value. -/
def writeNamed (name : ObjectName) (access : Option SelectiveAccess) (value : Data) :
    Srv σ π N DataAccessResult := do
  match ← resolveShortName S name with
  | some (.attribute d) => writeOne S d access value
  | some (.method d) => do
    let (outcome, _) ← runMethod S d (some value) (SliceWriter.new (zeros 1))
    match outcome with
    | .ok _ => return .success
    | .error e => return actionToDataAccess e
  | none => return .objectUndefined

/-- One entry of a short-name write. -/
def writeItem (w : SliceWriter) (x : Result VariableAccess × Result Data) :
    Srv σ π N SliceWriter := do
  let entry ← Prog.ofExcept x.1
  let value ← Prog.ofExcept x.2
  match namedEntry entry with
  | none => emit (WriteResult.error .otherReason).encode w
  | some (name, access) => do
    let outcome ← writeNamed S name access value
    emit (if outcome.isSuccess then WriteResult.success else .error outcome).encode w

/-- A refusal of a write. An unconfirmed one has no reply, not even a refusal. -/
def writeRefusal (confirmed : Bool) (a : StateError) (b : ServiceError) (room : Nat) :
    Srv σ π N Bytes :=
  if confirmed then exception C a b room else pure []

/-- What a write needs agreed to. -/
def writeRequired (confirmed : Bool) : Conformance := if confirmed then .write else .unconfirmedWrite

/-- `handle_write`, confirmed or not. -/
def handleWrite (req : WriteRequest) (confirmed : Bool) (room : Nat) : Srv σ π N Bytes := do
  let state ← Prog.gets Server.state
  let negotiated ← Prog.gets Server.negotiated
  if state ≠ .associated then
    writeRefusal C confirmed .serviceNotAllowed .operationNotPossible room
  else if !negotiated.contains (writeRequired confirmed) then
    writeRefusal C confirmed .serviceUnknown .serviceNotSupported room
  else if req.specification.count ≠ req.values.count ∨ req.specification.count = 0 ∨
      maxAccessItems < req.specification.count then
    writeRefusal C confirmed .serviceNotAllowed .operationNotPossible room
  else do
    setTransfer .idle
    let items := (req.specification.iter VariableAccess.decode).zip (req.values.iter Data.decode)
    let w ← Prog.fold (writeItem S) (SliceWriter.new (zeros (maxAccessItems * 2))) items
    if confirmed then send C (.writeResponse ⟨.fromRaw items.length w.asSlice⟩) room
    else return []

end Srv

end Dlms
