import DlmsCosem.Server.Services

/-!
# The server

How an association opens, is authenticated and ends, and `handle`, which takes any APDU. The
handshake is cut where the source decides: `handleAarq` checks the context, the mechanism and the
password, `takeInitiate` opens the user information, `startAuthentication` moves the state, and
`acceptAssociation` writes the AARE. Each may end the handshake with a reply or with an error, and
whatever was changed before it stays.

A run is a list of `Step`s: APDUs, resets, and what the owner of the server does to it.
-/

namespace Dlms

/-- The APDUs that come without protection: their protection is in their user information. -/
def plainFromClient : List ApduTag := [.aarq, .releaseRequest]

/-- What the user information of an AARQ may be without protection. -/
def plainInitiate : List ApduTag := [.initiateRequest]

/-- Whether the build has the services of a referencing. This one has short names. -/
def serves : Referencing → Bool
  | .logicalName => true
  | .shortName => true

/-- The name under which the association object of short names stands. -/
def currentAssociationSn : UInt16 := 0xFA00

/-- `vaa_name`. -/
def vaaName : Referencing → UInt16
  | .logicalName => vaaNameLn
  | .shortName => currentAssociationSn

/-- The InitiateRequest of opened user information, where that is what it holds. -/
def readInitiate : Read (Option InitiateRequest) := do
  let tag ← Read.u8
  if ApduTag.fromU8 tag = some .initiateRequest then
    return some (← InitiateRequest.decode)
  else
    return none

/-- The context that an AARQ asks for. -/
def Aarq.context (aarq : Aarq) : ApplicationContext := aarq.applicationContext.getD .logicalName

/-- The mechanism that an AARQ asks for. -/
def Aarq.mechanism (aarq : Aarq) : AuthMechanism := aarq.mechanismName.getD .none

/-- What an AARQ authenticates itself with. -/
def Aarq.given (aarq : Aarq) : Bytes := aarq.callingAuthenticationValue.getD []

namespace ServerConfig

/-- The password that low-level security expects. -/
def expected (config : ServerConfig) : Bytes := (config.password.map Secret.bytes).getD []

/-- The AARQ asks for the referencing, the ciphering and the mechanism of the server. -/
def Accepts (config : ServerConfig) (aarq : Aarq) : Prop :=
  aarq.context.referencing = config.referencing ∧ serves config.referencing = true ∧
    aarq.context.isCiphered ≠ config.security.isNone ∧ aarq.mechanism = config.mechanism

instance (config : ServerConfig) (aarq : Aarq) : Decidable (config.Accepts aarq) :=
  inferInstanceAs (Decidable (_ ∧ _))

/-- The AARQ carries the password, where one is asked for. -/
def Knows (config : ServerConfig) (aarq : Aarq) : Prop :=
  aarq.mechanism = .low → aarq.given = config.expected

end ServerConfig

namespace Server

variable {σ π : Type} {N : Nat} (C : CryptoProvider π)

/-- `clear_association`: forget what belongs to one association. -/
def clearAssociation (s : Server σ π N) : Server σ π N :=
  { s with
    clientSystemTitle := none
    clientChallenge := []
    serverChallenge := []
    negotiated := .empty
    cipheredAssociation := false
    clientMaxPduSize := s.config.maxPduSize
    protector := { s.protector with
      provider := C.clearDedicatedKey s.protector.provider }.setDedicated false
    transfer := .idle }

/-- What an AARQ leaves of a server before anything of it is looked at but its context. -/
def begun (aarq : Aarq) (s : Server σ π N) : Server σ π N :=
  { (s.clearAssociation C).log (.aarq aarq) with cipheredAssociation := aarq.context.isCiphered }

/-- Remember who calls. Counters of another sender get a window of their own. -/
def takeTitle (title : SystemTitle) (s : Server σ π N) : Server σ π N :=
  if s.replayOwner = some title then { s with clientSystemTitle := some title }
  else { s with
    clientSystemTitle := some title
    replayOwner := some title
    peerReplay := .new s.config.replayWindow }

/-- Keep what was negotiated. -/
def keepNegotiated (proposed : Conformance) (clientMax : UInt16) (s : Server σ π N) :
    Server σ π N :=
  { s with
    negotiated := s.config.conformance.negotiate proposed
    clientMaxPduSize := if clientMax = 0 then s.config.maxPduSize else clientMax }

/-- `resume_replay_window`. -/
def resumeReplayWindow (peer : SystemTitle) (highest : UInt32) (s : Server σ π N) : Server σ π N :=
  { s with
    replayOwner := some peer
    peerReplay := .resumed highest s.config.replayWindow }

end Server

namespace Srv

variable {σ π : Type} {N : Nat} (C : CryptoProvider π) (S : ObjectStore σ)

/-! ## Taking protection off -/

/-- Take the protection off `apdu` in a fresh buffer of `size` bytes. -/
def unprotect (policy : SecurityPolicy) (plainAllowed : List ApduTag) (size : Nat) (apdu : Bytes) :
    Srv σ π N Opened := fun s =>
  match unprotectApdu C s.protector (s.incoming C policy plainAllowed) apdu
      ⟨s.peerReplay, zeros size⟩ with
  | (.ok opened, t) =>
    let s := { s with peerReplay := t.replay }
    (.ok opened, match opened.frame with
      | some f => s.log (.opened f)
      | none => s)
  | (.error e, t) => (.error e, { s with peerReplay := t.replay })

/-- `unprotect_into`. -/
def unprotectInto (apdu : Bytes) : Srv σ π N Opened := do
  unprotect C (← Prog.gets fun s => s.protector.policy) plainFromClient N apdu

/-- `unprotect_initiate`: under the global key, whatever the association goes on to use. -/
def unprotectInitiate (apdu : Bytes) : Srv σ π N Opened := do
  unprotect C (← Prog.gets fun s => s.config.security.global) plainInitiate 256 apdu

/-! ## The end of an association -/

/-- `reset`. -/
def reset : Srv σ π N Unit := do
  setState .idle
  Prog.modify (Server.clearAssociation C)
  Prog.modify fun s => { s with scratch := .zero N }
  audit S .released

/-- `handle_release`. -/
def handleRelease (apdu : Bytes) (room : Nat) : Srv σ π N Bytes := do
  let rlrq ← Prog.ofExcept (Read.fromBytes Rlrq.decode apdu)
  setState .closed
  Prog.modify fun s => { s with
    protector := { s.protector with
      provider := C.clearDedicatedKey s.protector.provider }.setDedicated false }
  audit S .released
  reply (Rlre.encode { reason := rlrq.reason, userInformation := none }) room

/-! ## The handshake -/

/-- `refuse`. -/
def refuse (result : AssociationResult) (diagnostic : UserDiagnostic) (room : Nat) :
    Srv σ π N Bytes := do
  setState .closed
  audit S (.associationRefused diagnostic)
  let ciphered ← Prog.gets Server.cipheredAssociation
  let config ← Prog.gets Server.config
  let aare : Aare := {
    applicationContext := some (if ciphered then .logicalNameCiphered else .logicalName)
    result
    diagnostic := .user diagnostic
    respondingApTitle := config.systemTitle.map SystemTitle.bytes }
  reply aare.encode room

/-- Install the dedicated key of an InitiateRequest. False where the provider cannot hold it. -/
def installDedicated (dedicated : Bytes) : Srv σ π N Bool := do
  let key ← Prog.ofExcept (Key.fromSlice dedicated)
  let (result, provider) ← Prog.gets fun s => C.setDedicatedKey s.protector.provider key
  Prog.modify fun s => { s with protector := { s.protector with provider } }
  match result with
  | .ok () => do
    setDedicated true
    return true
  | .error _ => return false

/-- The user information of an AARQ: a reply that ends the handshake, or what the client proposes. -/
def takeInitiate (aarq : Aarq) (room : Nat) : Srv σ π N (Bytes ⊕ Conformance × UInt16) := do
  let config ← Prog.gets Server.config
  match aarq.userInformation with
  | none => return .inr (.empty, config.maxPduSize)
  | some userInfo =>
    match ← Prog.try' (unprotectInitiate C userInfo) with
    | .error e =>
      if e.kind = .replay then do
        let expected ← Prog.gets fun s => s.peerReplay.expectedNext
        setState .idle
        audit S (.associationRefused .authenticationFailure)
        return .inl (← counterException expected room)
      else
        return .inl (← refuse S .rejectedPermanent .authenticationFailure room)
    | .ok opened => do
      match ← Prog.ofExcept (readInitiate (Reader.new opened.plain)).1 with
      | none => return .inr (.empty, config.maxPduSize)
      | some init => do
        log (.initiate opened.frame init)
        match init.dedicatedKey with
        | none => return .inr (init.proposedConformance, init.clientMaxReceivePduSize)
        | some dedicated => do
          if ← installDedicated C dedicated then
            return .inr (init.proposedConformance, init.clientMaxReceivePduSize)
          else
            return .inl (← refuse S .rejectedPermanent .noReasonGiven room)

/-- How long the server's challenge is. -/
def challengeLen (config : ServerConfig) : Nat := max 8 (min config.challengeLen 64)

/-- Start the authentication of GMAC, or serve at once. The challenge goes into the AARE. -/
def startAuthentication (aarq : Aarq) (mechanism : AuthMechanism) (rng : Entropy) :
    Srv σ π N (Option Bytes) := do
  if mechanism.isHighLevel then do
    let given ← need aarq.callingAuthenticationValue .unexpectedMessage
    if 64 < given.length then Prog.throw ⟨.invalidLength, 0⟩
    else do
      Prog.modify fun s => { s with clientChallenge := given }
      let len ← Prog.gets fun s => challengeLen s.config
      let challenge ← Prog.ofExcept (rng.fill len)
      Prog.modify fun s => { s with serverChallenge := challenge }
      setState .awaitingHlsReply
      return some challenge
  else do
    setState .associated
    return none

/-- What the server grants. -/
def initiateResponse (s : Server σ π N) : Emit :=
  let response : InitiateResponse := {
    negotiatedConformance := s.negotiated
    serverMaxReceivePduSize := s.config.maxPduSize
    vaaName := vaaName s.config.referencing }
  Emit.u8 ApduTag.initiateResponse.asU8 ++ response.encode

/-- The user information of the AARE: what was negotiated, protected in a ciphered association. -/
def responseInfo : Srv σ π N Bytes := do
  let config ← Prog.gets Server.config
  let plain ← reply (← Prog.gets initiateResponse) 64
  let ciphered ← Prog.gets Server.cipheredAssociation
  if ciphered then do
    let title ← need config.systemTitle .unexpectedMessage
    let ic ← nextCounter
    let authKey ← authKey C
    let protector ← Prog.gets Server.protector
    log (.protecting title ic)
    let payload ← Prog.ofExcept
      (protector.protectAs C config.security.global title ic authKey plain 128)
    let tag ← need (ApduTag.initiateResponse.protectedAs .global) .unsupported
    reply (Emit.u8 tag.asU8 ++ CipheredService.encode ⟨config.security.control, ic, payload⟩) 160
  else
    return plain

/-- The AARE that accepts an association. -/
def acceptedAare (config : ServerConfig) (context : ApplicationContext) (mechanism : AuthMechanism)
    (challenge : Option Bytes) (userInfo : Bytes) : Aare where
  applicationContext := some context
  result := .accepted
  diagnostic := .user .null
  respondingApTitle := config.systemTitle.map SystemTitle.bytes
  responderAcseRequirements := mechanism ≠ .none
  mechanismName := if mechanism ≠ .none then some mechanism else none
  respondingAuthenticationValue := challenge
  userInformation := some userInfo

/-- Answer an AARQ that was accepted. -/
def acceptAssociation (context : ApplicationContext) (mechanism : AuthMechanism)
    (challenge : Option Bytes) (room : Nat) : Srv σ π N Bytes := do
  let userInfo ← responseInfo C
  let config ← Prog.gets Server.config
  let ciphered ← Prog.gets Server.cipheredAssociation
  audit S (.associated mechanism ciphered)
  reply (acceptedAare config context mechanism challenge userInfo).encode room

/-- The calling title of an AARQ, where it has one. -/
def callingTitle (aarq : Aarq) : Srv σ π N Unit := do
  match aarq.callingApTitle with
  | none => pure ()
  | some title => do
    let title ← Prog.ofExcept (SystemTitle.fromSlice title)
    Prog.modify (Server.takeTitle title)

/-- The AARQ with the context and the mechanism of the server: open the association. -/
def openAssociation (aarq : Aarq) (context : ApplicationContext) (mechanism : AuthMechanism)
    (room : Nat) (rng : Entropy) : Srv σ π N Bytes := do
  match ← takeInitiate C S aarq room with
  | .inl reply => return reply
  | .inr (proposed, clientMax) => do
    Prog.modify (Server.keepNegotiated proposed clientMax)
    if mechanism.isHighLevel ∧ mechanism ≠ .highGmac then
      refuse S .rejectedPermanent .authenticationMechanismNameNotRecognised room
    else do
      let challenge ← startAuthentication aarq mechanism rng
      acceptAssociation C S context mechanism challenge room

/-- The diagnostic for a mechanism that is not the server's. -/
def mechanismDiagnostic (config : ServerConfig) : UserDiagnostic :=
  if config.mechanism = .none then .authenticationMechanismNameNotRecognised
  else .authenticationMechanismNameRequired

/-- What `handle_aarq` does with an AARQ once the association before it is cleared. -/
def answerAarq (aarq : Aarq) (room : Nat) (rng : Entropy) : Srv σ π N Bytes := do
  let config ← Prog.gets Server.config
  let context := aarq.context
  Prog.modify fun s => { s with cipheredAssociation := context.isCiphered }
  if context.referencing ≠ config.referencing ∨ !serves config.referencing then
    refuse S .rejectedPermanent .applicationContextNameNotSupported room
  else if context.isCiphered = config.security.isNone then
    refuse S .rejectedPermanent .applicationContextNameNotSupported room
  else
    let mechanism := aarq.mechanism
    if mechanism ≠ config.mechanism then
      refuse S .rejectedPermanent (mechanismDiagnostic config) room
    else do
      callingTitle aarq
      if mechanism = .low ∧ !Protector.constantTimeEq (config.expected) aarq.given then
        refuse S .rejectedPermanent .authenticationFailure room
      else
        openAssociation C S aarq context mechanism room rng

/-- `handle_aarq`. -/
def handleAarq (apdu : Bytes) (room : Nat) (rng : Entropy) : Srv σ π N Bytes := do
  let aarq ← Prog.ofExcept (Read.fromBytes Aarq.decode apdu)
  Prog.modify (Server.clearAssociation C)
  log (.aarq aarq)
  answerAarq C S aarq room rng

/-- `handle_hls_reply`: the client's proof, and the server's in return. -/
def handleHlsReply (invokeId : InvokeId) (d : MethodDescriptor) (parameters : Option Data)
    (room : Nat) : Srv σ π N Bytes := do
  match decide (d.classId = 15 ∧ d.methodId = 1), parameters.bind Data.asBytes with
  | true, some proof => do
    let peer ← need (← Prog.gets Server.clientSystemTitle) .unexpectedMessage
    let key ← authKey C
    let challenge ← Prog.gets Server.serverChallenge
    let protector ← Prog.gets Server.protector
    match protector.verifyHlsGmac C peer key challenge proof with
    | .error _ => do
      setState .closed
      send C (.actionResponse (.normal invokeId ⟨.readWriteDenied, none⟩)) room
    | .ok () => do
      log (.hlsVerified peer challenge proof)
      let title ← need (← Prog.gets fun s => s.config.systemTitle) .unexpectedMessage
      let ic ← nextCounter
      let given ← Prog.gets Server.clientChallenge
      log (.protecting title ic)
      let answer ← Prog.ofExcept (protector.hlsGmacResponse C title ic key given)
      log (.hlsResponse title ic given answer)
      setState .associated
      send C (.actionResponse (.normal invokeId
        ⟨.success, some (.data (.octetString answer))⟩)) room
  | _, _ => exception C .serviceNotAllowed .operationNotPossible room

/-! ## Any APDU -/

/-- `handle_action`. While the proof of the client is awaited, it is all that a client may send. -/
def handleAction (req : ActionRequest) (room : Nat) : Srv σ π N Bytes := do
  let state ← Prog.gets Server.state
  if state = .awaitingHlsReply then
    match req with
    | .normal invokeId d parameters => handleHlsReply C invokeId d parameters room
    | _ => exception C .serviceNotAllowed .operationNotPossible room
  else
    serveAction C S req room

/-- The request that was in an APDU. -/
def serveRequest (request : Apdu) (room : Nat) : Srv σ π N Bytes :=
  match request with
  | .getRequest req => handleGet C S req room
  | .setRequest req => handleSet C S req room
  | .actionRequest req => handleAction C S req room
  | .accessRequest req => handleAccess C S req room
  | .readRequest req => handleRead C S req room
  | .writeRequest req => handleWrite C S req true room
  | .unconfirmedWriteRequest req => handleWrite C S req false room
  | _ => exception C .serviceUnknown .serviceNotSupported room

/-- The error of an APDU whose protection does not come off. -/
def openError (e : ErrorKind) : ServiceError :=
  match e with
  | .bufferTooSmall _ => .pduTooLong
  | _ => .decipheringError

/-- An APDU that is part of an association. -/
def handleProtected (apdu : Bytes) (room : Nat) : Srv σ π N Bytes := do
  match ← Prog.try' (unprotectInto C apdu) with
  | .error e =>
    if e.kind = .replay then do
      counterException (← Prog.gets fun s => s.peerReplay.expectedNext) room
    else
      exception C .serviceNotAllowed (openError e.kind) room
  | .ok opened =>
    match Apdu.fromBytes opened.plain with
    | .error _ => exception C .serviceUnknown .serviceNotSupported room
    | .ok request => do
      log (.request opened.frame request)
      serveRequest C S request room

/-- `handle`: one APDU, and the reply. -/
def handle (apdu : Bytes) (room : Nat) (rng : Entropy) : Srv σ π N Bytes := do
  let config ← Prog.gets Server.config
  if config.maxPduSize.toNat < apdu.length then
    exception C .serviceNotAllowed .pduTooLong room
  else
    match ApduTag.fromU8 (apdu.headD 0) with
    | none => exception C .serviceUnknown .serviceNotSupported room
    | some .aarq => handleAarq C S apdu room rng
    | some .releaseRequest => handleRelease C S apdu room
    | some _ => do
      let state ← Prog.gets Server.state
      if state ≠ .associated ∧ state ≠ .awaitingHlsReply then
        exception C .serviceNotAllowed .operationNotPossible room
      else
        handleProtected C S apdu room

/-! ## What `handle` may do -/

section Cases

variable {s : Server σ π N} {apdu : Bytes} {room : Nat} {rng : Entropy}

/-- An AARQ that asks for something else is refused, and nothing of it is looked at. -/
theorem answerAarq_refused {aarq : Aarq} (h : ¬ s.config.Accepts aarq) :
    ∃ diagnostic : UserDiagnostic, .fromU8 diagnostic.asU8 = diagnostic ∧
      answerAarq C S aarq room rng s = refuse S .rejectedPermanent diagnostic room
        { s with cipheredAssociation := aarq.context.isCiphered } := by
  simp only [answerAarq, Prog.gets_bind_run, Prog.modify_bind_run]
  split
  · exact ⟨_, rfl, rfl⟩
  · split
    · exact ⟨_, rfl, rfl⟩
    · split
      · refine ⟨_, ?_, rfl⟩
        unfold mechanismDiagnostic
        split <;> rfl
      · rename_i h1 h2 h3
        exact absurd ⟨by tauto, by simpa using (not_or.mp h1).2, h2, by simpa using h3⟩ h

/-- An AARQ that asks for what the server has gives its title, and then its password. -/
theorem answerAarq_accepted {aarq : Aarq} (h : s.config.Accepts aarq) :
    answerAarq C S aarq room rng s = (callingTitle aarq >>= fun _ =>
        if aarq.mechanism = .low ∧
            !Protector.constantTimeEq s.config.expected aarq.given then
          refuse S .rejectedPermanent .authenticationFailure room
        else
          openAssociation C S aarq aarq.context aarq.mechanism room rng)
      { s with cipheredAssociation := aarq.context.isCiphered } := by
  obtain ⟨h1, h2, h3, h4⟩ := h
  simp only [answerAarq, Prog.gets_bind_run, Prog.modify_bind_run]
  rw [if_neg (by simp [h1, h2]), if_neg h3, if_neg (by simpa using h4)]

theorem handleAarq_refused {aarq : Aarq} (hd : Read.fromBytes Aarq.decode apdu = .ok aarq)
    (h : ¬ s.config.Accepts aarq) :
    ∃ diagnostic : UserDiagnostic, .fromU8 diagnostic.asU8 = diagnostic ∧
      handleAarq C S apdu room rng s =
        refuse S .rejectedPermanent diagnostic room (s.begun C aarq) := by
  unfold handleAarq
  rw [hd]
  exact answerAarq_refused C S (s := (s.clearAssociation C).log (.aarq aarq)) h

theorem handleAarq_accepted {aarq : Aarq} (hd : Read.fromBytes Aarq.decode apdu = .ok aarq)
    (h : s.config.Accepts aarq) :
    handleAarq C S apdu room rng s = (callingTitle aarq >>= fun _ =>
        if aarq.mechanism = .low ∧
            !Protector.constantTimeEq s.config.expected aarq.given then
          refuse S .rejectedPermanent .authenticationFailure room
        else
          openAssociation C S aarq aarq.context aarq.mechanism room rng) (s.begun C aarq) := by
  unfold handleAarq
  rw [hd]
  exact answerAarq_accepted C S (s := (s.clearAssociation C).log (.aarq aarq)) h

/-- What `callingTitle` does with a title. -/
theorem callingTitle_run (aarq : Aarq) (s : Server σ π N) :
    (aarq.callingApTitle = none ∧ callingTitle aarq s = (.ok (), s)) ∨
    (∃ b e, aarq.callingApTitle = some b ∧ SystemTitle.fromSlice b = .error e ∧
      callingTitle aarq s = (.error e, s)) ∨
    ∃ b title, aarq.callingApTitle = some b ∧ SystemTitle.fromSlice b = .ok title ∧
      callingTitle aarq s = (.ok (), s.takeTitle title) := by
  unfold callingTitle
  cases aarq.callingApTitle with
  | none => exact .inl ⟨rfl, rfl⟩
  | some b =>
    right
    dsimp only
    cases hb : SystemTitle.fromSlice b with
    | error e => exact .inl ⟨b, e, rfl, hb, rfl⟩
    | ok title => exact .inr ⟨b, title, rfl, hb, rfl⟩

/-- An APDU is refused, or it goes to one of three handlers. -/
inductive Dispatched (s : Server σ π N) (apdu : Bytes) (room : Nat) (rng : Entropy) :
    Except Error Bytes × Server σ π N → Prop
  | refused (a : StateError) (b : ServiceError) :
    (apdu.length ≤ s.config.maxPduSize.toNat → apdu.head? ≠ some 0x60) →
    Dispatched s apdu room rng (exception C a b room s)
  | aarq : apdu.length ≤ s.config.maxPduSize.toNat → apdu.head? = some 0x60 →
    Dispatched s apdu room rng (handleAarq C S apdu room rng s)
  | release : apdu.head? = some 0x62 → Dispatched s apdu room rng (handleRelease C S apdu room s)
  | request : (s.state = .associated ∨ s.state = .awaitingHlsReply) → apdu.head? ≠ some 0x60 →
    Dispatched s apdu room rng (handleProtected C S apdu room s)

theorem head_ne_aarq {t : Option ApduTag} (h : ApduTag.fromU8 (apdu.headD 0) = t)
    (ht : t ≠ some .aarq) : apdu.head? ≠ some 0x60 := by
  intro h'
  apply ht
  rw [← h]
  cases apdu with
  | nil => cases h'
  | cons b bs => cases h'; rfl

/-- `handle` is a dispatch. -/
theorem handle_dispatched (s : Server σ π N) (apdu : Bytes) (room : Nat) (rng : Entropy) :
    Dispatched C S s apdu room rng (handle C S apdu room rng s) := by
  simp only [handle, Prog.gets_bind_run]
  split
  · exact .refused _ _ (by omega)
  · rename_i hlen
    generalize h : ApduTag.fromU8 (apdu.headD 0) = tag
    split
    · exact .refused _ _ fun _ => head_ne_aarq h nofun
    · exact .aarq (by omega) (ApduTag.head_of_fromU8 h)
    · exact .release (ApduTag.head_of_fromU8 h)
    · rename_i hne _
      have hne : apdu.head? ≠ some 0x60 := head_ne_aarq h (by simpa using hne)
      simp only [Prog.gets_bind_run]
      split
      · exact .refused _ _ fun _ => hne
      · rename_i hs
        exact .request (by tauto) hne

/-- An AARQ that is short enough goes to `handleAarq`. -/
theorem handle_aarq (hlen : apdu.length ≤ s.config.maxPduSize.toNat)
    (hhead : apdu.head? = some 0x60) :
    handle C S apdu room rng s = handleAarq C S apdu room rng s := by
  have hd := handle_dispatched C S s apdu room rng
  generalize handle C S apdu room rng s = out at hd ⊢
  cases hd with
  | refused a b hne => exact absurd hhead (hne hlen)
  | aarq => rfl
  | release h => rw [hhead] at h; cases h
  | request _ hne => exact absurd hhead hne

/-- What taking protection off leaves: the window may have moved, and a frame may be recorded. -/
theorem unprotect_state (s : Server σ π N) (policy : SecurityPolicy) (plain : List ApduTag)
    (size : Nat) (apdu : Bytes) :
    ∃ w fs, (unprotect C policy plain size apdu s).2 =
        { s with peerReplay := w, trace := s.trace ++ fs } ∧
      (fs = [] ∨ ∃ f, fs = [.opened f]) := by
  unfold unprotect
  split
  · rename_i opened t _
    cases opened.frame with
    | none => exact ⟨t.replay, [], by simp, .inl rfl⟩
    | some f => exact ⟨t.replay, [.opened f], rfl, .inr ⟨f, rfl⟩⟩
  · rename_i t _
    exact ⟨t.replay, [], by simp, .inl rfl⟩

theorem unprotectInto_state (s : Server σ π N) (apdu : Bytes) :
    ∃ w fs, (unprotectInto C apdu s).2 = { s with peerReplay := w, trace := s.trace ++ fs } ∧
      (fs = [] ∨ ∃ f, fs = [.opened f]) :=
  unprotect_state C s s.protector.policy plainFromClient N apdu

/-- An APDU of an association is refused once its protection is off, or it is a request. -/
inductive Received (s : Server σ π N) (apdu : Bytes) (room : Nat) :
    Except Error Bytes × Server σ π N → Prop
  | refused (m : Srv σ π N Bytes) :
    ((∃ n, m = counterException n room) ∨ ∃ a b, m = exception C a b room) →
    Received s apdu room (m (unprotectInto C apdu s).2)
  | request (opened : Opened) (req : Apdu) : (unprotectInto C apdu s).1 = .ok opened →
    Apdu.fromBytes opened.plain = .ok req →
    Received s apdu room
      (serveRequest C S req room ((unprotectInto C apdu s).2.log (.request opened.frame req)))

theorem handleProtected_received (s : Server σ π N) (apdu : Bytes) (room : Nat) :
    Received C S s apdu room (handleProtected C S apdu room s) := by
  rw [handleProtected, Prog.try'_bind_run]
  cases h : (unprotectInto C apdu s).1 with
  | error e =>
    dsimp only
    split
    · rw [Prog.gets_bind_run]
      exact .refused (counterException _ room) (.inl ⟨_, rfl⟩)
    · exact .refused (exception C _ _ room) (.inr ⟨_, _, rfl⟩)
  | ok opened =>
    dsimp only
    cases hreq : Apdu.fromBytes opened.plain with
    | error e => exact .refused (exception C _ _ room) (.inr ⟨_, _, rfl⟩)
    | ok req => exact .request opened req h hreq

end Cases

end Srv

/-! ## Runs -/

/-- What may happen to a server. -/
inductive Step (σ : Type)
  | handle (apdu : Bytes) (room : Nat) (rng : Entropy)
  | reset
  | resume (peer : SystemTitle) (highest : UInt32)
  | storeMut (f : σ → σ)

namespace Server

variable {σ π : Type} {N : Nat} (C : CryptoProvider π) (S : ObjectStore σ)

/-- One step. Only an APDU has a reply. -/
def step (s : Server σ π N) : Step σ → Option (Result Bytes) × Server σ π N
  | .handle apdu room rng =>
    let (r, t) := Srv.handle C S apdu room rng s
    (some r, t)
  | .reset => (none, (Srv.reset C S s).2)
  | .resume peer highest => (none, s.resumeReplayWindow peer highest)
  | .storeMut f => (none, { s with store := f s.store })

/-- The server after some steps. -/
def run (s : Server σ π N) (steps : List (Step σ)) : Server σ π N :=
  steps.foldl (fun s x => (s.step C S x).2) s

@[simp] theorem run_nil (s : Server σ π N) : s.run C S [] = s := rfl

@[simp] theorem run_cons (s : Server σ π N) (x : Step σ) (xs : List (Step σ)) :
    s.run C S (x :: xs) = (s.step C S x).2.run C S xs := rfl

theorem run_append (s : Server σ π N) (xs ys : List (Step σ)) :
    s.run C S (xs ++ ys) = (s.run C S xs).run C S ys := List.foldl_append ..

/-- What every step keeps under a condition on it holds after a run whose steps all meet it. -/
theorem run_induction {C : CryptoProvider π} {S : ObjectStore σ} {I : Server σ π N → Prop}
    {K : Server σ π N → Step σ → Prop}
    (hstep : ∀ s x, I s → K s x → I (s.step C S x).2) {s : Server σ π N} (hs : I s)
    {steps : List (Step σ)}
    (hok : ∀ pre x post, steps = pre ++ x :: post → K (s.run C S pre) x) :
    I (s.run C S steps) := by
  induction steps generalizing s with
  | nil => exact hs
  | cons x xs ih =>
    refine ih (hstep s x hs (hok [] x xs rfl)) fun pre y post h => ?_
    exact hok (x :: pre) y post (by rw [h]; rfl)

end Server

end Dlms
