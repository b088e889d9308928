import DlmsCosem.Server.ServiceRules

/-!
# What answering and opening leave alone

Many properties of a server do not look at most of what its handlers do. They are relations between
the server before and the server after that hold across bookkeeping: `Answering` ones across a
reply (buffers, the counter, the state of the association, the audit), `Opening` ones across the
whole handshake but for the calling title, `Serving` ones across every request. Every handler of the
handshake is walked through once for all of them.
-/

namespace Dlms

/-- The call reads, writes or invokes. -/
def StoreCall.IsAccess : StoreCall → Prop
  | .getAttribute _ _ | .setAttribute _ _ _ | .invokeMethod _ _ => True
  | _ => False

/-- The event is an access to an object. -/
def Event.IsAccess : Event → Prop
  | .store call => call.IsAccess
  | _ => False

/-- An event of the handshake that is neither an access nor the opening of a frame. -/
def Event.Quiet : Event → Prop
  | .store (.audit _) | .initiate _ _ | .hlsVerified _ _ _ | .hlsResponse _ _ _ _ | .counter _
  | .protecting _ _ => True
  | _ => False

variable {σ π : Type} {N : Nat}

/-- The part of a server that a reply leaves alone. -/
structure Standing (π : Type) where
  config : ServerConfig
  protector : Protector π
  clientSystemTitle : Option SystemTitle
  clientChallenge : Bytes
  serverChallenge : Bytes
  peerReplay : ReplayWindow
  replayOwner : Option SystemTitle
  negotiated : Conformance
  cipheredAssociation : Bool
  clientMaxPduSize : UInt16
  transfer : Transfer

def Server.standing (s : Server σ π N) : Standing π :=
  ⟨s.config, s.protector, s.clientSystemTitle, s.clientChallenge, s.serverChallenge, s.peerReplay,
    s.replayOwner, s.negotiated, s.cipheredAssociation, s.clientMaxPduSize, s.transfer⟩

/-- The part of a server that the handshake leaves alone, but for clearing it and for the title. -/
structure Identity where
  config : ServerConfig
  clientSystemTitle : Option SystemTitle
  peerReplay : ReplayWindow
  replayOwner : Option SystemTitle
  transfer : Transfer

def Server.identity (s : Server σ π N) : Identity :=
  ⟨s.config, s.clientSystemTitle, s.peerReplay, s.replayOwner, s.transfer⟩

/-- `R` holds across replies. -/
structure Answering (R : Server σ π N → Server σ π N → Prop) : Prop where
  trans : ∀ s t u, R s t → R t u → R s u
  same : ∀ s t, t.standing = s.standing → t.trace = s.trace → R s t
  event : ∀ s e, e.Quiet → R s (s.log e)

/-- `R` holds across the opening of an association. -/
structure Opening (C : CryptoProvider π) (R : Server σ π N → Server σ π N → Prop) : Prop
    extends Answering R where
  changed : ∀ s t, t.identity = s.identity → t.trace = s.trace → R s t
  unprotected : ∀ s policy plain size apdu, R s (Srv.unprotect C policy plain size apdu s).2

/-- The transfer of a server was agreed to. -/
def Server.Agreed (s : Server σ π N) : Prop := s.transfer.Agreed s.negotiated

/-- `R` holds across the requests of an association. -/
structure Serving (C : CryptoProvider π) (R : Server σ π N → Server σ π N → Prop) : Prop
    extends Answering R where
  worked : ∀ s t, Worked [] s t → R s t
  unprotected : ∀ s policy plain size apdu, R s (Srv.unprotect C policy plain size apdu s).2
  request : ∀ s frame req, R s (s.log (.request frame req))

namespace Answering

variable {R : Server σ π N → Server σ π N → Prop} {α β : Type}

section Basic

variable (hR : Answering R)
include hR

theorem refl (s : Server σ π N) : R s s := hR.same s s rfl rfl

theorem pure (a : α) : Prog.Keeps R (Pure.pure a : Srv σ π N α) := Prog.Keeps.pure hR.refl a

theorem throw (e : Error) : Prog.Keeps R (Prog.throw e : Srv σ π N α) := Prog.Keeps.throw hR.refl e

theorem gets (f : Server σ π N → α) : Prog.Keeps R (Prog.gets f : Srv σ π N α) := Prog.Keeps.gets hR.refl f

theorem ofExcept (r : Except Error α) : Prog.Keeps R (Prog.ofExcept r : Srv σ π N α) :=
  Prog.Keeps.ofExcept hR.refl r

theorem bind {m : Srv σ π N α} {f : α → Srv σ π N β} (hm : Prog.Keeps R m)
    (hf : ∀ a, Prog.Keeps R (f a)) : Prog.Keeps R (m >>= f) := Prog.Keeps.bind hR.trans hm hf

theorem modify {f : Server σ π N → Server σ π N} (h : ∀ s, (f s).standing = s.standing)
    (ht : ∀ s, (f s).trace = s.trace) : Prog.Keeps R (Prog.modify f : Srv σ π N Unit) :=
  ⟨fun s => hR.same s _ (h s) (ht s)⟩

theorem log {e : Event} (he : e.Quiet) : Prog.Keeps R (Srv.log e : Srv σ π N Unit) :=
  ⟨fun s => hR.event s e he⟩

theorem need (a : Option α) (kind : ErrorKind) : Prog.Keeps R (Srv.need a kind : Srv σ π N α) := by
  cases a
  · exact hR.throw _
  · exact hR.pure _

theorem reply (e : Emit) (room : Nat) : Prog.Keeps R (Srv.reply e room : Srv σ π N Bytes) :=
  hR.ofExcept _

theorem nextCounter : Prog.Keeps R (Srv.nextCounter : Srv σ π N UInt32) := by
  refine hR.bind (hR.gets _) fun c => hR.bind (hR.ofExcept _) fun x => ?_
  refine hR.bind (hR.modify (fun _ => rfl) fun _ => rfl) fun _ => ?_
  exact hR.bind (hR.log trivial) fun _ => hR.pure _

theorem setState (t : ServerState) : Prog.Keeps R (Srv.setState t : Srv σ π N Unit) :=
  hR.modify (fun _ => rfl) fun _ => rfl

theorem audit (S : ObjectStore σ) (e : AuditEvent) : Prog.Keeps R (Srv.audit S e : Srv σ π N Unit) :=
  hR.bind (hR.modify (fun _ => rfl) fun _ => rfl) fun _ => hR.log trivial

theorem authKey (C : CryptoProvider π) : Prog.Keeps R (Srv.authKey C : Srv σ π N Bytes) :=
  hR.bind (hR.gets _) fun _ => hR.need ..

theorem checkFits (len : Nat) : Prog.Keeps R (Srv.checkFits len : Srv σ π N Unit) := by
  refine hR.bind (hR.gets _) fun max => ?_
  dsimp only
  split
  · exact hR.throw _
  · exact hR.pure _

end Basic

section Handlers

variable (hR : Answering R) (C : CryptoProvider π) (S : ObjectStore σ)
include hR

theorem send (apdu : Apdu) (room : Nat) : Prog.Keeps R (Srv.send C apdu room : Srv σ π N Bytes) := by
  refine hR.bind ⟨fun s => hR.same _ _ rfl rfl⟩ fun plain => hR.bind (hR.gets _) fun config => ?_
  split
  · exact hR.bind (hR.checkFits _) fun _ => hR.reply ..
  · refine hR.bind (hR.need ..) fun _ => hR.bind hR.nextCounter fun _ => ?_
    refine hR.bind (hR.gets _) fun _ => hR.bind (hR.gets _) fun _ => hR.bind (hR.log trivial) fun _ => ?_
    exact hR.bind (hR.ofExcept _) fun _ => hR.bind (hR.checkFits _) fun _ => hR.pure _

theorem exception (a : StateError) (b : ServiceError) (room : Nat) :
    Prog.Keeps R (Srv.exception C a b room : Srv σ π N Bytes) := by
  refine hR.bind (hR.gets _) fun config => hR.bind (hR.gets _) fun negotiated => ?_
  split
  · exact hR.reply ..
  · exact hR.send ..

theorem refuse (result : AssociationResult) (diagnostic : UserDiagnostic) (room : Nat) :
    Prog.Keeps R (Srv.refuse S result diagnostic room : Srv σ π N Bytes) :=
  hR.bind (hR.setState _) fun _ => hR.bind (hR.audit ..) fun _ => hR.bind (hR.gets _) fun _ =>
    hR.bind (hR.gets _) fun _ => hR.reply ..

theorem responseInfo : Prog.Keeps R (Srv.responseInfo C : Srv σ π N Bytes) := by
  refine hR.bind (hR.gets _) fun _ => hR.bind (hR.gets _) fun _ => hR.bind (hR.reply ..) fun _ => ?_
  refine hR.bind (hR.gets _) fun c => ?_
  split
  · refine hR.bind (hR.need ..) fun _ => hR.bind hR.nextCounter fun _ => ?_
    refine hR.bind (hR.authKey C) fun _ => hR.bind (hR.gets _) fun _ => hR.bind (hR.log trivial) fun _ => ?_
    exact hR.bind (hR.ofExcept _) fun _ => hR.bind (hR.need ..) fun _ => hR.reply ..
  · exact hR.pure _

theorem acceptAssociation (context : ApplicationContext) (mechanism : AuthMechanism)
    (challenge : Option Bytes) (room : Nat) :
    Prog.Keeps R (Srv.acceptAssociation C S context mechanism challenge room : Srv σ π N Bytes) :=
  hR.bind (hR.responseInfo C) fun _ => hR.bind (hR.gets _) fun _ => hR.bind (hR.gets _) fun _ =>
    hR.bind (hR.audit ..) fun _ => hR.reply ..

theorem handleHlsReply (i : InvokeId) (d : MethodDescriptor) (parameters : Option Data)
    (room : Nat) : Prog.Keeps R (Srv.handleHlsReply C i d parameters room : Srv σ π N Bytes) := by
  unfold Srv.handleHlsReply
  split
  · refine hR.bind (hR.gets _) fun _ => hR.bind (hR.need ..) fun _ => hR.bind (hR.authKey C) fun _ => ?_
    refine hR.bind (hR.gets _) fun _ => hR.bind (hR.gets _) fun _ => ?_
    split
    · exact hR.bind (hR.setState _) fun _ => hR.send ..
    · refine hR.bind (hR.log trivial) fun _ => hR.bind (hR.gets _) fun _ => ?_
      refine hR.bind (hR.need ..) fun _ => hR.bind hR.nextCounter fun _ => ?_
      refine hR.bind (hR.gets _) fun _ => hR.bind (hR.log trivial) fun _ => hR.bind (hR.ofExcept _) fun _ => ?_
      exact hR.bind (hR.log trivial) fun _ => hR.bind (hR.setState _) fun _ => hR.send ..
  · exact hR.exception ..

/-- A release also takes the dedicated key away. -/
theorem handleRelease (hp : ∀ (s : Server σ π N) p, R s { s with protector := p }) (apdu : Bytes)
    (room : Nat) : Prog.Keeps R (Srv.handleRelease C S apdu room : Srv σ π N Bytes) :=
  hR.bind (hR.ofExcept _) fun _ => hR.bind (hR.setState _) fun _ =>
    hR.bind ⟨fun s => hp s _⟩ fun _ => hR.bind (hR.audit ..) fun _ => hR.reply ..

end Handlers

end Answering

namespace Opening

variable {R : Server σ π N → Server σ π N → Prop} {C : CryptoProvider π} (hR : Opening C R)
  (S : ObjectStore σ)
include hR

theorem modify {f : Server σ π N → Server σ π N} (h : ∀ s, (f s).identity = s.identity)
    (ht : ∀ s, (f s).trace = s.trace) : Prog.Keeps R (Prog.modify f : Srv σ π N Unit) :=
  ⟨fun s => hR.changed s _ (h s) (ht s)⟩

theorem installDedicated (dedicated : Bytes) :
    Prog.Keeps R (Srv.installDedicated C dedicated : Srv σ π N Bool) := by
  refine hR.bind (hR.ofExcept _) fun key => hR.bind (hR.gets _) fun x => ?_
  refine hR.bind (hR.modify (fun _ => rfl) fun _ => rfl) fun _ => ?_
  cases x.1 with
  | ok => exact hR.bind (hR.modify (fun _ => rfl) fun _ => rfl) fun _ => hR.pure _
  | error => exact hR.pure _

theorem takeInitiate (aarq : Aarq) (room : Nat) :
    Prog.Keeps R (Srv.takeInitiate C S aarq room : Srv σ π N _) := by
  refine hR.bind (hR.gets _) fun config => ?_
  cases aarq.userInformation with
  | none => exact hR.pure _
  | some info =>
    have hopen : Prog.Keeps R (Srv.unprotectInitiate C info : Srv σ π N Opened) :=
      hR.bind (hR.gets _) fun _ => ⟨fun s => hR.unprotected ..⟩
    refine hR.bind hopen.try' fun r => ?_
    cases r with
    | error e =>
      dsimp only
      split
      · refine hR.bind (hR.gets _) fun _ => hR.bind (hR.setState _) fun _ => ?_
        exact hR.bind (hR.audit ..) fun _ => hR.bind (hR.reply ..) fun _ => hR.pure _
      · exact hR.bind (hR.refuse ..) fun _ => hR.pure _
    | ok opened =>
      refine hR.bind (hR.ofExcept _) fun init => ?_
      cases init with
      | none => exact hR.pure _
      | some init =>
        refine hR.bind (hR.log trivial) fun _ => ?_
        cases init.dedicatedKey with
        | none => exact hR.pure _
        | some key =>
          refine hR.bind (hR.installDedicated _) fun b => ?_
          split
          · exact hR.pure _
          · exact hR.bind (hR.refuse ..) fun _ => hR.pure _

theorem startAuthentication (aarq : Aarq) (mechanism : AuthMechanism) (rng : Entropy) :
    Prog.Keeps R (Srv.startAuthentication aarq mechanism rng : Srv σ π N _) := by
  unfold Srv.startAuthentication
  split
  · refine hR.bind (hR.need ..) fun given => ?_
    split
    · exact hR.throw _
    · refine hR.bind (hR.modify (fun _ => rfl) fun _ => rfl) fun _ => hR.bind (hR.gets _) fun _ => ?_
      refine hR.bind (hR.ofExcept _) fun _ => ?_
      refine hR.bind (hR.modify (fun _ => rfl) fun _ => rfl) fun _ => ?_
      exact hR.bind (hR.setState _) fun _ => hR.pure _
  · exact hR.bind (hR.setState _) fun _ => hR.pure _

theorem openAssociation (aarq : Aarq) (context : ApplicationContext) (mechanism : AuthMechanism)
    (room : Nat) (rng : Entropy) :
    Prog.Keeps R (Srv.openAssociation C S aarq context mechanism room rng : Srv σ π N Bytes) := by
  refine hR.bind (hR.takeInitiate ..) fun x => ?_
  cases x with
  | inl reply => exact hR.pure _
  | inr x =>
    refine hR.bind (hR.modify (fun _ => rfl) fun _ => rfl) fun _ => ?_
    split
    · exact hR.refuse ..
    · exact hR.bind (hR.startAuthentication ..) fun _ => hR.acceptAssociation ..

/-- The answer to an AARQ, where `R` allows the title that is taken. -/
theorem answerAarq {s : Server σ π N} {aarq : Aarq} (room : Nat) (rng : Entropy)
    (htitle : ∀ b title, s.config.Accepts aarq → aarq.callingApTitle = some b →
      SystemTitle.fromSlice b = .ok title →
      R { s with cipheredAssociation := aarq.context.isCiphered }
        (Server.takeTitle title { s with cipheredAssociation := aarq.context.isCiphered })) :
    R s (Srv.answerAarq C S aarq room rng s).2 := by
  refine hR.trans s { s with cipheredAssociation := aarq.context.isCiphered } _
    (hR.changed _ _ rfl rfl) ?_
  by_cases h : s.config.Accepts aarq
  · rw [Srv.answerAarq_accepted C S h]
    have rest : Prog.Keeps R (if aarq.mechanism = .low ∧
        !Protector.constantTimeEq s.config.expected aarq.given then
          Srv.refuse S .rejectedPermanent .authenticationFailure room
        else Srv.openAssociation C S aarq aarq.context aarq.mechanism room rng
        : Srv σ π N Bytes) := by
      split
      · exact hR.refuse ..
      · exact hR.openAssociation ..
    generalize ({ s with cipheredAssociation := aarq.context.isCiphered } : Server σ π N) = s₁
      at htitle ⊢
    obtain ⟨-, hrun⟩ | ⟨b, e, -, -, hrun⟩ | ⟨b, title, hb, ht, hrun⟩ := Srv.callingTitle_run aarq s₁
    · rw [Prog.bind_run_ok hrun]
      exact rest.run _
    · rw [Prog.bind_run_error hrun]
      exact hR.refl _
    · rw [Prog.bind_run_ok hrun]
      exact hR.trans _ _ _ (htitle b title h hb ht) (rest.run _)
  · obtain ⟨diagnostic, -, hd⟩ := Srv.answerAarq_refused C S h
    rw [hd]
    exact (hR.refuse ..).run _

end Opening

namespace Srv

variable (C : CryptoProvider π) (S : ObjectStore σ)

/-- A request that is not the client's proof keeps to its work. -/
theorem serveRequest_works {s : Server σ π N} {req : Apdu} (room : Nat)
    (h : s.state = .awaitingHlsReply → ∀ r, req ≠ .actionRequest r) :
    Work [] s (serveRequest C S req room s).2 := by
  have run {m : Srv σ π N Bytes} (hm : Works [] (fun _ => True) m) : Work [] s (m s).2 :=
    hm.run s trivial
  have hW : ServiceRules C S (fun pre P _ (m : Srv σ π N _) => Works pre P m) := Works.rules C S
  cases req with
  | getRequest => exact run (hW.handleGet ..)
  | setRequest => exact run (hW.handleSet ..)
  | actionRequest =>
    simp only [serveRequest, handleAction, Prog.gets_bind_run, if_neg fun hs => h hs _ rfl]
    exact run (hW.serveAction ..)
  | accessRequest => exact run (hW.handleAccess ..)
  | readRequest => exact run (hW.handleRead ..)
  | writeRequest => exact run (hW.handleWrite ..)
  | unconfirmedWriteRequest => exact run (hW.handleWrite ..)
  | _ => exact run (hW.exception ..)

theorem unprotectInto_agreed {s : Server σ π N} (apdu : Bytes) (h : s.Agreed) :
    (unprotectInto C apdu s).2.Agreed := by
  obtain ⟨w, fs, hu, _⟩ := unprotectInto_state C s apdu
  rw [hu]
  exact h

end Srv

namespace Serving

open Srv

variable {R : Server σ π N → Server σ π N → Prop} {C : CryptoProvider π} (hR : Serving C R)
  (S : ObjectStore σ)
include hR

/-- A request is the client's proof, or it keeps to its work. -/
theorem serveRequest {s : Server σ π N} (req : Apdu) (room : Nat) (ha : s.Agreed) :
    R s (Srv.serveRequest C S req room s).2 := by
  by_cases h : s.state = .awaitingHlsReply ∧ ∃ r, req = .actionRequest r
  · obtain ⟨h, req, rfl⟩ := h
    simp only [Srv.serveRequest, handleAction, Prog.gets_bind_run, if_pos h]
    cases req with
    | normal => exact (hR.handleHlsReply ..).run s
    | _ => exact (hR.exception C _ _ room).run s
  · exact hR.worked _ _ (serveRequest_works C S room (fun hs r hr => h ⟨hs, r, hr⟩) ha)

theorem handleProtected {s : Server σ π N} (apdu : Bytes) (room : Nat) (ha : s.Agreed) :
    R s (Srv.handleProtected C S apdu room s).2 := by
  have hu : R s (unprotectInto C apdu s).2 := hR.unprotected ..
  have hau := unprotectInto_agreed C apdu ha
  have hr := handleProtected_received C S s apdu room
  generalize Srv.handleProtected C S apdu room s = out at hr ⊢
  cases hr with
  | refused m hm =>
    refine hR.trans _ _ _ hu ?_
    obtain ⟨n, rfl⟩ | ⟨a, b, rfl⟩ := hm
    · exact (hR.reply ..).run _
    · exact (hR.exception C a b room).run _
  | request opened req =>
    exact hR.trans _ _ _ hu (hR.trans _ _ _ (hR.request ..) (hR.serveRequest S req room hau))

end Serving

/-! ## The configuration -/

namespace Server

/-- The configuration is what it was. -/
def SameConfig (s t : Server σ π N) : Prop := t.config = s.config

theorem SameConfig.answering :
    Answering (SameConfig : Server σ π N → Server σ π N → Prop) where
  trans _ _ _ h h' := h'.trans h
  same _ _ h _ := congrArg Standing.config h
  event _ _ _ := rfl

theorem SameConfig.unprotect (C : CryptoProvider π) (s : Server σ π N) (policy : SecurityPolicy)
    (plain : List ApduTag) (size : Nat) (apdu : Bytes) :
    s.SameConfig (Srv.unprotect C policy plain size apdu s).2 := by
  obtain ⟨w, fs, hu, _⟩ := Srv.unprotect_state C s policy plain size apdu
  rw [hu]
  rfl

theorem SameConfig.opening (C : CryptoProvider π) :
    Opening C (SameConfig : Server σ π N → Server σ π N → Prop) where
  toAnswering := answering
  changed _ _ h _ := congrArg Identity.config h
  unprotected := SameConfig.unprotect C

theorem SameConfig.serving (C : CryptoProvider π) :
    Serving C (SameConfig : Server σ π N → Server σ π N → Prop) where
  toAnswering := answering
  worked _ _ h := congrArg Association.config h.association
  unprotected := SameConfig.unprotect C
  request _ _ _ := rfl

theorem takeTitle_config (title : SystemTitle) (s : Server σ π N) :
    (s.takeTitle title).config = s.config := by
  unfold takeTitle
  split <;> rfl

end Server

open Server in
theorem Srv.handle_config (C : CryptoProvider π) (S : ObjectStore σ) {s : Server σ π N}
    (apdu : Bytes) (room : Nat) (rng : Entropy) (ha : s.Agreed) :
    (handle C S apdu room rng s).2.config = s.config := by
  have hd := handle_dispatched C S s apdu room rng
  generalize handle C S apdu room rng s = out at hd ⊢
  cases hd with
  | refused a b => exact (SameConfig.answering.exception C a b room).run s
  | aarq =>
    unfold handleAarq
    cases Read.fromBytes Aarq.decode apdu with
    | error e => rfl
    | ok aarq =>
      exact (SameConfig.opening C).answerAarq S (s := (s.clearAssociation C).log (.aarq aarq)) room
        rng fun b title _ _ _ => takeTitle_config title _
  | release => exact (SameConfig.answering.handleRelease C S (fun _ _ => rfl) apdu room).run s
  | request => exact (SameConfig.serving C).handleProtected S apdu room ha

theorem Server.step_config (C : CryptoProvider π) (S : ObjectStore σ) {s : Server σ π N}
    (x : Step σ) (ha : s.Agreed) : (s.step C S x).2.config = s.config := by
  cases x with
  | handle apdu room rng => exact Srv.handle_config C S apdu room rng ha
  | _ => rfl

end Dlms
