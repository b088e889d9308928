import DlmsCosem.Client.Effects

/-!
# What the methods of a session are made of

`SessionRules C W` says that `W` holds of everything the methods of a session are made of. Then `W`
holds of every method: each is walked through once for all such `W`. Only `getNextBlockRequest` and
`handleResponse` are left to `W`: they are the two that look at what is outstanding.

A relation between the session before and the session after that holds across the parts of the
methods (`Stable`) is one use of it.
-/

namespace Dlms

/-- The request is not the continuation of a GET. -/
def Apdu.Fresh : Apdu → Prop
  | getRequest (.next _ _) => False
  | _ => True

theorem BlockSender.request_fresh (b : BlockSender) (i : InvokeId) : (b.request i).Fresh := by
  unfold BlockSender.request
  cases b.target <;> cases b.block == 0 <;> trivial

variable {π : Type} {N : Nat}

open Cli (rewound)

/-- `W` holds of what the methods of a session are made of. -/
structure SessionRules (C : CryptoProvider π)
    (W : (ClientConfig → Prop) → ∀ {α : Type}, Cli π N α → Prop) : Prop extends Cli.LookRules W where
  /-- The configuration is looked up, and `P` grows by it. -/
  gets_config : ∀ {P} {β : Type} {k : ClientConfig → Cli π N β}, (∀ c, P c → W (· = c) (k c)) →
    W P (Prog.gets ClientSession.config >>= k)
  /-- A change of what is neither the trace nor the configuration nor the counter. -/
  modify : ∀ {P} {f : ClientSession π N → ClientSession π N}, (∀ s, (f s).trace = s.trace) →
    (∀ s, (f s).config = s.config) → (∀ s c, f (rewound s c) = rewound (f s) c) → W P (Prog.modify f)
  unprotect : ∀ {P} (policy : SecurityPolicy) (plain : List ApduTag) (size : Nat) (apdu : Bytes),
    W P (Cli.unprotect C policy plain size apdu)
  nextCounter : ∀ {P}, W P Cli.nextCounter
  /-- A number is taken, and the protector gets it once the authentication key is there. -/
  taking : ∀ {P} {α : Type} {title : SystemTitle} {k : UInt32 → Bytes → Cli π N α},
    (∀ c, P c → c.systemTitle = some title) → (∀ value key, W P (k value key)) →
    W P (Cli.nextCounter >>= fun value => Cli.authKey C >>= fun key =>
      Cli.log (.protecting title value) >>= fun _ => k value key)
  send : ∀ {P} {a : Apdu}, a.Fresh → ∀ room, W P (Cli.send C a room)
  authenticated : ∀ {P} (a : Apdu), W P (Cli.log (.authenticated a))

namespace SessionRules

variable {C : CryptoProvider π} {W : (ClientConfig → Prop) → ∀ {α : Type}, Cli π N α → Prop}
  {P : ClientConfig → Prop} (hW : SessionRules C W)
include hW

theorem setState (t : SessionState) : W P (Cli.setState t : Cli π N Unit) :=
  hW.modify (fun _ => rfl) (fun _ => rfl) fun _ _ => rfl

theorem nextInvokeId : W P (Cli.nextInvokeId : Cli π N InvokeId) :=
  hW.bind (hW.modify (fun _ => rfl) (fun _ => rfl) fun _ _ => rfl) fun _ =>
    hW.bind (hW.gets fun _ _ => rfl) fun _ =>
    hW.bind (hW.modify (fun _ => rfl) (fun _ => rfl) fun _ _ => rfl) fun _ => hW.pure _

theorem nextLongInvokeId : W P (Cli.nextLongInvokeId : Cli π N LongInvokeId) :=
  hW.bind (hW.modify (fun _ => rfl) (fun _ => rfl) fun _ _ => rfl) fun _ =>
    hW.bind (hW.gets fun _ _ => rfl) fun _ => hW.pure _

theorem outstandingId : W P (Cli.outstandingId : Cli π N InvokeId) :=
  hW.bind (hW.gets fun _ _ => rfl) fun _ => hW.need ..

theorem unprotectInto (apdu : Bytes) (size : Nat) :
    W P (Cli.unprotectInto C apdu size : Cli π N Bytes) :=
  hW.bind (hW.gets fun _ _ => rfl) fun _ => hW.unprotect ..

theorem unprotectInitiate (apdu : Bytes) : W P (Cli.unprotectInitiate C apdu : Cli π N Bytes) :=
  hW.bind (hW.gets fun _ _ => rfl) fun _ => hW.unprotect ..

/-! ### The handshake -/

theorem requestInfo (config : ClientConfig) (plain : Bytes) :
    W (· = config) (Cli.requestInfo C config plain : Cli π N Bytes) := by
  unfold Cli.requestInfo
  split
  · exact hW.pure _
  · cases htitle : config.systemTitle with
    | none => exact hW.bind hW.nextCounter fun _ => hW.throw _
    | some title =>
      refine @hW.taking _ _ title _ (fun c hc => hc ▸ htitle) fun value key => ?_
      exact hW.bind (hW.gets fun _ _ => rfl) fun _ => hW.bind (hW.ofExcept _) fun _ =>
        hW.bind (hW.need ..) fun _ => hW.encode ..

theorem offeredAuthentication (config : ClientConfig) (rng : Entropy) :
    W P (Cli.offeredAuthentication config rng : Cli π N (Option Bytes)) := by
  unfold Cli.offeredAuthentication
  split
  · exact hW.bind (hW.ofExcept _) fun _ =>
      hW.bind (hW.modify (fun _ => rfl) (fun _ => rfl) fun _ _ => rfl) fun _ => hW.pure _
  · exact hW.pure _

theorem associateRequest (room : Nat) (rng : Entropy) :
    W P (Cli.associateRequest C room rng : Cli π N Bytes) := by
  refine hW.gets_config fun config _ => ?_
  split
  · exact hW.throw _
  · refine hW.bind ?_ fun key => hW.bind (hW.encode ..) fun plain => ?_
    · unfold Cli.offeredKey
      split
      · exact hW.bind (hW.gets fun _ _ => rfl) fun _ => hW.bind (hW.need ..) fun _ => hW.pure _
      · exact hW.pure _
    · exact hW.bind (hW.requestInfo config plain) fun _ =>
        hW.bind (hW.offeredAuthentication ..) fun _ =>
        hW.bind (hW.gets fun _ _ => rfl) fun _ => hW.bind (hW.encode ..) fun _ =>
        hW.bind (hW.setState _) fun _ => hW.pure _

theorem reject (diagnostic : Diagnostic) :
    W P (Cli.reject diagnostic : Cli π N AssociationStep) :=
  hW.bind (hW.setState _) fun _ => hW.pure _

theorem takeGranted (aare : Aare) :
    W P (Cli.takeGranted C aare : Cli π N (Option AssociationStep)) := by
  unfold Cli.takeGranted
  cases aare.userInformation with
  | none => exact hW.pure _
  | some info =>
    refine hW.bind (hW.unprotectInitiate info) fun plain =>
      hW.bind (hW.ofExcept _) fun granted => ?_
    cases granted with
    | initiated r =>
      exact hW.bind (hW.modify (fun _ => rfl) (fun _ => rfl) fun _ _ => rfl) fun _ => hW.pure _
    | refused => exact hW.bind (hW.reject _) fun _ => hW.pure _

theorem openSession (config : ClientConfig) (aare : Aare) :
    W P (Cli.openSession config aare : Cli π N AssociationStep) := by
  unfold Cli.openSession
  refine hW.bind (hW.modify (fun _ => ?_) (fun _ => ?_) fun _ _ => ?_) fun _ => ?_
  · split <;> rfl
  · split <;> rfl
  · split <;> rfl
  · split
    · refine hW.bind (hW.need ..) fun challenge => ?_
      split
      · exact hW.throw _
      · exact hW.bind (hW.modify (fun _ => rfl) (fun _ => rfl) fun _ _ => rfl) fun _ =>
          hW.bind (hW.setState _) fun _ => hW.pure _
    · exact hW.bind (hW.setState _) fun _ => hW.pure _

theorem respondingTitle (aare : Aare) : W P (Cli.respondingTitle aare : Cli π N Unit) := by
  unfold Cli.respondingTitle
  cases aare.respondingApTitle with
  | none => exact hW.pure _
  | some title =>
    exact hW.bind (hW.ofExcept _) fun _ => hW.modify (fun _ => rfl) (fun _ => rfl) fun _ _ => rfl

theorem handleAssociateResponse (apdu : Bytes) :
    W P (Cli.handleAssociateResponse C apdu : Cli π N AssociationStep) := by
  unfold Cli.handleAssociateResponse
  split
  · exact hW.bind (hW.setState _) fun _ => hW.bind (hW.ofExcept _) fun _ => hW.pure _
  · refine hW.bind (hW.ofExcept _) fun aare => hW.bind (hW.respondingTitle aare) fun _ => ?_
    refine hW.bind (hW.gets fun _ _ => rfl) fun config =>
      hW.bind (hW.gets fun _ _ => rfl) fun proposed => ?_
    split
    · exact hW.bind (hW.setState _) fun _ => hW.pure _
    · split
      · exact hW.reject _
      · split
        · exact hW.reject _
        · split
          · exact hW.reject _
          · refine hW.bind (hW.takeGranted aare) fun step => ?_
            cases step with
            | some step => exact hW.pure _
            | none => exact hW.openSession ..

theorem hlsReplyRequest (room : Nat) : W P (Cli.hlsReplyRequest C room : Cli π N Bytes) := by
  refine hW.gets_config fun config _ => hW.bind (hW.gets fun _ _ => rfl) fun state => ?_
  split
  · exact hW.throw _
  · split
    · exact hW.throw _
    · cases htitle : config.systemTitle with
      | none => exact hW.throw _
      | some title =>
        refine @hW.taking _ _ title _ (fun c hc => hc ▸ htitle) fun value key => ?_
        exact hW.bind (hW.gets fun _ _ => rfl) fun _ => hW.bind (hW.gets fun _ _ => rfl) fun _ =>
          hW.bind (hW.ofExcept _) fun _ => hW.bind hW.nextInvokeId fun _ =>
            hW.send (by trivial) room

theorem handleHlsReplyResponse (apdu : Bytes) :
    W P (Cli.handleHlsReplyResponse C apdu : Cli π N AssociationStep) := by
  unfold Cli.handleHlsReplyResponse
  refine hW.bind (hW.unprotectInto apdu 512) fun plain => hW.bind (hW.ofExcept _) fun decoded => ?_
  split
  · split
    · exact hW.bind (hW.authenticated _) fun _ => hW.reject _
    · refine hW.bind (hW.need ..) fun _ => hW.bind (hW.gets fun _ _ => rfl) fun _ =>
        hW.bind (hW.need ..) fun _ => ?_
      refine hW.bind (hW.authKey C) fun _ => hW.bind (hW.gets fun _ _ => rfl) fun _ =>
        hW.bind (hW.gets fun _ _ => rfl) fun _ => ?_
      exact hW.bind (hW.ofExcept _) fun _ => hW.bind (hW.authenticated _) fun _ =>
        hW.bind (hW.setState _) fun _ =>
        hW.pure _
  · exact hW.throw _

/-! ### Requests -/

theorem getRequest (d : AttributeDescriptor) (access : Option SelectiveAccess) (room : Nat) :
    W P (Cli.getRequest C d access room : Cli π N Bytes) :=
  hW.bind hW.requireAssociated fun _ => hW.bind (hW.requireConformance _) fun _ =>
    hW.bind (hW.requireSelection _) fun _ => hW.bind hW.nextInvokeId fun _ =>
      hW.send (by trivial) room

theorem getRequestWithList (items : List AttributeDescriptorWithSelection) (room : Nat) :
    W P (Cli.getRequestWithList C items room : Cli π N Bytes) :=
  hW.bind hW.requireAssociated fun _ => hW.bind (hW.requireConformance _) fun _ =>
    hW.bind (hW.requireConformance _) fun _ => hW.bind (hW.requireArguments _) fun _ =>
    hW.bind (hW.requireSelection _) fun _ => hW.bind (hW.encode ..) fun _ =>
    hW.bind hW.nextInvokeId fun _ => hW.send (by trivial) room

theorem setRequest (d : AttributeDescriptor) (access : Option SelectiveAccess) (value : Data)
    (room : Nat) : W P (Cli.setRequest C d access value room : Cli π N Bytes) :=
  hW.bind hW.requireAssociated fun _ => hW.bind (hW.requireConformance _) fun _ =>
    hW.bind (hW.requireSelection _) fun _ => hW.bind hW.nextInvokeId fun _ =>
      hW.send (by trivial) room

theorem setRequestWithList (items : List AttributeDescriptorWithSelection) (values : List Data)
    (room : Nat) : W P (Cli.setRequestWithList C items values room : Cli π N Bytes) :=
  hW.bind hW.requireAssociated fun _ => hW.bind (hW.requireConformance _) fun _ =>
    hW.bind (hW.requireConformance _) fun _ => hW.bind (hW.requireArguments _) fun _ =>
    hW.bind (hW.requireSelection _) fun _ => hW.bind (hW.encodeTwo ..) fun _ =>
    hW.bind hW.nextInvokeId fun _ => hW.send (by trivial) room

theorem actionRequest (d : MethodDescriptor) (parameters : Option Data) (room : Nat) :
    W P (Cli.actionRequest C d parameters room : Cli π N Bytes) :=
  hW.bind hW.requireAssociated fun _ => hW.bind (hW.requireConformance _) fun _ =>
    hW.bind hW.nextInvokeId fun _ => hW.send (by trivial) room

theorem actionRequestWithList (descriptors : List MethodDescriptor) (parameters : List (Option Data))
    (room : Nat) :
    W P (Cli.actionRequestWithList C descriptors parameters room : Cli π N Bytes) :=
  hW.bind hW.requireAssociated fun _ => hW.bind (hW.requireConformance _) fun _ =>
    hW.bind (hW.requireConformance _) fun _ => hW.bind (hW.requireArguments _) fun _ =>
    hW.bind (hW.encodeTwo ..) fun _ => hW.bind hW.nextInvokeId fun _ => hW.send (by trivial) room

theorem actionNextBlockRequest (blockNumber : UInt32) (room : Nat) :
    W P (Cli.actionNextBlockRequest C blockNumber room : Cli π N Bytes) :=
  hW.bind hW.requireAssociated fun _ => hW.bind (hW.bind (hW.gets fun _ _ => rfl) fun _ =>
    hW.need ..) fun _ =>
    hW.send (by trivial) room

theorem accessRequest (items : List AccessItem) (room : Nat) :
    W P (Cli.accessRequest C items room : Cli π N Bytes) :=
  hW.bind hW.requireAssociated fun _ => hW.bind (hW.requireConformance _) fun _ =>
    hW.bind (hW.requireArguments _) fun _ => hW.bind (hW.encodeTwo ..) fun _ =>
    hW.bind hW.nextLongInvokeId fun _ => hW.send (by trivial) room

theorem sendShortName {a : Apdu} (ha : a.Fresh) (room : Nat) :
    W P (Cli.sendShortName C a room : Cli π N Bytes) :=
  hW.bind (hW.modify (fun _ => rfl) (fun _ => rfl) fun _ _ => rfl) fun _ => hW.send ha room

theorem readRequest (items : List VariableAccess) (room : Nat) :
    W P (Cli.readRequest C items room : Cli π N Bytes) :=
  hW.bind hW.requireAssociated fun _ => hW.bind hW.requireShortName fun _ =>
    hW.bind (hW.requireConformance _) fun _ => hW.bind (hW.requireArguments _) fun _ =>
    hW.bind (hW.encode ..) fun _ => hW.sendShortName (by trivial) room

theorem writeRequest (items : List VariableAccess) (values : List Data) (room : Nat) :
    W P (Cli.writeRequest C items values room : Cli π N Bytes) :=
  hW.bind (hW.requireShortNameWrite ..) fun _ => hW.bind (hW.encodeWrite ..) fun _ =>
    hW.sendShortName (by trivial) room

theorem unconfirmedWriteRequest (items : List VariableAccess) (values : List Data) (room : Nat) :
    W P (Cli.unconfirmedWriteRequest C items values room : Cli π N Bytes) :=
  hW.bind (hW.requireShortNameWrite ..) fun _ => hW.bind (hW.requireConformance _) fun _ =>
    hW.bind (hW.encodeWrite ..) fun _ => hW.sendShortName (by trivial) room

theorem releaseRequest (room : Nat) : W P (Cli.releaseRequest room : Cli π N Bytes) :=
  hW.bind (hW.encode ..) fun _ => hW.bind (hW.setState _) fun _ => hW.pure _

/-- The next block of a sender. -/
theorem nextBlockRequest (room : Nat) (b : BlockSender) :
    W P ((Cli.nextBlockRequest C room).inSession b : Cli π N Bytes) := by
  rw [Cli.nextBlockRequest_inSession]
  refine hW.bind hW.requireAssociated fun _ => ?_
  split
  · exact hW.throw _
  · refine hW.bind ?_ fun i => hW.send (b.request_fresh i) room
    split
    · exact hW.nextInvokeId
    · exact hW.outstandingId

theorem drop {α : Type} {m : Cli π N α} (h : W P m) : W P m.drop := hW.bind h fun _ => hW.pure ()

/-- The methods but for three. -/
theorem method (op : ClientOp) (hnext : ∀ n room, op ≠ .getNextBlockRequest n room)
    (hresp : ∀ apdu size, op ≠ .handleResponse apdu size)
    (hset : ∀ value, op ≠ .setInvocationCounter value) : W P (op.method C : Cli π N Unit) := by
  cases op with
  | associateRequest room rng => exact hW.drop (hW.associateRequest room rng)
  | handleAssociateResponse apdu => exact hW.drop (hW.handleAssociateResponse apdu)
  | hlsReplyRequest room => exact hW.drop (hW.hlsReplyRequest room)
  | handleHlsReplyResponse apdu => exact hW.drop (hW.handleHlsReplyResponse apdu)
  | setInvocationCounter value => exact absurd rfl (hset value)
  | getRequest d access room => exact hW.drop (hW.getRequest d access room)
  | getRequestWithList items room => exact hW.drop (hW.getRequestWithList items room)
  | getNextBlockRequest n room => exact absurd rfl (hnext n room)
  | setRequest d access value room => exact hW.drop (hW.setRequest d access value room)
  | setRequestWithList items values room => exact hW.drop (hW.setRequestWithList items values room)
  | actionRequest d parameters room => exact hW.drop (hW.actionRequest d parameters room)
  | actionRequestWithList ds ps room => exact hW.drop (hW.actionRequestWithList ds ps room)
  | actionNextBlockRequest n room => exact hW.drop (hW.actionNextBlockRequest n room)
  | accessRequest items room => exact hW.drop (hW.accessRequest items room)
  | readRequest items room => exact hW.drop (hW.readRequest items room)
  | writeRequest items values room => exact hW.drop (hW.writeRequest items values room)
  | unconfirmedWriteRequest items values room =>
    exact hW.drop (hW.unconfirmedWriteRequest items values room)
  | releaseRequest room => exact hW.drop (hW.releaseRequest room)
  | nextBlockRequest sender room => exact hW.drop (hW.nextBlockRequest room sender)
  | handleResponse apdu size => exact absurd rfl (hresp apdu size)

end SessionRules

/-! ## Relations -/

/-- `R` holds across the parts of the methods. -/
structure Stable (R : ClientSession π N → ClientSession π N → Prop) : Prop where
  trans : ∀ s t u, R s t → R t u → R s u
  same : ∀ s t, t.trace = s.trace → t.invocationCounter = s.invocationCounter →
    t.config = s.config → R s t
  guarded : ∀ s t, s.Protected t → R s t
  sent : ∀ s a bytes, a.Fresh → R s (s.log (.sent a bytes))
  authenticated : ∀ s a, R s (s.log (.authenticated a))

namespace Stable

variable {R : ClientSession π N → ClientSession π N → Prop} {α β : Type}

/-- A run of the method keeps `R`, and the configuration. -/
structure Kept (R : ClientSession π N → ClientSession π N → Prop) (P : ClientConfig → Prop) {α : Type}
    (m : Cli π N α) : Prop where
  run : ∀ s, P s.config → R s (m s).2 ∧ (m s).2.config = s.config

variable (hR : Stable R) {P : ClientConfig → Prop}
include hR

theorem refl (s : ClientSession π N) : R s s := hR.same s s rfl rfl rfl

theorem bind {m : Cli π N α} {f : α → Cli π N β} (hm : Kept R P m) (hf : ∀ a, Kept R P (f a)) :
    Kept R P (m >>= f) := by
  refine ⟨fun s hP => ?_⟩
  obtain ⟨hrel, hconfig⟩ := hm.run s hP
  match hs : m s with
  | (.error e, t) =>
    rw [hs] at hrel hconfig
    rw [Prog.bind_run_error hs]
    exact ⟨hrel, hconfig⟩
  | (.ok a, t) =>
    rw [hs] at hrel hconfig
    rw [Prog.bind_run_ok hs]
    obtain ⟨hrel', hconfig'⟩ := (hf a).run t (hconfig ▸ hP)
    exact ⟨hR.trans _ _ _ hrel hrel', hconfig'.trans hconfig⟩

/-- What `SessionRules` allow a change to do keeps the counter. -/
theorem modify {f : ClientSession π N → ClientSession π N} (ht : ∀ s, (f s).trace = s.trace)
    (hf : ∀ s, (f s).config = s.config) (hc : ∀ s c, f (rewound s c) = rewound (f s) c) :
    Kept R P (Prog.modify f : Cli π N Unit) := by
  refine ⟨fun s _ => ⟨hR.same s _ (ht s) ?_ (hf s), hf s⟩⟩
  have h : f s = rewound (f s) s.invocationCounter := hc s s.invocationCounter
  exact (congrArg ClientSession.invocationCounter h).trans rfl

theorem nextCounter : Kept R P (Cli.nextCounter : Cli π N UInt32) := by
  refine ⟨fun s _ => ?_⟩
  obtain ⟨value, c, hc, hnext⟩ | ⟨e, -, hnext⟩ := Cli.nextCounter_run s
  · rw [hnext]
    exact ⟨hR.guarded s _ (.spent value c hc), rfl⟩
  · rw [hnext]
    exact ⟨hR.refl s, rfl⟩

theorem taking (C : CryptoProvider π) {title : SystemTitle} {k : UInt32 → Bytes → Cli π N α}
    (htitle : ∀ c, P c → c.systemTitle = some title) (hk : ∀ value key, Kept R P (k value key)) :
    Kept R P (Cli.nextCounter >>= fun value => Cli.authKey C >>= fun key =>
      Cli.log (.protecting title value) >>= fun _ => k value key) := by
  refine ⟨fun s hP => ?_⟩
  obtain ⟨value, c, hc, hnext⟩ | ⟨e, -, hnext⟩ := Cli.nextCounter_run s
  · rw [Prog.bind_run_ok hnext]
    obtain ⟨key, hrun⟩ | ⟨e, hrun⟩ := Cli.authKey_run C (rewound s c)
    · rw [Prog.bind_run_ok hrun]
      obtain ⟨hrel, hconfig⟩ := (hk value key).run ((rewound s c).log (.protecting title value)) hP
      exact ⟨hR.trans _ _ _ (hR.guarded s _ (.taken title value c (htitle _ hP) hc)) hrel, hconfig⟩
    · rw [Prog.bind_run_error hrun]
      exact ⟨hR.guarded s _ (.spent value c hc), rfl⟩
  · rw [Prog.bind_run_error hnext]
    exact ⟨hR.refl s, rfl⟩

theorem send (C : CryptoProvider π) {a : Apdu} (ha : a.Fresh) (room : Nat) :
    Kept R P (Cli.send C a room : Cli π N Bytes) := by
  refine ⟨fun s _ => ?_⟩
  obtain ⟨t, ht, ⟨bytes, hrun⟩ | ⟨e, hrun⟩⟩ := Cli.send_run C a room s
  · rw [hrun]
    exact ⟨hR.trans _ _ _ (hR.guarded s t ht) (hR.sent t a bytes ha), ht.config⟩
  · rw [hrun]
    exact ⟨hR.guarded s t ht, ht.config⟩

theorem rules (C : CryptoProvider π) :
    SessionRules C (fun P _ (m : Cli π N _) => Kept R P m) where
  pure _ := ⟨fun s _ => ⟨hR.refl s, rfl⟩⟩
  throw _ := ⟨fun s _ => ⟨hR.refl s, rfl⟩⟩
  bind := hR.bind
  gets _ := ⟨fun s _ => ⟨hR.refl s, rfl⟩⟩
  gets_config h := ⟨fun s hP => (h _ hP).run s rfl⟩
  modify := hR.modify
  unprotect _ _ _ _ := ⟨fun s _ => ⟨hR.same s _ rfl rfl rfl, rfl⟩⟩
  nextCounter := hR.nextCounter
  taking := hR.taking C
  send := hR.send C
  authenticated a := ⟨fun s _ => ⟨hR.authenticated s a, rfl⟩⟩

/-- The steps but for three. -/
theorem step (C : CryptoProvider π) (s : ClientSession π N) (op : ClientOp)
    (hnext : ∀ n room, op ≠ .getNextBlockRequest n room)
    (hresp : ∀ apdu size, op ≠ .handleResponse apdu size)
    (hset : ∀ value, op ≠ .setInvocationCounter value) : R s (s.step C op) := by
  rw [ClientSession.step_eq]
  exact (((hR.rules C).method (P := fun _ => True) op hnext hresp hset).run s trivial).1

end Stable

end Dlms
