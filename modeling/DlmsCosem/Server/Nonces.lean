import DlmsCosem.Lib.Meter
import DlmsCosem.Server.CompleteMediation

/-!
# The numbers that a server protects with

A nonce is the server's title and a number. Every number that the server gives its protector is taken
from one counter, by the replies of the services, by the user information of an AARE and by the
answer to a client's proof. `Server.meter` reads the uses off the trace.
-/

namespace Dlms

/-- The title and the number that the protector was given. -/
def Event.use : Event → Option (SystemTitle × Nat)
  | protecting title value => some (title, value.toNat)
  | _ => none

variable {σ π : Type} {N : Nat}

namespace Server

/-- The titles and numbers that the protector was given. -/
def uses (s : Server σ π N) : List (SystemTitle × Nat) := s.trace.filterMap Event.use

/-- The counter of a server, and what it was used for. -/
def meter : Meter (Server σ π N) SystemTitle InvocationCounter where
  last s := s.invocationCounter.last.toNat
  top := 0xFFFFFFFF
  wind c s := { s with invocationCounter := c }
  uses := uses
  owner s := s.config.systemTitle
  le_top s := by have := s.invocationCounter.last.toNat_lt; omega
  uses_wind _ _ := rfl

/-- The event is not the use of a number. -/
theorem rests_log {e : Event} (he : e.use = none) (s : Server σ π N) : meter.Rests s (s.log e) :=
  ⟨rfl, rfl, by simp [meter, uses, log, he]⟩

/-- A number was taken. -/
def counted (s : Server σ π N) (value : UInt32) : Server σ π N :=
  { s with invocationCounter := ⟨value⟩ }.log (.counter value)

theorem counted_rises {s : Server σ π N} {value : UInt32}
    (h : value.toNat = s.invocationCounter.last.toNat + 1) : meter.Rises s (s.counted value) := by
  refine ⟨rfl, ?_, [], ?_, .nil, by simp⟩
  · change s.invocationCounter.last.toNat ≤ value.toNat
    omega
  · simp [meter, uses, counted, log, Event.use]

/-- A number was taken, and the protector got it. -/
theorem used_rises {s : Server σ π N} {value : UInt32} {title : SystemTitle}
    (h : value.toNat = s.invocationCounter.last.toNat + 1) (ht : s.config.systemTitle = some title) :
    meter.Rises s ((s.counted value).log (.protecting title value)) := by
  refine .use (n := value.toNat) rfl ht ?_ rfl ?_
  · change s.invocationCounter.last.toNat < value.toNat
    omega
  · change List.filterMap Event.use (s.trace ++ [_] ++ [_]) = List.filterMap Event.use s.trace ++ _
    rw [List.append_assoc, List.filterMap_append]
    rfl

end Server

namespace Srv

open Server

/-- The error of a counter at its end. -/
def Spent (e : Error) : Prop := e = ⟨.unsupported, 0⟩

/-- The program uses numbers as it should. -/
structure Numbered {α : Type} (m : Srv σ π N α) : Prop where
  run : ∀ s, meter.Metered Spent m s

theorem nextCounter_takes (s : Server σ π N) :
    nextCounter s = (.error ⟨.unsupported, 0⟩, s) ∨
      ∃ value : UInt32, value.toNat = s.invocationCounter.last.toNat + 1 ∧
        nextCounter s = (.ok value, s.counted value) := by
  unfold nextCounter
  rw [Prog.gets_bind_run]
  cases h : s.invocationCounter.next with
  | error e =>
    obtain rfl := InvocationCounter.next_error h
    exact .inl rfl
  | ok r =>
    obtain ⟨hc, hvalue⟩ := InvocationCounter.next_ok h
    refine .inr ⟨r.1, hvalue, ?_⟩
    simp [hc, counted, log]

/-- A number is taken, and what follows uses no other before it. -/
theorem numbered_take {α : Type} {k : UInt32 → Srv σ π N α} {s : Server σ π N}
    (hk : ∀ value : UInt32, value.toNat = s.invocationCounter.last.toNat + 1 →
      meter.Rises s (k value (s.counted value)).2) : meter.Metered Spent (nextCounter >>= k) s := by
  refine .take ?_
  obtain hnext | ⟨value, hvalue, hnext⟩ := nextCounter_takes s
  · exact .inl ⟨_, rfl, hnext⟩
  · refine .inr ⟨value, _, ?_, hnext, hk value hvalue⟩
    change s.invocationCounter.last.toNat < 0xFFFFFFFF
    have := value.toNat_lt
    omega

namespace Numbered

variable {α β : Type}

theorem pure (a : α) : Numbered (Pure.pure a : Srv σ π N α) := ⟨fun _ => (Meter.Blind.pure a).metered⟩

theorem throw (e : Error) : Numbered (Prog.throw e : Srv σ π N α) :=
  ⟨fun _ => (Meter.Blind.throw e).metered⟩

theorem ofExcept (r : Except Error α) : Numbered (Prog.ofExcept r : Srv σ π N α) :=
  ⟨fun _ => (Meter.Blind.ofExcept r).metered⟩

theorem gets {f : Server σ π N → α} (h : ∀ s c, f (rewound s c) = f s) : Numbered (Prog.gets f) :=
  ⟨fun s => (Meter.Blind.gets (h s)).metered⟩

theorem modify {f : Server σ π N → Server σ π N} (hr : ∀ s, meter.Rests s (f s))
    (h : ∀ s c, f (rewound s c) = rewound (f s) c) : Numbered (Prog.modify f) :=
  ⟨fun s => (Meter.Blind.modify (hr s) (h s)).metered⟩

theorem bind {m : Srv σ π N α} {f : α → Srv σ π N β} (hm : Numbered m) (hf : ∀ a, Numbered (f a)) :
    Numbered (m >>= f) := ⟨fun s => (hm.run s).bind fun a t _ => (hf a).run t⟩

theorem log {e : Event} (he : e.use = none) : Numbered (Srv.log e : Srv σ π N Unit) :=
  modify (rests_log he) fun _ _ => rfl

theorem need (a : Option α) (kind : ErrorKind) : Numbered (Srv.need a kind : Srv σ π N α) := by
  cases a with
  | none => exact throw _
  | some a => exact pure a

theorem reply (e : Emit) (room : Nat) : Numbered (Srv.reply e room : Srv σ π N Bytes) := ofExcept _

theorem setState (t : ServerState) : Numbered (Srv.setState t : Srv σ π N Unit) :=
  modify (fun _ => ⟨rfl, rfl, rfl⟩) fun _ _ => rfl

theorem audit (S : ObjectStore σ) (e : AuditEvent) : Numbered (Srv.audit S e : Srv σ π N Unit) :=
  bind (modify (fun _ => ⟨rfl, rfl, rfl⟩) fun _ _ => rfl) fun _ => log rfl

theorem authKey (C : CryptoProvider π) : Numbered (Srv.authKey C : Srv σ π N Bytes) :=
  bind (gets fun _ _ => rfl) fun _ => need ..

theorem checkFits (len : Nat) : Numbered (Srv.checkFits len : Srv σ π N Unit) := by
  refine bind (gets fun _ _ => rfl) fun max => ?_
  dsimp only
  split
  · exact throw _
  · exact pure _

/-! ### Replies -/

section Handlers

variable (C : CryptoProvider π) (S : ObjectStore σ)

theorem send (apdu : Apdu) (room : Nat) : Numbered (Srv.send C apdu room : Srv σ π N Bytes) := by
  have hscratch : Numbered (Srv.encodeScratch apdu.encode : Srv σ π N Bytes) :=
    ⟨fun s => Meter.Blind.metered ⟨⟨rfl, rfl, rfl⟩, fun _ => rfl⟩⟩
  refine bind hscratch fun plain => ⟨fun s => ?_⟩
  refine .gets_bind (fun _ => rfl) ?_
  split
  · exact (bind (checkFits _) fun _ => reply ..).run s
  · cases htitle : s.config.systemTitle with
    | none => exact (throw _).run s
    | some title =>
      refine numbered_take fun value hvalue => (used_rises hvalue htitle).trans ?_
      exact ((bind (ofExcept _) fun _ => bind (checkFits _) fun _ => pure _).run _).rises

theorem exception (a : StateError) (b : ServiceError) (room : Nat) :
    Numbered (Srv.exception C a b room : Srv σ π N Bytes) := by
  refine bind (gets fun _ _ => rfl) fun config => bind (gets fun _ _ => rfl) fun negotiated => ?_
  split
  · exact reply ..
  · exact send ..

theorem refuse (result : AssociationResult) (diagnostic : UserDiagnostic) (room : Nat) :
    Numbered (Srv.refuse S result diagnostic room : Srv σ π N Bytes) :=
  bind (setState _) fun _ => bind (audit ..) fun _ => bind (gets fun _ _ => rfl) fun _ =>
    bind (gets fun _ _ => rfl) fun _ => reply ..

/-! ### The handshake -/

theorem responseInfo : Numbered (Srv.responseInfo C : Srv σ π N Bytes) := by
  refine ⟨fun s => .gets_bind (fun _ => rfl) (.gets_bind (fun _ => rfl) ?_)⟩
  refine ((reply ..).run s).bind fun plain t ht => ?_
  obtain rfl : t = s := by
    have h := congrArg Prod.snd ht
    rw [reply_run] at h
    exact h.symm
  refine .gets_bind (fun _ => rfl) ?_
  split
  · cases htitle : t.config.systemTitle with
    | none => exact (throw _).run t
    | some title =>
      refine numbered_take fun value hvalue => ?_
      obtain ⟨-, e, hrun⟩ | ⟨key, -, hrun⟩ := authKey_run C (t.counted value)
      · rw [Prog.bind_run_error hrun]
        exact counted_rises hvalue
      · rw [Prog.bind_run_ok hrun]
        refine (used_rises hvalue htitle).trans ?_
        exact ((bind (ofExcept _) fun _ => bind (need ..) fun _ => reply ..).run _).rises
  · exact (pure _).run t

theorem acceptAssociation (context : ApplicationContext) (mechanism : AuthMechanism)
    (challenge : Option Bytes) (room : Nat) :
    Numbered (Srv.acceptAssociation C S context mechanism challenge room : Srv σ π N Bytes) :=
  bind (responseInfo C) fun _ => bind (gets fun _ _ => rfl) fun _ => bind (gets fun _ _ => rfl) fun _ =>
    bind (audit ..) fun _ => reply ..

theorem unprotect (policy : SecurityPolicy) (plain : List ApduTag) (size : Nat) (apdu : Bytes)
    (s : Server σ π N) : meter.Blind (Srv.unprotect C policy plain size apdu) s := by
  have hrewound (c : InvocationCounter) :
      Srv.unprotect C policy plain size apdu (rewound s c) =
        ((Srv.unprotect C policy plain size apdu s).1,
          rewound (Srv.unprotect C policy plain size apdu s).2 c) := by
    have hsame : unprotectApdu C (rewound s c).protector ((rewound s c).incoming C policy plain) apdu
        ⟨(rewound s c).peerReplay, zeros size⟩ = unprotectApdu C s.protector
          (s.incoming C policy plain) apdu ⟨s.peerReplay, zeros size⟩ := rfl
    unfold Srv.unprotect
    rw [hsame]
    generalize unprotectApdu C s.protector _ _ _ = out
    obtain ⟨r, t⟩ := out
    cases r with
    | error e => rfl
    | ok opened =>
      dsimp only
      cases opened.frame <;> rfl
  refine ⟨?_, hrewound⟩
  obtain ⟨w, fs, hu, hfs⟩ := unprotect_state C s policy plain size apdu
  rw [hu]
  refine ⟨rfl, rfl, ?_⟩
  obtain rfl | ⟨f, rfl⟩ := hfs
  · simp [meter, uses]
  · simp [meter, uses, Event.use]

theorem unprotectInto (apdu : Bytes) :
    Numbered (Prog.try' (Srv.unprotectInto C apdu) : Srv σ π N (Except Error Opened)) := by
  refine ⟨fun s => Meter.Blind.metered (Meter.Blind.try' ?_)⟩
  have h := unprotect C s.protector.policy plainFromClient N apdu s
  exact ⟨h.rests, h.wind⟩

theorem unprotectInitiate (apdu : Bytes) :
    Numbered (Prog.try' (Srv.unprotectInitiate C apdu) : Srv σ π N (Except Error Opened)) := by
  refine ⟨fun s => Meter.Blind.metered (Meter.Blind.try' ?_)⟩
  have h := unprotect C s.config.security.global plainInitiate 256 apdu s
  exact ⟨h.rests, h.wind⟩

theorem installDedicated (dedicated : Bytes) :
    Numbered (Srv.installDedicated C dedicated : Srv σ π N Bool) := by
  refine bind (ofExcept _) fun key => bind (gets fun _ _ => rfl) fun x => ?_
  refine bind (modify (fun _ => ⟨rfl, rfl, rfl⟩) fun _ _ => rfl) fun _ => ?_
  cases x.1 with
  | ok => exact bind (modify (fun _ => ⟨rfl, rfl, rfl⟩) fun _ _ => rfl) fun _ => pure _
  | error => exact pure _

theorem takeInitiate (aarq : Aarq) (room : Nat) :
    Numbered (Srv.takeInitiate C S aarq room : Srv σ π N _) := by
  refine bind (gets fun _ _ => rfl) fun config => ?_
  cases aarq.userInformation with
  | none => exact pure _
  | some info =>
    refine bind (unprotectInitiate C info) fun r => ?_
    cases r with
    | error e =>
      dsimp only
      split
      · refine bind (gets fun _ _ => rfl) fun _ => bind (setState _) fun _ => ?_
        exact bind (audit ..) fun _ => bind (reply ..) fun _ => pure _
      · exact bind (refuse ..) fun _ => pure _
    | ok opened =>
      refine bind (ofExcept _) fun init => ?_
      cases init with
      | none => exact pure _
      | some init =>
        refine bind (log rfl) fun _ => ?_
        cases init.dedicatedKey with
        | none => exact pure _
        | some key =>
          refine bind (installDedicated C _) fun b => ?_
          split
          · exact pure _
          · exact bind (refuse ..) fun _ => pure _

theorem startAuthentication (aarq : Aarq) (mechanism : AuthMechanism) (rng : Entropy) :
    Numbered (Srv.startAuthentication aarq mechanism rng : Srv σ π N _) := by
  unfold Srv.startAuthentication
  split
  · refine bind (need ..) fun given => ?_
    split
    · exact throw _
    · refine bind (modify (fun _ => ⟨rfl, rfl, rfl⟩) fun _ _ => rfl) fun _ => ?_
      refine bind (gets fun _ _ => rfl) fun _ => bind (ofExcept _) fun _ => ?_
      exact bind (modify (fun _ => ⟨rfl, rfl, rfl⟩) fun _ _ => rfl) fun _ => bind (setState _) fun _ =>
        pure _
  · exact bind (setState _) fun _ => pure _

theorem openAssociation (aarq : Aarq) (context : ApplicationContext) (mechanism : AuthMechanism)
    (room : Nat) (rng : Entropy) :
    Numbered (Srv.openAssociation C S aarq context mechanism room rng : Srv σ π N Bytes) := by
  refine bind (takeInitiate C S aarq room) fun x => ?_
  cases x with
  | inl reply => exact pure _
  | inr x =>
    refine bind (modify (fun _ => ⟨rfl, rfl, rfl⟩) fun _ _ => rfl) fun _ => ?_
    split
    · exact refuse ..
    · exact bind (startAuthentication ..) fun _ => acceptAssociation ..

theorem callingTitle (aarq : Aarq) : Numbered (Srv.callingTitle aarq : Srv σ π N Unit) := by
  unfold Srv.callingTitle
  cases aarq.callingApTitle with
  | none => exact pure _
  | some title =>
    refine bind (ofExcept _) fun title => modify (fun s => ?_) fun s c => ?_
    · unfold Server.takeTitle
      split <;> exact ⟨rfl, rfl, rfl⟩
    · unfold Server.takeTitle
      dsimp only
      split <;> rfl

theorem handleAarq (apdu : Bytes) (room : Nat) (rng : Entropy) :
    Numbered (Srv.handleAarq C S apdu room rng : Srv σ π N Bytes) := by
  refine bind (ofExcept _) fun aarq => ?_
  refine bind (modify (fun _ => ⟨rfl, rfl, rfl⟩) fun _ _ => rfl) fun _ => bind (log rfl) fun _ => ?_
  refine bind (gets fun _ _ => rfl) fun config => ?_
  refine bind (modify (fun _ => ⟨rfl, rfl, rfl⟩) fun _ _ => rfl) fun _ => ?_
  split
  · exact refuse ..
  · split
    · exact refuse ..
    · dsimp only
      split
      · exact refuse ..
      · refine bind (callingTitle aarq) fun _ => ?_
        split
        · exact refuse ..
        · exact openAssociation ..

theorem handleHlsReply (i : InvokeId) (d : MethodDescriptor) (parameters : Option Data)
    (room : Nat) : Numbered (Srv.handleHlsReply C i d parameters room : Srv σ π N Bytes) := by
  unfold Srv.handleHlsReply
  split
  · refine bind (gets fun _ _ => rfl) fun _ => bind (need ..) fun _ => bind (authKey C) fun _ => ?_
    refine bind (gets fun _ _ => rfl) fun _ => bind (gets fun _ _ => rfl) fun _ => ?_
    split
    · exact bind (setState _) fun _ => send ..
    · refine bind (log rfl) fun _ => ⟨fun s => .gets_bind (fun _ => rfl) ?_⟩
      cases htitle : s.config.systemTitle with
      | none => exact (throw _).run s
      | some title =>
        refine numbered_take fun value hvalue => (used_rises hvalue htitle).trans ?_
        exact ((bind (ofExcept _) fun _ => bind (log rfl) fun _ => bind (setState _) fun _ =>
          send ..).run _).rises
  · exact exception ..

theorem handleRelease (apdu : Bytes) (room : Nat) :
    Numbered (Srv.handleRelease C S apdu room : Srv σ π N Bytes) :=
  bind (ofExcept _) fun _ => bind (setState _) fun _ =>
    bind (modify (fun _ => ⟨rfl, rfl, rfl⟩) fun _ _ => rfl) fun _ => bind (audit ..) fun _ => reply ..

theorem reset : Numbered (Srv.reset C S : Srv σ π N Unit) :=
  bind (setState _) fun _ => bind (modify (fun _ => ⟨rfl, rfl, rfl⟩) fun _ _ => rfl) fun _ =>
    bind (modify (fun _ => ⟨rfl, rfl, rfl⟩) fun _ _ => rfl) fun _ => audit ..

end Handlers

end Numbered

/-! ## The services -/

/-- The program keeps to its work and uses numbers as it should, where the client agreed to `P`. -/
structure NumberedWork (pre : List Event) (P : Conformance → Prop) {α : Type} (m : Srv σ π N α) :
    Prop where
  works : Works pre P m
  run : ∀ s, P s.negotiated → s.Agreed → meter.Metered Spent m s

namespace NumberedWork

variable {pre : List Event} {P : Conformance → Prop} {α β : Type}

theorem of {m : Srv σ π N α} (hw : Works pre P m) (hn : Numbered m) : NumberedWork pre P m :=
  ⟨hw, fun s _ _ => hn.run s⟩

theorem bind {m : Srv σ π N α} {f : α → Srv σ π N β} (hm : NumberedWork pre P m)
    (hf : ∀ a, NumberedWork pre P (f a)) : NumberedWork pre P (m >>= f) := by
  refine ⟨hm.works.bind fun a => (hf a).works, fun s hP ha => ?_⟩
  have hw := hm.works.run s hP ha
  refine (hm.run s hP ha).bind fun a t ht => (hf a).run t ?_ ?_
  · rw [ht] at hw
    rw [hw.negotiated]
    exact hP
  · rw [ht] at hw
    exact hw.agreed

/-- The rights are looked up: a call of the store and a record of it, and then the rest. -/
theorem looked {γ : Type} {look : Server σ π N → γ × σ} {e : γ → Event} {k : γ → Srv σ π N β}
    (hl : ∀ s c, look (rewound s c) = look s) (he : ∀ r, (e r).use = none)
    (hk : ∀ r, NumberedWork (pre ++ [e r]) P (k r)) {s : Server σ π N} (hP : P s.negotiated)
    (ha : s.Agreed) : meter.Metered Spent (do
      let (r, store) ← Prog.gets look
      Prog.modify fun s => { s with store }
      log (e r)
      k r) s := by
  refine .gets_bind (hl s) ?_
  generalize look s = looked
  obtain ⟨r, store⟩ := looked
  have hstore : Numbered (Prog.modify fun s => { s with store } : Srv σ π N Unit) :=
    .modify (fun _ => ⟨rfl, rfl, rfl⟩) fun _ _ => rfl
  refine (hstore.run s).bind fun _ t ht => ?_
  obtain ⟨-, rfl⟩ := Prod.mk.inj ht
  refine ((Numbered.log (he _)).run _).bind fun _ u hu => ?_
  obtain ⟨-, rfl⟩ := Prod.mk.inj hu
  exact (hk _).run _ hP ha

/-- A change that any counter allows leaves the counter alone. -/
theorem steady_rests {f : Server σ π N → Server σ π N} (ha : ∀ s, (f s).association = s.association)
    (he : ∀ s, (f s).trace = s.trace) (hc : ∀ s c, f (rewound s c) = rewound (f s) c)
    (s : Server σ π N) : meter.Rests s (f s) := by
  have hf : f s = rewound (f s) s.invocationCounter := hc s s.invocationCounter
  have hcounter : (f s).invocationCounter = s.invocationCounter := by rw [hf]
  refine ⟨?_, ?_, ?_⟩
  · exact congrArg (fun a => a.config.systemTitle) (ha s)
  · exact congrArg (fun c => c.last.toNat) hcounter
  · exact congrArg (List.filterMap Event.use) (he s)

theorem putResponse (n : Nat) (bytes : Bytes) (needed : Nat) :
    Numbered (Srv.putResponse n bytes needed : Srv σ π N Unit) := by
  refine ⟨fun s => Meter.Blind.metered ?_⟩
  unfold Srv.putResponse
  cases h : s.response.copyAt n bytes with
  | none => exact ⟨by rw [h]; exact ⟨rfl, rfl, rfl⟩, fun c => by simp only [meter, h]⟩
  | some b => exact ⟨by rw [h]; exact ⟨rfl, rfl, rfl⟩, fun c => by simp only [meter, h]⟩

theorem rules (C : CryptoProvider π) (S : ObjectStore σ) :
    ServiceRules C S (fun pre P _ (m : Srv σ π N _) => NumberedWork pre P m) where
  pure a := of (.pure a) (.pure a)
  throw e := of (.throw e) (.throw e)
  bind := bind
  gets h := of (.gets _) (.gets h)
  gets_negotiated h := ⟨.gets_negotiated fun c hc => (h c hc).works, fun s hP ha =>
    .gets_bind (fun _ => rfl) ((h _ hP).run s rfl ha)⟩
  gets_transfer h := ⟨.gets_transfer fun t => (h t).works, fun _ _ ha =>
    .gets_bind (fun _ => rfl) ((h _).run _ ha ha)⟩
  modify ha hf he hc := of (.modify ha hf he) (.modify (steady_rests ha he hc) hc)
  call h := of (.log h) (.log rfl)
  setTransfer h := of (.setTransfer h) (.modify (fun _ => ⟨rfl, rfl, rfl⟩) fun _ _ => rfl)
  putResponse n bytes needed := of (.putResponse n bytes needed) (putResponse n bytes needed)
  encodeResponse e := of (.encodeResponse e)
    ⟨fun _ => Meter.Blind.metered ⟨⟨rfl, rfl, rfl⟩, fun _ => rfl⟩⟩
  attributeAccess_bind h := ⟨.attributeAccess_bind S fun r => (h r).works, fun _ hP ha =>
    looked (fun _ _ => rfl) (fun _ => rfl) h hP ha⟩
  methodAccess_bind h := ⟨.methodAccess_bind S fun r => (h r).works, fun _ hP ha =>
    looked (fun _ _ => rfl) (fun _ => rfl) h hP ha⟩
  send apdu room := of (.send C apdu room) (.send C apdu room)

end NumberedWork

/-! ## Any APDU -/

section Handle

variable (C : CryptoProvider π) (S : ObjectStore σ)

theorem serveRequest_metered {s : Server σ π N} (req : Apdu) (room : Nat) (ha : s.Agreed) :
    meter.Metered Spent (serveRequest C S req room) s := by
  have run {m : Srv σ π N Bytes} (hm : NumberedWork [] (fun _ => True) m) :
      meter.Metered Spent m s := hm.run s trivial ha
  have hW := NumberedWork.rules (N := N) C S
  cases req with
  | getRequest => exact run (hW.handleGet ..)
  | setRequest => exact run (hW.handleSet ..)
  | actionRequest req =>
    refine .gets_bind (fun _ => rfl) ?_
    split
    · cases req with
      | normal => exact (Numbered.handleHlsReply C ..).run s
      | _ => exact (Numbered.exception ..).run s
    · exact run (hW.serveAction ..)
  | accessRequest => exact run (hW.handleAccess ..)
  | readRequest => exact run (hW.handleRead ..)
  | writeRequest => exact run (hW.handleWrite ..)
  | unconfirmedWriteRequest => exact run (hW.handleWrite ..)
  | _ => exact (Numbered.exception ..).run s

theorem handleProtected_metered {s : Server σ π N} (apdu : Bytes) (room : Nat) (ha : s.Agreed) :
    meter.Metered Spent (handleProtected C S apdu room) s := by
  refine ((Numbered.unprotectInto C apdu).run s).bind fun r t ht => ?_
  have hat : t.Agreed := by
    have h := unprotectInto_agreed C apdu ha
    rw [Prog.try'_run] at ht
    rwa [(Prod.mk.inj ht).2] at h
  cases r with
  | error e =>
    dsimp only
    split
    · exact (Numbered.bind (.gets fun _ _ => rfl) fun _ => .reply ..).run t
    · exact (Numbered.exception ..).run t
  | ok opened =>
    dsimp only
    cases Apdu.fromBytes opened.plain with
    | error e => exact (Numbered.exception ..).run t
    | ok req =>
      refine ((Numbered.log rfl).run t).bind fun _ u hu => ?_
      obtain ⟨-, rfl⟩ := Prod.mk.inj hu
      exact serveRequest_metered C S req room hat

theorem handle_metered {s : Server σ π N} (apdu : Bytes) (room : Nat) (rng : Entropy) (ha : s.Agreed) :
    meter.Metered Spent (handle C S apdu room rng) s := by
  refine .gets_bind (fun _ => rfl) ?_
  split
  · exact (Numbered.exception ..).run s
  · split
    · exact (Numbered.exception ..).run s
    · exact (Numbered.handleAarq ..).run s
    · exact (Numbered.handleRelease ..).run s
    · refine .gets_bind (fun _ => rfl) ?_
      split
      · exact (Numbered.exception ..).run s
      · exact handleProtected_metered C S apdu room ha

end Handle

end Srv

/-! ## Runs -/

namespace Server

variable (C : CryptoProvider π) (S : ObjectStore σ)

theorem step_rises {s : Server σ π N} (x : Step σ) (ha : s.Agreed) :
    meter.Rises s (s.step C S x).2 := by
  cases x with
  | handle apdu room rng => exact (Srv.handle_metered C S apdu room rng ha).rises
  | reset => exact ((Srv.Numbered.reset C S).run s).rises
  | resume => exact Meter.Rests.rises ⟨rfl, rfl, rfl⟩
  | storeMut => exact Meter.Rests.rises ⟨rfl, rfl, rfl⟩

/-- In a run of a server the numbers rise. -/
theorem run_rises {s : Server σ π N} (steps : List (Step σ)) (ha : s.Agreed) :
    meter.Rises s (s.run C S steps) := by
  induction steps generalizing s with
  | nil => exact .refl s
  | cons x xs ih => exact (step_rises C S x ha).trans (ih (step_agreed C S x ha))

end Server

end Dlms
