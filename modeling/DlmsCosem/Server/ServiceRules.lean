import DlmsCosem.Server.Mediation

/-!
# What the services are made of

`ServiceRules C S W` says that `W` holds of everything the services are made of: it is kept by
sequencing, and holds of each construct that touches a server. Then `W` holds of every service. Each
is walked through once for all such `W`.

`W pre P m` is about a program `m` after the events `pre`, for a client that agreed to `P`.
-/

namespace Dlms

variable {σ π : Type} {N : Nat}

namespace Srv

/-- A server with another counter. -/
abbrev rewound (s : Server σ π N) (c : InvocationCounter) : Server σ π N :=
  { s with invocationCounter := c }

/-- `W` holds of what the services are made of. -/
structure ServiceRules (C : CryptoProvider π) (S : ObjectStore σ)
    (W : List Event → (Conformance → Prop) → ∀ {α : Type}, Srv σ π N α → Prop) : Prop where
  pure : ∀ {pre P} {α : Type} (a : α), W pre P (Pure.pure a)
  throw : ∀ {pre P} {α : Type} (e : Error), W pre P (Prog.throw e : Srv σ π N α)
  bind : ∀ {pre P} {α β : Type} {m : Srv σ π N α} {f : α → Srv σ π N β}, W pre P m →
    (∀ a, W pre P (f a)) → W pre P (m >>= f)
  gets : ∀ {pre P} {α : Type} {f : Server σ π N → α}, (∀ s c, f (rewound s c) = f s) →
    W pre P (Prog.gets f)
  /-- What was agreed to is looked up, and `P` grows by it. -/
  gets_negotiated : ∀ {pre P} {β : Type} {k : Conformance → Srv σ π N β},
    (∀ c, P c → W pre (· = c) (k c)) → W pre P (Prog.gets Server.negotiated >>= k)
  /-- The transfer is looked up: that it was agreed to is known. -/
  gets_transfer : ∀ {pre P} {β : Type} {k : Transfer → Srv σ π N β},
    (∀ t, W pre t.Agreed (k t)) → W pre P (Prog.gets Server.transfer >>= k)
  /-- A change of what is neither the association nor the transfer nor the trace nor the counter. -/
  modify : ∀ {pre P} {f : Server σ π N → Server σ π N}, (∀ s, (f s).association = s.association) →
    (∀ s, (f s).transfer = s.transfer) → (∀ s, (f s).trace = s.trace) →
    (∀ s c, f (rewound s c) = rewound (f s) c) → W pre P (Prog.modify f)
  call : ∀ {pre P} {call : StoreCall}, call.Granted pre → W pre P (Srv.log (.store call))
  setTransfer : ∀ {pre P} {t : Transfer}, (∀ c, P c → t.Agreed c) → W pre P (Srv.setTransfer t)
  putResponse : ∀ {pre P} (n : Nat) (bytes : Bytes) (needed : Nat),
    W pre P (Srv.putResponse n bytes needed)
  encodeResponse : ∀ {pre P} (e : Emit), W pre P (Srv.encodeResponse e)
  /-- The rights of an attribute, and a program that may rest on them. -/
  attributeAccess_bind : ∀ {pre P} {β : Type} {op : Operation} {d : AttributeDescriptor}
    {k : AttributeAccess → Srv σ π N β},
    (∀ r, W (pre ++ [.store (.attributeAccess op d r)]) P (k r)) →
    W pre P (Srv.attributeAccess S op d >>= k)
  methodAccess_bind : ∀ {pre P} {β : Type} {d : MethodDescriptor} {k : MethodAccess → Srv σ π N β},
    (∀ r, W (pre ++ [.store (.methodAccess d r)]) P (k r)) → W pre P (Srv.methodAccess S d >>= k)
  send : ∀ {pre P} (apdu : Apdu) (room : Nat), W pre P (Srv.send C apdu room)

namespace ServiceRules

variable {C : CryptoProvider π} {S : ObjectStore σ}
  {W : List Event → (Conformance → Prop) → ∀ {α : Type}, Srv σ π N α → Prop}
  {pre : List Event} {P : Conformance → Prop} {α β : Type}

section Basic

variable (hW : ServiceRules C S W)
include hW

theorem ofExcept (r : Except Error α) : W pre P (Prog.ofExcept r : Srv σ π N α) := by
  cases r with
  | error e => exact hW.throw e
  | ok a => exact hW.pure a

theorem map {m : Srv σ π N α} (f : α → β) (hm : W pre P m) : W pre P (f <$> m) :=
  hW.bind hm fun a => hW.pure (f a)

theorem fold {f : β → α → Srv σ π N β} (hf : ∀ b a, W pre P (f b a)) (b : β) (xs : List α) :
    W pre P (Prog.fold f b xs) := by
  induction xs generalizing b with
  | nil => exact hW.pure b
  | cons x xs ih => exact hW.bind (hf b x) fun b' => ih b'

theorem onWriter (m : Write α) (w : SliceWriter) : W pre P (Srv.onWriter m w : Srv σ π N _) := by
  unfold Srv.onWriter
  split
  · exact hW.pure _
  · exact hW.throw _

theorem emit (e : Emit) (w : SliceWriter) : W pre P (Srv.emit e w : Srv σ π N _) :=
  hW.bind (hW.onWriter ..) fun _ => hW.pure _

theorem truncate (n : Nat) (w : SliceWriter) : W pre P (Srv.truncate n w : Srv σ π N _) :=
  hW.bind (hW.onWriter ..) fun _ => hW.pure _

theorem reply (e : Emit) (room : Nat) : W pre P (Srv.reply e room : Srv σ π N _) := hW.ofExcept _

theorem need (a : Option α) (kind : ErrorKind) : W pre P (Srv.need a kind : Srv σ π N α) := by
  cases a with
  | none => exact hW.throw _
  | some a => exact hW.pure a

theorem idle : W pre P (Srv.setTransfer .idle : Srv σ π N Unit) := hW.setTransfer fun _ _ => trivial

/-- The store is left in another state, and the call is recorded. -/
theorem called {call : StoreCall} (h : call.Granted pre) (store : σ) (a : α) :
    W pre P (do Prog.modify fun s => { s with store }; Srv.log (.store call); return a :
      Srv σ π N α) :=
  hW.bind (hW.modify (fun _ => rfl) (fun _ => rfl) (fun _ => rfl) fun _ _ => rfl) fun _ =>
    hW.bind (hW.call h) fun _ => hW.pure _

theorem resolveShortName (name : ObjectName) : W pre P (Srv.resolveShortName S name : Srv σ π N _) :=
  hW.bind (hW.gets fun _ _ => rfl) fun _ => hW.called (by trivial) _ _

theorem audit (e : AuditEvent) : W pre P (Srv.audit S e : Srv σ π N Unit) :=
  hW.bind (hW.modify (fun _ => rfl) (fun _ => rfl) (fun _ => rfl) fun _ _ => rfl) fun _ =>
    hW.call trivial

theorem getAttribute {d : AttributeDescriptor} {access : Option SelectiveAccess} {w : SliceWriter}
    (h : (StoreCall.getAttribute d access).Granted pre) :
    W pre P (Srv.getAttribute S d access w : Srv σ π N _) :=
  hW.bind (hW.gets fun _ _ => rfl) fun _ => hW.called h _ _

theorem setAttribute {d : AttributeDescriptor} {access : Option SelectiveAccess} {value : Data}
    (h : (StoreCall.setAttribute d access value).Granted pre) :
    W pre P (Srv.setAttribute S d access value : Srv σ π N _) :=
  hW.bind (hW.gets fun _ _ => rfl) fun _ => hW.called h _ _

theorem invokeMethod {d : MethodDescriptor} {parameters : Option Data} {w : SliceWriter}
    (h : (StoreCall.invokeMethod d parameters).Granted pre) :
    W pre P (Srv.invokeMethod S d parameters w : Srv σ π N _) :=
  hW.bind (hW.gets fun _ _ => rfl) fun _ => hW.called h _ _

end Basic

theorem canRead {d : AttributeDescriptor} {access : Option SelectiveAccess} {r : AttributeAccess}
    (h : r.canRead = true) :
    (StoreCall.getAttribute d access).Granted (pre ++ [.store (.attributeAccess .read d r)]) :=
  ⟨r, by simp, h⟩

theorem canWrite {d : AttributeDescriptor} {access : Option SelectiveAccess} {value : Data}
    {r : AttributeAccess} (h : r.canWrite = true) :
    (StoreCall.setAttribute d access value).Granted (pre ++ [.store (.attributeAccess .write d r)]) :=
  ⟨r, by simp, h⟩

theorem canInvoke {d : MethodDescriptor} {parameters : Option Data} {r : MethodAccess}
    (h : r.canInvoke = true) :
    (StoreCall.invokeMethod d parameters).Granted (pre ++ [.store (.methodAccess d r)]) :=
  ⟨r, by simp, h⟩

/-! ## Replies -/

section Handlers

variable (hW : ServiceRules C S W)
include hW

theorem exception (a : StateError) (b : ServiceError) (room : Nat) :
    W pre P (Srv.exception C a b room : Srv σ π N _) := by
  refine hW.bind (hW.gets fun _ _ => rfl) fun config =>
    hW.bind (hW.gets fun _ _ => rfl) fun negotiated => ?_
  split
  · exact hW.reply ..
  · exact hW.send ..

theorem counterException (expected : UInt32) (room : Nat) :
    W pre P (Srv.counterException expected room : Srv σ π N _) := hW.reply ..

theorem readError (e : DataAccessResult) (room : Nat) :
    W pre P (Srv.readError C e room : Srv σ π N _) :=
  hW.bind (hW.emit ..) fun _ => hW.send ..

theorem transferError (i : InvokeId) (service : Outbound) (e : DataAccessResult) (f : ActionResult)
    (room : Nat) : W pre P (Srv.transferError C i service e f room : Srv σ π N _) := by
  cases service
  · exact hW.send ..
  · exact hW.send ..
  · exact hW.readError ..

theorem serving {required : Conformance} {room : Nat} {m : Srv σ π N Bytes} (hm : W pre P m) :
    W pre P (Srv.serving C required room m) := by
  refine hW.bind (hW.gets fun _ _ => rfl) fun state =>
    hW.bind (hW.gets fun _ _ => rfl) fun negotiated => ?_
  split
  · exact hW.exception ..
  · split
    · exact hW.exception ..
    · exact hm

theorem withReferences {room : Nat} {m : Srv σ π N Bytes} (hm : W pre P m) :
    W pre P (Srv.withReferences C room m) := by
  refine hW.bind (hW.gets fun _ _ => rfl) fun negotiated => ?_
  split
  · exact hW.exception ..
  · exact hm

/-! ## Access to objects -/

theorem writeOne (d : AttributeDescriptor) (access : Option SelectiveAccess) (value : Data) :
    W pre P (Srv.writeOne S d access value : Srv σ π N _) := by
  refine hW.attributeAccess_bind fun rights => hW.bind ?_ fun result => ?_
  · split
    · rename_i h
      refine hW.bind (hW.setAttribute (canWrite h)) fun r => ?_
      cases r <;> exact hW.pure _
    · exact hW.pure _
  · exact hW.bind (hW.audit ..) fun _ => hW.pure _

theorem runMethod (d : MethodDescriptor) (parameters : Option Data) (w : SliceWriter) :
    W pre P (Srv.runMethod S d parameters w : Srv σ π N _) := by
  refine hW.methodAccess_bind fun rights => hW.bind ?_ fun x => ?_
  · split
    · rename_i h
      exact hW.invokeMethod (canInvoke h)
    · exact hW.pure _
  · exact hW.bind (hW.audit ..) fun _ => hW.pure _

/-! ## Blocks -/

theorem blockApdu (i : InvokeId) (service : Outbound) (last : Bool) (number : UInt32)
    (payload : Bytes) : W pre P (Srv.blockApdu i service last number payload : Srv σ π N _) := by
  cases service with
  | get => exact hW.pure _
  | action => exact hW.pure _
  | read =>
    dsimp only [Srv.blockApdu]
    split
    · exact hW.throw _
    · exact hW.bind (hW.emit ..) fun _ => hW.pure _

theorem sendNextBlock (room : Nat) : W pre P (Srv.sendNextBlock C room : Srv σ π N _) := by
  refine hW.bind (hW.gets fun _ _ => rfl) fun transfer => ?_
  split
  · refine hW.bind (hW.gets fun _ _ => rfl) fun max => ?_
    split
    · exact hW.bind hW.idle fun _ => hW.transferError ..
    · dsimp only
      split
      · exact hW.throw _
      · refine hW.bind (hW.gets fun _ _ => rfl) fun payload =>
          hW.bind (hW.blockApdu ..) fun apdu => ?_
        refine hW.bind (hW.send ..) fun bytes => hW.bind (hW.setTransfer fun c _ => ?_) fun _ =>
          hW.pure _
        split <;> trivial
  · exact hW.exception ..

theorem deliverBlocked (i : InvokeId) (service : Outbound) (len room : Nat) :
    W pre P (Srv.deliverBlocked C i service len room : Srv σ π N _) := by
  refine hW.bind (hW.gets fun _ _ => rfl) fun negotiated => ?_
  split
  · exact hW.bind hW.idle fun _ => hW.transferError ..
  · exact hW.bind (hW.setTransfer fun _ _ => trivial) fun _ => hW.sendNextBlock ..

theorem startSending (i : InvokeId) (service : Outbound) (len room : Nat) :
    W pre P (do Srv.setTransfer (.sending i service len 0 0); Srv.sendNextBlock C room :
      Srv σ π N _) :=
  hW.bind (hW.setTransfer fun _ _ => trivial) fun _ => hW.sendNextBlock ..

/-! ## GET -/

theorem getNormal (i : InvokeId) (d : AttributeDescriptor) (access : Option SelectiveAccess)
    (room : Nat) : W pre P (Srv.getNormal C S i d access room : Srv σ π N _) := by
  refine hW.bind hW.idle fun _ => hW.attributeAccess_bind fun rights => ?_
  split
  · exact hW.bind (hW.audit ..) fun _ => hW.send ..
  · rename_i h
    refine hW.bind (hW.getAttribute (canRead (by simpa using h))) fun x => ?_
    obtain ⟨result, w⟩ := x
    cases result with
    | error e => exact hW.bind (hW.audit ..) fun _ => hW.send ..
    | ok u =>
      refine hW.bind (hW.audit ..) fun _ => ?_
      dsimp only
      split
      · exact hW.bind (hW.audit ..) fun _ => hW.send ..
      · refine hW.bind (hW.gets fun _ _ => rfl) fun fits => ?_
        split
        · exact hW.bind (hW.ofExcept _) fun _ => hW.send ..
        · refine hW.bind (hW.gets fun _ _ => rfl) fun negotiated => ?_
          split
          · exact hW.send ..
          · exact hW.bind (hW.putResponse ..) fun _ => hW.startSending ..

theorem getListItem (w : SliceWriter) (item : Result AttributeDescriptorWithSelection) :
    W pre P (Srv.getListItem S w item : Srv σ π N _) := by
  refine hW.bind (hW.ofExcept _) fun item => hW.attributeAccess_bind fun rights => ?_
  split
  · rename_i h
    refine hW.bind (hW.emit ..) fun w => hW.bind (hW.getAttribute (canRead h)) fun x => ?_
    obtain ⟨result, w⟩ := x
    cases result with
    | error e =>
      exact hW.bind (hW.truncate ..) fun _ => hW.bind (hW.emit ..) fun _ =>
        hW.bind (hW.audit ..) fun _ => hW.pure _
    | ok u =>
      dsimp only
      split
      · exact hW.bind (hW.truncate ..) fun _ => hW.bind (hW.emit ..) fun _ =>
          hW.bind (hW.audit ..) fun _ => hW.pure _
      · exact hW.bind (hW.audit ..) fun _ => hW.pure _
  · exact hW.bind (hW.emit ..) fun _ => hW.bind (hW.audit ..) fun _ => hW.pure _

theorem countPrefix (count : Nat) : W pre P (Srv.countPrefix count : Srv σ π N _) :=
  hW.bind (hW.emit ..) fun _ => hW.pure _

theorem handleGetWithList (i : InvokeId) (list : WireList) (room : Nat) :
    W pre P (Srv.handleGetWithList C S i list room : Srv σ π N _) := by
  refine hW.withReferences (hW.bind hW.idle fun _ =>
    hW.bind (hW.fold hW.getListItem ..) fun w => ?_)
  refine hW.bind (hW.countPrefix _) fun count => hW.bind (hW.gets fun _ _ => rfl) fun fits => ?_
  split
  · exact hW.send ..
  · refine hW.bind (hW.gets fun _ _ => rfl) fun negotiated => ?_
    split
    · exact hW.send ..
    · exact hW.bind (hW.putResponse ..) fun _ => hW.bind (hW.putResponse ..) fun _ =>
        hW.startSending ..

theorem handleNext {service : Outbound} {missing wrong : Srv σ π N Bytes} (hm : W pre P missing)
    (hw : W pre P wrong) (i : InvokeId) (acked : UInt32) (room : Nat) :
    W pre P (Srv.handleNext C service missing wrong i acked room) := by
  refine hW.bind (hW.gets fun _ _ => rfl) fun transfer => ?_
  split
  · split
    · exact hm
    · split
      · exact hW.bind hW.idle fun _ => hw
      · exact hW.sendNextBlock ..
  · exact hm

theorem handleGet (req : GetRequest) (room : Nat) :
    W pre P (Srv.handleGet C S req room : Srv σ π N _) := by
  refine hW.serving ?_
  cases req with
  | normal i d access => exact hW.getNormal ..
  | next i n => exact hW.handleNext (hW.send ..) (hW.send ..) ..
  | withList i list => exact hW.handleGetWithList ..

/-! ## SET -/

theorem setListItem (w : SliceWriter)
    (x : Result AttributeDescriptorWithSelection × Result Data) :
    W pre P (Srv.setListItem S w x : Srv σ π N _) :=
  hW.bind (hW.ofExcept _) fun _ => hW.bind (hW.ofExcept _) fun _ =>
    hW.bind (hW.writeOne ..) fun _ => hW.emit ..

theorem handleSetWithList (i : InvokeId) (descriptors values : WireList) (room : Nat) :
    W pre P (Srv.handleSetWithList C S i descriptors values room : Srv σ π N _) := by
  refine hW.withReferences ?_
  split
  · exact hW.exception ..
  · exact hW.bind hW.idle fun _ => hW.bind (hW.fold hW.setListItem ..) fun _ => hW.send ..

theorem finishBlockedListSet (i : InvokeId) (headerEnd len : Nat) (number : UInt32) (room : Nat) :
    W pre P (Srv.finishBlockedListSet C S i headerEnd len number room : Srv σ π N _) := by
  refine hW.bind (hW.gets fun _ _ => rfl) fun header =>
    hW.bind (hW.gets fun _ _ => rfl) fun valuesBytes => ?_
  refine hW.bind (hW.ofExcept _) fun descriptors => hW.bind (hW.ofExcept _) fun values => ?_
  split
  · exact hW.bind hW.idle fun _ => hW.send ..
  · exact hW.bind (hW.fold hW.setListItem ..) fun _ => hW.send ..

theorem finishBlockedSet (i : InvokeId) (d : AttributeDescriptor) (headerEnd len : Nat)
    (number : UInt32) (room : Nat) :
    W pre P (Srv.finishBlockedSet C S i d headerEnd len number room : Srv σ π N _) := by
  refine hW.bind (hW.gets fun _ _ => rfl) fun header => hW.bind ?_ fun selective => ?_
  · split
    · exact hW.pure _
    · exact hW.map _ (hW.ofExcept _)
  · exact hW.bind (hW.gets fun _ _ => rfl) fun _ => hW.bind (hW.ofExcept _) fun _ =>
      hW.bind (hW.writeOne ..) fun _ => hW.send ..

theorem continueBlockedSet (i : InvokeId) (block : DataBlockSA) (room : Nat) :
    W pre P (Srv.continueBlockedSet C S i block room : Srv σ π N _) := by
  refine hW.gets_transfer fun transfer => ?_
  cases transfer with
  | receivingSet id d list headerEnd len last =>
    dsimp only
    split
    · exact hW.bind hW.idle fun _ => hW.send ..
    · refine hW.bind (hW.gets fun _ _ => rfl) fun response => ?_
      split
      · exact hW.bind hW.idle fun _ => hW.send ..
      · refine hW.bind (hW.modify (fun _ => rfl) (fun _ => rfl) (fun _ => rfl) fun _ _ => rfl) fun _ => ?_
        split
        -- The next block belongs to the transfer that was agreed to already.
        · exact hW.bind (hW.setTransfer fun _ h => h) fun _ => hW.send ..
        · refine hW.bind hW.idle fun _ => ?_
          split
          · exact hW.finishBlockedListSet ..
          · exact hW.finishBlockedSet ..
  | idle => exact hW.send ..
  | sending => exact hW.send ..
  | receivingAction => exact hW.send ..

theorem beginBlockedSet (i : InvokeId) (d : AttributeDescriptor) (access : Option SelectiveAccess)
    (block : DataBlockSA) (room : Nat) :
    W pre P (Srv.beginBlockedSet C S i d access block room : Srv σ π N _) := by
  refine hW.bind hW.idle fun _ => hW.gets_negotiated fun c _ => ?_
  split
  · exact hW.send ..
  · rename_i hc
    refine hW.attributeAccess_bind fun rights => ?_
    split
    · exact hW.bind (hW.audit ..) fun _ => hW.send ..
    · refine hW.bind ?_ fun headerEnd => ?_
      · cases access with
        | none => exact hW.pure _
        | some sa => exact hW.encodeResponse ..
      · refine hW.bind (hW.setTransfer ?_) fun _ => hW.continueBlockedSet ..
        rintro _ rfl
        exact ⟨by simpa using hc, nofun⟩

theorem beginBlockedListSet (i : InvokeId) (descriptors : WireList) (block : DataBlockSA)
    (room : Nat) :
    W pre P (Srv.beginBlockedListSet C S i descriptors block room : Srv σ π N _) := by
  refine hW.bind hW.idle fun _ => hW.gets_negotiated fun c _ => ?_
  split
  · exact hW.send ..
  · rename_i hc
    split
    · exact hW.send ..
    · refine hW.bind (hW.encodeResponse _) fun headerEnd => hW.bind (hW.setTransfer ?_) fun _ =>
        hW.continueBlockedSet ..
      rintro _ rfl
      rw [not_or] at hc
      exact ⟨by simpa using hc.2, fun _ => by simpa using hc.1⟩

theorem handleSet (req : SetRequest) (room : Nat) :
    W pre P (Srv.handleSet C S req room : Srv σ π N _) := by
  refine hW.serving ?_
  cases req with
  | normal i d access value =>
    exact hW.bind hW.idle fun _ => hW.bind (hW.writeOne ..) fun _ => hW.send ..
  | withFirstDataBlock i d access block => exact hW.beginBlockedSet ..
  | withDataBlock i block => exact hW.continueBlockedSet ..
  | withList i descriptors values => exact hW.handleSetWithList ..
  | withListAndFirstDataBlock i descriptors block => exact hW.beginBlockedListSet ..

/-! ## ACTION -/

theorem answerMethod (i : InvokeId) (outcome : Except ActionResult Bool) (value : Bytes)
    (room : Nat) : W pre P (Srv.answerMethod C i outcome value room : Srv σ π N _) := by
  unfold Srv.answerMethod
  split
  · exact hW.send ..
  · exact hW.send ..
  · split
    · exact hW.send ..
    · refine hW.bind (hW.gets fun _ _ => rfl) fun fits => ?_
      split
      · exact hW.bind (hW.ofExcept _) fun _ => hW.send ..
      · exact hW.bind (hW.putResponse ..) fun _ => hW.deliverBlocked ..

theorem invokeAndAnswer (i : InvokeId) (d : MethodDescriptor) (parameters : Option Data)
    (room : Nat) : W pre P (Srv.invokeAndAnswer C S i d parameters room : Srv σ π N _) :=
  hW.bind (hW.runMethod ..) fun _ => hW.answerMethod ..

theorem continueBlockedAction (i : InvokeId) (block : DataBlockSA) (room : Nat) :
    W pre P (Srv.continueBlockedAction C S i block room : Srv σ π N _) := by
  refine hW.gets_transfer fun transfer => ?_
  cases transfer with
  | receivingAction id d len last =>
    dsimp only
    split
    · exact hW.bind hW.idle fun _ => hW.send ..
    · refine hW.bind (hW.gets fun _ _ => rfl) fun response => ?_
      split
      · exact hW.bind hW.idle fun _ => hW.send ..
      · refine hW.bind (hW.modify (fun _ => rfl) (fun _ => rfl) (fun _ => rfl) fun _ _ => rfl) fun _ => ?_
        split
        · exact hW.bind (hW.setTransfer fun _ h => h) fun _ => hW.send ..
        · refine hW.bind hW.idle fun _ => hW.bind (hW.gets fun _ _ => rfl) fun _ =>
            hW.bind (hW.ofExcept _) fun _ => ?_
          exact hW.invokeAndAnswer ..
  | idle => exact hW.send ..
  | sending => exact hW.send ..
  | receivingSet => exact hW.send ..

theorem actionListItem (w : SliceWriter) (x : Result MethodDescriptor × Result Data) :
    W pre P (Srv.actionListItem S w x : Srv σ π N _) := by
  refine hW.bind (hW.ofExcept _) fun d => hW.bind (hW.ofExcept _) fun parameter => ?_
  refine hW.bind (hW.emit ..) fun w => hW.bind (hW.runMethod ..) fun x => ?_
  obtain ⟨outcome, w'⟩ := x
  match outcome with
  | .ok true =>
    dsimp only
    split
    · exact hW.bind (hW.truncate ..) fun _ => hW.emit ..
    · exact hW.pure _
  | .ok false => exact hW.bind (hW.truncate ..) fun _ => hW.emit ..
  | .error e => exact hW.bind (hW.truncate ..) fun _ => hW.emit ..

theorem handleActionWithList (i : InvokeId) (descriptors parameters : WireList) (room : Nat) :
    W pre P (Srv.handleActionWithList C S i descriptors parameters room : Srv σ π N _) := by
  refine hW.withReferences ?_
  split
  · exact hW.exception ..
  · exact hW.bind hW.idle fun _ => hW.bind (hW.fold hW.actionListItem ..) fun _ => hW.send ..

theorem serveAction (req : ActionRequest) (room : Nat) :
    W pre P (Srv.serveAction C S req room : Srv σ π N _) := by
  refine hW.serving ?_
  cases req with
  | normal i d parameters => exact hW.bind hW.idle fun _ => hW.invokeAndAnswer ..
  | nextPblock i n => exact hW.handleNext (hW.send ..) (hW.send ..) ..
  | withFirstPblock i d block =>
    refine hW.bind hW.idle fun _ => hW.gets_negotiated fun c _ => ?_
    split
    · exact hW.send ..
    · rename_i hc
      refine hW.bind (hW.setTransfer ?_) fun _ => hW.continueBlockedAction ..
      rintro _ rfl
      simpa [Transfer.Agreed] using hc
  | withPblock i block => exact hW.continueBlockedAction ..
  | withList i descriptors parameters => exact hW.handleActionWithList ..
  | withListAndFirstPblock i descriptors block => exact hW.exception ..

/-! ## ACCESS -/

theorem accessOne (d : AttributeDescriptor) (access : Option SelectiveAccess) (value : Data)
    (isGet : Bool) (dw : SliceWriter) :
    W pre P (Srv.accessOne S d access value isGet dw : Srv σ π N _) := by
  unfold Srv.accessOne
  split
  · refine hW.bind (hW.writeOne ..) fun result => ?_
    split <;> exact hW.pure _
  · refine hW.attributeAccess_bind fun rights => hW.bind ?_ fun x => ?_
    · split
      · rename_i h
        exact hW.bind (hW.getAttribute (canRead h)) fun _ => hW.pure _
      · exact hW.pure _
    · obtain ⟨outcome, w⟩ := x
      dsimp only
      split
      · split
        · exact hW.pure _
        · exact hW.bind (hW.audit ..) fun _ => hW.pure _
      · exact hW.bind (hW.audit ..) fun _ => hW.pure _

theorem accessAction (d : MethodDescriptor) (value : Data) (dw : SliceWriter) :
    W pre P (Srv.accessAction S d value dw : Srv σ π N _) := by
  refine hW.bind (hW.runMethod ..) fun x => ?_
  obtain ⟨outcome, w⟩ := x
  match outcome with
  | .ok true => exact hW.pure _
  | .ok false => exact hW.bind (hW.emit ..) fun _ => hW.pure _
  | .error e => exact hW.bind (hW.truncate ..) fun _ => hW.bind (hW.emit ..) fun _ => hW.pure _

theorem accessItem (w : SliceWriter × SliceWriter)
    (x : Result AccessRequestSpecification × Result Data) :
    W pre P (Srv.accessItem S w x : Srv σ π N _) := by
  refine hW.bind (hW.ofExcept _) fun spec => hW.bind (hW.ofExcept _) fun value =>
    hW.bind ?_ fun y => ?_
  · cases spec with
    | action d => exact hW.accessAction ..
    | get d => exact hW.accessOne ..
    | set d => exact hW.accessOne ..
    | getWithSelection d => exact hW.accessOne ..
    | setWithSelection d => exact hW.accessOne ..
  · exact hW.bind (hW.emit ..) fun _ => hW.pure _

theorem handleAccess (req : AccessRequest) (room : Nat) :
    W pre P (Srv.handleAccess C S req room : Srv σ π N _) := by
  refine hW.serving ?_
  split
  · exact hW.exception ..
  · split
    · exact hW.exception ..
    · exact hW.bind hW.idle fun _ => hW.bind (hW.fold hW.accessItem ..) fun _ => hW.send ..

/-! ## Short names -/

theorem readOne (entry : VariableAccess) (w : SliceWriter) :
    W pre P (Srv.readOne S entry w : Srv σ π N _) := by
  unfold Srv.readOne
  split
  · exact hW.pure _
  · refine hW.bind (hW.resolveShortName ..) fun target => ?_
    split
    · exact hW.pure _
    · refine hW.attributeAccess_bind fun rights => ?_
      split
      · exact hW.bind (hW.audit ..) fun _ => hW.pure _
      · rename_i h
        refine hW.bind (hW.getAttribute (canRead (by simpa using h))) fun _ => ?_
        exact hW.bind (hW.audit ..) fun _ => hW.pure _
    · refine hW.bind (hW.runMethod ..) fun x => ?_
      obtain ⟨outcome, w⟩ := x
      match outcome with
      | .ok true => exact hW.pure _
      | .ok false => dsimp only; split <;> exact hW.pure _
      | .error e => exact hW.pure _

theorem readItem (w : SliceWriter) (entry : Result VariableAccess) :
    W pre P (Srv.readItem S w entry : Srv σ π N _) := by
  refine hW.bind (hW.ofExcept _) fun entry => hW.bind (hW.emit ..) fun w' =>
    hW.bind (hW.readOne ..) fun x => ?_
  obtain ⟨outcome, w''⟩ := x
  match outcome with
  | .ok () =>
    dsimp only
    split
    · exact hW.bind (hW.truncate ..) fun _ => hW.emit ..
    · exact hW.pure _
  | .error e => exact hW.bind (hW.truncate ..) fun _ => hW.emit ..

theorem continueReadBlock (acked : UInt16) (room : Nat) :
    W pre P (Srv.continueReadBlock C acked room : Srv σ π N _) := by
  refine hW.bind (hW.gets fun _ _ => rfl) fun transfer => ?_
  split
  · split
    · exact hW.bind hW.idle fun _ => hW.readError ..
    · exact hW.sendNextBlock ..
  · exact hW.readError ..

theorem readEntries (req : ReadRequest) (room : Nat) :
    W pre P (Srv.readEntries C S req room : Srv σ π N _) := by
  refine hW.bind hW.idle fun _ => hW.bind (hW.fold hW.readItem ..) fun w => ?_
  refine hW.bind (hW.countPrefix _) fun count => hW.bind (hW.gets fun _ _ => rfl) fun fits => ?_
  split
  · exact hW.send ..
  · refine hW.bind (hW.gets fun _ _ => rfl) fun negotiated => ?_
    split
    · exact hW.readError ..
    · exact hW.bind (hW.putResponse ..) fun _ => hW.startSending ..

theorem handleRead (req : ReadRequest) (room : Nat) :
    W pre P (Srv.handleRead C S req room : Srv σ π N _) := by
  refine hW.serving ?_
  split
  · exact hW.exception ..
  · split
    · exact hW.continueReadBlock ..
    · exact hW.readEntries ..

theorem writeNamed (name : ObjectName) (access : Option SelectiveAccess) (value : Data) :
    W pre P (Srv.writeNamed S name access value : Srv σ π N _) := by
  refine hW.bind (hW.resolveShortName ..) fun target => ?_
  split
  · exact hW.writeOne ..
  · refine hW.bind (hW.runMethod ..) fun x => ?_
    obtain ⟨outcome, w⟩ := x
    cases outcome <;> exact hW.pure _
  · exact hW.pure _

theorem writeItem (w : SliceWriter) (x : Result VariableAccess × Result Data) :
    W pre P (Srv.writeItem S w x : Srv σ π N _) := by
  refine hW.bind (hW.ofExcept _) fun entry => hW.bind (hW.ofExcept _) fun value => ?_
  split
  · exact hW.emit ..
  · exact hW.bind (hW.writeNamed ..) fun _ => hW.emit ..

theorem writeRefusal (confirmed : Bool) (a : StateError) (b : ServiceError) (room : Nat) :
    W pre P (Srv.writeRefusal C confirmed a b room : Srv σ π N _) := by
  unfold Srv.writeRefusal
  split
  · exact hW.exception ..
  · exact hW.pure _

theorem handleWrite (req : WriteRequest) (confirmed : Bool) (room : Nat) :
    W pre P (Srv.handleWrite C S req confirmed room : Srv σ π N _) := by
  refine hW.bind (hW.gets fun _ _ => rfl) fun state =>
    hW.bind (hW.gets fun _ _ => rfl) fun negotiated => ?_
  split
  · exact hW.writeRefusal ..
  · split
    · exact hW.writeRefusal ..
    · split
      · exact hW.writeRefusal ..
      · refine hW.bind hW.idle fun _ => hW.bind (hW.fold hW.writeItem ..) fun w => ?_
        split
        · exact hW.send ..
        · exact hW.pure _

end Handlers

end ServiceRules

/-- Every service keeps to its work. -/
theorem Works.rules (C : CryptoProvider π) (S : ObjectStore σ) :
    ServiceRules C S (fun pre P _ (m : Srv σ π N _) => Works pre P m) where
  pure := pure
  throw := throw
  bind := bind
  gets _ := gets _
  gets_negotiated := gets_negotiated
  gets_transfer := gets_transfer
  modify ha hf he _ := modify ha hf he
  call h := log h
  setTransfer := setTransfer
  putResponse := putResponse
  encodeResponse := encodeResponse
  attributeAccess_bind := attributeAccess_bind S
  methodAccess_bind := methodAccess_bind S
  send := send C

end Srv

end Dlms
