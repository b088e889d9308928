import DlmsCosem.Server.Bookkeeping

/-!
# Where transfers come from

Only the first block of a blocked write makes a server gather blocks, and whatever a transfer has sent
or gathered stays within the response buffer. Both are of the form `K s.transfer → K t.transfer` for
a `Transfer.Closed` predicate `K`, so every handler is walked through once for both (`Srv.Moves`).
-/

namespace Dlms

/-- What was copied into a buffer fits there. -/
theorem Buffer.copyAt_fits {N : Nat} {b b' : Buffer N} {n : Nat} {src : Bytes}
    (h : b.copyAt n src = some b') : n + src.length ≤ N := by
  unfold copyAt at h
  split at h
  · assumption
  · cases h

namespace Transfer

/-- Blocks of a write are gathered. -/
def Receiving : Transfer → Prop
  | .receivingSet _ _ _ _ _ _ | .receivingAction _ _ _ _ => True
  | _ => False

instance (t : Transfer) : Decidable t.Receiving := by
  cases t <;> unfold Receiving <;> infer_instance

/-- What was sent or gathered lies in a buffer of `N` bytes. -/
def Within (N : Nat) : Transfer → Prop
  | .idle => True
  | .sending _ _ len sent _ => sent ≤ len ∧ len ≤ N
  | .receivingSet _ _ _ headerEnd len _ => headerEnd + len ≤ N
  | .receivingAction _ _ len _ => len ≤ N

/-- `K` survives what a server does to its transfers once they have begun. -/
structure Closed (N : Nat) (K : Transfer → Prop) : Prop where
  within : ∀ t, K t → t.Within N
  idle : K .idle
  sending : ∀ i service len sent block, sent ≤ len → len ≤ N → K (.sending i service len sent block)
  set : ∀ i i' d list headerEnd len len' block block',
    K (.receivingSet i d list headerEnd len block) → headerEnd + len' ≤ N →
    K (.receivingSet i' d list headerEnd len' block')
  action : ∀ i i' d len len' block block', K (.receivingAction i d len block) → len' ≤ N →
    K (.receivingAction i' d len' block')

/-- `K` allows the transfers that a first block begins. -/
structure Opens (N : Nat) (K : Transfer → Prop) : Prop where
  set : ∀ i d list headerEnd, headerEnd ≤ N → K (.receivingSet i d list headerEnd 0 0)
  action : ∀ i d, K (.receivingAction i d 0 0)

theorem Within.closed (N : Nat) : Closed N (Within N) where
  within _ h := h
  idle := trivial
  sending _ _ _ _ _ h h' := ⟨h, h'⟩
  set _ _ _ _ _ _ _ _ _ _ h := h
  action _ _ _ _ _ _ _ _ h := h

theorem Within.opens (N : Nat) : Opens N (Within N) where
  set _ _ _ _ h := h
  action _ _ := Nat.zero_le N

/-- Nothing is gathered. -/
def Quiet (N : Nat) (t : Transfer) : Prop := t.Within N ∧ ¬ t.Receiving

theorem Quiet.closed (N : Nat) : Closed N (Quiet N) where
  within _ h := h.1
  idle := ⟨trivial, nofun⟩
  sending _ _ _ _ _ h h' := ⟨⟨h, h'⟩, nofun⟩
  set _ _ _ _ _ _ _ _ _ h := absurd trivial h.2
  action _ _ _ _ _ _ _ h := absurd trivial h.2

end Transfer

/-- The request brings the first block of a write. -/
def Apdu.BringsFirst : Apdu → Prop
  | .setRequest (.withFirstDataBlock _ _ _ _) => True
  | .setRequest (.withListAndFirstDataBlock _ _ _) => True
  | .actionRequest (.withFirstPblock _ _ _) => True
  | _ => False

variable {σ π : Type} {N : Nat} {K : Transfer → Prop}

/-- `K` held of the transfer before, so it holds after. -/
def Server.Moved (K : Transfer → Prop) (s t : Server σ π N) : Prop := K s.transfer → K t.transfer

namespace Server.Moved

theorem refl (s : Server σ π N) : s.Moved K s := id

theorem trans (s t u : Server σ π N) (h : s.Moved K t) (h' : t.Moved K u) : s.Moved K u := h' ∘ h

theorem of_eq {s t : Server σ π N} (h : t.transfer = s.transfer) : s.Moved K t := fun hs => by
  rw [h]; exact hs

theorem answering : Answering (Moved K : Server σ π N → Server σ π N → Prop) where
  trans := trans
  same _ _ h _ := of_eq (congrArg Standing.transfer h)
  event _ _ _ := id

theorem unprotect (C : CryptoProvider π) (s : Server σ π N) (policy : SecurityPolicy)
    (plain : List ApduTag) (size : Nat) (apdu : Bytes) :
    s.Moved K (Srv.unprotect C policy plain size apdu s).2 := by
  obtain ⟨w, fs, hu, -⟩ := Srv.unprotect_state C s policy plain size apdu
  rw [hu]
  exact refl _

theorem opening (C : CryptoProvider π) :
    Opening C (Moved K : Server σ π N → Server σ π N → Prop) where
  toAnswering := answering
  changed _ _ h _ := of_eq (congrArg Identity.transfer h)
  unprotected := unprotect C

end Server.Moved

namespace Srv

/-- The handler keeps `K` of the transfer. -/
abbrev Moves {α : Type} (K : Transfer → Prop) (m : Srv σ π N α) : Prop :=
  Prog.Keeps (Server.Moved K) m

namespace Moves

variable {α β : Type}

theorem of_eq {m : Srv σ π N α} (h : ∀ s, (m s).2.transfer = s.transfer) : Moves K m :=
  ⟨fun s => Server.Moved.of_eq (h s)⟩

theorem pure (a : α) : Moves K (Pure.pure a : Srv σ π N α) := of_eq fun _ => rfl
theorem throw (e : Error) : Moves K (Prog.throw e : Srv σ π N α) := of_eq fun _ => rfl
theorem gets (f : Server σ π N → α) : Moves K (Prog.gets f) := of_eq fun _ => rfl

theorem ofExcept (r : Except Error α) : Moves K (Prog.ofExcept r : Srv σ π N α) :=
  Server.Moved.answering.ofExcept r

theorem bind {m : Srv σ π N α} {f : α → Srv σ π N β} (hm : Moves K m) (hf : ∀ a, Moves K (f a)) :
    Moves K (m >>= f) := Prog.Keeps.bind Server.Moved.trans hm hf

theorem map {m : Srv σ π N α} (f : α → β) (hm : Moves K m) : Moves K (f <$> m) :=
  bind hm fun a => pure (f a)

theorem fold {f : β → α → Srv σ π N β} (hf : ∀ b a, Moves K (f b a)) (b : β) (xs : List α) :
    Moves K (Prog.fold f b xs) := Prog.Keeps.fold Server.Moved.refl Server.Moved.trans hf b xs

/-- The transfer is looked up: `K` is known of it. -/
theorem gets_transfer {k : Transfer → Srv σ π N β} (h : ∀ t, K t → Moves K (k t)) :
    Moves K (Prog.gets Server.transfer >>= k) :=
  ⟨fun s hs => (h s.transfer hs).run s hs⟩

theorem setTransfer {t : Transfer} (ht : K t) : Moves K (Srv.setTransfer t : Srv σ π N Unit) :=
  ⟨fun _ _ => ht⟩

theorem onWriter (m : Write α) (w : SliceWriter) : Moves K (Srv.onWriter m w : Srv σ π N _) := by
  unfold Srv.onWriter
  split
  · exact pure _
  · exact throw _

theorem emit (e : Emit) (w : SliceWriter) : Moves K (Srv.emit e w : Srv σ π N _) :=
  bind (onWriter ..) fun _ => pure _

theorem truncate (n : Nat) (w : SliceWriter) : Moves K (Srv.truncate n w : Srv σ π N _) :=
  bind (onWriter ..) fun _ => pure _

/-- What was put into the response buffer fits there. -/
theorem putResponse_bind {n needed : Nat} {bytes : Bytes} {k : Unit → Srv σ π N β}
    (h : n + bytes.length ≤ N → Moves K (k ())) :
    Moves K (Srv.putResponse n bytes needed >>= k) := by
  refine ⟨fun s hs => ?_⟩
  by_cases hn : n + bytes.length ≤ N
  · obtain ⟨b, hrun⟩ : ∃ b, Srv.putResponse n bytes needed s = (.ok (), { s with
        response := b }) := by
      unfold Srv.putResponse
      rw [Buffer.copyAt, dif_pos hn]
      exact ⟨_, rfl⟩
    rw [Prog.bind_run_ok hrun]
    exact (h hn).run _ hs
  · have hrun : Srv.putResponse n bytes needed s = (.error ⟨.bufferTooSmall needed, 0⟩, s) := by
      unfold Srv.putResponse
      rw [Buffer.copyAt, dif_neg hn]
    rw [Prog.bind_run_error hrun]
    exact hs

theorem encodeResponse_bind {e : Emit} {k : Nat → Srv σ π N β} (h : ∀ n ≤ N, Moves K (k n)) :
    Moves K (Srv.encodeResponse e >>= k) := by
  refine ⟨fun s hs => ?_⟩
  rw [Prog.bind_run]
  unfold Srv.encodeResponse
  match hw : SliceWriter.emit e (SliceWriter.new s.response.bytes) with
  | (.error err, w) => exact hs
  | (.ok (), w) =>
    obtain ⟨-, -, -, hbuf⟩ := SliceWriter.emit_ok hw
    have hle := w.pos_le
    rw [hbuf, SliceWriter.new_buf, s.response.length_eq] at hle
    exact (h w.pos hle).run _ hs

/-! ## The store -/

section Store

variable (S : ObjectStore σ)

theorem attributeAccess (op : Operation) (d : AttributeDescriptor) :
    Moves K (Srv.attributeAccess S op d : Srv σ π N _) := of_eq fun _ => rfl

theorem methodAccess (d : MethodDescriptor) : Moves K (Srv.methodAccess S d : Srv σ π N _) :=
  of_eq fun _ => rfl

theorem resolveShortName (name : ObjectName) :
    Moves K (Srv.resolveShortName S name : Srv σ π N _) := of_eq fun _ => rfl

theorem getAttribute (d : AttributeDescriptor) (access : Option SelectiveAccess)
    (w : SliceWriter) : Moves K (Srv.getAttribute S d access w : Srv σ π N _) := of_eq fun _ => rfl

theorem setAttribute (d : AttributeDescriptor) (access : Option SelectiveAccess) (value : Data) :
    Moves K (Srv.setAttribute S d access value : Srv σ π N _) := of_eq fun _ => rfl

theorem invokeMethod (d : MethodDescriptor) (parameters : Option Data) (w : SliceWriter) :
    Moves K (Srv.invokeMethod S d parameters w : Srv σ π N _) := of_eq fun _ => rfl

theorem audit (e : AuditEvent) : Moves K (Srv.audit S e : Srv σ π N Unit) := of_eq fun _ => rfl

theorem writeOne (d : AttributeDescriptor) (access : Option SelectiveAccess) (value : Data) :
    Moves K (Srv.writeOne S d access value : Srv σ π N _) := by
  refine bind (attributeAccess ..) fun rights => bind ?_ fun result => ?_
  · split
    · refine bind (setAttribute ..) fun r => ?_
      cases r <;> exact pure _
    · exact pure _
  · exact bind (audit ..) fun _ => pure _

theorem runMethod (d : MethodDescriptor) (parameters : Option Data) (w : SliceWriter) :
    Moves K (Srv.runMethod S d parameters w : Srv σ π N _) := by
  refine bind (methodAccess ..) fun rights => bind ?_ fun x => ?_
  · split
    · exact invokeMethod ..
    · exact pure _
  · exact bind (audit ..) fun _ => pure _

theorem getListItem (w : SliceWriter) (item : Result AttributeDescriptorWithSelection) :
    Moves K (Srv.getListItem S w item : Srv σ π N _) := by
  refine bind (ofExcept _) fun item => bind (attributeAccess ..) fun rights => ?_
  split
  · refine bind (emit ..) fun w => bind (getAttribute ..) fun x => ?_
    obtain ⟨result, w⟩ := x
    cases result with
    | error e =>
      exact bind (truncate ..) fun _ => bind (emit ..) fun _ => bind (audit ..) fun _ => pure _
    | ok u =>
      dsimp only
      split
      · exact bind (truncate ..) fun _ => bind (emit ..) fun _ => bind (audit ..) fun _ => pure _
      · exact bind (audit ..) fun _ => pure _
  · exact bind (emit ..) fun _ => bind (audit ..) fun _ => pure _

theorem setListItem (w : SliceWriter)
    (x : Result AttributeDescriptorWithSelection × Result Data) :
    Moves K (Srv.setListItem S w x : Srv σ π N _) :=
  bind (ofExcept _) fun _ => bind (ofExcept _) fun _ => bind (writeOne ..) fun _ => emit ..

theorem actionListItem (w : SliceWriter) (x : Result MethodDescriptor × Result Data) :
    Moves K (Srv.actionListItem S w x : Srv σ π N _) := by
  refine bind (ofExcept _) fun d => bind (ofExcept _) fun parameter => ?_
  refine bind (emit ..) fun w => bind (runMethod ..) fun x => ?_
  obtain ⟨outcome, w'⟩ := x
  match outcome with
  | .ok true =>
    dsimp only
    split
    · exact bind (truncate ..) fun _ => emit ..
    · exact pure _
  | .ok false => exact bind (truncate ..) fun _ => emit ..
  | .error e => exact bind (truncate ..) fun _ => emit ..

theorem accessOne (d : AttributeDescriptor) (access : Option SelectiveAccess) (value : Data)
    (isGet : Bool) (dw : SliceWriter) :
    Moves K (Srv.accessOne S d access value isGet dw : Srv σ π N _) := by
  unfold Srv.accessOne
  split
  · refine bind (writeOne ..) fun result => ?_
    split <;> exact pure _
  · refine bind (attributeAccess ..) fun rights => bind ?_ fun x => ?_
    · split
      · exact bind (getAttribute ..) fun _ => pure _
      · exact pure _
    · obtain ⟨outcome, w⟩ := x
      dsimp only
      split
      · split
        · exact pure _
        · exact bind (audit ..) fun _ => pure _
      · exact bind (audit ..) fun _ => pure _

theorem accessAction (d : MethodDescriptor) (value : Data) (dw : SliceWriter) :
    Moves K (Srv.accessAction S d value dw : Srv σ π N _) := by
  refine bind (runMethod ..) fun x => ?_
  obtain ⟨outcome, w⟩ := x
  match outcome with
  | .ok true => exact pure _
  | .ok false => exact bind (emit ..) fun _ => pure _
  | .error e => exact bind (truncate ..) fun _ => bind (emit ..) fun _ => pure _

theorem accessItem (w : SliceWriter × SliceWriter)
    (x : Result AccessRequestSpecification × Result Data) :
    Moves K (Srv.accessItem S w x : Srv σ π N _) := by
  refine bind (ofExcept _) fun spec => bind (ofExcept _) fun value => bind ?_ fun y => ?_
  · cases spec with
    | action d => exact accessAction ..
    | get d => exact accessOne ..
    | set d => exact accessOne ..
    | getWithSelection d => exact accessOne ..
    | setWithSelection d => exact accessOne ..
  · exact bind (emit ..) fun _ => pure _

theorem readOne (entry : VariableAccess) (w : SliceWriter) :
    Moves K (Srv.readOne S entry w : Srv σ π N _) := by
  unfold Srv.readOne
  split
  · exact pure _
  · refine bind (resolveShortName ..) fun target => ?_
    split
    · exact pure _
    · refine bind (attributeAccess ..) fun rights => ?_
      split
      · exact bind (audit ..) fun _ => pure _
      · exact bind (getAttribute ..) fun _ => bind (audit ..) fun _ => pure _
    · refine bind (runMethod ..) fun x => ?_
      obtain ⟨outcome, w⟩ := x
      match outcome with
      | .ok true => exact pure _
      | .ok false => dsimp only; split <;> exact pure _
      | .error e => exact pure _

theorem readItem (w : SliceWriter) (entry : Result VariableAccess) :
    Moves K (Srv.readItem S w entry : Srv σ π N _) := by
  refine bind (ofExcept _) fun entry => bind (emit ..) fun w' => bind (readOne ..) fun x => ?_
  obtain ⟨outcome, w''⟩ := x
  match outcome with
  | .ok () =>
    dsimp only
    split
    · exact bind (truncate ..) fun _ => emit ..
    · exact pure _
  | .error e => exact bind (truncate ..) fun _ => emit ..

theorem writeNamed (name : ObjectName) (access : Option SelectiveAccess) (value : Data) :
    Moves K (Srv.writeNamed S name access value : Srv σ π N _) := by
  refine bind (resolveShortName ..) fun target => ?_
  split
  · exact writeOne ..
  · refine bind (runMethod ..) fun x => ?_
    obtain ⟨outcome, w⟩ := x
    cases outcome <;> exact pure _
  · exact pure _

theorem writeItem (w : SliceWriter) (x : Result VariableAccess × Result Data) :
    Moves K (Srv.writeItem S w x : Srv σ π N _) := by
  refine bind (ofExcept _) fun entry => bind (ofExcept _) fun value => ?_
  split
  · exact emit ..
  · exact bind (writeNamed ..) fun _ => emit ..

end Store

/-! ## Replies and blocks -/

section Replies

variable (C : CryptoProvider π)

theorem send (apdu : Apdu) (room : Nat) : Moves K (Srv.send C apdu room : Srv σ π N _) :=
  Server.Moved.answering.send C apdu room

theorem exception (a : StateError) (b : ServiceError) (room : Nat) :
    Moves K (Srv.exception C a b room : Srv σ π N _) :=
  Server.Moved.answering.exception C a b room

theorem readError (e : DataAccessResult) (room : Nat) :
    Moves K (Srv.readError C e room : Srv σ π N _) :=
  bind (emit ..) fun _ => send ..

theorem transferError (i : InvokeId) (service : Outbound) (e : DataAccessResult) (f : ActionResult)
    (room : Nat) : Moves K (Srv.transferError C i service e f room : Srv σ π N _) := by
  cases service
  · exact send ..
  · exact send ..
  · exact readError ..

variable {C}

theorem serving {required : Conformance} {room : Nat} {m : Srv σ π N Bytes} (hm : Moves K m) :
    Moves K (Srv.serving C required room m) := by
  refine bind (gets _) fun state => bind (gets _) fun negotiated => ?_
  split
  · exact exception ..
  · split
    · exact exception ..
    · exact hm

theorem withReferences {room : Nat} {m : Srv σ π N Bytes} (hm : Moves K m) :
    Moves K (Srv.withReferences C room m) := by
  refine bind (gets _) fun negotiated => ?_
  split
  · exact exception ..
  · exact hm

theorem blockApdu (i : InvokeId) (service : Outbound) (last : Bool) (number : UInt32)
    (payload : Bytes) : Moves K (Srv.blockApdu i service last number payload : Srv σ π N _) := by
  cases service with
  | get => exact pure _
  | action => exact pure _
  | read =>
    dsimp only [Srv.blockApdu]
    split
    · exact throw _
    · exact bind (emit ..) fun _ => pure _

theorem writeRefusal (confirmed : Bool) (a : StateError) (b : ServiceError) (room : Nat) :
    Moves K (Srv.writeRefusal C confirmed a b room : Srv σ π N _) := by
  unfold Srv.writeRefusal
  split
  · exact exception ..
  · exact pure _

end Replies

/-! ## Handlers -/

section Handlers

variable (hK : Transfer.Closed N K) (C : CryptoProvider π) (S : ObjectStore σ)
include hK

theorem idle : Moves K (Srv.setTransfer .idle : Srv σ π N Unit) := setTransfer hK.idle

theorem sendNextBlock (room : Nat) : Moves K (Srv.sendNextBlock C room : Srv σ π N _) := by
  refine gets_transfer fun transfer ht => ?_
  split
  · have hw := hK.within _ ht
    refine bind (gets _) fun max => ?_
    split
    · exact bind (idle hK) fun _ => transferError ..
    · dsimp only
      split
      · exact throw _
      · refine bind (gets _) fun payload => bind (blockApdu ..) fun apdu => ?_
        refine bind (send ..) fun bytes => bind (setTransfer ?_) fun _ => pure _
        split
        · exact hK.idle
        · exact hK.sending _ _ _ _ _ (Nat.min_le_right ..) hw.2
  · exact exception ..

theorem startSending (i : InvokeId) (service : Outbound) {len : Nat} (hlen : len ≤ N) (room : Nat) :
    Moves K (do Srv.setTransfer (.sending i service len 0 0); Srv.sendNextBlock C room :
      Srv σ π N _) :=
  bind (setTransfer (hK.sending _ _ _ _ _ (Nat.zero_le _) hlen)) fun _ => sendNextBlock hK C room

theorem deliverBlocked (i : InvokeId) (service : Outbound) {len : Nat} (hlen : len ≤ N)
    (room : Nat) : Moves K (Srv.deliverBlocked C i service len room : Srv σ π N _) := by
  refine bind (gets _) fun negotiated => ?_
  split
  · exact bind (idle hK) fun _ => transferError ..
  · exact startSending hK C i service hlen room

theorem getNormal (i : InvokeId) (d : AttributeDescriptor) (access : Option SelectiveAccess)
    (room : Nat) : Moves K (Srv.getNormal C S i d access room : Srv σ π N _) := by
  refine bind (idle hK) fun _ => bind (attributeAccess ..) fun rights => ?_
  split
  · exact bind (audit ..) fun _ => send ..
  · refine bind (getAttribute ..) fun x => ?_
    obtain ⟨result, w⟩ := x
    cases result with
    | error e => exact bind (audit ..) fun _ => send ..
    | ok u =>
      refine bind (audit ..) fun _ => ?_
      dsimp only
      split
      · exact bind (audit ..) fun _ => send ..
      · refine bind (gets _) fun fits => ?_
        split
        · exact bind (ofExcept _) fun _ => send ..
        · refine bind (gets _) fun negotiated => ?_
          split
          · exact send ..
          · refine putResponse_bind fun hlen => startSending hK C i .get ?_ room
            rwa [Nat.zero_add, SliceWriter.length_asSlice] at hlen

theorem handleGetWithList (i : InvokeId) (list : WireList) (room : Nat) :
    Moves K (Srv.handleGetWithList C S i list room : Srv σ π N _) := by
  refine withReferences (bind (idle hK) fun _ => bind (fold (getListItem S) ..) fun w => ?_)
  refine bind (bind (emit ..) fun _ => pure _) fun count => bind (gets _) fun fits => ?_
  split
  · exact send ..
  · refine bind (gets _) fun negotiated => ?_
    split
    · exact send ..
    · refine putResponse_bind fun _ => putResponse_bind fun hlen =>
        startSending hK C i .get ?_ room
      rwa [SliceWriter.length_asSlice] at hlen

theorem handleNext {service : Outbound} {missing wrong : Srv σ π N Bytes} (hm : Moves K missing)
    (hw : Moves K wrong) (i : InvokeId) (acked : UInt32) (room : Nat) :
    Moves K (Srv.handleNext C service missing wrong i acked room) := by
  refine bind (gets _) fun transfer => ?_
  split
  · split
    · exact hm
    · split
      · exact bind (idle hK) fun _ => hw
      · exact sendNextBlock hK C room
  · exact hm

theorem handleGet (req : GetRequest) (room : Nat) :
    Moves K (Srv.handleGet C S req room : Srv σ π N _) := by
  refine serving ?_
  cases req with
  | normal i d access => exact getNormal hK C S i d access room
  | next i n => exact handleNext hK C (send ..) (send ..) i n room
  | withList i list => exact handleGetWithList hK C S i list room

theorem handleSetWithList (i : InvokeId) (descriptors values : WireList) (room : Nat) :
    Moves K (Srv.handleSetWithList C S i descriptors values room : Srv σ π N _) := by
  refine withReferences ?_
  split
  · exact exception ..
  · exact bind (idle hK) fun _ => bind (fold (setListItem S) ..) fun _ => send ..

theorem finishBlockedListSet (i : InvokeId) (headerEnd len : Nat) (number : UInt32) (room : Nat) :
    Moves K (Srv.finishBlockedListSet C S i headerEnd len number room : Srv σ π N _) := by
  refine bind (gets _) fun header => bind (gets _) fun valuesBytes => ?_
  refine bind (ofExcept _) fun descriptors => bind (ofExcept _) fun values => ?_
  split
  · exact bind (idle hK) fun _ => send ..
  · exact bind (fold (setListItem S) ..) fun _ => send ..

omit hK in
theorem finishBlockedSet (i : InvokeId) (d : AttributeDescriptor) (headerEnd len : Nat)
    (number : UInt32) (room : Nat) :
    Moves K (Srv.finishBlockedSet C S i d headerEnd len number room : Srv σ π N _) := by
  refine bind (gets _) fun header => bind ?_ fun selective => ?_
  · split
    · exact pure _
    · exact map _ (ofExcept _)
  · exact bind (gets _) fun _ => bind (ofExcept _) fun _ => bind (writeOne ..) fun _ => send ..

theorem continueBlockedSet (i : InvokeId) (block : DataBlockSA) (room : Nat) :
    Moves K (Srv.continueBlockedSet C S i block room : Srv σ π N _) := by
  refine gets_transfer fun transfer ht => ?_
  cases transfer with
  | receivingSet id d list headerEnd len last =>
    dsimp only
    split
    · exact bind (idle hK) fun _ => send ..
    · refine bind (gets _) fun response => ?_
      cases hcopy : response.copyAt (headerEnd + len) block.rawData with
      | none => exact bind (idle hK) fun _ => send ..
      | some buffer =>
        dsimp only
        refine bind (of_eq fun _ => rfl) fun _ => ?_
        split
        · refine bind (setTransfer (hK.set _ _ _ _ _ _ _ _ _ ht ?_)) fun _ => send ..
          have := Buffer.copyAt_fits hcopy
          omega
        · refine bind (idle hK) fun _ => ?_
          split
          · exact finishBlockedListSet hK ..
          · exact finishBlockedSet ..
  | idle => exact send ..
  | sending => exact send ..
  | receivingAction => exact send ..

theorem beginBlockedSet (ho : Transfer.Opens N K) (i : InvokeId) (d : AttributeDescriptor)
    (access : Option SelectiveAccess) (block : DataBlockSA) (room : Nat) :
    Moves K (Srv.beginBlockedSet C S i d access block room : Srv σ π N _) := by
  refine bind (idle hK) fun _ => bind (gets _) fun negotiated => ?_
  split
  · exact send ..
  · refine bind (attributeAccess ..) fun rights => ?_
    split
    · exact bind (audit ..) fun _ => send ..
    · cases access with
      | none =>
        change Moves K (Srv.setTransfer (.receivingSet i d false 0 0 0) >>= fun _ =>
          Srv.continueBlockedSet C S i block room)
        exact bind (setTransfer (ho.set _ _ _ _ (Nat.zero_le N))) fun _ => continueBlockedSet hK ..
      | some access =>
        refine encodeResponse_bind fun n hn => ?_
        exact bind (setTransfer (ho.set _ _ _ _ hn)) fun _ => continueBlockedSet hK ..

theorem beginBlockedListSet (ho : Transfer.Opens N K) (i : InvokeId) (descriptors : WireList)
    (block : DataBlockSA) (room : Nat) :
    Moves K (Srv.beginBlockedListSet C S i descriptors block room : Srv σ π N _) := by
  refine bind (idle hK) fun _ => bind (gets _) fun negotiated => ?_
  split
  · exact send ..
  · split
    · exact send ..
    · refine encodeResponse_bind fun n hn => ?_
      exact bind (setTransfer (ho.set _ _ _ _ hn)) fun _ => continueBlockedSet hK ..

theorem handleSet (req : SetRequest) (ho : (Apdu.setRequest req).BringsFirst → Transfer.Opens N K)
    (room : Nat) : Moves K (Srv.handleSet C S req room : Srv σ π N _) := by
  refine serving ?_
  cases req with
  | normal i d access value => exact bind (idle hK) fun _ => bind (writeOne ..) fun _ => send ..
  | withFirstDataBlock i d access block => exact beginBlockedSet hK C S (ho trivial) ..
  | withDataBlock i block => exact continueBlockedSet hK ..
  | withList i descriptors values => exact handleSetWithList hK ..
  | withListAndFirstDataBlock i descriptors block =>
    exact beginBlockedListSet hK C S (ho trivial) ..

theorem answerMethod (i : InvokeId) (outcome : Except ActionResult Bool) (value : Bytes)
    (room : Nat) : Moves K (Srv.answerMethod C i outcome value room : Srv σ π N _) := by
  unfold Srv.answerMethod
  split
  · exact send ..
  · exact send ..
  · split
    · exact send ..
    · refine bind (gets _) fun fits => ?_
      split
      · exact bind (ofExcept _) fun _ => send ..
      · exact putResponse_bind fun hlen => deliverBlocked hK C i .action (by omega) room

theorem invokeAndAnswer (i : InvokeId) (d : MethodDescriptor) (parameters : Option Data)
    (room : Nat) : Moves K (Srv.invokeAndAnswer C S i d parameters room : Srv σ π N _) :=
  bind (runMethod ..) fun _ => answerMethod hK ..

theorem continueBlockedAction (i : InvokeId) (block : DataBlockSA) (room : Nat) :
    Moves K (Srv.continueBlockedAction C S i block room : Srv σ π N _) := by
  refine gets_transfer fun transfer ht => ?_
  cases transfer with
  | receivingAction id d len last =>
    dsimp only
    split
    · exact bind (idle hK) fun _ => send ..
    · refine bind (gets _) fun response => ?_
      cases hcopy : response.copyAt len block.rawData with
      | none => exact bind (idle hK) fun _ => send ..
      | some buffer =>
        dsimp only
        refine bind (of_eq fun _ => rfl) fun _ => ?_
        split
        · exact bind (setTransfer (hK.action _ _ _ _ _ _ _ ht (Buffer.copyAt_fits hcopy))) fun _ =>
            send ..
        · refine bind (idle hK) fun _ => bind (gets _) fun _ => bind (ofExcept _) fun _ => ?_
          exact invokeAndAnswer hK ..
  | idle => exact send ..
  | sending => exact send ..
  | receivingSet => exact send ..

theorem handleActionWithList (i : InvokeId) (descriptors parameters : WireList) (room : Nat) :
    Moves K (Srv.handleActionWithList C S i descriptors parameters room : Srv σ π N _) := by
  refine withReferences ?_
  split
  · exact exception ..
  · exact bind (idle hK) fun _ => bind (fold (actionListItem S) ..) fun _ => send ..

theorem serveAction (req : ActionRequest)
    (ho : (Apdu.actionRequest req).BringsFirst → Transfer.Opens N K) (room : Nat) :
    Moves K (Srv.serveAction C S req room : Srv σ π N _) := by
  refine serving ?_
  cases req with
  | normal i d parameters => exact bind (idle hK) fun _ => invokeAndAnswer hK ..
  | nextPblock i n => exact handleNext hK C (send ..) (send ..) i n room
  | withFirstPblock i d block =>
    refine bind (idle hK) fun _ => bind (gets _) fun negotiated => ?_
    split
    · exact send ..
    · exact bind (setTransfer ((ho trivial).action _ _)) fun _ => continueBlockedAction hK ..
  | withPblock i block => exact continueBlockedAction hK ..
  | withList i descriptors parameters => exact handleActionWithList hK ..
  | withListAndFirstPblock i descriptors block => exact exception ..

theorem handleAction (req : ActionRequest)
    (ho : (Apdu.actionRequest req).BringsFirst → Transfer.Opens N K) (room : Nat) :
    Moves K (Srv.handleAction C S req room : Srv σ π N _) := by
  refine bind (gets _) fun state => ?_
  split
  · cases req with
    | normal => exact Server.Moved.answering.handleHlsReply ..
    | _ => exact exception ..
  · exact serveAction hK C S req ho room

theorem handleAccess (req : AccessRequest) (room : Nat) :
    Moves K (Srv.handleAccess C S req room : Srv σ π N _) := by
  refine serving ?_
  split
  · exact exception ..
  · split
    · exact exception ..
    · exact bind (idle hK) fun _ => bind (fold (accessItem S) ..) fun _ => send ..

theorem continueReadBlock (acked : UInt16) (room : Nat) :
    Moves K (Srv.continueReadBlock C acked room : Srv σ π N _) := by
  refine bind (gets _) fun transfer => ?_
  split
  · split
    · exact bind (idle hK) fun _ => readError ..
    · exact sendNextBlock hK C room
  · exact readError ..

theorem readEntries (req : ReadRequest) (room : Nat) :
    Moves K (Srv.readEntries C S req room : Srv σ π N _) := by
  refine bind (idle hK) fun _ => bind (fold (readItem S) ..) fun w => ?_
  refine bind (bind (emit ..) fun _ => pure _) fun count => bind (gets _) fun fits => ?_
  split
  · exact send ..
  · refine bind (gets _) fun negotiated => ?_
    split
    · exact readError ..
    · exact putResponse_bind fun hlen => startSending hK C _ .read (by omega) room

theorem handleRead (req : ReadRequest) (room : Nat) :
    Moves K (Srv.handleRead C S req room : Srv σ π N _) := by
  refine serving ?_
  split
  · exact exception ..
  · split
    · exact continueReadBlock hK ..
    · exact readEntries hK ..

theorem handleWrite (req : WriteRequest) (confirmed : Bool) (room : Nat) :
    Moves K (Srv.handleWrite C S req confirmed room : Srv σ π N _) := by
  refine bind (gets _) fun state => bind (gets _) fun negotiated => ?_
  split
  · exact writeRefusal ..
  · split
    · exact writeRefusal ..
    · split
      · exact writeRefusal ..
      · refine bind (idle hK) fun _ => bind (fold (writeItem S) ..) fun w => ?_
        split
        · exact send ..
        · exact pure _

theorem serveRequest (req : Apdu) (ho : req.BringsFirst → Transfer.Opens N K) (room : Nat) :
    Moves K (Srv.serveRequest C S req room : Srv σ π N _) := by
  cases req with
  | getRequest req => exact handleGet hK C S req room
  | setRequest req => exact handleSet hK C S req ho room
  | actionRequest req => exact handleAction hK C S req ho room
  | accessRequest req => exact handleAccess hK C S req room
  | readRequest req => exact handleRead hK C S req room
  | writeRequest req => exact handleWrite hK C S req true room
  | unconfirmedWriteRequest req => exact handleWrite hK C S req false room
  | _ => exact exception ..

/-- No APDU breaks `K`, but for one that brings the first block of a write. -/
theorem handle {s : Server σ π N} {apdu : Bytes} (room : Nat) (rng : Entropy)
    (ho : ∀ opened req, (Srv.unprotectInto C apdu s).1 = .ok opened →
      Apdu.fromBytes opened.plain = .ok req → req.BringsFirst → Transfer.Opens N K) :
    s.Moved K (Srv.handle C S apdu room rng s).2 := by
  have hd := handle_dispatched C S s apdu room rng
  generalize Srv.handle C S apdu room rng s = out at hd ⊢
  cases hd with
  | refused a b => exact (exception C a b room).run s
  | release =>
    exact (Server.Moved.answering.handleRelease C S (fun _ _ => Server.Moved.refl _) apdu room).run s
  | aarq =>
    unfold handleAarq
    cases Read.fromBytes Aarq.decode apdu with
    | error e => exact Server.Moved.refl s
    | ok aarq =>
      intro _
      refine (Server.Moved.opening C).answerAarq S (s := (s.clearAssociation C).log (.aarq aarq))
        room rng (fun b title _ _ _ => ?_) hK.idle
      exact Server.Moved.of_eq (by unfold Server.takeTitle; split <;> rfl)
  | request =>
    have hu : s.Moved K (Srv.unprotectInto C apdu s).2 :=
      Server.Moved.unprotect C s s.protector.policy plainFromClient N apdu
    have hr := handleProtected_received C S s apdu room
    generalize handleProtected C S apdu room s = out at hr ⊢
    cases hr with
    | refused m hm =>
      refine Server.Moved.trans _ _ _ hu ?_
      obtain ⟨n, rfl⟩ | ⟨a, b, rfl⟩ := hm
      · exact (Server.Moved.answering.reply ..).run _
      · exact (exception C a b room).run _
    | request opened req hopened hreq =>
      have hs := (serveRequest hK C S req (ho _ _ hopened hreq) room).run
        ((unprotectInto C apdu s).2.log (.request opened.frame req))
      exact fun h => hs (hu h)

end Handlers

end Moves

end Srv

namespace Server

variable (C : CryptoProvider π) (S : ObjectStore σ)

theorem step_within {s : Server σ π N} (x : Step σ) (h : s.transfer.Within N) :
    (s.step C S x).2.transfer.Within N := by
  cases x with
  | handle apdu room rng =>
    exact Srv.Moves.handle (Transfer.Within.closed N) C S room rng
      (fun _ _ _ _ _ => Transfer.Within.opens N) h
  | reset => trivial
  | resume => exact h
  | storeMut => exact h

/-- In every state that a server reaches, a transfer lies in the response buffer. -/
theorem run_within {s : Server σ π N} (steps : List (Step σ)) (h : s.transfer.Within N) :
    (s.run C S steps).transfer.Within N :=
  run_induction (I := fun s => s.transfer.Within N) (K := fun _ _ => True)
    (fun _ x h _ => step_within C S x h) h fun _ _ _ _ => trivial

end Server

end Dlms
