import DlmsCosem.Server.Handshake

/-!
# What the services may do

`Work pre s t` bounds what a handler of a service makes of a server: the association stays as it
is, a transfer is only started where the client agreed to it, and the store is asked for the rights
before every access to an object (`Mediated`). `pre` is what had been recorded before, so that an
access may rest on an answer that was given already.

`Srv.Works` says that a program keeps to it, and has one rule for each construct.
-/

namespace Dlms

/-! ## Mediated traces -/

/-- The answers in `es` allow the call. -/
def StoreCall.Granted (es : List Event) : StoreCall → Prop
  | .getAttribute d _ => ∃ r, .store (.attributeAccess .read d r) ∈ es ∧ r.canRead = true
  | .setAttribute d _ _ => ∃ r, .store (.attributeAccess .write d r) ∈ es ∧ r.canWrite = true
  | .invokeMethod d _ => ∃ r, .store (.methodAccess d r) ∈ es ∧ r.canInvoke = true
  | _ => True

/-- What a service may record after `es`. -/
def Event.Allowed (es : List Event) : Event → Prop
  | .store call => call.Granted es
  | .counter _ | .protecting _ _ => True
  | _ => False

/-- Every event of the second list is allowed by what stands before it. -/
def Mediated : List Event → List Event → Prop
  | _, [] => True
  | pre, e :: ev => e.Allowed pre ∧ Mediated (pre ++ [e]) ev

theorem StoreCall.Granted.mono {es es' : List Event} {call : StoreCall} (h : call.Granted es)
    (hs : es ⊆ es') : call.Granted es' := by
  cases call <;> try trivial
  all_goals
    obtain ⟨r, hr, hc⟩ := h
    exact ⟨r, hs hr, hc⟩

theorem Event.Allowed.mono {es es' : List Event} {e : Event} (h : e.Allowed es) (hs : es ⊆ es') :
    e.Allowed es' := by
  cases e <;> try exact h
  exact StoreCall.Granted.mono h hs

namespace Mediated

theorem mono {pre pre' ev : List Event} (h : Mediated pre ev) (hs : pre ⊆ pre') :
    Mediated pre' ev := by
  induction ev generalizing pre pre' with
  | nil => trivial
  | cons e ev ih =>
    exact ⟨h.1.mono hs, ih h.2 (List.append_subset.mpr
      ⟨List.subset_append_of_subset_left _ hs, List.subset_append_right ..⟩)⟩

theorem append {pre a b : List Event} : Mediated pre (a ++ b) ↔ Mediated pre a ∧ Mediated (pre ++ a) b := by
  induction a generalizing pre with
  | nil => simp [Mediated]
  | cons e a ih => simp [Mediated, ih, and_assoc]

/-- What stands at a place of a mediated trace is allowed by what stands before it. -/
theorem allowed {pre p q : List Event} {e : Event} (h : Mediated pre (p ++ e :: q)) :
    e.Allowed (pre ++ p) := (append.mp h).2.1

theorem single {pre : List Event} {e : Event} (h : e.Allowed pre) : Mediated pre [e] := ⟨h, trivial⟩

end Mediated

/-! ## What stays -/

variable {σ π : Type} {N : Nat}

/-- The part of a server that belongs to the association and to the handshake. -/
structure Association (π : Type) where
  config : ServerConfig
  protector : Protector π
  state : ServerState
  clientSystemTitle : Option SystemTitle
  clientChallenge : Bytes
  serverChallenge : Bytes
  peerReplay : ReplayWindow
  replayOwner : Option SystemTitle
  negotiated : Conformance
  cipheredAssociation : Bool
  clientMaxPduSize : UInt16

/-- The part of a server that the services leave alone. -/
def Server.association (s : Server σ π N) : Association π :=
  ⟨s.config, s.protector, s.state, s.clientSystemTitle, s.clientChallenge, s.serverChallenge,
    s.peerReplay, s.replayOwner, s.negotiated, s.cipheredAssociation, s.clientMaxPduSize⟩

/-- A transfer that gathers blocks was agreed to. -/
def Transfer.Agreed (c : Conformance) : Transfer → Prop
  | .receivingSet _ _ list _ _ _ => c.contains .blockTransferWithSetOrWrite = true ∧
      (list = true → c.contains .multipleReferences = true)
  | .receivingAction _ _ _ _ => c.contains .blockTransferWithAction = true
  | _ => True

/-- What came of a server in the hands of a service. -/
structure Worked (pre : List Event) (s t : Server σ π N) : Prop where
  association : t.association = s.association
  agreed : t.transfer.Agreed t.negotiated
  trace : ∃ ev, t.trace = s.trace ++ ev ∧ Mediated pre ev

/-- What a service may make of a server whose transfer was agreed to. -/
def Work (pre : List Event) (s t : Server σ π N) : Prop :=
  s.transfer.Agreed s.negotiated → Worked pre s t

theorem Worked.negotiated {pre : List Event} {s t : Server σ π N} (h : Worked pre s t) :
    t.negotiated = s.negotiated :=
  congrArg Association.negotiated h.association

namespace Work

variable {pre : List Event} {s t u : Server σ π N}

theorem refl (s : Server σ π N) : Work pre s s := fun h => ⟨rfl, h, [], by simp, trivial⟩

theorem trans (s t u : Server σ π N) (h : Work pre s t) (h' : Work pre t u) : Work pre s u := by
  intro hs
  have h := h hs
  have h' := h' h.agreed
  obtain ⟨ev, hev, hm⟩ := h.trace
  obtain ⟨ev', hev', hm'⟩ := h'.trace
  refine ⟨h'.association.trans h.association, h'.agreed, ev ++ ev', ?_, ?_⟩
  · rw [hev', hev, List.append_assoc]
  · exact Mediated.append.mpr ⟨hm, hm'.mono (List.subset_append_left ..)⟩

/-- One event, and the rest of the work after it. -/
theorem after {e : Event} (he : e.Allowed pre) (h : Work (pre ++ [e]) (s.log e) t) :
    Work pre s t := by
  intro hs
  obtain ⟨ha, hf, ev, hev, hm⟩ := h hs
  exact ⟨ha, hf, e :: ev, by rw [hev, Server.log]; simp, he, hm⟩

/-- A change of what is neither the association nor the transfer nor the trace. -/
theorem of_eq (ha : t.association = s.association) (hf : t.transfer = s.transfer)
    (he : t.trace = s.trace) : Work pre s t := by
  refine fun h => ⟨ha, ?_, [], by rw [he, List.append_nil], trivial⟩
  rw [hf, show t.negotiated = s.negotiated from congrArg Association.negotiated ha]
  exact h

theorem log {e : Event} (he : e.Allowed pre) (s : Server σ π N) : Work pre s (s.log e) :=
  after he (refl _)

end Work

namespace Srv

/-- The handlers that keep to their work, where the client agreed to `P`. -/
structure Works (pre : List Event) (P : Conformance → Prop) {α : Type} (m : Srv σ π N α) : Prop where
  run : ∀ s, P s.negotiated → Work pre s (m s).2

namespace Works

variable {pre : List Event} {P : Conformance → Prop} {α β : Type}

theorem pure (a : α) : Works pre P (Pure.pure a : Srv σ π N α) := ⟨fun s _ => Work.refl s⟩

theorem throw (e : Error) : Works pre P (Prog.throw e : Srv σ π N α) := ⟨fun s _ => Work.refl s⟩

theorem gets (f : Server σ π N → α) : Works pre P (Prog.gets f) := ⟨fun s _ => Work.refl s⟩

theorem ofExcept (r : Except Error α) : Works pre P (Prog.ofExcept r : Srv σ π N α) := by
  cases r
  · exact throw _
  · exact pure _

theorem bind {m : Srv σ π N α} {f : α → Srv σ π N β} (hm : Works pre P m)
    (hf : ∀ a, Works pre P (f a)) : Works pre P (m >>= f) := by
  refine ⟨fun s hP hs => ?_⟩
  have h := hm.run s hP hs
  rw [Prog.bind_run]
  match hr : m s with
  | (.ok a, t) =>
    rw [hr] at h
    exact Work.trans s t _ (fun _ => h) ((hf a).run t (by rw [h.negotiated]; exact hP)) hs
  | (.error e, t) => rw [hr] at h; exact h

/-- What was agreed to is looked up, and `P` grows by it. -/
theorem gets_negotiated {k : Conformance → Srv σ π N β} (h : ∀ c, P c → Works pre (· = c) (k c)) :
    Works pre P (Prog.gets Server.negotiated >>= k) :=
  ⟨fun s hP => (h _ hP).run s rfl⟩

/-- The transfer is looked up: that it was agreed to is known. -/
theorem gets_transfer {k : Transfer → Srv σ π N β} (h : ∀ t, Works pre t.Agreed (k t)) :
    Works pre P (Prog.gets Server.transfer >>= k) :=
  ⟨fun s _ hs => (h s.transfer).run s hs hs⟩

/-- A change of what is neither the association nor the transfer nor the trace. -/
theorem modify {f : Server σ π N → Server σ π N} (ha : ∀ s, (f s).association = s.association)
    (hf : ∀ s, (f s).transfer = s.transfer) (he : ∀ s, (f s).trace = s.trace) :
    Works pre P (Prog.modify f) := ⟨fun s _ => Work.of_eq (ha s) (hf s) (he s)⟩

theorem log {e : Event} (he : e.Allowed pre) : Works pre P (Srv.log e : Srv σ π N Unit) :=
  ⟨fun s _ => Work.log he s⟩

theorem reply (e : Emit) (room : Nat) : Works pre P (Srv.reply e room : Srv σ π N _) := ofExcept _

theorem need (a : Option α) (kind : ErrorKind) : Works pre P (Srv.need a kind : Srv σ π N α) := by
  cases a
  · exact throw _
  · exact pure _

theorem nextCounter : Works pre P (Srv.nextCounter : Srv σ π N UInt32) := by
  refine bind (gets _) fun c => bind (ofExcept _) fun x => ?_
  refine bind (modify (fun _ => rfl) (fun _ => rfl) fun _ => rfl) fun _ => ?_
  exact bind (log trivial) fun _ => pure _

theorem setTransfer {t : Transfer} (ht : ∀ c, P c → t.Agreed c) :
    Works pre P (Srv.setTransfer t : Srv σ π N Unit) :=
  ⟨fun _ hP _ => ⟨rfl, ht _ hP, [], by simp [Srv.setTransfer], trivial⟩⟩

theorem putResponse (n : Nat) (bytes : Bytes) (needed : Nat) :
    Works pre P (Srv.putResponse n bytes needed : Srv σ π N Unit) := by
  refine ⟨fun s hP => ?_⟩
  unfold Srv.putResponse
  split
  · exact Work.of_eq rfl rfl rfl
  · exact Work.refl _

theorem encodeResponse (e : Emit) : Works pre P (Srv.encodeResponse e : Srv σ π N Nat) :=
  ⟨fun _ _ => Work.of_eq rfl rfl rfl⟩

theorem encodeScratch (e : Emit) : Works pre P (Srv.encodeScratch e : Srv σ π N Bytes) :=
  ⟨fun _ _ => Work.of_eq rfl rfl rfl⟩

/-! ## The store -/

section Store

variable (S : ObjectStore σ)

/-- The rights of an attribute, and a program that may rest on them. -/
theorem attributeAccess_bind {op : Operation} {d : AttributeDescriptor}
    {k : AttributeAccess → Srv σ π N β}
    (hk : ∀ r, Works (pre ++ [.store (.attributeAccess op d r)]) P (k r)) :
    Works pre P (Srv.attributeAccess S op d >>= k) := by
  refine ⟨fun s hP => ?_⟩
  have hstore : Work pre s { s with store := (S.attributeAccess s.store d).2 } := Work.of_eq rfl rfl rfl
  exact hstore.trans _ _ _ (Work.after (e := .store (.attributeAccess op d _)) trivial ((hk _).run _ hP))

theorem methodAccess_bind {d : MethodDescriptor} {k : MethodAccess → Srv σ π N β}
    (hk : ∀ r, Works (pre ++ [.store (.methodAccess d r)]) P (k r)) :
    Works pre P (Srv.methodAccess S d >>= k) := by
  refine ⟨fun s hP => ?_⟩
  have hstore : Work pre s { s with store := (S.methodAccess s.store d).2 } := Work.of_eq rfl rfl rfl
  exact hstore.trans _ _ _ (Work.after (e := .store (.methodAccess d _)) trivial ((hk _).run _ hP))

end Store

section Replies

variable (C : CryptoProvider π)

theorem checkFits (len : Nat) : Works pre P (Srv.checkFits len : Srv σ π N Unit) := by
  refine bind (gets _) fun max => ?_
  dsimp only
  split
  · exact throw _
  · exact pure _

theorem send (apdu : Apdu) (room : Nat) : Works pre P (Srv.send C apdu room : Srv σ π N _) := by
  refine bind (encodeScratch _) fun plain => bind (gets _) fun config => ?_
  split
  · exact bind (checkFits _) fun _ => reply ..
  · refine bind (need ..) fun _ => bind nextCounter fun _ => ?_
    refine bind (gets _) fun _ => bind (gets _) fun _ => bind (log trivial) fun _ => ?_
    exact bind (ofExcept _) fun _ => bind (checkFits _) fun _ => pure _

end Replies

end Works

end Srv

end Dlms
