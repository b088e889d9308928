import DlmsCosem.Server.Operation

/-!
# Complete mediation

Whatever arrives, and whatever happened before: a server reads, writes or invokes only for an open
association that agreed to the service, and only after the store said that this target allows it
(`store_access_mediated`). The handlers' own part of this is `Srv.Works`; here it is put together
with the dispatch of `handle`, and with what keeps the store untouched where a condition fails
(`Spares`).
-/

namespace Dlms

namespace Conformance

theorem contains_union (a b c : Conformance) :
    a.contains (b ||| c) = true ↔ a.contains b = true ∧ a.contains c = true := by
  change ((a.bits &&& (b.bits ||| c.bits)) == (b.bits ||| c.bits)) = true ↔ _
  simp only [contains, beq_iff_eq, BitVec.eq_of_getLsbD_eq_iff, BitVec.getLsbD_and,
    BitVec.getLsbD_or]
  grind

end Conformance

/-- What a block that continues a transfer needs agreed to, besides its service. -/
def Transfer.required : Transfer → Conformance
  | .receivingSet _ _ list _ _ _ =>
    .blockTransferWithSetOrWrite ||| if list then .multipleReferences else .empty
  | .receivingAction _ _ _ _ => .blockTransferWithAction
  | _ => .empty

/-- What a request needs agreed to before it may reach an object. `t` is the transfer in flight. -/
def Apdu.required (t : Transfer) : Apdu → Conformance
  | .getRequest (.withList _ _) => .get ||| .multipleReferences
  | .getRequest _ => .get
  | .setRequest (.normal _ _ _ _) => .set
  | .setRequest (.withFirstDataBlock _ _ _ _) => .set ||| .blockTransferWithSetOrWrite
  | .setRequest (.withDataBlock _ _) => .set ||| t.required
  | .setRequest (.withList _ _ _) => .set ||| .multipleReferences
  | .setRequest (.withListAndFirstDataBlock _ _ _) =>
    .set ||| (.multipleReferences ||| .blockTransferWithSetOrWrite)
  | .actionRequest (.withFirstPblock _ _ _) => .action ||| .blockTransferWithAction
  | .actionRequest (.withPblock _ _) => .action ||| t.required
  | .actionRequest (.withList _ _ _) => .action ||| .multipleReferences
  | .actionRequest _ => .action
  | .accessRequest _ => .access
  | .readRequest _ => .read
  | .writeRequest _ => .write
  | .unconfirmedWriteRequest _ => .unconfirmedWrite
  | _ => .empty

variable {σ π : Type} {N : Nat}

/-- A transfer that was agreed to has what its next block needs. -/
theorem Transfer.Agreed.required {t : Transfer} {c : Conformance} (h : t.Agreed c) :
    c.contains t.required = true := by
  cases t with
  | idle => exact Conformance.contains_empty c
  | sending => exact Conformance.contains_empty c
  | receivingAction => exact h
  | receivingSet i d list headerEnd len block =>
    refine (Conformance.contains_union ..).mpr ⟨h.1, ?_⟩
    cases list
    · exact Conformance.contains_empty c
    · exact h.2 rfl

/-! ## Handlers that leave the objects alone -/

/-- No object was accessed between the two states, and no transfer was started. -/
structure Spared (s t : Server σ π N) : Prop where
  trace : ∃ ev, t.trace = s.trace ++ ev ∧ ∀ e ∈ ev, ¬ e.IsAccess
  transfer : t.transfer = s.transfer ∨ t.transfer = .idle

namespace Spared

theorem trans (s t u : Server σ π N) (h : Spared s t) (h' : Spared t u) : Spared s u := by
  obtain ⟨⟨ev, hev, hn⟩, ht⟩ := h
  obtain ⟨⟨ev', hev', hn'⟩, ht'⟩ := h'
  refine ⟨⟨ev ++ ev', by rw [hev', hev, List.append_assoc], fun e he => ?_⟩, ?_⟩
  · rcases List.mem_append.mp he with he | he
    · exact hn e he
    · exact hn' e he
  · rcases ht' with ht' | ht'
    · rw [ht']; exact ht
    · exact .inr ht'

theorem of_eq {s t : Server σ π N} (h : t.trace = s.trace)
    (ht : t.transfer = s.transfer ∨ t.transfer = .idle) : Spared s t := ⟨⟨[], by simp [h]⟩, ht⟩

theorem log {e : Event} (he : ¬ e.IsAccess) (s : Server σ π N) : Spared s (s.log e) :=
  ⟨⟨[e], rfl, by simpa using he⟩, .inl rfl⟩

theorem answering : Answering (Spared : Server σ π N → Server σ π N → Prop) where
  trans := trans
  same _ _ h ht := of_eq ht (.inl (congrArg Standing.transfer h))
  event s e he := by
    refine log ?_ s
    cases e with
    | store call => cases call <;> simp_all [Event.IsAccess, Event.Quiet, StoreCall.IsAccess]
    | _ => exact id

theorem unprotect (C : CryptoProvider π) (s : Server σ π N) (policy : SecurityPolicy)
    (plain : List ApduTag) (size : Nat) (apdu : Bytes) :
    Spared s (Srv.unprotect C policy plain size apdu s).2 := by
  obtain ⟨w, fs, hu, hfs⟩ := Srv.unprotect_state C s policy plain size apdu
  rw [hu]
  refine ⟨⟨fs, rfl, fun e he => ?_⟩, .inl rfl⟩
  obtain rfl | ⟨f, rfl⟩ := hfs
  · cases he
  · rw [List.mem_singleton.mp he]
    exact id

theorem opening (C : CryptoProvider π) :
    Opening C (Spared : Server σ π N → Server σ π N → Prop) where
  toAnswering := answering
  changed _ _ h ht := of_eq ht (.inl (congrArg Identity.transfer h))
  unprotected := unprotect C

section Handlers

variable (C : CryptoProvider π) (S : ObjectStore σ)

theorem answerAarq (aarq : Aarq) (room : Nat) (rng : Entropy) (s : Server σ π N) :
    Spared s (Srv.answerAarq C S aarq room rng s).2 := by
  refine (opening C).answerAarq S room rng fun b title _ _ _ => of_eq ?_ (.inl ?_)
  all_goals unfold Server.takeTitle; split <;> rfl

theorem handleAarq (apdu : Bytes) (room : Nat) (rng : Entropy) (s : Server σ π N) :
    Spared s (Srv.handleAarq C S apdu room rng s).2 := by
  unfold Srv.handleAarq
  cases Read.fromBytes Aarq.decode apdu with
  | error e => exact of_eq rfl (.inl rfl)
  | ok aarq =>
    refine trans _ (s.clearAssociation C) _ (of_eq rfl (.inr rfl)) ?_
    exact trans _ _ _ (log id _) (answerAarq C S aarq room rng _)

theorem handleRelease (apdu : Bytes) (room : Nat) :
    Prog.Keeps Spared (Srv.handleRelease C S apdu room : Srv σ π N Bytes) :=
  answering.handleRelease C S (fun _ _ => of_eq rfl (.inl rfl)) apdu room

end Handlers

end Spared

/-! ## Requests that are refused -/

namespace Srv

variable (C : CryptoProvider π) (S : ObjectStore σ) {s : Server σ π N}

/-- Drop the transfer and answer. -/
theorem idle_send (s : Server σ π N) (apdu : Apdu) (room : Nat) :
    Spared s (send C apdu room { s with transfer := .idle }).2 :=
  Spared.trans s { s with transfer := .idle } _ (Spared.of_eq rfl (.inr rfl))
    ((Spared.answering.send C apdu room).run _)

theorem serving_refused {required : Conformance} {m : Srv σ π N Bytes} (room : Nat)
    (h : ¬ (s.state = .associated ∧ s.negotiated.contains required = true)) :
    Spared s (serving C required room m s).2 := by
  simp only [serving, Prog.gets_bind_run]
  by_cases hs : s.state = .associated
  · have hn : s.negotiated.contains required = false := by simpa [hs] using h
    rw [if_neg (by simpa using hs), if_pos (by rw [hn]; rfl)]
    exact (Spared.answering.exception C _ _ room).run s
  · rw [if_pos hs]
    exact (Spared.answering.exception C _ _ room).run s

theorem withReferences_refused {m : Srv σ π N Bytes} (room : Nat)
    (h : s.negotiated.contains .multipleReferences = false) :
    Spared s (withReferences C room m s).2 := by
  simp only [withReferences, Prog.gets_bind_run]
  rw [if_pos (by rw [h]; rfl)]
  exact (Spared.answering.exception C _ _ room).run s

/-- A request of a service that needs `required` and, for this form of it, `more`. -/
theorem serving_more {required more : Conformance} {m : Srv σ π N Bytes} (room : Nat)
    (hm : s.negotiated.contains more = false → Spared s (m s).2)
    (h : ¬ (s.state = .associated ∧ s.negotiated.contains (required ||| more) = true)) :
    Spared s (serving C required room m s).2 := by
  by_cases hr : s.state = .associated ∧ s.negotiated.contains required = true
  · rw [serving_run C room hr]
    apply hm
    rw [Conformance.contains_union] at h
    simpa [hr] using h
  · exact serving_refused C room hr

theorem beginBlockedSet_refused {i : InvokeId} {d : AttributeDescriptor}
    {access : Option SelectiveAccess} {block : DataBlockSA} (room : Nat)
    (h : s.negotiated.contains .blockTransferWithSetOrWrite = false) :
    Spared s (beginBlockedSet C S i d access block room s).2 := by
  simp only [beginBlockedSet, setTransfer, Prog.modify_bind_run, Prog.gets_bind_run]
  rw [if_pos (by rw [h]; rfl)]
  exact idle_send ..

theorem beginBlockedListSet_refused {i : InvokeId} {descriptors : WireList} {block : DataBlockSA}
    (room : Nat)
    (h : s.negotiated.contains (.multipleReferences ||| .blockTransferWithSetOrWrite) = false) :
    Spared s (beginBlockedListSet C S i descriptors block room s).2 := by
  simp only [beginBlockedListSet, setTransfer, Prog.modify_bind_run, Prog.gets_bind_run]
  rw [if_pos]
  · exact idle_send ..
  · rw [Bool.eq_false_iff, Ne, Conformance.contains_union, not_and_or] at h
    simpa using h

theorem handleWrite_refused {req : WriteRequest} (confirmed : Bool) (room : Nat)
    (h : ¬ (s.state = .associated ∧ s.negotiated.contains (writeRequired confirmed) = true)) :
    Spared s (handleWrite C S req confirmed room s).2 := by
  have refusal (a : StateError) (b : ServiceError) :
      Prog.Keeps Spared (writeRefusal C confirmed a b room : Srv σ π N Bytes) := by
    unfold writeRefusal
    split
    · exact Spared.answering.exception ..
    · exact Spared.answering.pure _
  simp only [handleWrite, Prog.gets_bind_run]
  by_cases hs : s.state = .associated
  · have hn : s.negotiated.contains (writeRequired confirmed) = false := by simpa [hs] using h
    rw [if_neg (by simpa using hs), if_pos (by rw [hn]; rfl)]
    exact (refusal ..).run s
  · rw [if_pos hs]
    exact (refusal ..).run s

/-- While the client's proof is awaited, an ACTION reaches no object. -/
theorem handleAction_awaiting {req : ActionRequest} (room : Nat) (ha : s.state = .awaitingHlsReply) :
    Spared s (handleAction C S req room s).2 := by
  simp only [handleAction, Prog.gets_bind_run, if_pos ha]
  cases req with
  | normal => exact (Spared.answering.handleHlsReply ..).run s
  | _ => exact (Spared.answering.exception C _ _ room).run s

/-- A request that may not reach an object does not. -/
theorem serveRequest_refused {req : Apdu} (room : Nat) (hs : s.transfer.Agreed s.negotiated)
    (h : ¬ (s.state = .associated ∧ s.negotiated.contains (req.required s.transfer) = true)) :
    Spared s (serveRequest C S req room s).2 := by
  have agreed : s.negotiated.contains s.transfer.required = false → False := by
    rw [hs.required]; nofun
  cases req with
  | getRequest req =>
    cases req with
    | normal => exact serving_refused C room h
    | next => exact serving_refused C room h
    | withList => exact serving_more C room (withReferences_refused C room) h
  | setRequest req =>
    cases req with
    | normal => exact serving_refused C room h
    | withFirstDataBlock => exact serving_more C room (beginBlockedSet_refused C S room) h
    | withDataBlock => exact serving_more C room (fun hf => (agreed hf).elim) h
    | withList => exact serving_more C room (withReferences_refused C room) h
    | withListAndFirstDataBlock =>
      exact serving_more C room (beginBlockedListSet_refused C S room) h
  | actionRequest req =>
    by_cases ha : s.state = .awaitingHlsReply
    · exact handleAction_awaiting C S room ha
    simp only [serveRequest, handleAction, Prog.gets_bind_run, if_neg ha]
    cases req with
    | normal => exact serving_refused C room h
    | nextPblock => exact serving_refused C room h
    | withPblock => exact serving_more C room (fun hf => (agreed hf).elim) h
    | withList => exact serving_more C room (withReferences_refused C room) h
    | withListAndFirstPblock => exact serving_refused C room h
    | withFirstPblock =>
      refine serving_more C room (fun hf => ?_) h
      simp only [setTransfer, Prog.modify_bind_run, Prog.gets_bind_run]
      rw [if_pos (by rw [hf]; rfl)]
      exact idle_send ..
  | accessRequest => exact serving_refused C room h
  | readRequest => exact serving_refused C room h
  | writeRequest => exact handleWrite_refused C S true room h
  | unconfirmedWriteRequest => exact handleWrite_refused C S false room h
  | _ => exact (Spared.answering.exception C _ _ room).run s

end Srv

/-! ## Transfers that were agreed to -/

/-- A transfer that was agreed to before was agreed to after. -/
def Server.StaysAgreed (s t : Server σ π N) : Prop := s.Agreed → t.Agreed

theorem Server.StaysAgreed.answering :
    Answering (StaysAgreed : Server σ π N → Server σ π N → Prop) where
  trans _ _ _ h h' hs := h' (h hs)
  same s t h _ hs := by
    rw [Agreed, show t.transfer = s.transfer from congrArg Standing.transfer h,
      show t.negotiated = s.negotiated from congrArg Standing.negotiated h]
    exact hs
  event _ _ _ hs := hs

theorem Server.StaysAgreed.serving (C : CryptoProvider π) :
    Serving C (StaysAgreed : Server σ π N → Server σ π N → Prop) where
  toAnswering := answering
  worked _ _ h _ := h.agreed
  unprotected s policy plain size apdu hs := by
    obtain ⟨w, fs, hu, _⟩ := Srv.unprotect_state C s policy plain size apdu
    rw [hu]
    exact hs
  request _ _ _ hs := hs

namespace Srv

open Server

variable (C : CryptoProvider π) (S : ObjectStore σ)

/-- An AARQ drops the transfer before anything else is done with it. -/
theorem handleAarq_agreed {s : Server σ π N} (apdu : Bytes) (room : Nat) (rng : Entropy)
    (h : s.Agreed) : (handleAarq C S apdu room rng s).2.Agreed := by
  unfold handleAarq
  cases Read.fromBytes Aarq.decode apdu with
  | error e => exact h
  | ok aarq =>
    simp only [Prog.ofExcept_ok, Prog.pure_bind_run, Prog.modify_bind_run, log]
    have hs := (Spared.answerAarq C S aarq room rng ((s.clearAssociation C).log (.aarq aarq))).transfer
    rw [show ((s.clearAssociation C).log (.aarq aarq)).transfer = .idle from rfl, or_self] at hs
    rw [Server.Agreed, hs]
    trivial

theorem handle_agreed {s : Server σ π N} (apdu : Bytes) (room : Nat) (rng : Entropy)
    (h : s.Agreed) : (handle C S apdu room rng s).2.Agreed := by
  have answering : Answering (StaysAgreed : Server σ π N → _ → Prop) := StaysAgreed.answering
  have hd := handle_dispatched C S s apdu room rng
  generalize handle C S apdu room rng s = out at hd ⊢
  cases hd with
  | refused a b => exact (answering.exception C a b room).run s h
  | aarq => exact handleAarq_agreed C S apdu room rng h
  | release => exact (answering.handleRelease C S (fun _ _ h => h) apdu room).run s h
  | request => exact (StaysAgreed.serving C).handleProtected S apdu room h h

end Srv

namespace Server

variable (C : CryptoProvider π) (S : ObjectStore σ)

theorem step_agreed {s : Server σ π N} (x : Step σ) (h : s.Agreed) : (s.step C S x).2.Agreed := by
  cases x with
  | handle apdu room rng => exact Srv.handle_agreed C S apdu room rng h
  | reset => trivial
  | resume => exact h
  | storeMut => exact h

theorem run_agreed {s : Server σ π N} (steps : List (Step σ)) (h : s.Agreed) :
    (s.run C S steps).Agreed := by
  induction steps generalizing s with
  | nil => exact h
  | cons x xs ih => exact ih (step_agreed C S x h)

end Server

/-! ## Complete mediation -/

/-- Every access in `ev`, which a server in the state `s` recorded, was allowed: an association was
open, it had agreed to the service, and the store had granted this access before it.

What a service needs is `Apdu.required`. Selective access is not a service: a server never asks
whether it was agreed to. -/
def Mediates (s : Server σ π N) (ev : List Event) : Prop :=
  ∀ pre call post, ev = pre ++ .store call :: post → call.IsAccess →
    s.state = .associated ∧ call.Granted pre ∧
      ∃ frame req, .request frame req ∈ pre ∧ s.negotiated.contains (req.required s.transfer) = true

namespace Mediates

/-- There is nothing to allow where nothing was accessed. -/
theorem of_spared {s t : Server σ π N} (h : Spared s t) :
    ∃ ev, t.trace = s.trace ++ ev ∧ Mediates s ev := by
  obtain ⟨ev, hev, hn⟩ := h.trace
  refine ⟨ev, hev, ?_⟩
  rintro pre call post rfl hc
  exact absurd hc (hn (.store call) (by simp))

/-- The work of a request that an open association agreed to. -/
theorem of_mediated {s : Server σ π N} {frame : Option Frame} {req : Apdu} {fs ev : List Event}
    (hf : ∀ e ∈ fs, ¬ e.IsAccess) (hs : s.state = .associated)
    (hc : s.negotiated.contains (req.required s.transfer) = true) (hm : Mediated [] ev) :
    Mediates s (fs ++ .request frame req :: ev) := by
  intro pre call post heq ha
  obtain ⟨mid, rfl, hev⟩ | ⟨mid, hfs, hpost⟩ := List.append_eq_append_iff.mp heq
  · -- the access stands behind the request
    cases mid with
    | nil => cases hev
    | cons e mid =>
      obtain ⟨rfl, rfl⟩ := List.cons.inj hev
      exact ⟨hs, hm.allowed.mono (by simp), frame, req, by simp, hc⟩
  · cases mid with
    | nil => cases hpost
    | cons e mid =>
      obtain ⟨rfl, -⟩ := List.cons.inj hpost
      exact absurd ha (hf (.store call) (by rw [hfs]; simp))

end Mediates

namespace Srv

variable (C : CryptoProvider π) (S : ObjectStore σ)

theorem handleProtected_mediates {s : Server σ π N} (apdu : Bytes) (room : Nat) (h : s.Agreed) :
    ∃ ev, (handleProtected C S apdu room s).2.trace = s.trace ++ ev ∧ Mediates s ev := by
  have hu := Spared.unprotect C s s.protector.policy plainFromClient N apdu
  have hr := handleProtected_received C S s apdu room
  generalize handleProtected C S apdu room s = out at hr ⊢
  cases hr with
  | refused m hm =>
    refine Mediates.of_spared (Spared.trans _ _ _ hu ?_)
    obtain ⟨n, rfl⟩ | ⟨a, b, rfl⟩ := hm
    · exact (Spared.answering.reply ..).run _
    · exact (Spared.answering.exception ..).run _
  | request opened req =>
    obtain ⟨w, fs, hs, hfs⟩ := unprotectInto_state C s apdu
    have hf : ∀ e ∈ fs, ¬ e.IsAccess := by
      obtain rfl | ⟨f, rfl⟩ := hfs <;> simp [Event.IsAccess]
    generalize hs' : (unprotectInto C apdu s).2.log (.request opened.frame req) = s'
    have ha : s'.Agreed := by rw [← hs', hs]; exact h
    have htrace : s'.trace = s.trace ++ (fs ++ [.request opened.frame req]) := by
      rw [← hs', hs]
      simp [Server.log]
    have hstate : s'.state = s.state := by rw [← hs', hs]; rfl
    have hneg : s'.negotiated = s.negotiated := by rw [← hs', hs]; rfl
    have htr : s'.transfer = s.transfer := by rw [← hs', hs]; rfl
    by_cases hreq : s.state = .associated ∧ s.negotiated.contains (req.required s.transfer) = true
    · have hne : s'.state = .awaitingHlsReply → ∀ r, req ≠ .actionRequest r := by
        rw [hstate, hreq.1]
        intro hw
        cases hw
      obtain ⟨ev, hev, hm⟩ := (serveRequest_works C S room hne ha).trace
      refine ⟨fs ++ .request opened.frame req :: ev, by rw [hev, htrace]; simp, ?_⟩
      exact Mediates.of_mediated hf hreq.1 hreq.2 hm
    · rw [← hstate, ← hneg, ← htr] at hreq
      refine Mediates.of_spared (Spared.trans _ s' _ ⟨⟨_, htrace, ?_⟩, .inl htr⟩
        (serveRequest_refused C S room ha hreq))
      intro e he
      rcases List.mem_append.mp he with he | he
      · exact hf e he
      · rw [List.mem_singleton.mp he]; exact id

theorem handle_mediates {s : Server σ π N} (apdu : Bytes) (room : Nat) (rng : Entropy)
    (h : s.Agreed) :
    ∃ ev, (handle C S apdu room rng s).2.trace = s.trace ++ ev ∧ Mediates s ev := by
  have hd := handle_dispatched C S s apdu room rng
  generalize handle C S apdu room rng s = out at hd ⊢
  cases hd with
  | refused a b => exact Mediates.of_spared ((Spared.answering.exception C a b room).run s)
  | aarq => exact Mediates.of_spared (Spared.handleAarq C S apdu room rng s)
  | release => exact Mediates.of_spared ((Spared.handleRelease C S apdu room).run s)
  | request => exact handleProtected_mediates C S apdu room h

end Srv

/-- In every state that a server reaches, whatever it is sent: it accesses an object only for an
open association that agreed to the service, and after the store granted it for this request. -/
theorem store_access_mediated (C : CryptoProvider π) (S : ObjectStore σ) (config : ServerConfig)
    (store : σ) (provider : π) (steps : List (Step σ)) (apdu : Bytes) (room : Nat) (rng : Entropy) :
    let s := (Server.new N config store provider).run C S steps
    ∃ ev, (Srv.handle C S apdu room rng s).2.trace = s.trace ++ ev ∧ Mediates s ev :=
  Srv.handle_mediates C S apdu room rng (Server.run_agreed C S steps trivial)

end Dlms
