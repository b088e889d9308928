import DlmsCosem.Security.Sample
import DlmsCosem.Server.Gathering
import DlmsCosem.Server.Slots

/-!
# Short names against logical names

A short-name request names attributes and methods by numbers that the store resolves. What it asks
of an object is what GET, SET and ACTION ask of it (`ReadAgrees`, `WriteAgrees`), as far as the store
says the same in the room that the short-name service leaves it: a read puts a choice byte before the
value and other entries before that, and a write hands a method a single byte.
-/

namespace Dlms

variable {σ π : Type} {N : Nat}

/-- The result code of an ACTION response. -/
def actionCode : Except ActionResult (Option Bytes) → UInt8
  | .ok _ => ActionResult.success.asU8
  | .error e => e.asU8

/-- The reads, writes and invocations among these calls, as they were made. -/
def StoreCall.objects (calls : List StoreCall) : List StoreCall := calls.filter (·.IsAccess)

@[simp] theorem StoreCall.objects_audit (calls : List StoreCall) (e : AuditEvent) :
    objects (calls ++ [.audit e]) = objects calls := by
  rw [objects, List.filter_append, objects]
  exact List.append_nil _

/-! ## What the two have to agree on -/

/-- An entry of a short-name read comes to what GET of the attribute comes to. A method is invoked as
ACTION invokes it, with the `N` bytes that ACTION has for what it returns, and succeeds where ACTION
reports success. An entry without a name, or with one that stands for nothing, asks for no object. -/
def ReadAgrees (S : ObjectStore σ) (w : SliceWriter) (entry : VariableAccess) (s : Server σ π N) :
    Prop :=
  match Srv.namedEntry entry with
  | none => ∃ w', Srv.readItem S w (.ok entry) s = (.ok w', s) ∧
      w.Grown w' (readSlot (.error .otherReason))
  | some (name, access) =>
    let asked := S.resolveShortName s.store name
    let call := StoreCall.resolveShortName name asked.1
    match asked.1 with
    | none => ∃ w', Srv.readItem S w (.ok entry) s = (.ok w', s.asked asked.2 [call]) ∧
        w.Grown w' (readSlot (.error .objectUndefined))
    | some (.attribute d) =>
      let get := S.getOne asked.2 d access N
      ∃ w' st calls, Srv.readItem S w (.ok entry) s = (.ok w', s.asked st (call :: calls)) ∧
        StoreCall.objects calls = StoreCall.objects get.calls ∧ w.Grown w' (readSlot get.outcome)
    | some (.method d) =>
      let parameters := access.map SelectiveAccess.parameters
      let act := S.runAt asked.2 d parameters N 0
      ∃ w' calls slot, Srv.readItem S w (.ok entry) s =
          (.ok w', s.asked (S.ranAt asked.2 d parameters N 0) (call :: calls)) ∧
        StoreCall.objects calls = StoreCall.objects (S.runCalls asked.2 d parameters N 0) ∧
        w.Grown w' slot ∧ ((∃ v, slot = 0 :: v) ↔ actionCode (runOutcome act.1) = 0)

/-- An entry of a short-name write comes to what SET of the attribute comes to, or ACTION of the
method. -/
def WriteAgrees (S : ObjectStore σ) (w : SliceWriter) (entry : VariableAccess) (value : Data)
    (s : Server σ π N) : Prop :=
  match Srv.namedEntry entry with
  | none => ∃ w', Srv.writeItem S w (.ok entry, .ok value) s = (.ok w', s) ∧
      w.Grown w' (writeSlot .otherReason)
  | some (name, access) =>
    let asked := S.resolveShortName s.store name
    let call := StoreCall.resolveShortName name asked.1
    match asked.1 with
    | none => ∃ w', Srv.writeItem S w (.ok entry, .ok value) s = (.ok w', s.asked asked.2 [call]) ∧
        w.Grown w' (writeSlot .objectUndefined)
    | some (.attribute d) =>
      ∃ w', Srv.writeItem S w (.ok entry, .ok value) s = (.ok w',
          s.asked (S.write asked.2 d access value).2 (call :: S.writeCalls asked.2 d access value)) ∧
        w.Grown w' (writeSlot (S.write asked.2 d access value).1)
    | some (.method d) =>
      let act := S.runAt asked.2 d (some value) N 0
      ∃ w' calls slot, Srv.writeItem S w (.ok entry, .ok value) s =
          (.ok w', s.asked (S.ranAt asked.2 d (some value) N 0) (call :: calls)) ∧
        StoreCall.objects calls = StoreCall.objects (S.runCalls asked.2 d (some value) N 0) ∧
        w.Grown w' slot ∧ (slot = [0] ↔ actionCode (runOutcome act.1) = 0)

/-! ## When they do -/

/-- The method succeeded, and there was room for what stands for its value. -/
def Returned (room : Nat) : Except ActionResult Bool × Bytes → Prop
  | (.error _, _) => False
  | (.ok true, v) => v ≠ []
  | (.ok false, v) => v.length < room

instance (room : Nat) (r : Except ActionResult Bool × Bytes) : Decidable (Returned room r) := by
  unfold Returned
  split <;> infer_instance

/-- The method succeeded, whatever it wrote. -/
def Succeeded : Except ActionResult Bool × Bytes → Prop
  | (.error e, _) => e = .success
  | (.ok _, _) => True

instance (r : Except ActionResult Bool × Bytes) : Decidable (Succeeded r) := by
  unfold Succeeded
  split <;> infer_instance

/-- The store says the same in what is left of a sink of `len` bytes as in `size` bytes. -/
structure ObjectStore.SameRun (S : ObjectStore σ) (st : σ) (d : MethodDescriptor)
    (parameters : Option Data) (size len pos : Nat)
    (success : Except ActionResult Bool × Bytes → Prop) : Prop where
  store : S.ranAt st d parameters len pos = S.ranAt st d parameters size 0
  success : success (S.runAt st d parameters len pos).1 ↔
    actionCode (runOutcome (S.runAt st d parameters size 0).1) = 0

/-- The entry has room, and the store says in that room what it says in a sink of `N` bytes. -/
def ReadMeets (S : ObjectStore σ) (N : Nat) (w : SliceWriter) (entry : VariableAccess) (st : σ) :
    Prop :=
  w.pos + 2 ≤ w.buf.length ∧
  match Srv.namedEntry entry with
  | none => True
  | some (name, access) =>
    let asked := S.resolveShortName st name
    match asked.1 with
    | none => True
    | some (.attribute d) =>
      readSlot (readOutcome (S.readAt asked.2 d access w.buf.length (w.pos + 1)).1) =
        readSlot (readOutcome (S.readAt asked.2 d access N 0).1)
    | some (.method d) =>
      S.SameRun asked.2 d (access.map SelectiveAccess.parameters) N w.buf.length (w.pos + 1)
        (Returned (w.buf.length - (w.pos + 1)))

/-- A method says in one byte what it says in a sink of `N` bytes. -/
def WriteMeets (S : ObjectStore σ) (N : Nat) (entry : VariableAccess) (value : Data) (st : σ) : Prop :=
  match Srv.namedEntry entry with
  | none => True
  | some (name, _) =>
    let asked := S.resolveShortName st name
    match asked.1 with
    | some (.method d) => S.SameRun asked.2 d (some value) N 1 0 Succeeded
    | _ => True

/-- A read reports a method's success where there was room for what stands for its value. -/
theorem returned_iff (room : Nat) (r : Except ActionResult Bool × Bytes) :
    (∃ v, readSlot (readOutcome (calledAs room r)) = 0 :: v) ↔ Returned room r := by
  match r with
  | (.error e, v) =>
    refine ⟨fun ⟨v, h⟩ => ?_, False.elim⟩
    rw [calledAs, readOutcome, readSlot] at h
    exact absurd (List.cons.inj h).1 (by decide)
  | (.ok true, v) =>
    rw [calledAs, Returned, readOutcome]
    by_cases hv : v = []
    · simp [hv, readSlot]
    · simp [hv, readSlot]
  | (.ok false, v) =>
    rw [calledAs, Returned]
    by_cases hv : v.length < room
    · simp [hv, readOutcome, readSlot]
    · simp [hv, readOutcome, readSlot]

theorem actionToDataAccess_isSuccess (e : ActionResult) :
    (Srv.actionToDataAccess e).isSuccess = true ↔ e = .success := by
  cases e <;> simp [Srv.actionToDataAccess, DataAccessResult.isSuccess]

/-- A write reports a method's success. -/
theorem succeeded_iff (r : Except ActionResult Bool × Bytes) :
    writeSlot (match r.1 with
      | .ok _ => .success
      | .error e => Srv.actionToDataAccess e) = [0] ↔ Succeeded r := by
  obtain ⟨outcome, v⟩ := r
  cases outcome with
  | ok b => simp [writeSlot, Succeeded, DataAccessResult.isSuccess]
  | error e =>
    rw [Succeeded, ← actionToDataAccess_isSuccess, writeSlot]
    by_cases h : (Srv.actionToDataAccess e).isSuccess = true
    · simp [h]
    · simp [h]

/-- Where the rights are the same, so are the calls, up to the audit. -/
theorem ObjectStore.runCalls_objects (S : ObjectStore σ) (st : σ) (d : MethodDescriptor)
    (parameters : Option Data) (len pos len' pos' : Nat) :
    StoreCall.objects (S.runCalls st d parameters len pos) =
      StoreCall.objects (S.runCalls st d parameters len' pos') := by
  unfold StoreCall.objects runCalls
  dsimp only
  rw [List.filter_append, List.filter_append]
  rfl

theorem ObjectStore.getOne_objects (S : ObjectStore σ) (st : σ) (d : AttributeDescriptor)
    (access : Option SelectiveAccess) (len : Nat) :
    StoreCall.objects (S.getOne st d access len).calls =
      StoreCall.objects (S.readCalls st d access) := by
  unfold getOne audited
  dsimp only
  split
  · rw [StoreCall.objects_audit, StoreCall.objects_audit]
  · rw [StoreCall.objects_audit]

section Agree

variable (S : ObjectStore σ)

/-- An entry that is read. -/
theorem readAgrees_iff (w : SliceWriter) (entry : VariableAccess) (s : Server σ π N) :
    ReadAgrees S w entry s ↔ ReadMeets S N w entry s.store := by
  by_cases hroom : w.pos + 2 ≤ w.buf.length
  · obtain ⟨w', hrun, hg⟩ := Srv.readItem_run S entry hroom s
    unfold ReadAgrees ReadMeets
    rw [and_iff_right hroom]
    unfold ObjectStore.readEntry at hrun hg
    cases hentry : Srv.namedEntry entry with
    | none =>
      rw [hentry] at hrun hg
      rw [Server.asked_nil] at hrun
      exact iff_of_true ⟨w', hrun, hg⟩ trivial
    | some named =>
      obtain ⟨name, access⟩ := named
      rw [hentry] at hrun hg
      dsimp only at hrun hg ⊢
      generalize S.resolveShortName s.store name = asked at hrun hg ⊢
      obtain ⟨target, st⟩ := asked
      match target with
      | none => exact iff_of_true ⟨w', hrun, hg⟩ trivial
      | some (.attribute d) =>
        dsimp only at hrun hg ⊢
        have hget : (S.getOne st d access N).outcome = readOutcome (S.readAt st d access N 0).1 := by
          unfold ObjectStore.getOne
          dsimp only
          split <;> rfl
        constructor
        · rintro ⟨w'', st', calls, hrun', -, hg'⟩
          obtain ⟨hw, -⟩ := Prod.mk.inj (hrun.symm.trans hrun')
          obtain rfl := Except.ok.inj hw
          rw [← hget]
          exact hg.unique hg'
        · intro hsame
          refine ⟨w', _, _, hrun, ?_, ?_⟩
          · rw [S.getOne_objects]
            exact StoreCall.objects_audit ..
          · rw [hget, ← hsame]
            exact hg
      | some (.method d) =>
        dsimp only at hrun hg ⊢
        constructor
        · rintro ⟨w'', calls, slot, hrun', -, hg', hok⟩
          obtain ⟨hw, hs⟩ := Prod.mk.inj (hrun.symm.trans hrun')
          obtain rfl := Except.ok.inj hw
          obtain rfl := hg'.unique hg
          exact ⟨(Server.asked_inj hs).1, (returned_iff ..).symm.trans hok⟩
        · rintro ⟨hstore, hok⟩
          exact ⟨w', _, _, hstore ▸ hrun, S.runCalls_objects .., hg, (returned_iff ..).trans hok⟩
  · obtain ⟨e, hfull⟩ := Srv.readItem_full S entry (w := w) (by omega) s
    refine iff_of_false (fun h => ?_) fun h => hroom h.1
    unfold ReadAgrees at h
    rw [hfull] at h
    dsimp only at h
    split at h
    · obtain ⟨w', h, -⟩ := h
      cases h
    · split at h
      · obtain ⟨w', h, -⟩ := h
        cases h
      · obtain ⟨w', st, calls, h, -⟩ := h
        cases h
      · obtain ⟨w', calls, slot, h, -⟩ := h
        cases h

/-- An entry that is written. -/
theorem writeAgrees_iff {w : SliceWriter} (hroom : w.pos + 2 ≤ w.buf.length) (entry : VariableAccess)
    (value : Data) (s : Server σ π N) :
    WriteAgrees S w entry value s ↔ WriteMeets S N entry value s.store := by
  obtain ⟨w', hrun, hg⟩ := Srv.writeItem_run S entry value hroom s
  unfold WriteAgrees WriteMeets
  unfold ObjectStore.writeEntry at hrun hg
  cases hentry : Srv.namedEntry entry with
  | none =>
    rw [hentry] at hrun hg
    rw [Server.asked_nil] at hrun
    exact iff_of_true ⟨w', hrun, hg⟩ trivial
  | some named =>
    obtain ⟨name, access⟩ := named
    rw [hentry] at hrun hg
    dsimp only at hrun hg ⊢
    generalize S.resolveShortName s.store name = asked at hrun hg ⊢
    obtain ⟨target, st⟩ := asked
    match target with
    | none => exact iff_of_true ⟨w', hrun, hg⟩ trivial
    | some (.attribute d) => exact iff_of_true ⟨w', hrun, hg⟩ trivial
    | some (.method d) =>
      dsimp only at hrun hg ⊢
      constructor
      · rintro ⟨w'', calls, slot, hrun', -, hg', hok⟩
        obtain ⟨hw, hs⟩ := Prod.mk.inj (hrun.symm.trans hrun')
        obtain rfl := Except.ok.inj hw
        obtain rfl := hg'.unique hg
        exact ⟨(Server.asked_inj hs).1, (succeeded_iff _).symm.trans hok⟩
      · rintro ⟨hstore, hok⟩
        exact ⟨w', _, _, hstore ▸ hrun, S.runCalls_objects .., hg, (succeeded_iff _).trans hok⟩

end Agree

/-! ## Short names and logical names -/

section Services

variable (C : CryptoProvider π) (S : ObjectStore σ)

/-- A GET of one attribute. -/
theorem Srv.getNormal_reports {s : Server σ π N} (i : InvokeId) (d : AttributeDescriptor)
    (access : Option SelectiveAccess) (room : Nat)
    (h : s.state = .associated ∧ s.negotiated.contains .get = true) :
    serveRequest C S (.getRequest (.normal i d access)) room s =
      reportGet C i (S.getOne s.store d access N).outcome room
        (({ s with transfer := .idle } : Server σ π N).asked (S.getOne s.store d access N).store
          (S.getOne s.store d access N).calls) :=
  (serving_run C room h : _ = getNormal C S i d access room s).trans (getNormal_run ..)

/-- An ACTION of one method. -/
theorem Srv.actionNormal_reports {s : Server σ π N} (i : InvokeId) (d : MethodDescriptor)
    (parameters : Option Data) (room : Nat)
    (h : s.state = .associated ∧ s.negotiated.contains .action = true) :
    serveRequest C S (.actionRequest (.normal i d parameters)) room s =
      reportAction C i (runOutcome (S.runAt s.store d parameters N 0).1) room
        (({ s with transfer := .idle } : Server σ π N).asked (S.ranAt s.store d parameters N 0)
          (S.runCalls s.store d parameters N 0)) :=
  (actionNormal_run C S i d parameters room h).trans (invokeAndAnswer_report ..)

/-- The entries of a short-name write. -/
def WriteRequest.entries (req : WriteRequest) : List (Result VariableAccess × Result Data) :=
  (req.specification.iter VariableAccess.decode).zip (req.values.iter Data.decode)

end Services

/-- A store of one method, which counts its invocations and returns two bytes. -/
def countingStore : ObjectStore Nat :=
  { ObjectStore.refusing Nat fun s _ _ => .done (.error .objectUndefined, s) with
    invokeMethod := fun s _ _ => .write [0x11, 0x05] fun r =>
      .done ((r.map fun _ => true).mapError fun _ => .otherReason, s + 1)
    methodAccess := fun s _ => (⟨0x01⟩, s)
    resolveShortName := fun s name =>
      (if name = 0x10 then some (.method ⟨70, ⟨0, 0, 96, 3, 10, 255⟩, 1⟩) else none, s) }

/-- An AARQ for short names. -/
def shortNameAarq : Bytes :=
  [0x60, 0x1D, 0xA1, 0x09, 0x06, 0x07, 0x60, 0x85, 0x74, 0x05, 0x08, 0x01, 0x02,
    0xBE, 0x10, 0x04, 0x0E,
    0x01, 0x00, 0x00, 0x00, 0x06, 0x5F, 0x1F, 0x04, 0x00, 0xFF, 0xFF, 0xFF, 0x04, 0x00]

/-- A server of short names. -/
def shortNameServer : Server Nat SampleKeys 64 :=
  (Server.new 64
    { referencing := .shortName, conformance := .serverDefault ||| .read ||| .write } 0
    SampleKeys.plain).run sampleProvider countingStore [.handle shortNameAarq 64 .zeros]

/-- The method's short name is written. -/
def countingWrite : WriteRequest := ⟨⟨1, [0x02, 0x00, 0x10], 0⟩, ⟨1, [0x00], 0⟩⟩

theorem countingWrite_entries :
    countingWrite.entries = [(.ok (.variableName 0x10), .ok .null)] := by decide +kernel

end Dlms
