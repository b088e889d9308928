import DlmsCosem.Server.Protection
import DlmsCosem.Server.Slots

/-!
# The audit against the reply

What was attempted is audited once, with the outcome that the client is told. Each form of a service
has one theorem that says when: an entry of a batch by its slot, a request for one object by its reply.
The helpers audit before the handlers look at what the store wrote, so the two part where a store says
that it wrote a value and did not, and where a value is read that cannot be sent.
-/

namespace Dlms

variable {σ π : Type} {N : Nat}

/-! ## One event an attempt -/

/-- What the audit was told. -/
def StoreCall.audits (calls : List StoreCall) : List AuditEvent :=
  calls.filterMap fun
    | .audit e => some e
    | _ => none

@[simp] theorem StoreCall.audits_append (calls calls' : List StoreCall) :
    audits (calls ++ calls') = audits calls ++ audits calls' := List.filterMap_append ..

/-- One event, of a read of `d` with the outcome `code`. -/
def ReadOnce (d : AttributeDescriptor) (calls : List StoreCall) (code : UInt8) : Prop :=
  ∃ r, StoreCall.audits calls = [.attributeRead d r] ∧ r.asU8 = code

/-- One event, of a write of `d` with the outcome `code`. -/
def WrittenOnce (d : AttributeDescriptor) (calls : List StoreCall) (code : UInt8) : Prop :=
  ∃ r, StoreCall.audits calls = [.attributeWritten d r] ∧ r.asU8 = code

/-- One event, of an invocation of `d` with the outcome `code`. -/
def RunOnce (d : MethodDescriptor) (calls : List StoreCall) (code : UInt8) : Prop :=
  ∃ r, StoreCall.audits calls = [.methodInvoked d r] ∧ r.asU8 = code

/-- One event, of an invocation of `d` whose outcome is `code` where a short-name response has it. -/
def CalledOnce (d : MethodDescriptor) (calls : List StoreCall) (code : UInt8) : Prop :=
  ∃ r, StoreCall.audits calls = [.methodInvoked d r] ∧ (Srv.actionToDataAccess r).asU8 = code

/-- The outcome in a slot that starts with a choice byte: success, or the code behind it. -/
def slotCode : Bytes → Option UInt8
  | 0 :: _ => some 0
  | [1, code] => some code
  | _ => none

theorem slotCode_readSlot (outcome : Except DataAccessResult Bytes) :
    slotCode (readSlot outcome) = some (readAudit outcome).asU8 := by
  cases outcome <;> rfl

theorem slotCode_writeSlot (outcome : DataAccessResult) :
    slotCode (writeSlot outcome) = some outcome.asU8 := by
  unfold writeSlot
  by_cases h : outcome.isSuccess = true
  · rw [if_pos h]
    have he : outcome = .success := by simpa [DataAccessResult.isSuccess] using h
    rw [he]
    rfl
  · rw [if_neg h]
    rfl

theorem head_runSlot (outcome : Except ActionResult (Option Bytes)) :
    (runSlot outcome).head? = some (match outcome with
      | .ok _ => ActionResult.success.asU8
      | .error e => e.asU8) := by
  match outcome with
  | .ok (some v) => rfl
  | .ok none => rfl
  | .error e => rfl

namespace ObjectStore

variable (S : ObjectStore σ)

theorem audits_readCalls (st : σ) (d : AttributeDescriptor) (access : Option SelectiveAccess) :
    StoreCall.audits (S.readCalls st d access) = [] := by
  unfold readCalls
  dsimp only
  split <;> rfl

theorem audits_writeCalls (st : σ) (d : AttributeDescriptor) (access : Option SelectiveAccess)
    (value : Data) : StoreCall.audits (S.writeCalls st d access value) =
      [.attributeWritten d (S.write st d access value).1] := by
  unfold writeCalls
  dsimp only
  rw [StoreCall.audits_append]
  split <;> rfl

theorem audits_runCalls (st : σ) (d : MethodDescriptor) (parameters : Option Data) (len pos : Nat) :
    StoreCall.audits (S.runCalls st d parameters len pos) =
      [.methodInvoked d (auditOf (S.runAt st d parameters len pos).1.1)] := by
  unfold runCalls
  dsimp only
  rw [StoreCall.audits_append]
  split <;> rfl

theorem audits_audited (st : σ) (d : AttributeDescriptor) (access : Option SelectiveAccess)
    (r : (Except DataAccessResult Unit × Bytes) × σ) (outcome : DataAccessResult) :
    StoreCall.audits (S.audited st d access r outcome).calls = [.attributeRead d outcome] := by
  unfold audited
  rw [StoreCall.audits_append, audits_readCalls]
  rfl

theorem audits_cons_resolve (name : ObjectName) (target : Option ShortNameTarget)
    (calls : List StoreCall) :
    StoreCall.audits (.resolveShortName name target :: calls) = StoreCall.audits calls := rfl

end ObjectStore

/-- The audit of a read, before its value is looked at, is that of its outcome where the store did
not promise a value and write none. -/
theorem readAudit_raw_iff (r : Except DataAccessResult Unit × Bytes) :
    (readAudit r.1).asU8 = (readAudit (readOutcome r)).asU8 ↔ r ≠ (.ok (), []) := by
  match r with
  | (.error e, v) => simp [readOutcome, readAudit]
  | (.ok (), v) =>
    by_cases hv : v = []
    · subst hv
      simp [readOutcome, readAudit, DataAccessResult.asU8]
    · simp [readOutcome, readAudit, hv]

/-- So it is with an invocation. -/
theorem auditOf_runOutcome_iff (r : Except ActionResult Bool × Bytes) :
    (ObjectStore.auditOf r.1).asU8 = (match runOutcome r with
      | .ok _ => ActionResult.success.asU8
      | .error e => e.asU8) ↔ r ≠ (.ok true, []) := by
  match r with
  | (.error e, v) => simp [runOutcome, ObjectStore.auditOf]
  | (.ok false, v) => simp [runOutcome, ObjectStore.auditOf]
  | (.ok true, v) =>
    by_cases hv : v = []
    · subst hv
      simp [runOutcome, ObjectStore.auditOf, ActionResult.asU8]
    · simp [runOutcome, ObjectStore.auditOf, hv]

/-! ## Entries -/

/-- An entry is answered, and what its slot tells is what was asked of the store. -/
def Tells {β : Type} (run : Except Error β × Server σ π N) (list : β → SliceWriter) (w : SliceWriter)
    (s : Server σ π N) (code : Bytes → Option UInt8) (P : List StoreCall → UInt8 → Prop) : Prop :=
  ∃ b' st calls slot c, run = (.ok b', s.asked st calls) ∧ w.Grown (list b') slot ∧
    code slot = some c ∧ P calls c

theorem Tells.iff {β : Type} {run : Except Error β × Server σ π N} {list : β → SliceWriter}
    {w : SliceWriter} {s : Server σ π N} {code : Bytes → Option UInt8}
    {P : List StoreCall → UInt8 → Prop} {b' : β} {st : σ} {calls : List StoreCall} {slot : Bytes}
    {c : UInt8} (hrun : run = (.ok b', s.asked st calls)) (hg : w.Grown (list b') slot)
    (hc : code slot = some c) : Tells run list w s code P ↔ P calls c := by
  constructor
  · rintro ⟨b₂, st₂, calls₂, slot₂, c₂, hrun₂, hg₂, hc₂, hp⟩
    obtain ⟨hb, hs⟩ := Prod.mk.inj (hrun.symm.trans hrun₂)
    obtain rfl := Except.ok.inj hb
    obtain rfl := hg.unique hg₂
    obtain rfl := Option.some.inj (hc.symm.trans hc₂)
    rw [(Server.asked_inj hs).2]
    exact hp
  · exact fun hp => ⟨b', st, calls, slot, c, hrun, hg, hc, hp⟩

theorem Tells.not_error {β : Type} {run : Except Error β × Server σ π N} {list : β → SliceWriter}
    {w : SliceWriter} {s t : Server σ π N} {code : Bytes → Option UInt8}
    {P : List StoreCall → UInt8 → Prop} {e : Error} (hrun : run = (.error e, t)) :
    ¬ Tells run list w s code P := by
  rintro ⟨b', st, calls, slot, c, h, -⟩
  rw [hrun] at h
  cases h

/-- What an entry of a short-name request attempted is audited once. -/
def NamedOnce (S : ObjectStore σ) (st : σ) (entry : VariableAccess)
    (once : AttributeDescriptor → List StoreCall → UInt8 → Prop) (calls : List StoreCall)
    (code : UInt8) : Prop :=
  match Srv.namedEntry entry with
  | none => StoreCall.audits calls = []
  | some (name, _) =>
    match (S.resolveShortName st name).1 with
    | none => StoreCall.audits calls = []
    | some (.attribute d) => once d calls code
    | some (.method d) => CalledOnce d calls code

/-- What an operation of an ACCESS request attempted is audited once. -/
def OperationOnce (spec : AccessRequestSpecification) (calls : List StoreCall) (code : UInt8) : Prop :=
  match spec with
  | .get d => ReadOnce d calls code
  | .getWithSelection d => ReadOnce d.descriptor calls code
  | .set d => WrittenOnce d calls code
  | .setWithSelection d => WrittenOnce d.descriptor calls code
  | .action d => RunOnce d calls code

/-- A short-name read leaves no doubt: the store wrote the value that it promised, and there was room
for the placeholder of a method that returns none. -/
def ObjectStore.ReadTold (S : ObjectStore σ) (st : σ) (entry : VariableAccess) (len pos : Nat) : Prop :=
  match Srv.namedEntry entry with
  | none => True
  | some (name, access) =>
    let asked := S.resolveShortName st name
    match asked.1 with
    | none => True
    | some (.attribute d) => (S.readAt asked.2 d access len pos).1 ≠ (.ok (), [])
    | some (.method d) =>
      match (S.runAt asked.2 d (access.map SelectiveAccess.parameters) len pos).1 with
      | (.ok true, v) => v ≠ []
      | (.ok false, v) => v.length < len - pos
      | (.error _, _) => True

/-- An operation of an ACCESS request was told as it came out: the data list had room for its value or
for a placeholder. -/
def ObjectStore.AccessTold (S : ObjectStore σ) (st : σ) (spec : AccessRequestSpecification)
    (value : Data) (len pos : Nat) : Prop :=
  let read (d : AttributeDescriptor) (access : Option SelectiveAccess) : Prop :=
    readAudit (readOutcome (S.readAt st d access len pos).1) = .success ∨ pos < len
  let write (d : AttributeDescriptor) (access : Option SelectiveAccess) : Prop :=
    (S.write st d access value).1.asU8 = DataAccessResult.otherReason.asU8 ∨ pos < len
  match spec with
  | .get d => read d none
  | .getWithSelection d => read d.descriptor d.access
  | .set d => write d none
  | .setWithSelection d => write d.descriptor d.access
  | .action d => (S.accessRun st d value len pos).outcome.isSome = true

section Entries

variable (C : CryptoProvider π) (S : ObjectStore σ)

theorem Srv.getListItem_told_iff (item : AttributeDescriptorWithSelection) (w : SliceWriter)
    (s : Server σ π N) :
    Tells (getListItem S w (.ok item) s) id w s slotCode (ReadOnce item.descriptor) ↔
      w.pos + 2 ≤ w.buf.length := by
  by_cases hroom : w.pos + 2 ≤ w.buf.length
  · obtain ⟨w', hrun, hg⟩ := getListItem_run S item hroom s
    rw [Tells.iff hrun hg (slotCode_readSlot _)]
    refine iff_of_true ⟨_, ?_, rfl⟩ hroom
    rw [StoreCall.audits_append, S.audits_readCalls]
    rfl
  · obtain ⟨e, hfull⟩ := getListItem_full S item (w := w) (by omega) s
    exact iff_of_false (Tells.not_error hfull) hroom

theorem Srv.setListItem_told_iff (item : AttributeDescriptorWithSelection) (value : Data)
    (w : SliceWriter) (s : Server σ π N) :
    Tells (setListItem S w (.ok item, .ok value) s) id w s List.head? (WrittenOnce item.descriptor) ↔
      w.pos + 1 ≤ w.buf.length := by
  unfold setListItem
  rw [Prog.ofExcept_ok, Prog.pure_bind_run, Prog.ofExcept_ok, Prog.pure_bind_run,
    Prog.bind_run_ok (writeOne_run ..)]
  by_cases hroom : w.pos + 1 ≤ w.buf.length
  · obtain ⟨w', hemit, hg⟩ := emit_grown (w := w)
      (.u8 (S.write s.store item.descriptor item.access value).1.asU8) hroom
      (s.asked (S.write s.store item.descriptor item.access value).2
        (S.writeCalls s.store item.descriptor item.access value))
    rw [Tells.iff hemit hg rfl]
    exact iff_of_true ⟨_, S.audits_writeCalls .., rfl⟩ hroom
  · obtain ⟨e, hfull⟩ := emit_full (w := w)
      (.u8 (S.write s.store item.descriptor item.access value).1.asU8) (by omega)
      (s.asked (S.write s.store item.descriptor item.access value).2
        (S.writeCalls s.store item.descriptor item.access value))
    exact iff_of_false (Tells.not_error hfull) hroom

theorem Srv.actionListItem_told_iff (d : MethodDescriptor) (value : Data) (w : SliceWriter)
    (s : Server σ π N) :
    Tells (actionListItem S w (.ok d, .ok value) s) id w s List.head? (RunOnce d) ↔
      w.pos + 3 ≤ w.buf.length ∧
        (S.runAt s.store d (parameterOf value) w.buf.length (w.pos + 3)).1 ≠ (.ok true, []) := by
  by_cases hroom : w.pos + 3 ≤ w.buf.length
  · obtain ⟨w', hrun, hg⟩ := actionListItem_run S d value hroom s
    rw [Tells.iff hrun hg (head_runSlot _), and_iff_right hroom, ← auditOf_runOutcome_iff]
    unfold RunOnce
    rw [S.audits_runCalls]
    constructor
    · rintro ⟨r, hr, hcode⟩
      obtain rfl := (AuditEvent.methodInvoked.inj (List.cons.inj hr).1).2
      exact hcode
    · exact fun h => ⟨_, rfl, h⟩
  · obtain ⟨e, hfull⟩ := actionListItem_full S d value (w := w) (by omega) s
    exact iff_of_false (Tells.not_error hfull) fun h => hroom h.1

theorem Srv.writeItem_told (entry : VariableAccess) (value : Data) {w : SliceWriter}
    (hroom : w.pos + 2 ≤ w.buf.length) (s : Server σ π N) :
    Tells (writeItem S w (.ok entry, .ok value) s) id w s slotCode
      (NamedOnce S s.store entry WrittenOnce) := by
  obtain ⟨w', hrun, hg⟩ := writeItem_run S entry value hroom s
  rw [Tells.iff hrun hg (slotCode_writeSlot _)]
  unfold NamedOnce ObjectStore.writeEntry
  cases namedEntry entry with
  | none => rfl
  | some named =>
    obtain ⟨name, access⟩ := named
    dsimp only
    generalize S.resolveShortName s.store name = asked
    obtain ⟨target, st⟩ := asked
    match target with
    | none => rfl
    | some (.attribute d) =>
      exact ⟨_, (ObjectStore.audits_cons_resolve ..).trans (S.audits_writeCalls ..), rfl⟩
    | some (.method d) =>
      refine ⟨_, (ObjectStore.audits_cons_resolve ..).trans (S.audits_runCalls ..), ?_⟩
      dsimp only
      cases (S.runAt st d (some value) 1 0).1.1 <;> rfl

theorem Srv.readItem_told_iff (entry : VariableAccess) (w : SliceWriter) (s : Server σ π N) :
    Tells (readItem S w (.ok entry) s) id w s slotCode (NamedOnce S s.store entry ReadOnce) ↔
      w.pos + 2 ≤ w.buf.length ∧ S.ReadTold s.store entry w.buf.length (w.pos + 1) := by
  by_cases hroom : w.pos + 2 ≤ w.buf.length
  · obtain ⟨w', hrun, hg⟩ := readItem_run S entry hroom s
    rw [Tells.iff hrun hg (slotCode_readSlot _), and_iff_right hroom]
    unfold NamedOnce ObjectStore.readEntry ObjectStore.ReadTold
    cases namedEntry entry with
    | none => exact iff_of_true rfl trivial
    | some named =>
      obtain ⟨name, access⟩ := named
      dsimp only
      generalize S.resolveShortName s.store name = asked
      obtain ⟨target, st⟩ := asked
      match target with
      | none => exact iff_of_true rfl trivial
      | some (.attribute d) =>
        dsimp only
        rw [← readAudit_raw_iff]
        unfold ReadOnce
        rw [ObjectStore.audits_cons_resolve, S.audits_audited]
        constructor
        · rintro ⟨r, hr, hcode⟩
          obtain rfl := (AuditEvent.attributeRead.inj (List.cons.inj hr).1).2
          exact hcode
        · exact fun h => ⟨_, rfl, h⟩
      | some (.method d) =>
        dsimp only
        unfold CalledOnce
        rw [ObjectStore.audits_cons_resolve, S.audits_runCalls]
        generalize (S.runAt st d (access.map SelectiveAccess.parameters) w.buf.length (w.pos + 1)).1 = r
        have hone (a : ActionResult) (c : UInt8) : (∃ r, [AuditEvent.methodInvoked d a] =
            [.methodInvoked d r] ∧ (actionToDataAccess r).asU8 = c) ↔
            (actionToDataAccess a).asU8 = c := by
          constructor
          · rintro ⟨r, hr, hcode⟩
            obtain rfl := (AuditEvent.methodInvoked.inj (List.cons.inj hr).1).2
            exact hcode
          · exact fun h => ⟨a, rfl, h⟩
        rw [hone]
        match r with
        | (.error e, v) => exact iff_of_true rfl trivial
        | (.ok true, v) =>
          by_cases hv : v = []
          · subst hv
            exact iff_of_false (by change ¬ (0 : UInt8) = 250; decide) fun h => h rfl
          · rw [calledAs, readOutcome, if_neg hv]
            exact iff_of_true rfl hv
        | (.ok false, v) =>
          dsimp only
          by_cases hlt : v.length < w.buf.length - (w.pos + 1)
          · rw [calledAs, if_pos hlt, readOutcome, if_neg (by simp)]
            exact iff_of_true rfl hlt
          · rw [calledAs, if_neg hlt]
            exact iff_of_false (by change ¬ (0 : UInt8) = 250; decide) hlt
  · obtain ⟨e, hfull⟩ := readItem_full S entry (w := w) (by omega) s
    exact iff_of_false (Tells.not_error hfull) fun h => hroom h.1

/-- The code of an operation of an ACCESS request, behind the byte that says what it was. -/
def resultCode (slot : Bytes) : Option UInt8 := slot[1]?

/-- The code of a result. -/
def AccessResponseSpecification.code : AccessResponseSpecification → UInt8
  | .get r | .set r => r.asU8
  | .action r => r.asU8

theorem resultCode_encode (r : AccessResponseSpecification) : resultCode r.encode.data = some r.code := by
  cases r <;> rfl

theorem ObjectStore.accessRead_told_iff (st : σ) (d : AttributeDescriptor)
    (access : Option SelectiveAccess) (len pos : Nat) :
    ReadOnce d (S.accessRead st d access len pos).calls (S.accessRead st d access len pos).outcome.1.code ↔
      readAudit (readOutcome (S.readAt st d access len pos).1) = .success ∨ pos < len := by
  unfold accessRead
  dsimp only
  have haudit := S.audits_audited st d access (S.readAt st d access len pos)
    (readAudit (readOutcome (S.readAt st d access len pos).1))
  generalize readAudit (readOutcome (S.readAt st d access len pos).1) = outcome at haudit ⊢
  by_cases ho : outcome = .success
  · rw [if_pos ho]
    exact iff_of_true ⟨_, haudit, rfl⟩ (.inl ho)
  · rw [if_neg ho]
    by_cases hlt : pos < len
    · rw [if_pos hlt]
      exact iff_of_true ⟨_, haudit, rfl⟩ (.inr hlt)
    · rw [if_neg hlt]
      refine iff_of_false ?_ (not_or.mpr ⟨ho, hlt⟩)
      rintro ⟨r, hr, -⟩
      rw [S.audits_readCalls] at hr
      cases hr

theorem ObjectStore.accessWrite_told_iff (st : σ) (d : AttributeDescriptor)
    (access : Option SelectiveAccess) (value : Data) (len pos : Nat) :
    WrittenOnce d (S.accessWrite st d access value len pos).calls
        (S.accessWrite st d access value len pos).outcome.1.code ↔
      (S.write st d access value).1.asU8 = DataAccessResult.otherReason.asU8 ∨ pos < len := by
  unfold accessWrite WrittenOnce
  dsimp only
  rw [S.audits_writeCalls]
  by_cases hlt : pos < len
  · rw [if_pos hlt]
    exact iff_of_true ⟨_, rfl, rfl⟩ (.inr hlt)
  · rw [if_neg hlt, or_iff_left hlt]
    constructor
    · rintro ⟨r, hr, hcode⟩
      obtain rfl := (AuditEvent.attributeWritten.inj (List.cons.inj hr).1).2
      exact hcode
    · exact fun h => ⟨_, rfl, h⟩

theorem ObjectStore.accessRun_told {st : σ} {d : MethodDescriptor} {value : Data} {len pos : Nat}
    {answer : AccessResponseSpecification × Bytes}
    (h : (S.accessRun st d value len pos).outcome = some answer) :
    RunOnce d (S.accessRun st d value len pos).calls answer.1.code := by
  refine ⟨_, S.audits_runCalls st d (Srv.parameterOf value) len pos, ?_⟩
  unfold accessRun at h
  dsimp only at h
  generalize (S.runAt st d (Srv.parameterOf value) len pos).1 = r at h ⊢
  match r with
  | (.ok true, v) =>
    obtain rfl := Option.some.inj h
    rfl
  | (.ok false, v) =>
    dsimp only at h
    split at h
    · obtain rfl := Option.some.inj h
      rfl
    · cases h
  | (.error e, v) =>
    dsimp only at h
    split at h
    · obtain rfl := Option.some.inj h
      rfl
    · cases h

theorem Srv.accessItem_told_iff (spec : AccessRequestSpecification) (value : Data)
    {w : SliceWriter × SliceWriter} (hroom : w.2.pos + 2 ≤ w.2.buf.length) (s : Server σ π N) :
    Tells (accessItem S w (.ok spec, .ok value) s) Prod.snd w.2 s resultCode (OperationOnce spec) ↔
      S.AccessTold s.store spec value w.1.buf.length w.1.pos := by
  have hitem := accessItem_run S spec value hroom s
  dsimp only at hitem
  have htells (answer : AccessResponseSpecification × Bytes)
      (hout : (S.accessEntry s.store spec value w.1.buf.length w.1.pos).outcome = some answer) :
      Tells (accessItem S w (.ok spec, .ok value) s) Prod.snd w.2 s resultCode (OperationOnce spec) ↔
        OperationOnce spec (S.accessEntry s.store spec value w.1.buf.length w.1.pos).calls
          answer.1.code := by
    rw [hout] at hitem
    obtain ⟨w', hrun, -, hg⟩ := hitem
    exact Tells.iff hrun hg (resultCode_encode _)
  match spec with
  | .get d => exact (htells _ rfl).trans (S.accessRead_told_iff ..)
  | .getWithSelection d => exact (htells _ rfl).trans (S.accessRead_told_iff ..)
  | .set d => exact (htells _ rfl).trans (S.accessWrite_told_iff ..)
  | .setWithSelection d => exact (htells _ rfl).trans (S.accessWrite_told_iff ..)
  | .action d =>
    unfold ObjectStore.AccessTold
    dsimp only
    cases hout : (S.accessRun s.store d value w.1.buf.length w.1.pos).outcome with
    | none =>
      have hnone : (S.accessEntry s.store (.action d) value w.1.buf.length w.1.pos).outcome = none := hout
      rw [hnone] at hitem
      obtain ⟨e, hrun⟩ := hitem
      exact iff_of_false (Tells.not_error hrun) nofun
    | some answer =>
      exact iff_of_true ((htells answer hout).mpr (S.accessRun_told hout)) rfl

end Entries

/-! ## One attribute, one method -/

/-- What a GET of one attribute is told: a value that neither fits one APDU nor may go out in blocks
is not. -/
def Server.getReported (s : Server σ π N) (outcome : Except DataAccessResult Bytes) :
    DataAccessResult :=
  match outcome with
  | .error e => e
  | .ok v =>
    if s.fitsOne Srv.normalHeaderMax v.length ∨ s.negotiated.contains .blockTransferWithGetOrRead then
      .success
    else .dataBlockUnavailable

/-- What an ACTION of one method is told. -/
def Server.actionReported (s : Server σ π N) (outcome : Except ActionResult (Option Bytes)) :
    ActionResult :=
  match outcome with
  | .error e => e
  | .ok none => .success
  | .ok (some v) =>
    if s.fitsOne Srv.actionHeaderMax v.length ∨ s.negotiated.contains .blockTransferWithAction then
      .success
    else .dataBlockUnavailable

section Singles

variable (C : CryptoProvider π) (S : ObjectStore σ)

/-- The reply to a GET is the refusal that it is told, or carries the value. -/
def Srv.GetTold (i : InvokeId) (outcome : Except DataAccessResult Bytes) (room : Nat)
    (s : Server σ π N) : Prop :=
  (reportGet C i outcome room s = getError C i (s.getReported outcome) room s ∧
      ∀ v, outcome = .ok v → s.getReported outcome ≠ .success) ∨
    ∃ v, outcome = .ok v ∧ s.getReported outcome = .success ∧
      (reportGet C i outcome room s = (Prog.ofExcept (Read.fromBytes Data.decode v) >>= fun data =>
          send C (.getResponse (.normal i (.data data))) room) s ∨
        reportGet C i outcome room s = (putResponse 0 v v.length >>= fun _ =>
          setTransfer (.sending i .get v.length 0 0) >>= fun _ => sendNextBlock C room) s)

theorem Srv.reportGet_told (i : InvokeId) (outcome : Except DataAccessResult Bytes) (room : Nat)
    (s : Server σ π N) : GetTold C i outcome room s := by
  unfold GetTold
  unfold reportGet Server.getReported
  cases outcome with
  | error e => exact .inl ⟨rfl, nofun⟩
  | ok v =>
    dsimp only
    rw [Prog.gets_bind_run]
    by_cases hfits : s.fitsOne normalHeaderMax v.length = true
    · refine .inr ⟨v, rfl, if_pos (.inl hfits), .inl ?_⟩
      rw [if_pos hfits]
    · rw [if_neg hfits, Prog.gets_bind_run]
      by_cases hblocks : s.negotiated.contains .blockTransferWithGetOrRead = true
      · refine .inr ⟨v, rfl, if_pos (.inr hblocks), .inr ?_⟩
        rw [if_neg (by simp [hblocks])]
      · have hno : ¬ (s.fitsOne normalHeaderMax v.length = true ∨
            s.negotiated.contains .blockTransferWithGetOrRead = true) := not_or.mpr ⟨hfits, hblocks⟩
        refine .inl ⟨?_, fun v' hv' => by rw [if_neg hno]; decide⟩
        rw [if_pos (by simpa using hblocks), if_neg hno]

/-- A GET is audited as it is told, where the store wrote the value that it promised and it can be
sent. -/
theorem ObjectStore.getOne_told_iff (s : Server σ π N) (d : AttributeDescriptor)
    (access : Option SelectiveAccess) :
    let get := S.getOne s.store d access N
    ReadOnce d get.calls (s.getReported get.outcome).asU8 ↔
      (S.readAt s.store d access N 0).1 ≠ (.ok (), []) ∧
        ∀ v, get.outcome = .ok v → s.fitsOne Srv.normalHeaderMax v.length = true ∨
          s.negotiated.contains .blockTransferWithGetOrRead = true := by
  unfold getOne ReadOnce
  dsimp only
  have haudit := S.audits_audited s.store d access (S.readAt s.store d access N 0)
    (readAudit (S.readAt s.store d access N 0).1.1)
  by_cases hempty : (S.readAt s.store d access N 0).1 = (.ok (), [])
  · rw [if_pos hempty]
    refine iff_of_false ?_ fun h => h.1 hempty
    rintro ⟨r, hr, -⟩
    rw [StoreCall.audits_append, haudit] at hr
    cases hr
  · rw [if_neg hempty, and_iff_right hempty]
    dsimp only
    rw [haudit]
    have hone : (∃ r, [AuditEvent.attributeRead d (readAudit (S.readAt s.store d access N 0).1.1)] =
        [.attributeRead d r] ∧
          r.asU8 = (s.getReported (readOutcome (S.readAt s.store d access N 0).1)).asU8) ↔
        (readAudit (S.readAt s.store d access N 0).1.1).asU8 =
          (s.getReported (readOutcome (S.readAt s.store d access N 0).1)).asU8 := by
      constructor
      · rintro ⟨r, hr, hcode⟩
        obtain rfl := (AuditEvent.attributeRead.inj (List.cons.inj hr).1).2
        exact hcode
      · exact fun h => ⟨_, rfl, h⟩
    rw [hone]
    generalize (S.readAt s.store d access N 0).1 = r at hempty
    match r with
    | (.error e, v) => exact iff_of_true rfl nofun
    | (.ok (), v) =>
      have hv : v ≠ [] := fun hv => hempty (by rw [hv])
      rw [readOutcome, if_neg hv]
      unfold Server.getReported
      dsimp only
      by_cases hsend : s.fitsOne Srv.normalHeaderMax v.length = true ∨
          s.negotiated.contains .blockTransferWithGetOrRead = true
      · rw [if_pos hsend]
        exact iff_of_true rfl fun v' hv' => Except.ok.inj hv' ▸ hsend
      · rw [if_neg hsend]
        refine iff_of_false ?_ fun h => hsend (h v rfl)
        change ¬ (0 : UInt8) = 14
        decide

/-- The reply to an ACTION is the refusal that it is told, or a success, with the value where there
is one. -/
def Srv.ActionTold (i : InvokeId) (outcome : Except ActionResult (Option Bytes)) (room : Nat)
    (s : Server σ π N) : Prop :=
  (∃ e, outcome = .error e ∧ reportAction C i outcome room s =
      actionError C i (s.actionReported outcome) room s) ∨
    (∃ v, outcome = .ok (some v) ∧ s.actionReported outcome = .dataBlockUnavailable ∧
      reportAction C i outcome room s = (putResponse 0 v v.length >>= fun _ =>
        setTransfer .idle >>= fun _ => actionError C i .dataBlockUnavailable room) s) ∨
    s.actionReported outcome = .success ∧
      (outcome = .ok none ∧ reportAction C i outcome room s =
          send C (.actionResponse (.normal i ⟨.success, none⟩)) room s ∨
        ∃ v, outcome = .ok (some v) ∧
          (reportAction C i outcome room s = (Prog.ofExcept (Read.fromBytes Data.decode v) >>=
              fun data => send C (.actionResponse (.normal i ⟨.success, some (.data data)⟩)) room) s ∨
            reportAction C i outcome room s = (putResponse 0 v v.length >>= fun _ =>
              setTransfer (.sending i .action v.length 0 0) >>= fun _ => sendNextBlock C room) s))

theorem Srv.reportAction_told (i : InvokeId) (outcome : Except ActionResult (Option Bytes))
    (room : Nat) (s : Server σ π N) : ActionTold C i outcome room s := by
  unfold ActionTold
  match outcome with
  | .error e => exact .inl ⟨e, rfl, rfl⟩
  | .ok none => exact .inr (.inr ⟨rfl, .inl ⟨rfl, rfl⟩⟩)
  | .ok (some v) =>
    refine .inr ?_
    unfold reportAction Server.actionReported
    dsimp only
    rw [Prog.gets_bind_run]
    by_cases hfits : s.fitsOne actionHeaderMax v.length = true
    · refine .inr ⟨if_pos (.inl hfits), .inr ⟨v, rfl, .inl ?_⟩⟩
      rw [if_pos hfits]
    · rw [if_neg hfits]
      have hput (s' : Server σ π N) (hs' : (putResponse 0 v v.length s).2 = s') :
          s'.negotiated = s.negotiated := by
        subst hs'
        unfold putResponse
        split <;> rfl
      by_cases hblocks : s.negotiated.contains .blockTransferWithAction = true
      · refine .inr ⟨if_pos (.inr hblocks), .inr ⟨v, rfl, .inr ?_⟩⟩
        rw [Prog.bind_run, Prog.bind_run]
        match hrun : (putResponse 0 v v.length s : Except Error Unit × Server σ π N) with
        | (.error e, s') => rfl
        | (.ok u, s') =>
          dsimp only
          rw [deliverBlocked, Prog.gets_bind_run, hput s' (by rw [hrun]),
            if_neg (by simp [Outbound.required, hblocks])]
      · have hno : ¬ (s.fitsOne actionHeaderMax v.length = true ∨
            s.negotiated.contains .blockTransferWithAction = true) := not_or.mpr ⟨hfits, hblocks⟩
        refine .inl ⟨v, rfl, if_neg hno, ?_⟩
        rw [Prog.bind_run, Prog.bind_run]
        match hrun : (putResponse 0 v v.length s : Except Error Unit × Server σ π N) with
        | (.error e, s') => rfl
        | (.ok u, s') =>
          dsimp only
          rw [deliverBlocked, Prog.gets_bind_run, hput s' (by rw [hrun]),
            if_pos (by simpa [Outbound.required] using hblocks)]
          rfl

/-- So it is with an ACTION. -/
theorem ObjectStore.runCalls_told_iff (s : Server σ π N) (d : MethodDescriptor)
    (parameters : Option Data) :
    let r := (S.runAt s.store d parameters N 0).1
    RunOnce d (S.runCalls s.store d parameters N 0) (s.actionReported (runOutcome r)).asU8 ↔
      r ≠ (.ok true, []) ∧ ∀ v, runOutcome r = .ok (some v) →
        s.fitsOne Srv.actionHeaderMax v.length = true ∨
          s.negotiated.contains .blockTransferWithAction = true := by
  dsimp only
  unfold RunOnce
  rw [S.audits_runCalls]
  generalize (S.runAt s.store d parameters N 0).1 = r
  have hone : (∃ a, [AuditEvent.methodInvoked d (auditOf r.1)] = [.methodInvoked d a] ∧
      a.asU8 = (s.actionReported (runOutcome r)).asU8) ↔
      (auditOf r.1).asU8 = (s.actionReported (runOutcome r)).asU8 := by
    constructor
    · rintro ⟨a, ha, hcode⟩
      obtain rfl := (AuditEvent.methodInvoked.inj (List.cons.inj ha).1).2
      exact hcode
    · exact fun h => ⟨_, rfl, h⟩
  rw [hone]
  match r with
  | (.error e, v) => exact iff_of_true rfl ⟨nofun, nofun⟩
  | (.ok false, v) => exact iff_of_true rfl ⟨nofun, nofun⟩
  | (.ok true, v) =>
    by_cases hv : v = []
    · subst hv
      refine iff_of_false ?_ fun h => h.1 rfl
      change ¬ (0 : UInt8) = 250
      decide
    · rw [runOutcome, if_neg hv]
      unfold Server.actionReported
      dsimp only
      by_cases hsend : s.fitsOne Srv.actionHeaderMax v.length = true ∨
          s.negotiated.contains .blockTransferWithAction = true
      · rw [if_pos hsend]
        refine iff_of_true rfl ⟨fun h => hv (Prod.mk.inj h).2, fun v' hv' => ?_⟩
        exact Option.some.inj (Except.ok.inj hv') ▸ hsend
      · rw [if_neg hsend]
        refine iff_of_false ?_ fun h => hsend (h.2 v rfl)
        change ¬ (0 : UInt8) = 14
        decide

/-- A write is audited as it comes out, whichever service asks for it. -/
theorem Srv.writeOne_told (d : AttributeDescriptor) (access : Option SelectiveAccess) (value : Data)
    (s : Server σ π N) :
    ∃ result st calls, writeOne S d access value s = (.ok result, s.asked st calls) ∧
      WrittenOnce d calls result.asU8 :=
  ⟨_, _, _, writeOne_run .., _, S.audits_writeCalls .., rfl⟩

/-- A write in blocks that the rights refuse is refused with the first block. -/
theorem Srv.beginBlockedSet_told (i : InvokeId) (d : AttributeDescriptor)
    (access : Option SelectiveAccess) (block : DataBlockSA) (room : Nat) (s : Server σ π N)
    (hblocks : s.negotiated.contains .blockTransferWithSetOrWrite = true)
    (hdenied : (S.attributeAccess s.store d).1.canWrite = false) :
    ∃ st calls, beginBlockedSet C S i d access block room s =
        setLastBlock C i .readWriteDenied block.blockNumber room
          (({ s with transfer := .idle } : Server σ π N).asked st calls) ∧
      WrittenOnce d calls DataAccessResult.readWriteDenied.asU8 := by
  refine ⟨S.audit (S.attributeAccess s.store d).2 (.attributeWritten d .readWriteDenied),
    [.attributeAccess .gather d (S.attributeAccess s.store d).1,
      .audit (.attributeWritten d .readWriteDenied)], ?_, _, rfl, rfl⟩
  unfold beginBlockedSet
  rw [setTransfer, Prog.modify_bind_run, Prog.gets_bind_run, if_neg (by simp [hblocks]),
    Prog.bind_run_ok (attributeAccess_run S .gather d _), if_pos (by simp [hdenied]),
    Prog.bind_run_ok (audit_asked S _ _), Server.asked_asked]
  rfl

end Singles

/-- A store whose attributes are read with success, and have no value. -/
def hollowStore : ObjectStore Unit :=
  { ObjectStore.refusing Unit fun s _ _ => .done (.ok (), s) with
    attributeAccess := fun s _ => (⟨0x03⟩, s) }

/-- A server without security over that store. -/
def hollowServer : Server Unit SampleKeys 64 :=
  (Server.new 64 {} () SampleKeys.plain).run sampleProvider hollowStore [.handle plainAarq 64 .zeros]

end Dlms
