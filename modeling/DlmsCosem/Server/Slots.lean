import DlmsCosem.Server.Operation

/-!
# What one entry of a request comes to

The services that take several entries walk through them with a writer, and each entry leaves its slot
there. What a slot holds depends on the store, and on the sink that the store is handed: its size and
how much of it is used. `ObjectStore.readAt` and `ObjectStore.runAt` are the store's part;
the theorems on the handlers say when the entry has room and what then stands in its slot.
-/

namespace Dlms

variable {σ π : Type} {N : Nat}

/-! ## The store's part -/

namespace ObjectStore

variable (S : ObjectStore σ)

/-- A read into a sink of `len` bytes of which `pos` are used, where the rights allow it: what the
store says, what it wrote, and the store. -/
def readAt (st : σ) (d : AttributeDescriptor) (access : Option SelectiveAccess) (len pos : Nat) :
    (Except DataAccessResult Unit × Bytes) × σ :=
  let asked := S.attributeAccess st d
  if asked.1.canRead then
    let r := (S.getAttribute asked.2 d access).sink len pos
    ((r.1.1, r.2), r.1.2)
  else ((.error .readWriteDenied, []), asked.2)

/-- What a read asks of the store, before the audit. -/
def readCalls (st : σ) (d : AttributeDescriptor) (access : Option SelectiveAccess) : List StoreCall :=
  let rights := (S.attributeAccess st d).1
  .attributeAccess .read d rights :: if rights.canRead then [.getAttribute d access] else []

/-- An invocation with a sink of `len` bytes of which `pos` are used, where the rights allow it. -/
def runAt (st : σ) (d : MethodDescriptor) (parameters : Option Data) (len pos : Nat) :
    (Except ActionResult Bool × Bytes) × σ :=
  let asked := S.methodAccess st d
  if asked.1.canInvoke then
    let r := (S.invokeMethod asked.2 d parameters).sink len pos
    ((r.1.1, r.2), r.1.2)
  else ((.error .readWriteDenied, []), asked.2)

/-- What an invocation asks of the store, the audit included. -/
def runCalls (st : σ) (d : MethodDescriptor) (parameters : Option Data) (len pos : Nat) :
    List StoreCall :=
  let rights := (S.methodAccess st d).1
  .methodAccess d rights :: (if rights.canInvoke then [.invokeMethod d parameters] else []) ++
    [.audit (.methodInvoked d (auditOf (S.runAt st d parameters len pos).1.1))]

/-- The store after an invocation and its audit. -/
def ranAt (st : σ) (d : MethodDescriptor) (parameters : Option Data) (len pos : Nat) : σ :=
  S.audit (S.runAt st d parameters len pos).2
    (.methodInvoked d (auditOf (S.runAt st d parameters len pos).1.1))

end ObjectStore

/-- What a client is told of a read: a store that says it wrote a value has to have written one. -/
def readOutcome : Except DataAccessResult Unit × Bytes → Except DataAccessResult Bytes
  | (.error e, _) => .error e
  | (.ok (), v) => if v = [] then .error .otherReason else .ok v

/-- What a client is told of an invocation. -/
def runOutcome : Except ActionResult Bool × Bytes → Except ActionResult (Option Bytes)
  | (.error e, _) => .error e
  | (.ok false, _) => .ok none
  | (.ok true, v) => if v = [] then .error .otherReason else .ok (some v)

/-- The outcome of a read as an audit has it. -/
def readAudit {α : Type} : Except DataAccessResult α → DataAccessResult
  | .ok _ => .success
  | .error e => e

/-- A value or an error in a list of GET or short-name results. -/
def readSlot : Except DataAccessResult Bytes → Bytes
  | .ok v => 0 :: v
  | .error e => [1, e.asU8]

/-- An outcome in a list of ACTION results. -/
def runSlot : Except ActionResult (Option Bytes) → Bytes
  | .ok (some v) => [ActionResult.success.asU8, 1, 0] ++ v
  | .ok none => [ActionResult.success.asU8, 0]
  | .error e => [e.asU8, 0]

namespace Srv

variable (C : CryptoProvider π) (S : ObjectStore σ)

theorem auditRead_asked (d : AttributeDescriptor) (outcome : DataAccessResult) (s : Server σ π N) :
    auditRead S d outcome s = (.ok (), s.asked (S.audit s.store (.attributeRead d outcome))
      [.audit (.attributeRead d outcome)]) := rfl

theorem getAttribute_sink (d : AttributeDescriptor) (access : Option SelectiveAccess)
    (w : SliceWriter) (s : Server σ π N) :
    ∃ w', getAttribute S d access w s =
        (.ok (((S.getAttribute s.store d access).sink w.buf.length w.pos).1.1, w'),
          s.asked ((S.getAttribute s.store d access).sink w.buf.length w.pos).1.2
            [.getAttribute d access]) ∧
      w.Grown w' ((S.getAttribute s.store d access).sink w.buf.length w.pos).2 := by
  obtain ⟨hval, hgrown⟩ := (S.getAttribute s.store d access).run_sink w
  exact ⟨_, by rw [getAttribute_run, hval], hgrown⟩

/-- An invocation, in the sink that the writer is. -/
theorem runMethod_sink (d : MethodDescriptor) (parameters : Option Data) (w : SliceWriter)
    (s : Server σ π N) :
    ∃ w', runMethod S d parameters w s =
        (.ok ((S.runAt s.store d parameters w.buf.length w.pos).1.1, w'),
          s.asked (S.ranAt s.store d parameters w.buf.length w.pos)
            (S.runCalls s.store d parameters w.buf.length w.pos)) ∧
      w.Grown w' (S.runAt s.store d parameters w.buf.length w.pos).1.2 := by
  rw [runMethod_run]
  unfold ObjectStore.invoke ObjectStore.invokeCalls ObjectStore.act ObjectStore.ranAt
    ObjectStore.runCalls ObjectStore.runAt
  dsimp only
  by_cases h : (S.methodAccess s.store d).1.canInvoke = true
  · obtain ⟨hval, hgrown⟩ := (S.invokeMethod (S.methodAccess s.store d).2 d parameters).run_sink w
    simp only [h, if_true, hval]
    exact ⟨_, rfl, hgrown⟩
  · simp only [h, Bool.false_eq_true, if_false]
    exact ⟨w, rfl, .refl w⟩

/-! ## GET with a list -/

/-- An entry's bytes are taken back, and there is room for its error. -/
theorem rewind_error {w w' : SliceWriter} {bs : Bytes} (h : w.Grown w' bs) (a b : UInt8)
    (hroom : w.pos + 2 ≤ w.buf.length) (s : Server σ π N) :
    ∃ w₁ w₂, truncate w.pos w' s = (.ok w₁, s) ∧
      emit (Emit.u8 a ++ Emit.u8 b) w₁ s = (.ok w₂, s) ∧ w.Grown w₂ [a, b] := by
  obtain ⟨w₁, htrunc, hg₁⟩ := truncate_grown h s
  obtain ⟨w₂, hemit, hg₂⟩ := emit_grown (w := w₁) ((Emit.Sized.u8 a).append (.u8 b))
    (by rw [hg₁.pos, hg₁.room]; exact hroom) s
  exact ⟨w₁, w₂, htrunc, hemit, hg₁.trans hg₂⟩

/-- An entry of a GET with a list that has room. -/
theorem getListItem_run (item : AttributeDescriptorWithSelection) {w : SliceWriter}
    (hroom : w.pos + 2 ≤ w.buf.length) (s : Server σ π N) :
    let r := S.readAt s.store item.descriptor item.access w.buf.length (w.pos + 1)
    let e := AuditEvent.attributeRead item.descriptor (readAudit (readOutcome r.1))
    ∃ w', getListItem S w (.ok item) s = (.ok w', s.asked (S.audit r.2 e)
        (S.readCalls s.store item.descriptor item.access ++ [.audit e])) ∧
      w.Grown w' (readSlot (readOutcome r.1)) := by
  obtain ⟨d, access⟩ := item
  unfold getListItem
  rw [Prog.ofExcept_ok, Prog.pure_bind_run, Prog.bind_run_ok (attributeAccess_run S .read d s)]
  unfold ObjectStore.readAt ObjectStore.readCalls
  dsimp only
  by_cases h : (S.attributeAccess s.store d).1.canRead = true
  · simp only [h, if_true]
    obtain ⟨w₀, hemit, hg₀⟩ := emit_grown (e := Emit.u8 0) (w := w) (.u8 0) (by omega)
      (s.asked (S.attributeAccess s.store d).2
        [.attributeAccess .read d (S.attributeAccess s.store d).1])
    obtain ⟨w₁, hget, hg₁⟩ := getAttribute_sink S d access w₀
      (s.asked (S.attributeAccess s.store d).2
        [.attributeAccess .read d (S.attributeAccess s.store d).1])
    have hpos : w₀.pos = w.pos + 1 := hg₀.pos
    rw [Prog.bind_run_ok hemit, Prog.bind_run_ok hget]
    rw [Server.asked_store, hg₀.room, hpos] at hg₁ ⊢
    rw [Server.asked_asked, List.singleton_append]
    generalize (S.getAttribute (S.attributeAccess s.store d).2 d access).sink w.buf.length
      (w.pos + 1) = r at hg₁ ⊢
    obtain ⟨⟨result, st⟩, v⟩ := r
    dsimp only at hg₁ ⊢
    cases result with
    | error e =>
      obtain ⟨w₂, w₃, htrunc, hemit, hg₂⟩ := rewind_error (hg₀.trans hg₁) 1 e.asU8 hroom (s.asked st
        [.attributeAccess .read d (S.attributeAccess s.store d).1, .getAttribute d access])
      refine ⟨w₃, ?_, hg₂⟩
      dsimp only
      rw [Nat.add_sub_cancel, Prog.bind_run_ok htrunc, Prog.bind_run_ok hemit,
        Prog.bind_run_ok (auditRead_asked ..), Server.asked_asked]
      rfl
    | ok u =>
      dsimp only
      by_cases hv : v = []
      · obtain ⟨w₂, w₃, htrunc, hemit, hg₂⟩ := rewind_error (hg₀.trans hg₁) 1
          DataAccessResult.otherReason.asU8 hroom (s.asked st
            [.attributeAccess .read d (S.attributeAccess s.store d).1, .getAttribute d access])
        have hout : readOutcome (.ok u, v) = .error .otherReason := if_pos hv
        rw [hout]
        refine ⟨w₃, ?_, hg₂⟩
        rw [if_pos (hpos ▸ hg₁.pos_eq_iff.mpr hv), Nat.add_sub_cancel, Prog.bind_run_ok htrunc,
          Prog.bind_run_ok hemit, Prog.bind_run_ok (auditRead_asked ..), Server.asked_asked]
        rfl
      · have hout : readOutcome (.ok u, v) = .ok v := if_neg hv
        rw [hout]
        refine ⟨w₁, ?_, hg₀.trans hg₁⟩
        rw [if_neg (hpos ▸ fun he => hv (hg₁.pos_eq_iff.mp he)), Prog.bind_run_ok (auditRead_asked ..),
          Server.asked_asked]
        rfl
  · simp only [h, Bool.false_eq_true, if_false]
    obtain ⟨w₁, hemit, hg⟩ := emit_grown (w := w) ((Emit.Sized.u8 1).append
      (.u8 DataAccessResult.readWriteDenied.asU8)) hroom
      (s.asked (S.attributeAccess s.store d).2
        [.attributeAccess .read d (S.attributeAccess s.store d).1])
    refine ⟨w₁, ?_, hg⟩
    rw [Prog.bind_run_ok hemit, Prog.bind_run_ok (auditRead_asked ..), Server.asked_asked]
    rfl

/-- An entry's bytes are taken back, and there is no room for its error. -/
theorem rewind_full {w w' : SliceWriter} {bs : Bytes} (h : w.Grown w' bs) (a b : UInt8)
    (hroom : w.buf.length < w.pos + 2) (s : Server σ π N) :
    ∃ w₁ e, truncate w.pos w' s = (.ok w₁, s) ∧
      emit (Emit.u8 a ++ Emit.u8 b) w₁ s = (.error e, s) := by
  obtain ⟨w₁, htrunc, hg₁⟩ := truncate_grown h s
  have hpos : w₁.pos = w.pos := hg₁.pos_eq_iff.mpr rfl
  obtain ⟨e, hemit⟩ := emit_full (w := w₁) ((Emit.Sized.u8 a).append (.u8 b))
    (by rw [hpos, hg₁.room]; exact hroom) s
  exact ⟨w₁, e, htrunc, hemit⟩

/-- An entry of a GET with a list that has no room ends the request. -/
theorem getListItem_full (item : AttributeDescriptorWithSelection) {w : SliceWriter}
    (hroom : w.buf.length < w.pos + 2) (s : Server σ π N) :
    ∃ e, getListItem S w (.ok item) s = (.error e,
      if w.pos + 1 ≤ w.buf.length then
        s.asked (S.readAt s.store item.descriptor item.access w.buf.length (w.pos + 1)).2
          (S.readCalls s.store item.descriptor item.access)
      else s.asked (S.attributeAccess s.store item.descriptor).2
        [.attributeAccess .read item.descriptor (S.attributeAccess s.store item.descriptor).1]) := by
  obtain ⟨d, access⟩ := item
  unfold getListItem ObjectStore.readAt ObjectStore.readCalls
  rw [Prog.ofExcept_ok, Prog.pure_bind_run, Prog.bind_run_ok (attributeAccess_run S .read d s)]
  dsimp only
  by_cases h : (S.attributeAccess s.store d).1.canRead = true
  · simp only [h, if_true]
    by_cases hone : w.pos + 1 ≤ w.buf.length
    · obtain ⟨w₀, hemit, hg₀⟩ := emit_grown (w := w) (.u8 0) hone
        (s.asked (S.attributeAccess s.store d).2
          [.attributeAccess .read d (S.attributeAccess s.store d).1])
      obtain ⟨w₁, hget, hg₁⟩ := getAttribute_sink S d access w₀
        (s.asked (S.attributeAccess s.store d).2
          [.attributeAccess .read d (S.attributeAccess s.store d).1])
      have hpos : w₀.pos = w.pos + 1 := hg₀.pos
      rw [Prog.bind_run_ok hemit, Prog.bind_run_ok hget, if_pos hone]
      rw [Server.asked_store, hg₀.room, hpos] at hg₁ ⊢
      rw [Server.asked_asked, List.singleton_append]
      generalize (S.getAttribute (S.attributeAccess s.store d).2 d access).sink w.buf.length
        (w.pos + 1) = r at hg₁ ⊢
      generalize s.asked _ _ = s₂
      obtain ⟨⟨result, st⟩, v⟩ := r
      dsimp only at hg₁ ⊢
      -- What the store wrote is nothing: the sink was full.
      have hv : v = [] := by
        have hle := hg₁.pos_le
        rw [hpos, hg₀.room] at hle
        exact List.length_eq_zero_iff.mp (by omega)
      have hw₁ : w₁.pos = w₀.pos := hg₁.pos_eq_iff.mpr hv
      cases result with
      | error e =>
        obtain ⟨w₂, err, htrunc, hfull⟩ := rewind_full (hg₀.trans hg₁) 1 e.asU8 hroom s₂
        dsimp only
        rw [Nat.add_sub_cancel, Prog.bind_run_ok htrunc, Prog.bind_run_error hfull]
        exact ⟨_, rfl⟩
      | ok u =>
        obtain ⟨w₂, err, htrunc, hfull⟩ := rewind_full (hg₀.trans hg₁) 1
          DataAccessResult.otherReason.asU8 hroom s₂
        dsimp only
        rw [if_pos (hw₁.trans hpos), Nat.add_sub_cancel, Prog.bind_run_ok htrunc,
          Prog.bind_run_error hfull]
        exact ⟨_, rfl⟩
    · obtain ⟨e, hfull⟩ := emit_full (w := w) (.u8 0) (by omega)
        (s.asked (S.attributeAccess s.store d).2
          [.attributeAccess .read d (S.attributeAccess s.store d).1])
      rw [Prog.bind_run_error hfull, if_neg hone]
      exact ⟨e, rfl⟩
  · simp only [h, Bool.false_eq_true, if_false]
    obtain ⟨e, hfull⟩ := emit_full (w := w) ((Emit.Sized.u8 1).append
      (.u8 DataAccessResult.readWriteDenied.asU8)) hroom
      (s.asked (S.attributeAccess s.store d).2
        [.attributeAccess .read d (S.attributeAccess s.store d).1])
    rw [Prog.bind_run_error hfull]
    exact ⟨e, by split <;> rfl⟩

/-! ## ACTION with a list -/

/-- An entry of an ACTION with a list that has room. -/
theorem actionListItem_run (d : MethodDescriptor) (value : Data) {w : SliceWriter}
    (hroom : w.pos + 3 ≤ w.buf.length) (s : Server σ π N) :
    let r := S.runAt s.store d (parameterOf value) w.buf.length (w.pos + 3)
    ∃ w', actionListItem S w (.ok d, .ok value) s =
        (.ok w', s.asked (S.ranAt s.store d (parameterOf value) w.buf.length (w.pos + 3))
          (S.runCalls s.store d (parameterOf value) w.buf.length (w.pos + 3))) ∧
      w.Grown w' (runSlot (runOutcome r.1)) := by
  unfold actionListItem
  rw [Prog.ofExcept_ok, Prog.pure_bind_run, Prog.ofExcept_ok, Prog.pure_bind_run]
  obtain ⟨w₀, hemit, hg₀⟩ := emit_grown (w := w) (((Emit.Sized.u8 ActionResult.success.asU8).append
    (.u8 1)).append (.u8 0)) hroom s
  have hpos : w₀.pos = w.pos + 3 := hg₀.pos
  obtain ⟨w₁, hrun, hg₁⟩ := runMethod_sink S d (parameterOf value) w₀ s
  rw [hg₀.room, hpos] at hrun hg₁
  dsimp only
  rw [Prog.bind_run_ok hemit, Prog.bind_run_ok hrun]
  generalize s.asked _ _ = t
  generalize (S.runAt s.store d (parameterOf value) w.buf.length (w.pos + 3)).1 = r at hg₁ ⊢
  obtain ⟨outcome, v⟩ := r
  have hdone (a : UInt8) : ∃ w₂ w₃, truncate w.pos w₁ t = (.ok w₂, t) ∧
      emit (Emit.u8 a ++ Emit.u8 0) w₂ t = (.ok w₃, t) ∧ w.Grown w₃ [a, 0] :=
    rewind_error (hg₀.trans hg₁) a 0 (by omega) t
  match outcome with
  | .ok true =>
    dsimp only
    by_cases hv : v = []
    · obtain ⟨w₂, w₃, htrunc, hemit', hg₂⟩ := hdone ActionResult.otherReason.asU8
      have hout : runOutcome (.ok true, v) = .error .otherReason := if_pos hv
      rw [hout, if_pos (hg₁.pos_eq_iff.mpr hv), Prog.bind_run_ok htrunc]
      exact ⟨w₃, hemit', hg₂⟩
    · have hout : runOutcome (.ok true, v) = .ok (some v) := if_neg hv
      rw [hout, if_neg fun he => hv (hg₁.pos_eq_iff.mp he)]
      exact ⟨w₁, rfl, hg₀.trans hg₁⟩
  | .ok false =>
    obtain ⟨w₂, w₃, htrunc, hemit', hg₂⟩ := hdone ActionResult.success.asU8
    dsimp only
    rw [Prog.bind_run_ok htrunc]
    exact ⟨w₃, hemit', hg₂⟩
  | .error e =>
    obtain ⟨w₂, w₃, htrunc, hemit', hg₂⟩ := hdone e.asU8
    dsimp only
    rw [Prog.bind_run_ok htrunc]
    exact ⟨w₃, hemit', hg₂⟩

/-- An entry of an ACTION with a list that has no room ends the request before it is invoked. -/
theorem actionListItem_full (d : MethodDescriptor) (value : Data) {w : SliceWriter}
    (hroom : w.buf.length < w.pos + 3) (s : Server σ π N) :
    ∃ e, actionListItem S w (.ok d, .ok value) s = (.error e, s) := by
  unfold actionListItem
  rw [Prog.ofExcept_ok, Prog.pure_bind_run, Prog.ofExcept_ok, Prog.pure_bind_run]
  obtain ⟨e, hfull⟩ := emit_full (w := w) (((Emit.Sized.u8 ActionResult.success.asU8).append
    (.u8 1)).append (.u8 0)) hroom s
  exact ⟨e, by dsimp only; rw [Prog.bind_run_error hfull]⟩

end Srv

/-! ## Placeholders -/

/-- `null-data` is one byte: it is written, or the writer was full. -/
theorem SliceWriter.emit_null (w : SliceWriter) :
    (w.pos < w.buf.length ∧ ∃ w', SliceWriter.emit Data.null.encode w = (.ok (), w') ∧
      w.Grown w' [0]) ∨
    (w.buf.length ≤ w.pos ∧ ∃ e, SliceWriter.emit Data.null.encode w = (.error e, w)) := by
  by_cases h : w.pos < w.buf.length
  · obtain ⟨w', hw⟩ := SliceWriter.emit_fits (e := Data.null.encode) (w := w) rfl h
    exact .inl ⟨h, w', hw, .of_emit hw⟩
  · refine .inr ⟨by omega, _, Prog.bind_run_error (Prog.bind_run_error (dif_neg ?_))⟩
    change ¬ w.pos + 1 ≤ w.buf.length
    omega

namespace Srv

/-- `null-data` from a handler. -/
theorem emit_null (w : SliceWriter) (s : Server σ π N) :
    (w.pos < w.buf.length ∧ ∃ w', emit Data.null.encode w s = (.ok w', s) ∧ w.Grown w' [0]) ∨
    (w.buf.length ≤ w.pos ∧ ∃ e, emit Data.null.encode w s = (.error e, s)) := by
  unfold emit onWriter
  obtain ⟨h, w', hw, hg⟩ | ⟨h, e, hw⟩ := w.emit_null
  · rw [hw]
    exact .inl ⟨h, w', rfl, hg⟩
  · rw [hw]
    exact .inr ⟨h, e, rfl⟩

end Srv

/-! ## Short names -/

/-- What came of an entry: its outcome, the store, and what the store was asked. -/
structure Served (σ α : Type) where
  outcome : α
  store : σ
  calls : List StoreCall

/-- What a method comes to whose name is read, in `room` bytes: one that returns nothing leaves a
placeholder. -/
def calledAs (room : Nat) : Except ActionResult Bool × Bytes → Except DataAccessResult Unit × Bytes
  | (.error e, v) => (.error (Srv.actionToDataAccess e), v)
  | (.ok true, v) => (.ok (), v)
  | (.ok false, v) => if v.length < room then (.ok (), v ++ [0]) else (.error .otherReason, v)

namespace ObjectStore

variable (S : ObjectStore σ)

/-- A read of an attribute, with its audit. -/
def audited (st : σ) (d : AttributeDescriptor) (access : Option SelectiveAccess)
    (r : (Except DataAccessResult Unit × Bytes) × σ) (outcome : DataAccessResult) :
    Served σ (Except DataAccessResult Unit × Bytes) :=
  ⟨r.1, S.audit r.2 (.attributeRead d outcome),
    S.readCalls st d access ++ [.audit (.attributeRead d outcome)]⟩

/-- An entry of a short-name read, in a sink of `len` bytes of which `pos` are used. -/
def readEntry (st : σ) (entry : VariableAccess) (len pos : Nat) :
    Served σ (Except DataAccessResult Unit × Bytes) :=
  match Srv.namedEntry entry with
  | none => ⟨(.error .otherReason, []), st, []⟩
  | some (name, access) =>
    let asked := S.resolveShortName st name
    let call := StoreCall.resolveShortName name asked.1
    match asked.1 with
    | none => ⟨(.error .objectUndefined, []), asked.2, [call]⟩
    | some (.attribute d) =>
      let r := S.readAt asked.2 d access len pos
      let done := S.audited asked.2 d access r (readAudit r.1.1)
      { done with calls := call :: done.calls }
    | some (.method d) =>
      let parameters := access.map SelectiveAccess.parameters
      ⟨calledAs (len - pos) (S.runAt asked.2 d parameters len pos).1,
        S.ranAt asked.2 d parameters len pos, call :: S.runCalls asked.2 d parameters len pos⟩

/-- An entry of a short-name write. A method has one byte for what it returns. -/
def writeEntry (st : σ) (entry : VariableAccess) (value : Data) : Served σ DataAccessResult :=
  match Srv.namedEntry entry with
  | none => ⟨.otherReason, st, []⟩
  | some (name, access) =>
    let asked := S.resolveShortName st name
    let call := StoreCall.resolveShortName name asked.1
    match asked.1 with
    | none => ⟨.objectUndefined, asked.2, [call]⟩
    | some (.attribute d) =>
      ⟨(S.write asked.2 d access value).1, (S.write asked.2 d access value).2,
        call :: S.writeCalls asked.2 d access value⟩
    | some (.method d) =>
      ⟨match (S.runAt asked.2 d (some value) 1 0).1.1 with
        | .ok _ => .success
        | .error e => Srv.actionToDataAccess e,
        S.ranAt asked.2 d (some value) 1 0, call :: S.runCalls asked.2 d (some value) 1 0⟩

end ObjectStore

/-- An outcome in a list of short-name write results. -/
def writeSlot (outcome : DataAccessResult) : Bytes :=
  if outcome.isSuccess then [0] else [1, outcome.asU8]

namespace Srv

variable (C : CryptoProvider π) (S : ObjectStore σ)

theorem readOne_run (entry : VariableAccess) (w : SliceWriter) (s : Server σ π N) :
    let r := S.readEntry s.store entry w.buf.length w.pos
    ∃ w', readOne S entry w s = (.ok (r.outcome.1, w'), s.asked r.store r.calls) ∧
      w.Grown w' r.outcome.2 := by
  unfold readOne ObjectStore.readEntry
  cases namedEntry entry with
  | none => exact ⟨w, by dsimp only; rw [Server.asked_nil]; rfl, .refl w⟩
  | some named =>
    obtain ⟨name, access⟩ := named
    dsimp only
    rw [Prog.bind_run_ok (resolveShortName_run S name s)]
    generalize S.resolveShortName s.store name = asked
    obtain ⟨target, st⟩ := asked
    dsimp only
    match target with
    | none => exact ⟨w, rfl, .refl w⟩
    | some (.attribute d) =>
      dsimp only
      rw [Prog.bind_run_ok (attributeAccess_run S .read d _)]
      unfold ObjectStore.audited ObjectStore.readAt ObjectStore.readCalls
      dsimp only
      rw [Server.asked_store, Server.asked_asked]
      by_cases h : (S.attributeAccess st d).1.canRead = true
      · rw [if_neg (by simp [h])]
        simp only [h, if_true]
        obtain ⟨w', hget, hg⟩ := getAttribute_sink S d access w
          (s.asked (S.attributeAccess st d).2 [.resolveShortName name (some (.attribute d)),
            .attributeAccess .read d (S.attributeAccess st d).1])
        rw [List.singleton_append, Prog.bind_run_ok hget, Server.asked_asked]
        rw [Server.asked_store] at hg ⊢
        generalize (S.getAttribute (S.attributeAccess st d).2 d access).sink w.buf.length w.pos = r at hg ⊢
        obtain ⟨⟨result, st'⟩, v⟩ := r
        refine ⟨w', ?_, hg⟩
        dsimp only
        rw [Prog.bind_run_ok (auditRead_asked ..), Server.asked_asked]
        cases result <;> rfl
      · rw [if_pos (by simpa using h)]
        simp only [h, Bool.false_eq_true, if_false]
        refine ⟨w, ?_, .refl w⟩
        rw [Prog.bind_run_ok (auditRead_asked ..), Server.asked_asked]
        rfl
    | some (.method d) =>
      dsimp only
      obtain ⟨w₁, hrun, hg₁⟩ := runMethod_sink S d (access.map SelectiveAccess.parameters) w
        (s.asked st [.resolveShortName name (some (.method d))])
      rw [Server.asked_asked, Server.asked_store] at hrun
      rw [Server.asked_store] at hg₁
      rw [Prog.bind_run_ok hrun]
      generalize (S.runAt st d (access.map SelectiveAccess.parameters) w.buf.length w.pos).1 = r at hg₁ ⊢
      obtain ⟨outcome, v⟩ := r
      have hpos : w₁.pos = w.pos + v.length := hg₁.pos
      match outcome with
      | .error e => exact ⟨w₁, rfl, hg₁⟩
      | .ok true => exact ⟨w₁, rfl, hg₁⟩
      | .ok false =>
        dsimp only [calledAs]
        obtain ⟨hroom, w₂, hnull, hg₂⟩ | ⟨hfull, e, hnull⟩ := w₁.emit_null
        · rw [hnull, if_pos (by rw [hg₁.room] at hroom; omega)]
          exact ⟨w₂, rfl, hg₁.trans hg₂⟩
        · rw [hnull, if_neg (by rw [hg₁.room] at hfull; omega)]
          exact ⟨w₁, rfl, hg₁⟩

theorem readError_grown (e : DataAccessResult) : Emit.Sized (ReadResult.error e).encode 2 :=
  (Emit.Sized.u8 1).append (.u8 e.asU8)

/-- An entry of a short-name read that has room. -/
theorem readItem_run (entry : VariableAccess) {w : SliceWriter}
    (hroom : w.pos + 2 ≤ w.buf.length) (s : Server σ π N) :
    let r := S.readEntry s.store entry w.buf.length (w.pos + 1)
    ∃ w', readItem S w (.ok entry) s = (.ok w', s.asked r.store r.calls) ∧
      w.Grown w' (readSlot (readOutcome r.outcome)) := by
  unfold readItem
  rw [Prog.ofExcept_ok, Prog.pure_bind_run]
  obtain ⟨w₀, hemit, hg₀⟩ := emit_grown (e := Emit.u8 0) (w := w) (.u8 0) (by omega) s
  have hpos : w₀.pos = w.pos + 1 := hg₀.pos
  obtain ⟨w₁, hone, hg₁⟩ := readOne_run S entry w₀ s
  rw [hg₀.room, hpos] at hone hg₁
  dsimp only
  rw [Prog.bind_run_ok hemit, Prog.bind_run_ok hone]
  generalize s.asked _ _ = t
  generalize (S.readEntry s.store entry w.buf.length (w.pos + 1)).outcome = r at hg₁ ⊢
  obtain ⟨outcome, v⟩ := r
  cases outcome with
  | error e =>
    obtain ⟨w₂, w₃, htrunc, hemit', hg₂⟩ := rewind_error (hg₀.trans hg₁) 1 e.asU8 hroom t
    dsimp only
    rw [Prog.bind_run_ok htrunc]
    exact ⟨w₃, hemit', hg₂⟩
  | ok u =>
    dsimp only
    by_cases hv : v = []
    · obtain ⟨w₂, w₃, htrunc, hemit', hg₂⟩ := rewind_error (hg₀.trans hg₁) 1
        DataAccessResult.otherReason.asU8 hroom t
      have hout : readOutcome (.ok u, v) = .error .otherReason := if_pos hv
      rw [hout, if_pos (hg₁.pos_eq_iff.mpr hv), Prog.bind_run_ok htrunc]
      exact ⟨w₃, hemit', hg₂⟩
    · have hout : readOutcome (.ok u, v) = .ok v := if_neg hv
      rw [hout, if_neg fun he => hv (hg₁.pos_eq_iff.mp he)]
      exact ⟨w₁, rfl, hg₀.trans hg₁⟩

/-- An entry of a short-name read that has no room ends the request. -/
theorem readItem_full (entry : VariableAccess) {w : SliceWriter}
    (hroom : w.buf.length < w.pos + 2) (s : Server σ π N) :
    let r := S.readEntry s.store entry w.buf.length (w.pos + 1)
    ∃ e, readItem S w (.ok entry) s =
      (.error e, if w.pos + 1 ≤ w.buf.length then s.asked r.store r.calls else s) := by
  unfold readItem
  rw [Prog.ofExcept_ok, Prog.pure_bind_run]
  by_cases hone : w.pos + 1 ≤ w.buf.length
  · obtain ⟨w₀, hemit, hg₀⟩ := emit_grown (e := Emit.u8 0) (w := w) (.u8 0) hone s
    have hpos : w₀.pos = w.pos + 1 := hg₀.pos
    obtain ⟨w₁, hread, hg₁⟩ := readOne_run S entry w₀ s
    rw [hg₀.room, hpos] at hread hg₁
    dsimp only
    rw [Prog.bind_run_ok hemit, Prog.bind_run_ok hread, if_pos hone]
    generalize s.asked _ _ = t
    generalize (S.readEntry s.store entry w.buf.length (w.pos + 1)).outcome = r at hg₁ ⊢
    obtain ⟨outcome, v⟩ := r
    -- What the store wrote is nothing: the sink was full.
    have hv : v = [] := by
      have hle := hg₁.pos_le
      rw [hpos, hg₀.room] at hle
      dsimp only at hle
      exact List.length_eq_zero_iff.mp (by omega)
    cases outcome with
    | error e =>
      obtain ⟨w₂, err, htrunc, hfull⟩ := rewind_full (hg₀.trans hg₁) 1 e.asU8 hroom t
      dsimp only
      rw [Prog.bind_run_ok htrunc]
      exact ⟨err, hfull⟩
    | ok u =>
      obtain ⟨w₂, err, htrunc, hfull⟩ := rewind_full (hg₀.trans hg₁) 1
        DataAccessResult.otherReason.asU8 hroom t
      dsimp only
      rw [if_pos (hg₁.pos_eq_iff.mpr hv), Prog.bind_run_ok htrunc]
      exact ⟨err, hfull⟩
  · obtain ⟨e, hfull⟩ := emit_full (w := w) (.u8 0) (by omega) s
    dsimp only
    rw [Prog.bind_run_error hfull, if_neg hone]
    exact ⟨e, rfl⟩

theorem writeNamed_run (name : ObjectName) (access : Option SelectiveAccess) {entry : VariableAccess}
    (value : Data) (hentry : namedEntry entry = some (name, access)) (s : Server σ π N) :
    writeNamed S name access value s = (.ok (S.writeEntry s.store entry value).outcome,
      s.asked (S.writeEntry s.store entry value).store (S.writeEntry s.store entry value).calls) := by
  unfold writeNamed ObjectStore.writeEntry
  rw [hentry, Prog.bind_run_ok (resolveShortName_run S name s)]
  dsimp only
  generalize S.resolveShortName s.store name = asked
  obtain ⟨target, st⟩ := asked
  match target with
  | none => rfl
  | some (.attribute d) =>
    dsimp only
    rw [writeOne_run, Server.asked_asked]
    rfl
  | some (.method d) =>
    obtain ⟨w₁, hrun, -⟩ := runMethod_sink S d (some value) (SliceWriter.new (zeros 1))
      (s.asked st [.resolveShortName name (some (.method d))])
    rw [Server.asked_asked, Server.asked_store, SliceWriter.new_buf, SliceWriter.new_pos,
      length_zeros] at hrun
    dsimp only
    rw [Prog.bind_run_ok hrun]
    dsimp only
    cases (S.runAt st d (some value) 1 0).1.1 <;> rfl

/-- An entry of a short-name write that has room. -/
theorem writeItem_run (entry : VariableAccess) (value : Data) {w : SliceWriter}
    (hroom : w.pos + 2 ≤ w.buf.length) (s : Server σ π N) :
    let r := S.writeEntry s.store entry value
    ∃ w', writeItem S w (.ok entry, .ok value) s = (.ok w', s.asked r.store r.calls) ∧
      w.Grown w' (writeSlot r.outcome) := by
  unfold writeItem
  rw [Prog.ofExcept_ok, Prog.pure_bind_run, Prog.ofExcept_ok, Prog.pure_bind_run]
  cases hentry : namedEntry entry with
  | none =>
    unfold ObjectStore.writeEntry
    rw [hentry]
    obtain ⟨w', hemit, hg⟩ := emit_grown (w := w) ((Emit.Sized.u8 1).append
      (.u8 DataAccessResult.otherReason.asU8)) hroom s
    exact ⟨w', by dsimp only; rw [Server.asked_nil]; exact hemit, hg⟩
  | some named =>
    obtain ⟨name, access⟩ := named
    dsimp only
    rw [Prog.bind_run_ok (writeNamed_run S name access value hentry s)]
    generalize s.asked _ _ = t
    generalize (S.writeEntry s.store entry value).outcome = outcome
    unfold writeSlot
    by_cases h : outcome.isSuccess = true
    · rw [if_pos h, if_pos h]
      exact emit_grown (w := w) (.u8 0) (by omega) t
    · rw [if_neg h, if_neg h]
      exact emit_grown (w := w) ((Emit.Sized.u8 1).append (.u8 outcome.asU8)) hroom t

end Srv

/-! ## ACCESS -/

namespace ObjectStore

variable (S : ObjectStore σ)

/-- A read of an ACCESS request: what it is answered, and its element of the data list. One that
fails where the list is full leaves no element. -/
def accessRead (st : σ) (d : AttributeDescriptor) (access : Option SelectiveAccess) (len pos : Nat) :
    Served σ (AccessResponseSpecification × Bytes) :=
  let r := S.readAt st d access len pos
  let outcome := readAudit (readOutcome r.1)
  let done := S.audited st d access r outcome
  if outcome = .success then ⟨(.get outcome, r.1.2), done.store, done.calls⟩
  else if pos < len then ⟨(.get outcome, [0]), done.store, done.calls⟩
  else ⟨(.get .otherReason, []), r.2, S.readCalls st d access⟩

/-- A write of an ACCESS request. One that finds the data list full leaves no element. -/
def accessWrite (st : σ) (d : AttributeDescriptor) (access : Option SelectiveAccess) (value : Data)
    (len pos : Nat) : Served σ (AccessResponseSpecification × Bytes) :=
  let r := S.write st d access value
  ⟨if pos < len then (.set r.1, [0]) else (.set .otherReason, []), r.2,
    S.writeCalls st d access value⟩

/-- A method of an ACCESS request, where there is room for its placeholder. -/
def accessRun (st : σ) (d : MethodDescriptor) (value : Data) (len pos : Nat) :
    Served σ (Option (AccessResponseSpecification × Bytes)) :=
  let parameters := Srv.parameterOf value
  ⟨match (S.runAt st d parameters len pos).1 with
    | (.ok true, v) => some (.action .success, v)
    | (.ok false, v) => if pos + v.length < len then some (.action .success, v ++ [0]) else none
    | (.error e, _) => if pos < len then some (.action e, [0]) else none,
    S.ranAt st d parameters len pos, S.runCalls st d parameters len pos⟩

/-- An entry of an ACCESS request, in a data list of `len` bytes of which `pos` are used. -/
def accessEntry (st : σ) (spec : AccessRequestSpecification) (value : Data) (len pos : Nat) :
    Served σ (Option (AccessResponseSpecification × Bytes)) :=
  let one (r : Served σ (AccessResponseSpecification × Bytes)) :
      Served σ (Option (AccessResponseSpecification × Bytes)) := ⟨some r.outcome, r.store, r.calls⟩
  match spec with
  | .get d => one (S.accessRead st d none len pos)
  | .set d => one (S.accessWrite st d none value len pos)
  | .getWithSelection d => one (S.accessRead st d.descriptor d.access len pos)
  | .setWithSelection d => one (S.accessWrite st d.descriptor d.access value len pos)
  | .action d => S.accessRun st d value len pos

end ObjectStore

namespace Srv

variable (C : CryptoProvider π) (S : ObjectStore σ)

theorem accessOne_write (d : AttributeDescriptor) (access : Option SelectiveAccess) (value : Data)
    (w : SliceWriter) (s : Server σ π N) :
    let r := S.accessWrite s.store d access value w.buf.length w.pos
    ∃ w', accessOne S d access value false w s = (.ok (r.outcome.1, w'), s.asked r.store r.calls) ∧
      w.Grown w' r.outcome.2 := by
  unfold accessOne ObjectStore.accessWrite
  dsimp only
  rw [Bool.not_false, if_pos rfl, Prog.bind_run_ok (writeOne_run ..)]
  obtain ⟨hroom, w', hnull, hg⟩ | ⟨hfull, e, hnull⟩ := w.emit_null
  · rw [hnull, if_pos hroom]
    exact ⟨w', rfl, hg⟩
  · rw [hnull, if_neg (by omega)]
    exact ⟨w, rfl, .refl w⟩

/-- How a failed read of an ACCESS request is rolled back. -/
theorem rollback_run {w w' : SliceWriter} {bs : Bytes} (h : w.Grown w' bs) :
    (w.pos < w.buf.length ∧ ∃ w₂, (do SliceWriter.truncate w.pos; SliceWriter.emit Data.null.encode :
      Write Unit) w' = (.ok (), w₂) ∧ w.Grown w₂ [0]) ∨
    (w.buf.length ≤ w.pos ∧ ∃ e w₂, (do SliceWriter.truncate w.pos; SliceWriter.emit Data.null.encode :
      Write Unit) w' = (.error e, w₂) ∧ w.Grown w₂ []) := by
  obtain ⟨w₁, htrunc, hg⟩ := h.truncate
  have hpos : w₁.pos = w.pos := hg.pos_eq_iff.mpr rfl
  rw [Prog.bind_run_ok htrunc]
  obtain ⟨hroom, w₂, hnull, hg₂⟩ | ⟨hfull, e, hnull⟩ := w₁.emit_null
  · exact .inl ⟨by rw [hg.room] at hroom; omega, w₂, hnull, hg.trans hg₂⟩
  · exact .inr ⟨by rw [hg.room] at hfull; omega, e, w₁, hnull, hg⟩

/-- The store's part of a read of an ACCESS request, in one step. -/
theorem accessOne_readAt (d : AttributeDescriptor) (access : Option SelectiveAccess)
    (w : SliceWriter) (s : Server σ π N) :
    ∃ w₁, (if (S.attributeAccess s.store d).1.canRead = true then do
        let x ← getAttribute S d access w
        return (match x.1 with
          | .ok () => if x.2.pos = w.pos then DataAccessResult.otherReason else .success
          | .error e => e, x.2)
      else pure (.readWriteDenied, w))
      (s.asked (S.attributeAccess s.store d).2
        [.attributeAccess .read d (S.attributeAccess s.store d).1]) =
      (.ok (readAudit (readOutcome (S.readAt s.store d access w.buf.length w.pos).1), w₁),
        s.asked (S.readAt s.store d access w.buf.length w.pos).2 (S.readCalls s.store d access)) ∧
      w.Grown w₁ (S.readAt s.store d access w.buf.length w.pos).1.2 := by
  unfold ObjectStore.readAt ObjectStore.readCalls
  dsimp only
  by_cases h : (S.attributeAccess s.store d).1.canRead = true
  · simp only [h, if_true]
    obtain ⟨w₁, hget, hg⟩ := getAttribute_sink S d access w (s.asked (S.attributeAccess s.store d).2
      [.attributeAccess .read d (S.attributeAccess s.store d).1])
    rw [Prog.bind_run_ok hget, Server.asked_asked]
    rw [Server.asked_store] at hg ⊢
    generalize (S.getAttribute (S.attributeAccess s.store d).2 d access).sink w.buf.length w.pos = r
      at hg ⊢
    obtain ⟨⟨result, st⟩, v⟩ := r
    refine ⟨w₁, ?_, hg⟩
    cases result with
    | error e => rfl
    | ok u =>
      dsimp only
      by_cases hv : v = []
      · rw [if_pos (hg.pos_eq_iff.mpr hv), readOutcome, if_pos hv]
        rfl
      · rw [if_neg fun he => hv (hg.pos_eq_iff.mp he), readOutcome, if_neg hv]
        rfl
  · simp only [h, Bool.false_eq_true, if_false]
    exact ⟨w, rfl, .refl w⟩

theorem accessOne_read (d : AttributeDescriptor) (access : Option SelectiveAccess) (value : Data)
    (w : SliceWriter) (s : Server σ π N) :
    let r := S.accessRead s.store d access w.buf.length w.pos
    ∃ w', accessOne S d access value true w s = (.ok (r.outcome.1, w'), s.asked r.store r.calls) ∧
      w.Grown w' r.outcome.2 := by
  unfold accessOne ObjectStore.accessRead
  dsimp only
  rw [Bool.not_true, if_neg Bool.false_ne_true, Prog.bind_run_ok (attributeAccess_run S .read d s)]
  obtain ⟨w₁, hread, hg⟩ := accessOne_readAt S d access w s
  unfold ObjectStore.audited
  dsimp only
  generalize S.readAt s.store d access w.buf.length w.pos = r at hg hread ⊢
  generalize readAudit (readOutcome r.1) = outcome at hread ⊢
  by_cases h : outcome = .success
  · rw [if_pos h]
    refine ⟨w₁, (Prog.bind_run_ok hread).trans ?_, hg⟩
    dsimp only
    rw [if_neg (by simpa using h), Prog.bind_run_ok (auditRead_asked ..), Server.asked_asked]
    rfl
  · rw [if_neg h]
    obtain ⟨hroom, w₂, hback, hg₂⟩ | ⟨hfull, e, w₂, hback, hg₂⟩ := rollback_run hg
    · rw [if_pos hroom]
      refine ⟨w₂, (Prog.bind_run_ok hread).trans ?_, hg₂⟩
      dsimp only
      rw [if_pos h, hback]
      dsimp only
      rw [Prog.bind_run_ok (auditRead_asked ..), Server.asked_asked]
      rfl
    · rw [if_neg (Nat.not_lt.mpr hfull)]
      refine ⟨w₂, (Prog.bind_run_ok hread).trans ?_, hg₂⟩
      dsimp only
      rw [if_pos h, hback]
      rfl

/-- A method of an ACCESS request: an answer and an element, or the end of the request. -/
theorem accessAction_run (d : MethodDescriptor) (value : Data) (w : SliceWriter) (s : Server σ π N) :
    let r := S.accessRun s.store d value w.buf.length w.pos
    match r.outcome with
    | some answer => ∃ w', accessAction S d value w s = (.ok (answer.1, w'), s.asked r.store r.calls) ∧
        w.Grown w' answer.2
    | none => ∃ e, accessAction S d value w s = (.error e, s.asked r.store r.calls) := by
  unfold accessAction ObjectStore.accessRun
  obtain ⟨w₁, hrun, hg⟩ := runMethod_sink S d (parameterOf value) w s
  dsimp only
  rw [Prog.bind_run_ok hrun]
  generalize s.asked _ _ = t
  generalize (S.runAt s.store d (parameterOf value) w.buf.length w.pos).1 = r at hg ⊢
  obtain ⟨outcome, v⟩ := r
  have hpos : w₁.pos = w.pos + v.length := hg.pos
  match outcome with
  | .ok true => exact ⟨w₁, rfl, hg⟩
  | .ok false =>
    dsimp only
    obtain ⟨hroom, w₂, hnull, hg₂⟩ | ⟨hfull, e, hnull⟩ := emit_null w₁ t
    · rw [if_pos (by rw [hg.room] at hroom; omega), Prog.bind_run_ok hnull]
      exact ⟨w₂, rfl, hg.trans hg₂⟩
    · rw [if_neg (by rw [hg.room] at hfull; omega), Prog.bind_run_error hnull]
      exact ⟨e, rfl⟩
  | .error a =>
    dsimp only
    obtain ⟨w₂, htrunc, hg₂⟩ := truncate_grown hg t
    have hpos₂ : w₂.pos = w.pos := hg₂.pos_eq_iff.mpr rfl
    rw [Prog.bind_run_ok htrunc]
    obtain ⟨hroom, w₃, hnull, hg₃⟩ | ⟨hfull, e, hnull⟩ := emit_null w₂ t
    · rw [if_pos (by rw [hg₂.room] at hroom; omega), Prog.bind_run_ok hnull]
      exact ⟨w₃, rfl, hg₂.trans hg₃⟩
    · rw [if_neg (by rw [hg₂.room] at hfull; omega), Prog.bind_run_error hnull]
      exact ⟨e, rfl⟩

/-- One entry of an ACCESS request: its answer and its element, or the end of the request. -/
theorem accessItem_run (spec : AccessRequestSpecification) (value : Data)
    {w : SliceWriter × SliceWriter} (hroom : w.2.pos + 2 ≤ w.2.buf.length) (s : Server σ π N) :
    let r := S.accessEntry s.store spec value w.1.buf.length w.1.pos
    match r.outcome with
    | some answer => ∃ w', accessItem S w (.ok spec, .ok value) s = (.ok w', s.asked r.store r.calls) ∧
        w.1.Grown w'.1 answer.2 ∧ w.2.Grown w'.2 answer.1.encode.data
    | none => ∃ e, accessItem S w (.ok spec, .ok value) s = (.error e, s.asked r.store r.calls) := by
  have hanswer (answer : AccessResponseSpecification) (dw : SliceWriter) (t : Server σ π N) :
      ∃ rw', (emit answer.encode w.2 >>= fun rw' => (pure (dw, rw') : Srv σ π N _)) t =
        (.ok (dw, rw'), t) ∧ w.2.Grown rw' answer.encode.data := by
    have hsized : answer.encode.Sized 2 := by cases answer <;> exact .bytes _
    obtain ⟨rw', hemit, hg⟩ := emit_grown hsized hroom t
    exact ⟨rw', by rw [Prog.bind_run_ok hemit]; rfl, hg⟩
  have hplain {m : Srv σ π N (AccessResponseSpecification × SliceWriter)}
      {r : Served σ (AccessResponseSpecification × Bytes)}
      (h : ∃ w', m s = (.ok (r.outcome.1, w'), s.asked r.store r.calls) ∧ w.1.Grown w' r.outcome.2) :
      ∃ w', (m >>= fun x => emit x.1.encode w.2 >>= fun rw' => (pure (x.2, rw') : Srv σ π N _)) s =
        (.ok w', s.asked r.store r.calls) ∧ w.1.Grown w'.1 r.outcome.2 ∧
          w.2.Grown w'.2 r.outcome.1.encode.data := by
    obtain ⟨dw, hm, hg⟩ := h
    obtain ⟨rw', hrun, hg'⟩ := hanswer r.outcome.1 dw (s.asked r.store r.calls)
    exact ⟨(dw, rw'), by rw [Prog.bind_run_ok hm]; exact hrun, hg, hg'⟩
  unfold accessItem ObjectStore.accessEntry
  rw [Prog.ofExcept_ok, Prog.pure_bind_run, Prog.ofExcept_ok, Prog.pure_bind_run]
  match spec with
  | .get d => exact hplain (accessOne_read S d none value w.1 s)
  | .set d => exact hplain (accessOne_write S d none value w.1 s)
  | .getWithSelection d => exact hplain (accessOne_read S d.descriptor d.access value w.1 s)
  | .setWithSelection d => exact hplain (accessOne_write S d.descriptor d.access value w.1 s)
  | .action d =>
    dsimp only
    have hrun := accessAction_run S d value w.1 s
    dsimp only at hrun
    generalize S.accessRun s.store d value w.1.buf.length w.1.pos = r at hrun ⊢
    obtain ⟨outcome, st, calls⟩ := r
    cases outcome with
    | none =>
      obtain ⟨e, hrun⟩ := hrun
      exact ⟨e, Prog.bind_run_error hrun⟩
    | some answer =>
      obtain ⟨dw, hrun, hg⟩ := hrun
      obtain ⟨rw', hemit, hg'⟩ := hanswer answer.1 dw (s.asked st calls)
      exact ⟨(dw, rw'), by rw [Prog.bind_run_ok hrun]; exact hemit, hg, hg'⟩

/-- Each entry of a short-name write has room for its result. -/
theorem writeItem_room (items : List (Result VariableAccess × Result Data))
    (hlen : items.length ≤ maxAccessItems) {s : Server σ π N}
    {m : SliceWriter × (Result VariableAccess × Result Data) × Server σ π N}
    (hm : m ∈ Prog.met (writeItem S) (SliceWriter.new (zeros (maxAccessItems * 2))) items s) :
    m.1.pos + 2 ≤ m.1.buf.length := by
  have hstep (n : Nat) (w : SliceWriter) (s : Server σ π N) (x : Result VariableAccess × Result Data)
      (w' : SliceWriter) (s' : Server σ π N) (hroom : w.pos + 2 * (n + 1) ≤ w.buf.length)
      (hrun : writeItem S w x s = (.ok w', s')) : w'.pos + 2 * n ≤ w'.buf.length := by
    obtain ⟨entry, value⟩ := x
    match entry, value with
    | .error e, _ => cases hrun
    | .ok entry, .error e => cases hrun
    | .ok entry, .ok value =>
      obtain ⟨w₁, hrun₁, hg⟩ := writeItem_run S entry value (w := w) (by omega) s
      obtain ⟨hw, -⟩ := Prod.mk.inj (hrun₁.symm.trans hrun)
      obtain rfl := Except.ok.inj hw
      have hslot (outcome : DataAccessResult) : (writeSlot outcome).length ≤ 2 := by
        unfold writeSlot
        split <;> simp
      have := hslot (S.writeEntry s.store entry value).outcome
      have := hg.pos
      have := hg.room
      omega
  obtain ⟨-, n, hn⟩ := Prog.met_forall (P := fun n w _ => w.pos + 2 * n ≤ w.buf.length) items
    (by rw [SliceWriter.new_pos, SliceWriter.new_buf, length_zeros]; omega)
    (fun n w s x w' s' _ => hstep n w s x w' s') hm
  omega

/-- Each operation of an ACCESS request has room for its result. -/
theorem accessItem_room {items : List (Result AccessRequestSpecification × Result Data)}
    (hlen : items.length ≤ maxAccessItems) {s : Server σ π N}
    {m : (SliceWriter × SliceWriter) × (Result AccessRequestSpecification × Result Data) ×
      Server σ π N}
    (hm : m ∈ Prog.met (accessItem S)
      (SliceWriter.new (zeros N), SliceWriter.new (zeros (maxAccessItems * 2))) items s) :
    m.1.2.pos + 2 ≤ m.1.2.buf.length ∧ m.1.1.buf.length = N := by
  have hstep (n : Nat) (w : SliceWriter × SliceWriter) (s : Server σ π N)
      (x : Result AccessRequestSpecification × Result Data) (w' : SliceWriter × SliceWriter)
      (s' : Server σ π N)
      (hroom : w.2.pos + 2 * (n + 1) ≤ w.2.buf.length ∧ w.1.buf.length = N)
      (hrun : accessItem S w x s = (.ok w', s')) :
      w'.2.pos + 2 * n ≤ w'.2.buf.length ∧ w'.1.buf.length = N := by
    obtain ⟨spec, value⟩ := x
    match spec, value with
    | .error e, _ => cases hrun
    | .ok spec, .error e => cases hrun
    | .ok spec, .ok value =>
      have hitem := accessItem_run S spec value (w := w) (by omega) s
      dsimp only at hitem
      cases hout : (S.accessEntry s.store spec value w.1.buf.length w.1.pos).outcome with
      | none =>
        rw [hout] at hitem
        obtain ⟨e, hitem⟩ := hitem
        rw [hitem] at hrun
        cases hrun
      | some answer =>
        rw [hout] at hitem
        obtain ⟨w₁, hitem, hg₁, hg⟩ := hitem
        obtain rfl := Except.ok.inj (Prod.mk.inj (hitem.symm.trans hrun)).1
        have hsize : answer.1.encode.data.length = 2 := by cases answer.1 <;> rfl
        have := hg.pos
        have := hg.room
        exact ⟨by omega, hg₁.room.trans hroom.2⟩
  have hstart : (SliceWriter.new (zeros (maxAccessItems * 2))).pos + 2 * items.length ≤
      (SliceWriter.new (zeros (maxAccessItems * 2))).buf.length := by
    rw [SliceWriter.new_pos, SliceWriter.new_buf, length_zeros]
    omega
  obtain ⟨-, n, hn, hbuf⟩ := Prog.met_forall
    (P := fun n w _ => w.2.pos + 2 * n ≤ w.2.buf.length ∧ w.1.buf.length = N) items
    ⟨hstart, length_zeros N⟩ (fun n w s x w' s' _ => hstep n w s x w' s') hm
  exact ⟨by omega, hbuf⟩

end Srv

/-! ## One attribute, one method -/

/-- A GET of one attribute, into `len` bytes. A value that the store promised and did not write is
audited as read, and again as not. -/
def ObjectStore.getOne (S : ObjectStore σ) (st : σ) (d : AttributeDescriptor)
    (access : Option SelectiveAccess) (len : Nat) : Served σ (Except DataAccessResult Bytes) :=
  let r := S.readAt st d access len 0
  let done := S.audited st d access r (readAudit r.1.1)
  let again := AuditEvent.attributeRead d .otherReason
  if r.1 = (.ok (), []) then
    ⟨readOutcome r.1, S.audit done.store again, done.calls ++ [.audit again]⟩
  else ⟨readOutcome r.1, done.store, done.calls⟩

namespace Srv

variable (C : CryptoProvider π) (S : ObjectStore σ)

/-- A GET response for an outcome. -/
def reportGet (i : InvokeId) (outcome : Except DataAccessResult Bytes) (room : Nat) :
    Srv σ π N Bytes := do
  match outcome with
  | .error e => getError C i e room
  | .ok v =>
    if ← Prog.gets fun s => s.fitsOne normalHeaderMax v.length then do
      let data ← Prog.ofExcept (Read.fromBytes Data.decode v)
      send C (.getResponse (.normal i (.data data))) room
    else do
      let negotiated ← Prog.gets Server.negotiated
      if !negotiated.contains .blockTransferWithGetOrRead then
        getError C i .dataBlockUnavailable room
      else do
        putResponse 0 v v.length
        setTransfer (.sending i .get v.length 0 0)
        sendNextBlock C room

/-- An ACTION response for an outcome. -/
def reportAction (i : InvokeId) (outcome : Except ActionResult (Option Bytes)) (room : Nat) :
    Srv σ π N Bytes := do
  match outcome with
  | .error e => actionError C i e room
  | .ok none => send C (.actionResponse (.normal i ⟨.success, none⟩)) room
  | .ok (some v) =>
    if ← Prog.gets fun s => s.fitsOne actionHeaderMax v.length then do
      let data ← Prog.ofExcept (Read.fromBytes Data.decode v)
      send C (.actionResponse (.normal i ⟨.success, some (.data data)⟩)) room
    else do
      putResponse 0 v v.length
      deliverBlocked C i .action v.length room

theorem getNormal_run (i : InvokeId) (d : AttributeDescriptor) (access : Option SelectiveAccess)
    (room : Nat) (s : Server σ π N) :
    let r := S.getOne s.store d access N
    getNormal C S i d access room s = reportGet C i r.outcome room
      (({ s with transfer := .idle } : Server σ π N).asked r.store r.calls) := by
  unfold getNormal ObjectStore.getOne ObjectStore.audited ObjectStore.readAt ObjectStore.readCalls
  rw [setTransfer, Prog.modify_bind_run, Prog.bind_run_ok (attributeAccess_run S .read d _)]
  dsimp only
  by_cases h : (S.attributeAccess s.store d).1.canRead = true
  · rw [if_neg (by simp [h])]
    simp only [h, if_true]
    obtain ⟨w, hget, hg⟩ := getAttribute_sink S d access (SliceWriter.new (zeros N))
      (({ s with transfer := .idle } : Server σ π N).asked (S.attributeAccess s.store d).2
        [.attributeAccess .read d (S.attributeAccess s.store d).1])
    rw [Prog.bind_run_ok hget, Server.asked_asked, List.singleton_append]
    rw [Server.asked_store, SliceWriter.new_buf, SliceWriter.new_pos, length_zeros] at hg ⊢
    generalize (S.getAttribute (S.attributeAccess s.store d).2 d access).sink N 0 = r at hg ⊢
    obtain ⟨⟨result, st⟩, v⟩ := r
    have hslice : w.asSlice = v := by rw [hg.slice, SliceWriter.new_asSlice, List.nil_append]
    have hpos : w.pos = v.length := by rw [hg.pos, SliceWriter.new_pos, Nat.zero_add]
    cases result with
    | error e =>
      dsimp only
      rw [Prog.bind_run_ok (auditRead_asked ..), Server.asked_asked, if_neg (by simp)]
      rfl
    | ok u =>
      dsimp only
      rw [Prog.bind_run_ok (auditRead_asked ..), Server.asked_asked, hslice, hpos]
      by_cases hv : v = []
      · rw [if_pos (by rw [hv]; rfl), if_pos (by rw [hv]), Prog.bind_run_ok (auditRead_asked ..),
          Server.asked_asked, readOutcome, if_pos hv]
        rfl
      · rw [if_neg (by simpa using hv), if_neg (by simpa using hv), readOutcome, if_neg hv]
        rfl
  · rw [if_pos (by simpa using h)]
    simp only [h, Bool.false_eq_true, if_false]
    rw [Prog.bind_run_ok (auditRead_asked ..), Server.asked_asked]
    rw [if_neg (by simp)]
    rfl

theorem answerMethod_eq (i : InvokeId) (outcome : Except ActionResult Bool) (v : Bytes) (room : Nat) :
    (answerMethod C i outcome v room : Srv σ π N Bytes) =
      reportAction C i (runOutcome (outcome, v)) room := by
  unfold answerMethod reportAction runOutcome
  match outcome with
  | .error e => rfl
  | .ok false => rfl
  | .ok true =>
    dsimp only
    by_cases hv : v = []
    · rw [if_pos hv, if_pos hv]
    · rw [if_neg hv, if_neg hv]

theorem invokeAndAnswer_report (i : InvokeId) (d : MethodDescriptor) (parameters : Option Data)
    (room : Nat) (s : Server σ π N) :
    invokeAndAnswer C S i d parameters room s =
      reportAction C i (runOutcome (S.runAt s.store d parameters N 0).1) room
        (s.asked (S.ranAt s.store d parameters N 0) (S.runCalls s.store d parameters N 0)) := by
  unfold invokeAndAnswer
  obtain ⟨w, hrun, hg⟩ := runMethod_sink S d parameters (SliceWriter.new (zeros N)) s
  rw [SliceWriter.new_buf, SliceWriter.new_pos, length_zeros] at hrun hg
  rw [Prog.bind_run_ok hrun]
  dsimp only
  rw [answerMethod_eq, hg.slice, SliceWriter.new_asSlice, List.nil_append]

end Srv

end Dlms
