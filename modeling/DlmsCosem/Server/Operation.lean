import DlmsCosem.Server.Reply
import DlmsCosem.Xdlms.Places

/-!
# What the services make of a store

A write and an invocation come with the question for the rights before them and the audit after them.
`ObjectStore.write` and `invoke` say what they come to for the store alone; the programs of the server
do that and record it (`Server.asked`).

`Server.Brings` is the other end: an APDU that the server takes for a certain request.
-/

namespace Dlms

/-! ## Operations of a store -/

namespace ObjectStore

variable {σ : Type} (S : ObjectStore σ)

/-- A write, where the rights allow it. -/
def put (st : σ) (d : AttributeDescriptor) (access : Option SelectiveAccess) (value : Data) :
    DataAccessResult × σ :=
  let asked := S.attributeAccess st d
  if asked.1.canWrite then
    match S.setAttribute asked.2 d access value with
    | (.ok (), st) => (.success, st)
    | (.error e, st) => (e, st)
  else (.readWriteDenied, asked.2)

/-- `put`, and the audit of it. -/
def write (st : σ) (d : AttributeDescriptor) (access : Option SelectiveAccess) (value : Data) :
    DataAccessResult × σ :=
  let done := S.put st d access value
  (done.1, S.audit done.2 (.attributeWritten d done.1))

/-- What a write asks of the store. -/
def writeCalls (st : σ) (d : AttributeDescriptor) (access : Option SelectiveAccess) (value : Data) :
    List StoreCall :=
  let rights := (S.attributeAccess st d).1
  .attributeAccess .write d rights :: (if rights.canWrite then [.setAttribute d access value] else []) ++
    [.audit (.attributeWritten d (S.put st d access value).1)]

/-- An invocation, where the rights allow it. -/
def act (st : σ) (d : MethodDescriptor) (parameters : Option Data) (w : SliceWriter) :
    (Except ActionResult Bool × σ) × SliceWriter :=
  let asked := S.methodAccess st d
  if asked.1.canInvoke then (S.invokeMethod asked.2 d parameters).run w
  else ((.error .readWriteDenied, asked.2), w)

/-- The outcome of a method as the audit has it. -/
def auditOf : Except ActionResult Bool → ActionResult
  | .ok _ => .success
  | .error e => e

/-- `act`, and the audit of it. -/
def invoke (st : σ) (d : MethodDescriptor) (parameters : Option Data) (w : SliceWriter) :
    (Except ActionResult Bool × σ) × SliceWriter :=
  let done := S.act st d parameters w
  ((done.1.1, S.audit done.1.2 (.methodInvoked d (auditOf done.1.1))), done.2)

/-- What an invocation asks of the store. -/
def invokeCalls (st : σ) (d : MethodDescriptor) (parameters : Option Data) (w : SliceWriter) :
    List StoreCall :=
  let rights := (S.methodAccess st d).1
  .methodAccess d rights :: (if rights.canInvoke then [.invokeMethod d parameters] else []) ++
    [.audit (.methodInvoked d (auditOf (S.act st d parameters w).1.1))]

/-- Asking for the rights changes nothing (`&self`). -/
structure AsksLeave : Prop where
  rights : ∀ st d, (S.attributeAccess st d).2 = st
  methodRights : ∀ st d, (S.methodAccess st d).2 = st

/-- The store goes by the values that it is handed, not by where in a frame they stood. -/
structure SeesValues : Prop where
  set : ∀ st d access access' value value',
    access.map SelectiveAccess.unplaced = access'.map SelectiveAccess.unplaced → value.Same value' →
    S.setAttribute st d access value = S.setAttribute st d access' value'
  method : ∀ st d parameters parameters',
    parameters.map Data.unplaced = parameters'.map Data.unplaced →
    S.invokeMethod st d parameters = S.invokeMethod st d parameters'

variable {S}

theorem SeesValues.write_eq (h : S.SeesValues) (st : σ) (d : AttributeDescriptor)
    {access access' : Option SelectiveAccess} {value value' : Data}
    (ha : access.map SelectiveAccess.unplaced = access'.map SelectiveAccess.unplaced)
    (hv : value.Same value') : S.write st d access value = S.write st d access' value' := by
  unfold write put
  dsimp only
  rw [h.set _ d access access' value value' ha hv]

theorem SeesValues.invoke_eq (h : S.SeesValues) (st : σ) (d : MethodDescriptor)
    {parameters parameters' : Option Data} (w : SliceWriter)
    (hp : parameters.map Data.unplaced = parameters'.map Data.unplaced) :
    S.invoke st d parameters w = S.invoke st d parameters' w := by
  unfold invoke act
  dsimp only
  rw [h.method _ d parameters parameters' hp]

end ObjectStore

variable {σ π : Type} {N : Nat}

/-! ## The server that asked -/

namespace Server

/-- The server after its store was asked. -/
def asked (s : Server σ π N) (st : σ) (calls : List StoreCall) : Server σ π N :=
  { s with store := st, trace := s.trace ++ calls.map .store }

@[simp] theorem asked_store (s : Server σ π N) (st : σ) (calls : List StoreCall) :
    (s.asked st calls).store = st := rfl

@[simp] theorem asked_asked (s : Server σ π N) (st st' : σ) (calls calls' : List StoreCall) :
    (s.asked st calls).asked st' calls' = s.asked st' (calls ++ calls') := by
  simp [asked]

/-- What was asked shows. -/
theorem asked_inj {s : Server σ π N} {st st' : σ} {calls calls' : List StoreCall}
    (h : s.asked st calls = s.asked st' calls') : st = st' ∧ calls = calls' := by
  refine ⟨congrArg Server.store h, ?_⟩
  have htrace : s.trace ++ calls.map .store = s.trace ++ calls'.map .store := congrArg Server.trace h
  exact List.map_injective_iff.mpr (fun _ _ => Event.store.inj) (List.append_cancel_left htrace)

theorem asked_nil (s : Server σ π N) : s.asked s.store [] = s := by
  simp [asked]

end Server

namespace Srv

variable (C : CryptoProvider π) (S : ObjectStore σ)

theorem attributeAccess_run (op : Operation) (d : AttributeDescriptor) (s : Server σ π N) :
    attributeAccess S op d s = (.ok (S.attributeAccess s.store d).1,
      s.asked (S.attributeAccess s.store d).2
        [.attributeAccess op d (S.attributeAccess s.store d).1]) := rfl

theorem methodAccess_run (d : MethodDescriptor) (s : Server σ π N) :
    methodAccess S d s = (.ok (S.methodAccess s.store d).1,
      s.asked (S.methodAccess s.store d).2 [.methodAccess d (S.methodAccess s.store d).1]) := rfl

theorem resolveShortName_run (name : ObjectName) (s : Server σ π N) :
    resolveShortName S name s = (.ok (S.resolveShortName s.store name).1,
      s.asked (S.resolveShortName s.store name).2
        [.resolveShortName name (S.resolveShortName s.store name).1]) := rfl

theorem setAttribute_run (d : AttributeDescriptor) (access : Option SelectiveAccess) (value : Data)
    (s : Server σ π N) :
    setAttribute S d access value s = (.ok (S.setAttribute s.store d access value).1,
      s.asked (S.setAttribute s.store d access value).2 [.setAttribute d access value]) := rfl

theorem invokeMethod_run (d : MethodDescriptor) (parameters : Option Data) (w : SliceWriter)
    (s : Server σ π N) :
    invokeMethod S d parameters w s =
      (.ok (((S.invokeMethod s.store d parameters).run w).1.1,
        ((S.invokeMethod s.store d parameters).run w).2),
        s.asked ((S.invokeMethod s.store d parameters).run w).1.2 [.invokeMethod d parameters]) := rfl

theorem getAttribute_run (d : AttributeDescriptor) (access : Option SelectiveAccess)
    (w : SliceWriter) (s : Server σ π N) :
    getAttribute S d access w s =
      (.ok (((S.getAttribute s.store d access).run w).1.1,
        ((S.getAttribute s.store d access).run w).2),
        s.asked ((S.getAttribute s.store d access).run w).1.2 [.getAttribute d access]) := rfl

theorem audit_asked (e : AuditEvent) (s : Server σ π N) :
    audit S e s = (.ok (), s.asked (S.audit s.store e) [.audit e]) := rfl

theorem writeOne_run (d : AttributeDescriptor) (access : Option SelectiveAccess) (value : Data)
    (s : Server σ π N) :
    writeOne S d access value s = (.ok (S.write s.store d access value).1,
      s.asked (S.write s.store d access value).2 (S.writeCalls s.store d access value)) := by
  unfold ObjectStore.write ObjectStore.writeCalls ObjectStore.put writeOne
  rw [Prog.bind_run_ok (attributeAccess_run S .write d s)]
  dsimp only
  by_cases h : (S.attributeAccess s.store d).1.canWrite = true
  · simp only [h, if_true]
    rw [Prog.bind_run, Prog.bind_run_ok (setAttribute_run S d access value _)]
    match S.setAttribute (S.attributeAccess s.store d).2 d access value with
    | (.ok (), st) =>
      simp only [Prog.pure_run]
      rw [Prog.bind_run_ok (audit_asked S _ _)]
      simp
    | (.error e, st) =>
      simp only [Prog.pure_run]
      rw [Prog.bind_run_ok (audit_asked S _ _)]
      simp
  · simp only [h, Bool.false_eq_true, if_false, Prog.pure_bind_run]
    rw [Prog.bind_run_ok (audit_asked S _ _)]
    simp

theorem runMethod_run (d : MethodDescriptor) (parameters : Option Data) (w : SliceWriter)
    (s : Server σ π N) :
    runMethod S d parameters w s =
      (.ok ((S.invoke s.store d parameters w).1.1, (S.invoke s.store d parameters w).2),
        s.asked (S.invoke s.store d parameters w).1.2 (S.invokeCalls s.store d parameters w)) := by
  unfold ObjectStore.invoke ObjectStore.invokeCalls ObjectStore.act runMethod
  rw [Prog.bind_run_ok (methodAccess_run S d s)]
  dsimp only
  by_cases h : (S.methodAccess s.store d).1.canInvoke = true
  · simp only [h, if_true]
    rw [Prog.bind_run_ok (invokeMethod_run S d parameters w _)]
    dsimp only
    rw [Prog.bind_run_ok (audit_asked S _ _)]
    simp only [List.cons_append, List.nil_append, Server.asked_asked, Prog.pure_run]
    rfl
  · simp only [h, Bool.false_eq_true, if_false, Prog.pure_bind_run]
    rw [Prog.bind_run_ok (audit_asked S _ _)]
    simp [ObjectStore.auditOf]

/-! ## Requests that are not refused -/

theorem serving_run {s : Server σ π N} {required : Conformance} {m : Srv σ π N Bytes} (room : Nat)
    (h : s.state = .associated ∧ s.negotiated.contains required = true) :
    serving C required room m s = m s := by
  simp only [serving, Prog.gets_bind_run]
  rw [if_neg (by simpa using h.1), if_neg (by simpa using h.2)]

theorem withReferences_run {s : Server σ π N} {m : Srv σ π N Bytes} (room : Nat)
    (h : s.negotiated.contains .multipleReferences = true) :
    withReferences C room m s = m s := by
  simp only [withReferences, Prog.gets_bind_run]
  rw [if_neg (by simpa using h)]

theorem handleAction_run {s : Server σ π N} {req : ActionRequest} (room : Nat)
    (h : s.state = .associated) : handleAction C S req room s = serveAction C S req room s := by
  simp only [handleAction, Prog.gets_bind_run]
  rw [if_neg (by simp [h])]

/-- A SET of one attribute. -/
theorem setNormal_run {s : Server σ π N} (i : InvokeId) (d : AttributeDescriptor)
    (access : Option SelectiveAccess) (value : Data) (room : Nat)
    (h : s.state = .associated ∧ s.negotiated.contains .set = true) :
    serveRequest C S (.setRequest (.normal i d access value)) room s =
      send C (.setResponse (.normal i (S.write s.store d access value).1)) room
        (({ s with transfer := .idle } : Server σ π N).asked (S.write s.store d access value).2
          (S.writeCalls s.store d access value)) := by
  have hrun : serveRequest C S (.setRequest (.normal i d access value)) room s =
      (setTransfer .idle >>= fun _ => writeOne S d access value >>= fun result =>
        send C (.setResponse (.normal i result)) room) s := serving_run C room h
  rw [hrun, setTransfer, Prog.modify_bind_run, Prog.bind_run_ok (writeOne_run ..)]

theorem invokeAndAnswer_run (i : InvokeId) (d : MethodDescriptor) (parameters : Option Data)
    (room : Nat) (s : Server σ π N) :
    invokeAndAnswer C S i d parameters room s =
      answerMethod C i (S.invoke s.store d parameters (SliceWriter.new (zeros N))).1.1
        (S.invoke s.store d parameters (SliceWriter.new (zeros N))).2.asSlice room
        (s.asked (S.invoke s.store d parameters (SliceWriter.new (zeros N))).1.2
          (S.invokeCalls s.store d parameters (SliceWriter.new (zeros N)))) := by
  unfold invokeAndAnswer
  rw [Prog.bind_run_ok (runMethod_run ..)]

/-- An ACTION of one method. -/
theorem actionNormal_run {s : Server σ π N} (i : InvokeId) (d : MethodDescriptor)
    (parameters : Option Data) (room : Nat)
    (h : s.state = .associated ∧ s.negotiated.contains .action = true) :
    serveRequest C S (.actionRequest (.normal i d parameters)) room s =
      invokeAndAnswer C S i d parameters room { s with transfer := .idle } := by
  have hrun : serveRequest C S (.actionRequest (.normal i d parameters)) room s =
      serveAction C S (.normal i d parameters) room s := handleAction_run C S room h.1
  have hserve : serveAction C S (.normal i d parameters) room s =
      (setTransfer .idle >>= fun _ => invokeAndAnswer C S i d parameters room) s :=
    serving_run C room h
  rw [hrun, hserve, setTransfer, Prog.modify_bind_run]

end Srv

/-! ## Requests as they arrive -/

/-- The server `s` takes the APDU for the request `req`, and is `t` once it has taken it out. -/
structure Server.Brings (C : CryptoProvider π) (s : Server σ π N) (apdu : Bytes) (req : Apdu)
    (t : Server σ π N) : Prop where
  short : apdu.length ≤ s.config.maxPduSize.toNat
  head : ∃ tag, ApduTag.fromU8 (apdu.headD 0) = some tag ∧ tag ≠ .aarq ∧ tag ≠ .releaseRequest
  live : s.state = .associated ∨ s.state = .awaitingHlsReply
  opened : ∃ opened, (Srv.unprotectInto C apdu s).1 = .ok opened ∧
    Apdu.fromBytes opened.plain = .ok req ∧
    t = (Srv.unprotectInto C apdu s).2.log (.request opened.frame req)

namespace Server.Brings

variable {C : CryptoProvider π} {s t : Server σ π N} {apdu : Bytes} {req : Apdu}

/-- What is brought is served. -/
theorem handle (h : s.Brings C apdu req t) (S : ObjectStore σ) (room : Nat) (rng : Entropy) :
    Srv.handle C S apdu room rng s = Srv.serveRequest C S req room t := by
  obtain ⟨tag, htag, haarq, hrelease⟩ := h.head
  obtain ⟨opened, hopened, hreq, rfl⟩ := h.opened
  have hproto : Srv.handleProtected C S apdu room s = Srv.serveRequest C S req room
      ((Srv.unprotectInto C apdu s).2.log (.request opened.frame req)) := by
    rw [Srv.handleProtected, Prog.try'_bind_run, hopened]
    simp only [hreq]
    rfl
  rw [← hproto, Srv.handle, Prog.gets_bind_run, if_neg (by have := h.short; omega), htag]
  have hlive : ¬ (s.state ≠ .associated ∧ s.state ≠ .awaitingHlsReply) := by
    have := h.live
    tauto
  cases tag with
  | aarq => exact absurd rfl haarq
  | releaseRequest => exact absurd rfl hrelease
  | _ => exact congrFun (if_neg hlive) s

/-- Taking a request out moves the window, and nothing else. -/
theorem after (h : s.Brings C apdu req t) :
    ∃ w ev, t = { s with peerReplay := w, trace := s.trace ++ ev } ∧ ∀ call, Event.store call ∉ ev := by
  obtain ⟨opened, -, -, rfl⟩ := h.opened
  obtain ⟨w, fs, hs, hfs⟩ := Srv.unprotectInto_state C s apdu
  refine ⟨w, fs ++ [.request opened.frame req], ?_, ?_⟩
  · rw [hs]
    simp [Server.log]
  · rcases hfs with rfl | ⟨f, rfl⟩ <;> simp

end Server.Brings

end Dlms
