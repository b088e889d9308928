import DlmsCosem.Server.Alignment
import DlmsCosem.Server.ShortNames

/-!
# Operations one by one

A `Single` is an operation that a client asks for in a request of its own. `ObjectStore.perform` is
what it comes to for the store, and `ObjectStore.each` what several come to one after another.
`Server.OneByOne` is a server that is sent their requests: `Server.Receives.one_by_one` shows that it
does what `each` says, whatever else the requests change in it.
-/

namespace Dlms

variable {σ π : Type} {N : Nat}

/-! ## What was asked of the store -/

/-- The call that an event records, without the places of its values. -/
def Event.call : Event → Option StoreCall
  | .store call => some call.unplaced
  | _ => none

namespace Server

/-- What was asked of the store so far. -/
def calls (s : Server σ π N) : List StoreCall := s.trace.filterMap Event.call

theorem calls_append {s t : Server σ π N} {ev : List Event} (h : t.trace = s.trace ++ ev)
    (hev : ∀ call, Event.store call ∉ ev) : t.calls = s.calls := by
  have hnone : ev.filterMap Event.call = [] := by
    rw [List.filterMap_eq_nil_iff]
    intro e he
    cases e with
    | store call => exact absurd he (hev call)
    | _ => rfl
  rw [calls, h, List.filterMap_append, hnone, List.append_nil, calls]

theorem calls_asked (s : Server σ π N) (st : σ) (calls : List StoreCall) :
    (s.asked st calls).calls = s.calls ++ calls.map StoreCall.unplaced := by
  have hsome : Event.call ∘ Event.store = some ∘ StoreCall.unplaced := rfl
  rw [Server.calls, asked, List.filterMap_append, List.filterMap_map, hsome, List.filterMap_eq_map]
  rfl

/-- The association goes on, and the store was not asked. -/
structure Untouched (s t : Server σ π N) : Prop where
  state : t.state = s.state
  negotiated : t.negotiated = s.negotiated
  store : t.store = s.store
  calls : t.calls = s.calls

theorem Untouched.trans {s t u : Server σ π N} (h : s.Untouched t) (h' : t.Untouched u) :
    s.Untouched u :=
  ⟨h'.state.trans h.state, h'.negotiated.trans h.negotiated, h'.store.trans h.store,
    h'.calls.trans h.calls⟩

theorem Untouched.delivering :
    Delivering (Untouched : Server σ π N → Server σ π N → Prop) where
  refl s := ⟨rfl, rfl, rfl, rfl⟩
  trans _ _ _ h h' := h.trans h'
  marked h := ⟨h.state, h.negotiated, h.store, h.calls⟩
  emitted h := by
    obtain ⟨scratch, counter, ev, rfl, hev⟩ := h
    exact ⟨rfl, rfl, rfl, calls_append rfl fun call hcall => hev _ hcall⟩

theorem Untouched.of_brings {C : CryptoProvider π} {s t : Server σ π N} {apdu : Bytes} {req : Apdu}
    (h : s.Brings C apdu req t) : s.Untouched t := by
  obtain ⟨w, ev, rfl, hev⟩ := h.after
  exact ⟨rfl, rfl, rfl, calls_append rfl hev⟩

namespace Delivering

variable {R : Server σ π N → Server σ π N → Prop} (hR : Delivering R) (C : CryptoProvider π)
include hR

/-- A value that takes more than one APDU. -/
theorem sending (transfer : Transfer) (room : Nat) :
    Prog.Keeps R (do Srv.setTransfer transfer; Srv.sendNextBlock C room : Srv σ π N Bytes) :=
  hR.bind (hR.setTransfer _) fun _ => hR.sendNextBlock ..

theorem reportGet (i : InvokeId) (outcome : Except DataAccessResult Bytes) (room : Nat) :
    Prog.Keeps R (Srv.reportGet C i outcome room : Srv σ π N Bytes) := by
  cases outcome with
  | error e => exact hR.send ..
  | ok v =>
    refine hR.bind (hR.gets _) fun fits => ?_
    split
    · exact hR.bind (hR.ofExcept _) fun _ => hR.send ..
    · refine hR.bind (hR.gets _) fun negotiated => ?_
      split
      · exact hR.send ..
      · exact hR.bind (hR.putResponse ..) fun _ => hR.sending ..

theorem reportAction (i : InvokeId) (outcome : Except ActionResult (Option Bytes)) (room : Nat) :
    Prog.Keeps R (Srv.reportAction C i outcome room : Srv σ π N Bytes) := by
  match outcome with
  | .error e => exact hR.send ..
  | .ok none => exact hR.send ..
  | .ok (some v) =>
    refine hR.bind (hR.gets _) fun fits => ?_
    split
    · exact hR.bind (hR.ofExcept _) fun _ => hR.send ..
    · exact hR.bind (hR.putResponse ..) fun _ => hR.deliverBlocked ..

theorem countPrefix (count : Nat) : Prog.Keeps R (Srv.countPrefix count : Srv σ π N Bytes) :=
  hR.bind (hR.emit ..) fun _ => hR.pure _

theorem answerGetList (i : InvokeId) (count room : Nat) (w : SliceWriter) :
    Prog.Keeps R (Srv.answerGetList C i count room w : Srv σ π N Bytes) := by
  refine hR.bind (hR.countPrefix _) fun counted => hR.bind (hR.gets _) fun fits => ?_
  split
  · exact hR.send ..
  · refine hR.bind (hR.gets _) fun negotiated => ?_
    split
    · exact hR.send ..
    · exact hR.bind (hR.putResponse ..) fun _ => hR.bind (hR.putResponse ..) fun _ => hR.sending ..

theorem answerRead (count room : Nat) (w : SliceWriter) :
    Prog.Keeps R (Srv.answerRead C count room w : Srv σ π N Bytes) := by
  refine hR.bind (hR.countPrefix _) fun counted => hR.bind (hR.gets _) fun fits => ?_
  split
  · exact hR.send ..
  · refine hR.bind (hR.gets _) fun negotiated => ?_
    split
    · exact hR.readError ..
    · exact hR.bind (hR.putResponse ..) fun _ => hR.sending ..

end Delivering

end Server

/-! ## Stores that do not look at the room -/

/-- The store goes by what it is asked, and not by where in a frame the values stood. -/
structure ObjectStore.SeesRequests (S : ObjectStore σ) : Prop extends S.SeesValues where
  selector : ∀ st d access access',
    access.map SelectiveAccess.unplaced = access'.map SelectiveAccess.unplaced →
    S.getAttribute st d access = S.getAttribute st d access'

/-- Nor does it go by the room that there is for what it writes, as long as that fits. -/
structure ObjectStore.Steady (S : ObjectStore σ) (N : Nat) : Prop extends S.SeesRequests where
  read : ∀ st d access pos pos', pos ≤ pos' →
    pos' + ((S.getAttribute st d access).sink N pos).2.length ≤ N →
    (S.getAttribute st d access).sink N pos' = (S.getAttribute st d access).sink N pos
  run : ∀ st d parameters pos pos', pos ≤ pos' →
    pos' + ((S.invokeMethod st d parameters).sink N pos).2.length ≤ N →
    (S.invokeMethod st d parameters).sink N pos' = (S.invokeMethod st d parameters).sink N pos

namespace ObjectStore.SeesRequests

variable {S : ObjectStore σ} (h : S.SeesRequests) {st : σ} {pos : Nat}
include h

theorem readAt_like {d : AttributeDescriptor} {access access' : Option SelectiveAccess}
    (ha : access.map SelectiveAccess.unplaced = access'.map SelectiveAccess.unplaced)
    (len : Nat) : S.readAt st d access len pos = S.readAt st d access' len pos := by
  unfold readAt
  dsimp only
  rw [h.selector _ d access access' ha]

theorem runAt_like {d : MethodDescriptor} {parameters parameters' : Option Data}
    (hp : parameters.map Data.unplaced = parameters'.map Data.unplaced) (len : Nat) :
    S.runAt st d parameters len pos = S.runAt st d parameters' len pos := by
  unfold runAt
  dsimp only
  rw [h.method _ d parameters parameters' hp]

end ObjectStore.SeesRequests

namespace ObjectStore.Steady

variable {S : ObjectStore σ} (h : S.Steady N) {st : σ} {pos pos' : Nat} (hpos : pos ≤ pos')
include h hpos

/-- A read further on. -/
theorem readAt_eq {d : AttributeDescriptor} {access : Option SelectiveAccess}
    (hfit : pos' + (S.readAt st d access N pos).1.2.length ≤ N) :
    S.readAt st d access N pos' = S.readAt st d access N pos := by
  unfold readAt at hfit ⊢
  dsimp only at hfit ⊢
  by_cases hr : (S.attributeAccess st d).1.canRead = true
  · simp only [hr, if_true] at hfit ⊢
    rw [h.read _ d access pos pos' hpos hfit]
  · simp only [hr, Bool.false_eq_true, if_false]

/-- An invocation further on. -/
theorem runAt_eq {d : MethodDescriptor} {parameters : Option Data}
    (hfit : pos' + (S.runAt st d parameters N pos).1.2.length ≤ N) :
    S.runAt st d parameters N pos' = S.runAt st d parameters N pos := by
  unfold runAt at hfit ⊢
  dsimp only at hfit ⊢
  by_cases hr : (S.methodAccess st d).1.canInvoke = true
  · simp only [hr, if_true] at hfit ⊢
    rw [h.run _ d parameters pos pos' hpos hfit]
  · simp only [hr, Bool.false_eq_true, if_false]

/-- An entry of a short-name read further on. -/
theorem readEntry_eq {entry : VariableAccess}
    (hfit : pos' + (S.readEntry st entry N pos).outcome.2.length ≤ N) :
    S.readEntry st entry N pos' = S.readEntry st entry N pos := by
  unfold readEntry at hfit ⊢
  cases hentry : Srv.namedEntry entry with
  | none => rfl
  | some named =>
    obtain ⟨name, access⟩ := named
    rw [hentry] at hfit
    dsimp only at hfit ⊢
    generalize S.resolveShortName st name = asked at hfit ⊢
    obtain ⟨target, st⟩ := asked
    match target with
    | none => rfl
    | some (.attribute d) =>
      dsimp only [audited] at hfit ⊢
      rw [h.readAt_eq hpos hfit]
    | some (.method d) =>
      dsimp only at hfit ⊢
      generalize hv : (S.runAt st d (access.map SelectiveAccess.parameters) N pos).1 = r at hfit
      have hle : r.2.length ≤ (calledAs (N - pos) r).2.length := by
        match r with
        | (.error e, v) => exact Nat.le_refl _
        | (.ok true, v) => exact Nat.le_refl _
        | (.ok false, v) =>
          dsimp only [calledAs]
          split <;> simp
      have hrun : S.runAt st d (access.map SelectiveAccess.parameters) N pos' =
          S.runAt st d (access.map SelectiveAccess.parameters) N pos :=
        h.runAt_eq hpos (by rw [hv]; omega)
      -- The placeholder fits in both places, or in neither.
      have hcalled : calledAs (N - pos') r = calledAs (N - pos) r := by
        match r with
        | (.error e, v) => rfl
        | (.ok true, v) => rfl
        | (.ok false, v) =>
          dsimp only [calledAs] at hfit ⊢
          by_cases hroom : v.length < N - pos
          · rw [if_pos hroom, List.length_append, List.length_singleton] at hfit
            rw [if_pos hroom, if_pos (by omega)]
          · rw [if_neg hroom] at hfit
            rw [if_neg hroom, if_neg (by omega)]
      unfold ranAt runCalls
      rw [hrun, hv, hcalled]

end ObjectStore.Steady

/-! ## Operations -/

/-- What is named, without the place of its parameter. -/
def VariableAccess.unplaced : VariableAccess → VariableAccess
  | parameterized name selector parameter => parameterized name selector parameter.unplaced
  | entry => entry

/-- An operation that a request of its own asks for. -/
inductive Single
  | get (d : AttributeDescriptor) (access : Option SelectiveAccess)
  | set (d : AttributeDescriptor) (access : Option SelectiveAccess) (value : Data)
  | action (d : MethodDescriptor) (parameters : Option Data)
  | read (entry : VariableAccess)
  | write (entry : VariableAccess) (value : Data)

/-- What the client is told of it. -/
inductive Told
  | get (outcome : Except DataAccessResult Bytes)
  | set (result : DataAccessResult)
  | action (outcome : Except ActionResult (Option Bytes))
  | read (outcome : Except DataAccessResult Bytes)
  | write (result : DataAccessResult)

namespace Single

/-- The operation, without the places of its values. -/
def unplaced : Single → Single
  | get d access => get d (access.map SelectiveAccess.unplaced)
  | set d access value => set d (access.map SelectiveAccess.unplaced) value.unplaced
  | action d parameters => action d (parameters.map Data.unplaced)
  | read entry => read entry.unplaced
  | write entry value => write entry.unplaced value.unplaced

/-- The request that asks for the operation and for nothing else. A block number names none. -/
inductive Asks (i : InvokeId) : Single → Apdu → Prop
  | get (d : AttributeDescriptor) (access : Option SelectiveAccess) :
    Asks i (get d access) (.getRequest (.normal i d access))
  | set (d : AttributeDescriptor) (access : Option SelectiveAccess) (value : Data) :
    Asks i (set d access value) (.setRequest (.normal i d access value))
  | action (d : MethodDescriptor) (parameters : Option Data) :
    Asks i (action d parameters) (.actionRequest (.normal i d parameters))
  | read {entry : VariableAccess} {req : ReadRequest} :
    req.specification.iter VariableAccess.decode = [.ok entry] → (∀ n, entry ≠ .blockNumber n) →
    Asks i (read entry) (.readRequest req)
  | write {entry : VariableAccess} {value : Data} {req : WriteRequest} :
    req.specification.iter VariableAccess.decode = [.ok entry] →
    req.values.iter Data.decode = [.ok value] → Asks i (write entry value) (.writeRequest req)

/-- What it needs agreed to. -/
def required : Single → Conformance
  | get _ _ => .get
  | set _ _ _ => .set
  | action _ _ => .action
  | read _ => .read
  | write _ _ => .write

end Single

/-- How the reply to a request for one operation reports what came of it. -/
inductive Told.Reported (C : CryptoProvider π) (i : InvokeId) (room : Nat) :
    Told → Srv σ π N Bytes → Prop
  | get (outcome : Except DataAccessResult Bytes) :
    Reported C i room (get outcome) (Srv.reportGet C i outcome room)
  | set (result : DataAccessResult) :
    Reported C i room (set result) (Srv.send C (.setResponse (.normal i result)) room)
  | action (outcome : Except ActionResult (Option Bytes)) :
    Reported C i room (action outcome) (Srv.reportAction C i outcome room)
  | read {outcome : Except DataAccessResult Bytes} {w : SliceWriter} : w.asSlice = readSlot outcome →
    Reported C i room (read outcome) (Srv.answerRead C 1 room w)
  | write (result : DataAccessResult) :
    Reported C i room (write result) (Srv.send C (.writeResponse ⟨.fromRaw 1 (writeSlot result)⟩) room)

theorem Told.Reported.keeps {C : CryptoProvider π} {i : InvokeId} {room : Nat} {told : Told}
    {m : Srv σ π N Bytes} (h : told.Reported C i room m)
    {R : Server σ π N → Server σ π N → Prop} (hR : Server.Delivering R) : Prog.Keeps R m := by
  cases h with
  | get => exact hR.reportGet ..
  | set => exact hR.send ..
  | action => exact hR.reportAction ..
  | read => exact hR.answerRead ..
  | write => exact hR.send ..

namespace ObjectStore

variable (S : ObjectStore σ)

/-- What an operation comes to, where the server has buffers of `N` bytes. -/
def perform (N : Nat) (st : σ) : Single → Served σ Told
  | .get d access =>
    let r := S.getOne st d access N
    ⟨.get r.outcome, r.store, r.calls⟩
  | .set d access value =>
    ⟨.set (S.write st d access value).1, (S.write st d access value).2, S.writeCalls st d access value⟩
  | .action d parameters =>
    ⟨.action (runOutcome (S.runAt st d parameters N 0).1), S.ranAt st d parameters N 0,
      S.runCalls st d parameters N 0⟩
  | .read entry =>
    let r := S.readEntry st entry N 1
    ⟨.read (readOutcome r.outcome), r.store, r.calls⟩
  | .write entry value =>
    let r := S.writeEntry st entry value
    ⟨.write r.outcome, r.store, r.calls⟩

/-- What several operations come to, one after another. -/
def each (N : Nat) : σ → List Single → Served σ (List Told)
  | st, [] => ⟨[], st, []⟩
  | st, x :: xs =>
    let r := S.perform N st x
    let rest := each N r.store xs
    ⟨r.outcome :: rest.outcome, rest.store, r.calls ++ rest.calls⟩

theorem each_cons (N : Nat) (st : σ) (x : Single) (xs : List Single) :
    let r := S.perform N st x
    let rest := S.each N r.store xs
    S.each N st (x :: xs) = ⟨r.outcome :: rest.outcome, rest.store, r.calls ++ rest.calls⟩ := rfl

end ObjectStore

/-- What came of it is the same, but for the places of the values in the calls. -/
structure Served.Like {α : Type} (r r' : Served σ α) : Prop where
  outcome : r.outcome = r'.outcome
  store : r.store = r'.store
  calls : r.calls.map StoreCall.unplaced = r'.calls.map StoreCall.unplaced

theorem Srv.namedEntry_unplaced (entry : VariableAccess) : namedEntry entry.unplaced =
    (namedEntry entry).map fun x => (x.1, x.2.map SelectiveAccess.unplaced) := by
  cases entry <;> rfl

/-- The name, and the selector but for its place. -/
theorem Srv.namedEntry_like {entry entry' : VariableAccess} (h : entry.unplaced = entry'.unplaced) :
    (namedEntry entry = none ∧ namedEntry entry' = none) ∨ ∃ name access access',
      namedEntry entry = some (name, access) ∧ namedEntry entry' = some (name, access') ∧
        access.map SelectiveAccess.unplaced = access'.map SelectiveAccess.unplaced := by
  have hmap := congrArg namedEntry h
  rw [namedEntry_unplaced, namedEntry_unplaced] at hmap
  cases he : namedEntry entry with
  | none =>
    rw [he] at hmap
    exact .inl ⟨rfl, Option.map_eq_none_iff.mp hmap.symm⟩
  | some named =>
    rw [he] at hmap
    obtain ⟨named', he', hnamed⟩ := Option.map_eq_some_iff.mp hmap.symm
    obtain ⟨hname, haccess⟩ := Prod.mk.inj hnamed
    exact .inr ⟨named.1, named.2, named'.2, rfl, by rw [he', ← hname], haccess.symm⟩

namespace ObjectStore.SeesRequests

variable {S : ObjectStore σ} (h : S.SeesRequests) (st : σ)
include h

theorem getOne_like (d : AttributeDescriptor) {access access' : Option SelectiveAccess}
    (ha : access.map SelectiveAccess.unplaced = access'.map SelectiveAccess.unplaced) (len : Nat) :
    (S.getOne st d access len).Like (S.getOne st d access' len) := by
  unfold getOne audited readCalls
  dsimp only
  rw [h.readAt_like ha]
  constructor
  · split <;> rfl
  · split <;> rfl
  · by_cases hr : (S.attributeAccess st d).1.canRead = true
    · simp only [hr, if_true]
      split <;> simp [StoreCall.unplaced, ha]
    · simp only [hr, Bool.false_eq_true, if_false]

theorem write_like (d : AttributeDescriptor) {access access' : Option SelectiveAccess}
    {value value' : Data}
    (ha : access.map SelectiveAccess.unplaced = access'.map SelectiveAccess.unplaced)
    (hv : value.Same value') :
    (⟨(S.write st d access value).1, (S.write st d access value).2, S.writeCalls st d access value⟩ :
      Served σ DataAccessResult).Like ⟨(S.write st d access' value').1, (S.write st d access' value').2,
        S.writeCalls st d access' value'⟩ := by
  have hwrite := h.write_eq st d ha hv
  have hput : S.put st d access value = S.put st d access' value' := by
    unfold put
    dsimp only
    rw [h.set _ d access access' value value' ha hv]
  refine ⟨congrArg Prod.fst hwrite, congrArg Prod.snd hwrite, ?_⟩
  unfold writeCalls
  rw [hput]
  by_cases hw : (S.attributeAccess st d).1.canWrite = true
  · simp only [hw, if_true]
    simp [StoreCall.unplaced, ha, show value.unplaced = value'.unplaced from hv]
  · simp only [hw, Bool.false_eq_true, if_false]

theorem run_like (d : MethodDescriptor) {parameters parameters' : Option Data}
    (hp : parameters.map Data.unplaced = parameters'.map Data.unplaced) (len pos : Nat) :
    (⟨(S.runAt st d parameters len pos).1, S.ranAt st d parameters len pos,
      S.runCalls st d parameters len pos⟩ : Served σ (Except ActionResult Bool × Bytes)).Like
      ⟨(S.runAt st d parameters' len pos).1, S.ranAt st d parameters' len pos,
        S.runCalls st d parameters' len pos⟩ := by
  unfold ranAt runCalls
  rw [h.runAt_like hp]
  refine ⟨rfl, rfl, ?_⟩
  by_cases hr : (S.methodAccess st d).1.canInvoke = true
  · simp only [hr, if_true]
    simp [StoreCall.unplaced, hp]
  · simp only [hr, Bool.false_eq_true, if_false]

theorem readEntry_like {entry entry' : VariableAccess} (he : entry.unplaced = entry'.unplaced)
    (len pos : Nat) : (S.readEntry st entry len pos).Like (S.readEntry st entry' len pos) := by
  unfold readEntry
  obtain ⟨hnone, hnone'⟩ | ⟨name, access, access', hsome, hsome', ha⟩ := Srv.namedEntry_like he
  · rw [hnone, hnone']
    exact ⟨rfl, rfl, rfl⟩
  · rw [hsome, hsome']
    dsimp only
    generalize S.resolveShortName st name = asked
    obtain ⟨target, st⟩ := asked
    match target with
    | none => exact ⟨rfl, rfl, rfl⟩
    | some (.attribute d) =>
      dsimp only [audited]
      rw [h.readAt_like ha]
      refine ⟨rfl, rfl, ?_⟩
      unfold readCalls
      by_cases hr : (S.attributeAccess st d).1.canRead = true
      · simp only [hr, if_true]
        simp [StoreCall.unplaced, ha]
      · simp only [hr, Bool.false_eq_true, if_false]
    | some (.method d) =>
      have hp : (access.map SelectiveAccess.parameters).map Data.unplaced =
          (access'.map SelectiveAccess.parameters).map Data.unplaced := by
        have hmap := congrArg (Option.map SelectiveAccess.parameters) ha
        rwa [Option.map_map, Option.map_map] at hmap ⊢
      obtain ⟨hout, hstore, hcalls⟩ := h.run_like st d hp len pos
      exact ⟨congrArg (calledAs (len - pos)) hout, hstore, congrArg (_ :: ·) hcalls⟩

theorem writeEntry_like {entry entry' : VariableAccess} {value value' : Data}
    (he : entry.unplaced = entry'.unplaced) (hv : value.Same value') :
    (S.writeEntry st entry value).Like (S.writeEntry st entry' value') := by
  unfold writeEntry
  obtain ⟨hnone, hnone'⟩ | ⟨name, access, access', hsome, hsome', ha⟩ := Srv.namedEntry_like he
  · rw [hnone, hnone']
    exact ⟨rfl, rfl, rfl⟩
  · rw [hsome, hsome']
    dsimp only
    generalize S.resolveShortName st name = asked
    obtain ⟨target, st⟩ := asked
    match target with
    | none => exact ⟨rfl, rfl, rfl⟩
    | some (.attribute d) =>
      obtain ⟨hout, hstore, hcalls⟩ := h.write_like st d ha hv
      exact ⟨hout, hstore, congrArg (_ :: ·) hcalls⟩
    | some (.method d) =>
      have hp : (some value).map Data.unplaced = (some value').map Data.unplaced := congrArg some hv
      obtain ⟨hout, hstore, hcalls⟩ := h.run_like st d hp 1 0
      dsimp only at hout ⊢
      exact ⟨by rw [hout], hstore, congrArg (_ :: ·) hcalls⟩

/-- An operation comes to the same wherever its values stood. -/
theorem perform_like {x x' : Single} (hx : x.unplaced = x'.unplaced) :
    (S.perform N st x).Like (S.perform N st x') := by
  cases x with
  | get d access =>
    cases x' <;> simp only [Single.unplaced, Single.get.injEq, reduceCtorEq] at hx
    obtain ⟨rfl, ha⟩ := hx
    obtain ⟨hout, hstore, hcalls⟩ := h.getOne_like st d ha N
    exact ⟨congrArg Told.get hout, hstore, hcalls⟩
  | set d access value =>
    cases x' <;> simp only [Single.unplaced, Single.set.injEq, reduceCtorEq] at hx
    obtain ⟨rfl, ha, hv⟩ := hx
    obtain ⟨hout, hstore, hcalls⟩ := h.write_like st d ha hv
    exact ⟨congrArg Told.set hout, hstore, hcalls⟩
  | action d parameters =>
    cases x' <;> simp only [Single.unplaced, Single.action.injEq, reduceCtorEq] at hx
    obtain ⟨rfl, hp⟩ := hx
    obtain ⟨hout, hstore, hcalls⟩ := h.run_like st d hp N 0
    exact ⟨congrArg (fun r => Told.action (runOutcome r)) hout, hstore, hcalls⟩
  | read entry =>
    cases x' <;> simp only [Single.unplaced, Single.read.injEq, reduceCtorEq] at hx
    obtain ⟨hout, hstore, hcalls⟩ := h.readEntry_like st hx N 1
    exact ⟨congrArg (fun r => Told.read (readOutcome r)) hout, hstore, hcalls⟩
  | write entry value =>
    cases x' <;> simp only [Single.unplaced, Single.write.injEq, reduceCtorEq] at hx
    obtain ⟨hout, hstore, hcalls⟩ := h.writeEntry_like st hx.1 hx.2
    exact ⟨congrArg Told.write hout, hstore, hcalls⟩

/-- So do several. -/
theorem each_like {xs ys : List Single} (hxs : xs.map Single.unplaced = ys.map Single.unplaced) :
    (S.each N st xs).Like (S.each N st ys) := by
  induction xs generalizing ys st with
  | nil =>
    obtain rfl : ys = [] := List.map_eq_nil_iff.mp hxs.symm
    exact ⟨rfl, rfl, rfl⟩
  | cons x xs ih =>
    cases ys with
    | nil => cases hxs
    | cons y ys =>
      obtain ⟨hx, hrest⟩ := List.cons.inj hxs
      obtain ⟨hout, hstore, hcalls⟩ := h.perform_like st hx
      obtain ⟨hout', hstore', hcalls'⟩ := ih (S.perform N st x).store hrest
      rw [each_cons, each_cons]
      rw [hstore] at hout' hstore' hcalls' ⊢
      refine ⟨by rw [hout, hout'], hstore', ?_⟩
      rw [List.map_append, List.map_append, hcalls, hcalls']

end ObjectStore.SeesRequests

/-! ## One request for each -/

/-- A short-name write. -/
theorem Srv.write_run (C : CryptoProvider π) (S : ObjectStore σ) {s : Server σ π N}
    (req : WriteRequest) (room : Nat)
    (h : s.state = .associated ∧ s.negotiated.contains .write = true)
    (hcount : req.specification.count = req.values.count)
    (hlen : 0 < req.specification.count ∧ req.specification.count ≤ maxAccessItems) :
    serveRequest C S (.writeRequest req) room s =
      (Prog.fold (writeItem S) (SliceWriter.new (zeros (maxAccessItems * 2))) req.entries >>= fun w =>
        send C (.writeResponse ⟨.fromRaw req.specification.count w.asSlice⟩) room)
        { s with transfer := .idle } := by
  have hentries : req.entries.length = req.specification.count := by
    rw [WriteRequest.entries, List.length_zip, WireList.length_iter, WireList.length_iter, ← hcount,
      Nat.min_self]
  have hrun : serveRequest C S (.writeRequest req) room s = handleWrite C S req true room s := rfl
  rw [hrun, handleWrite, Prog.gets_bind_run, Prog.gets_bind_run, if_neg (by simp [h.1]),
    if_neg (by simp [writeRequired, h.2]), if_neg (by omega), setTransfer, Prog.modify_bind_run,
    ← hentries]
  rfl

section OneByOne

variable {C : CryptoProvider π} {S : ObjectStore σ} {s t : Server σ π N}

/-- A request for one operation has the store perform it, and its reply reports what came of it. -/
theorem Single.Asks.served {x : Single} {i : InvokeId} {req : Apdu} (hx : x.Asks i req)
    (hs : s.state = .associated) (hc : s.negotiated.contains x.required = true)
    (hN : ∀ entry, x = .read entry → 2 ≤ N) (room : Nat) : ∃ m : Srv σ π N Bytes, (S.perform N s.store x).outcome.Reported C i room m ∧
      Srv.serveRequest C S req room s = m (({ s with transfer := .idle } : Server σ π N).asked
        (S.perform N s.store x).store (S.perform N s.store x).calls) := by
  cases hx with
  | get d access => exact ⟨_, .get _, Srv.getNormal_reports C S i d access room ⟨hs, hc⟩⟩
  | set d access value => exact ⟨_, .set _, Srv.setNormal_run C S i d access value room ⟨hs, hc⟩⟩
  | action d parameters =>
    exact ⟨_, .action _, Srv.actionNormal_reports C S i d parameters room ⟨hs, hc⟩⟩
  | @read entry req hone hname =>
    have hcount : req.specification.count = 1 := by
      rw [← WireList.length_iter VariableAccess.decode, hone, List.length_singleton]
    have hacked : Srv.ackedBlock req = none := by
      rw [Srv.ackedBlock, hone, if_pos hcount]
      cases entry with
      | blockNumber n => exact absurd rfl (hname n)
      | _ => rfl
    have hrun := Srv.read_run C S req room ⟨hs, hc⟩ (by rw [hcount]; decide) hacked
    obtain ⟨w, hitem, hg⟩ := Srv.readItem_run S entry (w := SliceWriter.new (zeros N))
      (by rw [SliceWriter.new_pos, SliceWriter.new_buf, length_zeros]; have := hN entry rfl; omega)
      ({ s with transfer := .idle } : Server σ π N)
    rw [SliceWriter.new_pos, SliceWriter.new_buf, length_zeros] at hitem hg
    have hslice : w.asSlice = readSlot (readOutcome (S.readEntry s.store entry N 1).outcome) := by
      rw [hg.slice, SliceWriter.new_asSlice, List.nil_append]
    refine ⟨_, .read hslice, ?_⟩
    rw [hrun, hone, hcount]
    exact Prog.bind_run_ok (Prog.fold_one_ok hitem)
  | @write entry value req hone hvalue =>
    have hcount : req.specification.count = 1 := by
      rw [← WireList.length_iter VariableAccess.decode, hone, List.length_singleton]
    have hvalues : req.values.count = 1 := by
      rw [← WireList.length_iter Data.decode, hvalue, List.length_singleton]
    have hentries : req.entries = [(.ok entry, .ok value)] := by
      rw [WriteRequest.entries, hone, hvalue]
      rfl
    have hrun := Srv.write_run C S req room ⟨hs, hc⟩ (hcount.trans hvalues.symm)
      (by rw [hcount]; decide)
    obtain ⟨w, hitem, hg⟩ := Srv.writeItem_run S entry value
      (w := SliceWriter.new (zeros (maxAccessItems * 2)))
      (by rw [SliceWriter.new_pos, SliceWriter.new_buf, length_zeros]; decide)
      ({ s with transfer := .idle } : Server σ π N)
    have hslice : w.asSlice = writeSlot (S.writeEntry s.store entry value).outcome := by
      rw [hg.slice, SliceWriter.new_asSlice, List.nil_append]
    refine ⟨_, .write _, ?_⟩
    rw [hrun, hentries, hcount, ← hslice]
    exact Prog.bind_run_ok (Prog.fold_one_ok hitem)

/-- The server takes these operations one by one, each from a request of its own, and reports this of
them. -/
inductive Server.OneByOne (C : CryptoProvider π) (S : ObjectStore σ) :
    Server σ π N → List Single → List Told → Server σ π N → Prop
  | nil (s : Server σ π N) : OneByOne C S s [] [] s
  | cons {s s₁ u t : Server σ π N} {x x' : Single} {i : InvokeId} {apdu : Bytes} {req : Apdu}
    {xs : List Single} {told : Told} {tolds : List Told} {m : Srv σ π N Bytes} (room : Nat)
    (rng : Entropy) : s.Brings C apdu req s₁ → x'.Asks i req → x'.unplaced = x.unplaced →
    told.Reported C i room m → Srv.handle C S apdu room rng s = m u →
    OneByOne C S (Srv.handle C S apdu room rng s).2 xs tolds t → OneByOne C S s (x :: xs) (told :: tolds) t

/-- The request asks for this operation, wherever its values stand. -/
def Single.AskedBy (x : Single) (req : Apdu) : Prop :=
  ∃ (i : InvokeId) (x' : Single), x'.Asks i req ∧ x'.unplaced = x.unplaced

/-- One request: the reply reports what the operation comes to, and the store is left as it leaves it. -/
theorem Single.AskedBy.handled (hS : S.SeesRequests) {x : Single} {req : Apdu} (hx : x.AskedBy req)
    (hs : s.state = .associated) (hc : s.negotiated.contains x.required = true)
    (hN : ∀ entry, x = .read entry → 2 ≤ N) {apdu : Bytes} {s₁ : Server σ π N}
    (hb : s.Brings C apdu req s₁) (room : Nat) (rng : Entropy) :
    let r := S.perform N s.store x
    let after := (Srv.handle C S apdu room rng s).2
    (∃ i x' m u, Single.Asks i x' req ∧ x'.unplaced = x.unplaced ∧ r.outcome.Reported C i room m ∧
      Srv.handle C S apdu room rng s = m u) ∧
    after.state = s.state ∧ after.negotiated = s.negotiated ∧ after.store = r.store ∧
      after.calls = s.calls ++ r.calls.map StoreCall.unplaced := by
  intro r after
  obtain ⟨i, x', hasks, hunplaced⟩ := hx
  have hrequired : x'.required = x.required := by
    cases x <;> cases x' <;> first | rfl | cases hunplaced
  have hroom : ∀ entry, x' = .read entry → 2 ≤ N := by
    rintro entry rfl
    cases x with
    | read entry' => exact hN entry' rfl
    | _ => cases hunplaced
  have hs₁ := Server.Untouched.of_brings hb
  obtain ⟨m, hreport, hrun⟩ := hasks.served (C := C) (S := S) (hs₁.state.trans hs)
    (by rw [hs₁.negotiated, hrequired]; exact hc) hroom room
  have hlike : (S.perform N s₁.store x').Like r := by
    rw [hs₁.store]
    exact hS.perform_like s.store hunplaced
  have hhandle := (hb.handle S room rng).trans hrun
  have hafter : Server.Untouched _ after :=
    congrArg Prod.snd hhandle ▸ (hreport.keeps Server.Untouched.delivering).run _
  refine ⟨⟨i, x', m, _, hasks, hunplaced, hlike.outcome ▸ hreport, hhandle⟩,
    hafter.state.trans hs₁.state, hafter.negotiated.trans hs₁.negotiated,
    hafter.store.trans hlike.store, ?_⟩
  rw [hafter.calls, Server.calls_asked, hlike.calls]
  exact congrArg (· ++ _) hs₁.calls

/-- A server that is sent the requests does to its store what the operations come to, and says so. -/
theorem Server.Receives.one_by_one (hS : S.SeesRequests) {xs : List Single} {reqs : List Apdu}
    (hxs : List.Forall₂ Single.AskedBy xs reqs) (hs : s.state = .associated)
    (hc : ∀ x ∈ xs, s.negotiated.contains x.required = true)
    (hN : ∀ entry, .read entry ∈ xs → 2 ≤ N) (hr : s.Receives C S reqs t) :
    s.OneByOne C S xs (S.each N s.store xs).outcome t ∧ t.store = (S.each N s.store xs).store ∧
      t.calls = s.calls ++ (S.each N s.store xs).calls.map StoreCall.unplaced := by
  induction hxs generalizing s with
  | nil =>
    cases hr
    exact ⟨.nil _, rfl, (List.append_nil _).symm⟩
  | @cons x req xs reqs hx hxs ih =>
    cases hr with
    | cons room rng hb hr =>
      obtain ⟨⟨i, x', m, u, hasks, hunplaced, hreport, hrun⟩, hstate, hneg, hstore, hcalls⟩ :=
        hx.handled hS hs (hc x List.mem_cons_self) (fun entry he => hN entry (he ▸ List.mem_cons_self)) hb
          room rng
      obtain ⟨hone, hst, hcl⟩ := ih (hstate.trans hs)
        (fun y hy => by rw [hneg]; exact hc y (List.mem_cons_of_mem _ hy))
        (fun entry he => hN entry (List.mem_cons_of_mem _ he)) hr
      rw [hstore] at hone hst hcl
      refine ⟨.cons room rng hb hasks hunplaced hreport hrun hone, hst, ?_⟩
      rw [hcl, hcalls, List.append_assoc, ← List.map_append]
      rfl

end OneByOne

end Dlms
