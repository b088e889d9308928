import DlmsCosem.Security.Sample
import DlmsCosem.Server.Gathering
import DlmsCosem.Server.Protection
import DlmsCosem.Server.Transfers

/-!
# Blocked writes are plain writes

A value that arrives in blocks is written once, when the last block is there, and as the plain request
with that value writes it (`Purpose.Plain`). A transfer that is broken or abandoned writes nothing:
after it no block finds a transfer, until a first block begins another one.
-/

namespace Dlms

variable {σ π : Type} {N : Nat}

/-! ## Writes of a list -/

namespace ObjectStore

/-- The writes of a list, in order: their results, what they ask of the store, and the store. -/
def writes (S : ObjectStore σ) : List (AttributeDescriptorWithSelection × Data) → σ →
    (List DataAccessResult × List StoreCall) × σ
  | [], st => (([], []), st)
  | x :: xs, st =>
    let done := S.write st x.1.descriptor x.1.access x.2
    let rest := S.writes xs done.2
    ((done.1 :: rest.1.1, S.writeCalls st x.1.descriptor x.1.access x.2 ++ rest.1.2), rest.2)

variable {S : ObjectStore σ}

@[simp] theorem length_writes (xs : List (AttributeDescriptorWithSelection × Data)) (st : σ) :
    (S.writes xs st).1.1.length = xs.length := by
  induction xs generalizing st with
  | nil => rfl
  | cons x xs ih => simp [writes, ih]

/-- A write accesses the attribute once, where the rights allow it. -/
theorem accesses_writeCalls (st : σ) (d : AttributeDescriptor) (access : Option SelectiveAccess)
    (value : Data) : StoreCall.accesses (S.writeCalls st d access value) =
      if (S.attributeAccess st d).1.canWrite then
        [.setAttribute d (access.map SelectiveAccess.unplaced) value.unplaced] else [] := by
  unfold writeCalls
  dsimp only
  split <;> rfl

/-- An invocation calls the method once, where the rights allow it. -/
theorem accesses_invokeCalls (st : σ) (d : MethodDescriptor) (parameters : Option Data)
    (w : SliceWriter) : StoreCall.accesses (S.invokeCalls st d parameters w) =
      if (S.methodAccess st d).1.canInvoke then
        [.invokeMethod d (parameters.map Data.unplaced)] else [] := by
  unfold invokeCalls
  dsimp only
  split <;> rfl

/-- An entry of a list and its value, without their places. -/
def unplacedItem (x : AttributeDescriptorWithSelection × Data) :
    AttributeDescriptorWithSelection × Data := (x.1.unplaced, x.2.unplaced)

/-- Where the entries stood does not matter to their writes. -/
theorem SeesValues.writes_eq (h : S.SeesValues) {xs ys : List (AttributeDescriptorWithSelection × Data)}
    (hxy : xs.map unplacedItem = ys.map unplacedItem) (st : σ) :
    (S.writes xs st).1.1 = (S.writes ys st).1.1 ∧ (S.writes xs st).2 = (S.writes ys st).2 ∧
      StoreCall.accesses (S.writes xs st).1.2 = StoreCall.accesses (S.writes ys st).1.2 := by
  induction xs generalizing ys st with
  | nil =>
    obtain rfl : ys = [] := List.map_eq_nil_iff.mp hxy.symm
    exact ⟨rfl, rfl, rfl⟩
  | cons x xs ih =>
    cases ys with
    | nil => cases hxy
    | cons y ys =>
      rw [List.map_cons, List.map_cons, List.cons.injEq] at hxy
      obtain ⟨⟨⟨d, access⟩, v⟩, ⟨⟨e, access'⟩, v'⟩⟩ := x, y
      obtain ⟨hxy, hrest⟩ := hxy
      simp only [unplacedItem, AttributeDescriptorWithSelection.unplaced, Prod.mk.injEq,
        AttributeDescriptorWithSelection.mk.injEq] at hxy
      obtain ⟨⟨rfl, ha⟩, hv⟩ := hxy
      have hone := h.write_eq st d ha hv
      obtain ⟨h₁, h₂, h₃⟩ := ih hrest (S.write st d access' v').2
      refine ⟨?_, ?_, ?_⟩
      · simp only [writes, hone, h₁]
      · simp only [writes, hone, h₂]
      · simp only [writes, hone, StoreCall.accesses_append, accesses_writeCalls, ha, h₃]
        rw [show v.unplaced = v'.unplaced from hv]

end ObjectStore

namespace Srv

variable (C : CryptoProvider π) (S : ObjectStore σ)

/-- The writes of a list, where there is room for a byte each. -/
theorem setItems_run (xs : List (AttributeDescriptorWithSelection × Data)) {w : SliceWriter}
    (hw : w.pos + xs.length ≤ w.buf.length) (s : Server σ π N) :
    ∃ w', Prog.fold (setListItem S) w (xs.map fun x => (.ok x.1, .ok x.2)) s =
        (.ok w', s.asked (S.writes xs s.store).2 (S.writes xs s.store).1.2) ∧
      w'.asSlice = w.asSlice ++ (S.writes xs s.store).1.1.map DataAccessResult.asU8 := by
  induction xs generalizing w s with
  | nil => exact ⟨w, by simp [Prog.fold, ObjectStore.writes, s.asked_nil], by simp [ObjectStore.writes]⟩
  | cons x xs ih =>
    rw [List.length_cons] at hw
    have hone := writeOne_run S x.1.descriptor x.1.access x.2 s
    obtain ⟨w₁, hrun, hgrown⟩ := emit_grown
      (e := Emit.u8 (S.write s.store x.1.descriptor x.1.access x.2).1.asU8) (w := w) (.u8 _) (by omega)
      (s.asked (S.write s.store x.1.descriptor x.1.access x.2).2
        (S.writeCalls s.store x.1.descriptor x.1.access x.2))
    have hpos := hgrown.pos
    rw [Emit.u8_data, List.length_singleton] at hpos
    obtain ⟨w', hfold, hw'⟩ := ih (w := w₁) (by rw [hgrown.room]; omega)
      (s.asked (S.write s.store x.1.descriptor x.1.access x.2).2
        (S.writeCalls s.store x.1.descriptor x.1.access x.2))
    refine ⟨w', ?_, ?_⟩
    · rw [List.map_cons, Prog.fold]
      have hitem : setListItem S w (.ok x.1, .ok x.2) s = (.ok w₁,
          s.asked (S.write s.store x.1.descriptor x.1.access x.2).2
            (S.writeCalls s.store x.1.descriptor x.1.access x.2)) := by
        unfold setListItem
        rw [Prog.ofExcept_ok, Prog.pure_bind_run, Prog.ofExcept_ok, Prog.pure_bind_run,
          Prog.bind_run_ok hone]
        exact hrun
      rw [Prog.bind_run_ok hitem, hfold]
      simp [ObjectStore.writes]
    · rw [hw', hgrown.slice]
      simp [ObjectStore.writes]

end Srv

/-! ## What the first block brought -/

theorem decodeOptional_gives {α : Type} {m : Read α} {a : α}
    (h : (decodeOptional m).Gives (some a)) : m.Gives a := by
  obtain ⟨r, r', h⟩ := h
  obtain ⟨b, r₁, -, h⟩ := Prog.bind_ok h
  split at h
  · cases h
  · obtain ⟨a', r₂, ha, h⟩ := Prog.bind_ok h
    simp only [Prog.pure_run, Prod.mk.injEq, Except.ok.injEq, Option.some.injEq] at h
    obtain ⟨rfl, rfl⟩ := h
    exact ⟨r₁, r₂, ha⟩

theorem Server.Brings.decoded {C : CryptoProvider π} {s t : Server σ π N} {apdu : Bytes} {req : Apdu}
    (h : s.Brings C apdu req t) : req.Decoded := by
  obtain ⟨opened, -, hreq, -⟩ := h.opened
  exact Apdu.fromBytes_decoded hreq

namespace Purpose

/-- What waits for the last block came from a request. -/
def Decoded : Purpose → Prop
  | set _ access => (decodeOptional SelectiveAccess.decode).Gives access
  | setList descriptors => (WireList.decodeOf AttributeDescriptorWithSelection.decode).Gives descriptors
  | action _ => True

theorem Decoded.of_first {p : Purpose} {i : InvokeId} {b : DataBlockSA} (h : (p.first i b).Decoded) :
    p.Decoded := by
  cases p with
  | set => exact h
  | setList => exact h
  | action => trivial

/-- A selector is read back from the buffer, but for its place. -/
theorem Decoded.selector {d : AttributeDescriptor} {access : SelectiveAccess}
    (h : (Purpose.set d (some access)).Decoded) :
    access.encode.fault = none ∧ ∃ access', Read.fromBytes SelectiveAccess.decode access.encode.data =
      .ok access' ∧ access'.unplaced = access.unplaced := by
  obtain ⟨r, r', hr⟩ := decodeOptional_gives h
  obtain ⟨hf, ht⟩ := SelectiveAccess.replays.back r access r' hr
  obtain ⟨access', ha, hu⟩ := ht.fromBytes
  exact ⟨hf, access', ha, hu.symm⟩

theorem Decoded.listed {descriptors : WireList} (h : (Purpose.setList descriptors).Decoded) :
    descriptors.Listed AttributeDescriptorWithSelection.decode
      AttributeDescriptorWithSelection.unplaced := by
  obtain ⟨r, r', hr⟩ := h
  exact .of_decodeOf AttributeDescriptorWithSelection.replays.echoes hr

theorem Decoded.fault {p : Purpose} (h : p.Decoded) : p.headerEmit.fault = none := by
  cases p with
  | set d access =>
    cases access with
    | none => rfl
    | some access => exact h.selector.1
  | setList descriptors => exact h.listed.takes.1
  | action => rfl

end Purpose

/-! ## The plain request -/

namespace Purpose

/-- The request that asks in one APDU for what the blocks of `v` ask for. -/
inductive Plain (v : Bytes) (i : InvokeId) : Purpose → Apdu → Prop
  | set {d : AttributeDescriptor} {access access' : Option SelectiveAccess} {value value' : Data} :
    access'.map SelectiveAccess.unplaced = access.map SelectiveAccess.unplaced →
    Read.fromBytes Data.decode v = .ok value → value'.Same value →
    Plain v i (.set d access) (.setRequest (.normal i d access' value'))
  | setList {descriptors descriptors' values values' : WireList} :
    descriptors'.unplaced = descriptors.unplaced →
    Read.fromBytes (WireList.decodeOf Data.decode) v = .ok values → values'.unplaced = values.unplaced →
    descriptors.count = values.count →
    Plain v i (.setList descriptors) (.setRequest (.withList i descriptors' values'))
  | action {d : MethodDescriptor} {value value' : Data} :
    Read.fromBytes Data.decode v = .ok value → value'.Same value →
    Plain v i (.action d) (.actionRequest (.normal i d (some value')))

/-- What the request may do to the objects of the store `st`: one write, one invocation, or one write
for each entry of the list that allows it. -/
inductive Performs (S : ObjectStore σ) (st : σ) (v : Bytes) : Purpose → List StoreCall → Prop
  | set {d : AttributeDescriptor} {access : Option SelectiveAccess} {value : Data} :
    Read.fromBytes Data.decode v = .ok value → (S.attributeAccess st d).1.canWrite = true →
    Performs S st v (.set d access)
      [.setAttribute d (access.map SelectiveAccess.unplaced) value.unplaced]
  | setList {descriptors values : WireList} {xs : List AttributeDescriptorWithSelection}
    {vs : List Data} : Read.fromBytes (WireList.decodeOf Data.decode) v = .ok values →
    descriptors.iter AttributeDescriptorWithSelection.decode = xs.map .ok →
    values.iter Data.decode = vs.map .ok →
    Performs S st v (.setList descriptors) (StoreCall.accesses (S.writes (xs.zip vs) st).1.2)
  | action {d : MethodDescriptor} {value : Data} : Read.fromBytes Data.decode v = .ok value →
    Performs S st v (.action d)
      (if (S.methodAccess st d).1.canInvoke then [.invokeMethod d (some value.unplaced)] else [])

/-- Both replies report the same: each in its own form, and the return value of a method as
`answerMethod` delivers it. -/
inductive SameReport (C : CryptoProvider π) (i i' : InvokeId) (n : UInt32) (room room' : Nat) :
    Purpose → Srv σ π N Bytes → Srv σ π N Bytes → Prop
  | set {d : AttributeDescriptor} {access : Option SelectiveAccess} (result : DataAccessResult) :
    SameReport C i i' n room room' (.set d access)
      (Srv.send C (.setResponse (.lastDataBlock i result n)) room)
      (Srv.send C (.setResponse (.normal i' result)) room')
  | setList {descriptors : WireList} (results : WireList) :
    SameReport C i i' n room room' (.setList descriptors)
      (Srv.send C (.setResponse (.lastDataBlockWithList i results n)) room)
      (Srv.send C (.setResponse (.withList i' results)) room')
  | action {d : MethodDescriptor} (outcome : Except ActionResult Bool) (value : Bytes) :
    SameReport C i i' n room room' (.action d) (Srv.answerMethod C i outcome value room)
      (Srv.answerMethod C i' outcome value room')

end Purpose

namespace Srv

variable (C : CryptoProvider π) (S : ObjectStore σ) {u : Server σ π N} {body : Bytes}

/-- The last block of a write: the value that gathered is written once. -/
theorem finishBlockedSet_run {d : AttributeDescriptor} {access : Option SelectiveAccess}
    (hp : (Purpose.set d access).Decoded)
    (hfit : (Purpose.set d access).header.length + body.length ≤ N)
    (hbuf : u.response.bytes.take ((Purpose.set d access).header.length + body.length) =
      (Purpose.set d access).header ++ body)
    {value : Data} (hv : Read.fromBytes Data.decode body = .ok value) (i : InvokeId) (n : UInt32)
    (room : Nat) : ∃ access' : Option SelectiveAccess,
      access'.map SelectiveAccess.unplaced = access.map SelectiveAccess.unplaced ∧
      finishBlockedSet C S i d (Purpose.set d access).header.length body.length n room u =
        send C (.setResponse (.lastDataBlock i (S.write u.store d access' value).1 n)) room
          (u.asked (S.write u.store d access' value).2 (S.writeCalls u.store d access' value)) := by
  obtain ⟨hheader, hbody⟩ := Buffer.get_parts hfit hbuf
  unfold finishBlockedSet
  rw [Prog.gets_bind_run, hheader]
  cases access with
  | none =>
    refine ⟨none, rfl, ?_⟩
    have hnil : (Purpose.set d none).header.length = 0 := rfl
    rw [if_pos hnil, Prog.pure_bind_run, Prog.gets_bind_run, hbody, hv, Prog.ofExcept_ok, Prog.pure_bind_run,
      Prog.bind_run_ok (writeOne_run ..)]
    rfl
  | some access =>
    obtain ⟨-, access', ha, hu⟩ := hp.selector
    refine ⟨some access', congrArg some hu, ?_⟩
    have hne : ¬ (Purpose.set d (some access)).header.length = 0 := by
      change ¬ access.encode.data.length = 0
      rw [SelectiveAccess.encode, Emit.append_data rfl]
      simp
    have hrun : (some <$> Prog.ofExcept (Read.fromBytes SelectiveAccess.decode
        (Purpose.set d (some access)).header) : Srv σ π N _) u = (.ok (some access'), u) := by
      change (Prog.ofExcept (Read.fromBytes SelectiveAccess.decode access.encode.data) >>= _) u = _
      rw [ha, Prog.ofExcept_ok, Prog.pure_bind_run]
      rfl
    rw [if_neg hne, Prog.bind_run_ok hrun, Prog.gets_bind_run, hbody, hv, Prog.ofExcept_ok,
      Prog.pure_bind_run, Prog.bind_run_ok (writeOne_run ..)]
    rfl

/-- The entries of a list and their values, as the handlers walk through them. -/
theorem zip_values {α β : Type} (xs : List α) (ys : List β) :
    (xs.map Except.ok : List (Result α)).zip (ys.map Except.ok : List (Result β)) =
      (xs.zip ys).map fun x => (.ok x.1, .ok x.2) := by
  rw [List.zip_map]
  rfl

/-- A list of writes, where there is room for a byte each. -/
theorem setItems_listed {descriptors values : WireList}
    {xs : List AttributeDescriptorWithSelection} {vs : List Data}
    (hx : descriptors.iter AttributeDescriptorWithSelection.decode = xs.map .ok)
    (hv : values.iter Data.decode = vs.map .ok) {room : Nat} (hroom : descriptors.count ≤ room)
    (s : Server σ π N) :
    ∃ w, Prog.fold (setListItem S) (SliceWriter.new (zeros room))
        ((descriptors.iter AttributeDescriptorWithSelection.decode).zip (values.iter Data.decode)) s =
        (.ok w, s.asked (S.writes (xs.zip vs) s.store).2 (S.writes (xs.zip vs) s.store).1.2) ∧
      w.asSlice = (S.writes (xs.zip vs) s.store).1.1.map DataAccessResult.asU8 := by
  have hlen : xs.length = descriptors.count := by
    rw [← WireList.length_iter AttributeDescriptorWithSelection.decode, hx, List.length_map]
  obtain ⟨w, hrun, hw⟩ := setItems_run S (xs.zip vs) (w := SliceWriter.new (zeros room))
    (by
      have hzip : (xs.zip vs).length = min xs.length vs.length := List.length_zip
      rw [SliceWriter.new_pos, SliceWriter.new_buf, length_zeros]
      omega) s
  refine ⟨w, ?_, by rw [hw, SliceWriter.new_asSlice, List.nil_append]⟩
  rw [hx, hv, zip_values, hrun]

/-- The last block of a list: each value that gathered is written to its attribute. -/
theorem finishBlockedListSet_run {descriptors values : WireList}
    (hp : (Purpose.setList descriptors).Decoded) (hmax : descriptors.count ≤ maxAccessItems)
    (hfit : (Purpose.setList descriptors).header.length + body.length ≤ N)
    (hbuf : u.response.bytes.take ((Purpose.setList descriptors).header.length + body.length) =
      (Purpose.setList descriptors).header ++ body)
    (hv : Read.fromBytes (WireList.decodeOf Data.decode) body = .ok values)
    (hcount : descriptors.count = values.count) {vs : List Data}
    (hvs : values.iter Data.decode = vs.map .ok) (i : InvokeId) (n : UInt32) (room : Nat) :
    ∃ (descriptors' : WireList) (xs : List AttributeDescriptorWithSelection),
      descriptors'.unplaced = descriptors.unplaced ∧
      descriptors'.iter AttributeDescriptorWithSelection.decode = xs.map .ok ∧
      finishBlockedListSet C S i (Purpose.setList descriptors).header.length body.length n room u =
        send C (.setResponse (.lastDataBlockWithList i (.fromRaw (xs.zip vs).length
          ((S.writes (xs.zip vs) u.store).1.1.map DataAccessResult.asU8)) n)) room
          (u.asked (S.writes (xs.zip vs) u.store).2 (S.writes (xs.zip vs) u.store).1.2) := by
  obtain ⟨hheader, hbody⟩ := Buffer.get_parts hfit hbuf
  obtain ⟨descriptors', hdec, hu⟩ := hp.listed.takes.2.fromBytes
  obtain ⟨items, hitems⟩ := hp.listed.entries
  obtain ⟨xs, hxs, -⟩ := hitems descriptors' hu.symm
  have hcount' := WireList.count_eq hu
  obtain ⟨w, hrun, hw⟩ := setItems_listed S hxs hvs (by omega : descriptors'.count ≤ maxAccessItems) u
  refine ⟨descriptors', xs, hu.symm, hxs, ?_⟩
  have hdec' : Read.fromBytes (WireList.decodeOf AttributeDescriptorWithSelection.decode)
      (Purpose.setList descriptors).header = .ok descriptors' := hdec
  unfold finishBlockedListSet
  rw [Prog.gets_bind_run, Prog.gets_bind_run, hheader, hbody, hdec', Prog.ofExcept_ok,
    Prog.pure_bind_run, hv, Prog.ofExcept_ok, Prog.pure_bind_run, if_neg (by omega),
    Prog.bind_run_ok hrun, hw, hxs, hvs, zip_values, List.length_map]

/-- A list of writes in one APDU. -/
theorem handleSetWithList_run {descriptors values : WireList}
    {xs : List AttributeDescriptorWithSelection} {vs : List Data}
    (hc : u.negotiated.contains .multipleReferences = true)
    (hx : descriptors.iter AttributeDescriptorWithSelection.decode = xs.map .ok)
    (hv : values.iter Data.decode = vs.map .ok) (hcount : descriptors.count = values.count)
    (hN : descriptors.count ≤ N) (i : InvokeId) (room : Nat) :
    handleSetWithList C S i descriptors values room u =
      send C (.setResponse (.withList i (.fromRaw (xs.zip vs).length
        ((S.writes (xs.zip vs) u.store).1.1.map DataAccessResult.asU8)))) room
        (({ u with transfer := .idle } : Server σ π N).asked (S.writes (xs.zip vs) u.store).2
          (S.writes (xs.zip vs) u.store).1.2) := by
  obtain ⟨w, hrun, hw⟩ := setItems_listed S hx hv hN ({ u with transfer := .idle } : Server σ π N)
  unfold handleSetWithList
  rw [withReferences_run C room hc, if_neg (by omega), setTransfer, Prog.modify_bind_run,
    Prog.bind_run_ok hrun, hw, hx, hv, zip_values, List.length_map]

end Srv

namespace Purpose

variable {C : CryptoProvider π} {S : ObjectStore σ} {s u : Server σ π N} {p : Purpose} {v : Bytes}

theorem map_ok_inj {α : Type} {xs ys : List α}
    (h : (xs.map .ok : List (Result α)) = ys.map .ok) : xs = ys :=
  List.map_injective_iff.mpr (fun _ _ => Except.ok.inj) h

theorem values_listed {values : WireList}
    (h : Read.fromBytes (WireList.decodeOf Data.decode) v = .ok values) :
    values.Listed Data.decode Data.unplaced := by
  obtain ⟨r, hr, -⟩ := Read.fromBytes_ok h
  exact .of_decodeOf (Read.Replays.value maxDepth).echoes hr

/-- A list in the buffer has no more entries than the buffer has bytes. -/
theorem Decoded.count_le {descriptors : WireList} (h : (Purpose.setList descriptors).Decoded)
    (hfit : (Purpose.setList descriptors).header.length ≤ N) : descriptors.count ≤ N := by
  have hcount := h.listed.count_le AttributeDescriptorWithSelection.replays.echoes ⟨_, rfl⟩
  have hheader : (Purpose.setList descriptors).header.length =
      (Emit.length descriptors.count).data.length + descriptors.raw.length := by
    change (Emit.length descriptors.count ++ Emit.bytes descriptors.raw).data.length = _
    rw [Emit.append_data (Emit.length_sized h.listed.count_lt).fault, Emit.bytes_data,
      List.length_append]
  omega

/-- A report has no effect on the objects. -/
theorem SameReport.delivers {i i' : InvokeId} {n : UInt32} {room room' : Nat}
    {blocked single : Srv σ π N Bytes} (h : p.SameReport C i i' n room room' blocked single) :
    Srv.Delivers blocked ∧ Srv.Delivers single := by
  have hR : Server.Delivering (Server.Unaffected : Server σ π N → Server σ π N → Prop) :=
    Server.Unaffected.delivering
  cases h with
  | set => exact ⟨hR.send .., hR.send ..⟩
  | setList => exact ⟨hR.send .., hR.send ..⟩
  | action => exact ⟨hR.answerMethod .., hR.answerMethod ..⟩

/-- How the blocked way and the plain way of one write end: with the same report, with the store in
the same state, and after the same accesses. -/
structure Ends (C : CryptoProvider π) (S : ObjectStore σ) (s : Server σ π N) (p : Purpose) (v : Bytes)
    (i i' : InvokeId) (n : UInt32) (room room' : Nat) (out out' : Except Error Bytes × Server σ π N) :
    Prop where
  report : ∃ (blocked single : Srv σ π N Bytes) (w w' : Server σ π N),
    p.SameReport C i i' n room room' blocked single ∧ out = blocked w ∧ out' = single w'
  store : out.2.store = out'.2.store
  accesses : ∃ ws, p.Performs S s.store v ws ∧ out.2.accesses = s.accesses ++ ws ∧
    out'.2.accesses = s.accesses ++ ws

theorem Ends.of_report {i i' : InvokeId} {n : UInt32} {room room' : Nat}
    {blocked single : Srv σ π N Bytes} {w w' : Server σ π N} {ws : List StoreCall}
    (h : p.SameReport C i i' n room room' blocked single) (hstore : w.store = w'.store)
    (hws : p.Performs S s.store v ws) (hw : w.accesses = s.accesses ++ ws)
    (hw' : w'.accesses = s.accesses ++ ws) :
    Ends C S s p v i i' n room room' (blocked w) (single w') := by
  have hb := h.delivers.1.run w
  have hs := h.delivers.2.run w'
  refine ⟨⟨_, _, _, _, h, rfl, rfl⟩, ?_, ws, hws, ?_, ?_⟩
  · rw [hb.store, hs.store, hstore]
  · rw [hb.accesses, hw]
  · rw [hs.accesses, hw']

theorem finish_ends (hV : S.SeesValues) (hp : p.Decoded) (ha : p.Admitted S s)
    (hs : s.Unaffected u) (hfit : p.header.length + v.length ≤ N)
    (hbuf : u.response.bytes.take (p.header.length + v.length) = p.header ++ v) {i' : InvokeId}
    {plain : Apdu} (hplain : p.Plain v i' plain) (hd : plain.Decoded) {s' : Server σ π N}
    (hs' : s.Unaffected s') (i : InvokeId) (n : UInt32) (room room' : Nat) :
    Ends C S s p v i i' n room room' (p.finish C S i v.length n room u)
      (Srv.serveRequest C S plain room' s') := by
  obtain ⟨hstate, hservice, ha⟩ := ha
  have hserve : s'.state = .associated ∧ s'.negotiated.contains p.service = true := by
    rw [hs'.state, hs'.negotiated]
    exact ⟨hstate, hservice⟩
  have hidle : ({ s' with transfer := .idle } : Server σ π N).store = u.store :=
    hs'.store.trans hs.store.symm
  cases hplain with
  | @set d access access' value value' haccess hv hsame =>
    obtain ⟨access₀, hu, hrun⟩ := Srv.finishBlockedSet_run C S hp hfit hbuf hv i n room
    have hone := hV.write_eq s.store d (haccess.trans hu.symm) hsame
    have hplain := Srv.setNormal_run C S i' d access' value' room' hserve
    rw [hs.store] at hrun
    rw [hs'.store, hone] at hplain
    rw [show (set d access).finish C S i v.length n room u = _ from hrun, hplain]
    refine .of_report (.set _) rfl (.set hv ha.2) ?_ ?_
    · rw [Server.accesses_asked, hs.accesses, ObjectStore.accesses_writeCalls, if_pos ha.2, hu]
    · rw [Server.accesses_asked, ObjectStore.accesses_writeCalls, if_pos ha.2, haccess,
        show value'.unplaced = value.unplaced from hsame]
      exact congrArg (· ++ _) hs'.accesses
  | @setList descriptors descriptors' values values' hlist hv hvalues hcount =>
    obtain ⟨xs₀, hxs₀⟩ := hp.listed.entries
    obtain ⟨vs₀, hvs₀⟩ := (values_listed hv).entries
    obtain ⟨xs, hxs, hx⟩ := hxs₀ descriptors rfl
    obtain ⟨xs', hxs', hx'⟩ := hxs₀ descriptors' hlist
    obtain ⟨vs, hvs, hv₁⟩ := hvs₀ values rfl
    obtain ⟨vs', hvs', hv₁'⟩ := hvs₀ values' hvalues
    obtain ⟨descriptors₁, xs₁, hu, hxs₁, hrun⟩ :=
      Srv.finishBlockedListSet_run C S hp ha.2.2 hfit hbuf hv hcount hvs i n room
    obtain ⟨xs₂, hxs₂, hx₁⟩ := hxs₀ descriptors₁ hu
    obtain rfl : xs₂ = xs₁ := map_ok_inj (hxs₂.symm.trans hxs₁)
    have hN := hp.count_le (by omega : (Purpose.setList descriptors).header.length ≤ N)
    have hc := WireList.count_eq hlist
    have hc' := WireList.count_eq hvalues
    have hrefs : s'.negotiated.contains .multipleReferences = true := by
      rw [hs'.negotiated]
      exact ha.1
    have hplain : Srv.serveRequest C S (.setRequest (.withList i' descriptors' values')) room' s' = _ :=
      (Srv.serving_run C room' hserve).trans (Srv.handleSetWithList_run C S hrefs hxs' hvs'
        (by omega) (by omega) i' room')
    have same (ys : List AttributeDescriptorWithSelection) (ws : List Data)
        (hy : ys.map AttributeDescriptorWithSelection.unplaced = xs₀)
        (hw : ws.map Data.unplaced = vs₀) :
        (ys.zip ws).map ObjectStore.unplacedItem = xs₀.zip vs₀ := by
      rw [← hy, ← hw, List.zip_map]
      rfl
    have h₂ := hV.writes_eq ((same xs₂ vs hx₁ hv₁).trans (same xs' vs' hx' hv₁').symm) s.store
    have h₀ := hV.writes_eq ((same xs₂ vs hx₁ hv₁).trans (same xs vs hx hv₁).symm) s.store
    have hlen : (xs₂.zip vs).length = (xs'.zip vs').length := by
      rw [← List.length_map ObjectStore.unplacedItem, same xs₂ vs hx₁ hv₁, ← same xs' vs' hx' hv₁',
        List.length_map]
    rw [hs.store, h₂.1, h₂.2.1, hlen] at hrun
    rw [hs'.store] at hplain
    rw [show (setList descriptors).finish C S i v.length n room u = _ from hrun, hplain]
    refine .of_report (.setList _) rfl (.setList hv hxs hvs) ?_ ?_
    · rw [Server.accesses_asked, hs.accesses, h₀.2.2]
    · rw [Server.accesses_asked, ← h₂.2.2, h₀.2.2]
      exact congrArg (· ++ _) hs'.accesses
  | @action d value value' hv hsame =>
    obtain ⟨-, hbody⟩ := Buffer.get_parts hfit hbuf
    have hnil : (Purpose.action d).header.length = 0 := rfl
    rw [hnil, Nat.zero_add] at hbody
    have hrun : (Purpose.action d).finish C S i v.length n room u =
        Srv.invokeAndAnswer C S i d (some value) room u := by
      change (Prog.gets _ >>= _) u = _
      rw [Prog.gets_bind_run, hbody, hv, Prog.ofExcept_ok, Prog.pure_bind_run]
    have hplain := Srv.actionNormal_run C S i' d (some value') room' hserve
    rw [Srv.invokeAndAnswer_run, hs.store] at hrun
    have hargs : (some value').map Data.unplaced = (some value).map Data.unplaced :=
      congrArg some hsame
    have hone := hV.invoke_eq s.store d (SliceWriter.new (zeros N)) hargs
    rw [Srv.invokeAndAnswer_run, hidle, hs.store, hone] at hplain
    rw [hrun, hplain]
    refine .of_report (.action _ _) rfl (.action hv) ?_ ?_
    · rw [Server.accesses_asked, hs.accesses, ObjectStore.accesses_invokeCalls]
      rfl
    · rw [Server.accesses_asked, ObjectStore.accesses_invokeCalls, Option.map_some,
        show value'.unplaced = value.unplaced from hsame]
      exact congrArg (· ++ _) hs'.accesses

end Purpose

/-- The purpose of a transfer whose blocks came was decoded from one of them. -/
theorem Purpose.decoded_of_run {C : CryptoProvider π} {S : ObjectStore σ} {s t t₁ : Server σ π N}
    {p : Purpose} {i : InvokeId} {raws : List Bytes} {raw apdu : Bytes} {last : Bool}
    (hr : s.Receives C S (p.blocks i 0 raws) t)
    (hb : t.Brings C apdu (p.block i last raws.length raw) t₁) : p.Decoded := by
  cases raws with
  | nil => exact .of_first hb.decoded
  | cons first raws =>
    cases hr with
    | cons room rng hb' _ => exact .of_first hb'.decoded

/-! ## Transfers that end early -/

section Ended

variable {C : CryptoProvider π} {S : ObjectStore σ} {s : Server σ π N} {p : Purpose}

/-- Drop the transfer and refuse: no object is touched. -/
theorem Srv.dropped (s : Server σ π N) (apdu : Apdu) (room : Nat) :
    (send C apdu room { s with transfer := .idle }).2.transfer = .idle ∧
      s.Unaffected (send C apdu room { s with transfer := .idle }).2 := by
  have hem := send_emitted C apdu room { s with transfer := .idle }
  refine ⟨?_, (Server.Unaffected.refl s).marked.trans (.of_emitted hem)⟩
  obtain ⟨scratch, counter, ev, h, -⟩ := hem
  rw [h]

/-- A block with another number or another invoke id ends the transfer. -/
theorem Server.Gathering.broken {i i' : InvokeId} {body : Bytes} {n : Nat} {b : DataBlockSA}
    (h : s.Gathering p i body n) (hn : n + 1 < 2 ^ 32)
    (hne : i' ≠ i ∨ b.blockNumber ≠ UInt32.ofNat (n + 1)) (room : Nat) :
    (p.continued C S i' b room s).2.transfer = .idle ∧ s.Unaffected (p.continued C S i' b room s).2 := by
  have ht := h.transfer
  rw [← nextNumber_ofNat hn] at hne
  cases p with
  | set d access =>
    simp only [Purpose.continued, Srv.continueBlockedSet, Prog.gets_bind_run, ht, Purpose.transfer]
    rw [if_pos hne, Srv.setTransfer, Prog.modify_bind_run]
    exact Srv.dropped ..
  | setList descriptors =>
    simp only [Purpose.continued, Srv.continueBlockedSet, Prog.gets_bind_run, ht, Purpose.transfer]
    rw [if_pos hne, Srv.setTransfer, Prog.modify_bind_run]
    exact Srv.dropped ..
  | action d =>
    simp only [Purpose.continued, Srv.continueBlockedAction, Prog.gets_bind_run, ht,
      Purpose.transfer]
    rw [if_pos hne, Srv.setTransfer, Prog.modify_bind_run]
    exact Srv.dropped ..

/-- Where nothing is gathered, a later block is refused. -/
theorem Purpose.next_ignored (h : ¬ s.transfer.Receiving) (p : Purpose) (i : InvokeId)
    (b : DataBlockSA) (room : Nat) : s.Unaffected (Srv.serveRequest C S (p.next i b) room s).2 := by
  have serving {required : Conformance} {m : Srv σ π N Bytes} (hm : s.Unaffected (m s).2) :
      s.Unaffected (Srv.serving C required room m s).2 := by
    simp only [Srv.serving, Prog.gets_bind_run]
    split_ifs
    · exact (Server.Unaffected.delivering.exception ..).run s
    · exact (Server.Unaffected.delivering.exception ..).run s
    · exact hm
  have set : s.Unaffected (Srv.continueBlockedSet C S i b room s).2 := by
    unfold Srv.continueBlockedSet
    rw [Prog.gets_bind_run]
    cases ht : s.transfer with
    | receivingSet => rw [ht] at h; exact absurd trivial h
    | _ => exact (Server.Unaffected.delivering.send ..).run s
  have action : s.Unaffected (Srv.continueBlockedAction C S i b room s).2 := by
    unfold Srv.continueBlockedAction
    rw [Prog.gets_bind_run]
    cases ht : s.transfer with
    | receivingAction => rw [ht] at h; exact absurd trivial h
    | _ => exact (Server.Unaffected.delivering.send ..).run s
  cases p with
  | set => exact serving set
  | setList => exact serving set
  | action =>
    simp only [Purpose.next, Srv.serveRequest, Srv.handleAction, Prog.gets_bind_run]
    split_ifs
    · exact (Server.Unaffected.delivering.exception ..).run s
    · exact serving action

/-- The request starts an operation of its own, where `c` was agreed to, and is not refused as not
supported or not possible. -/
def Apdu.Starts (c : Conformance) : Apdu → Prop
  | .getRequest (.normal _ _ _) => c.contains .get = true
  | .getRequest (.withList _ _) => c.contains .get = true ∧ c.contains .multipleReferences = true
  | .setRequest (.normal _ _ _ _) | .setRequest (.withFirstDataBlock _ _ _ _)
  | .setRequest (.withListAndFirstDataBlock _ _ _) => c.contains .set = true
  | .setRequest (.withList _ descriptors values) => c.contains .set = true ∧
    c.contains .multipleReferences = true ∧ descriptors.count = values.count
  | .actionRequest (.normal _ _ _) | .actionRequest (.withFirstPblock _ _ _) =>
    c.contains .action = true
  | .actionRequest (.withList _ descriptors parameters) => c.contains .action = true ∧
    c.contains .multipleReferences = true ∧ descriptors.count = parameters.count ∧
    descriptors.count ≤ maxAccessItems
  | .accessRequest req => c.contains .access = true ∧
    req.specification.count = req.data.count ∧ req.specification.count ≤ maxAccessItems
  | .readRequest req => c.contains .read = true ∧ req.specification.count ≠ 0 ∧
    req.specification.count ≤ maxAccessItems ∧ Srv.ackedBlock req = none
  | .writeRequest req => c.contains .write = true ∧ req.specification.count = req.values.count ∧
    req.specification.count ≠ 0 ∧ req.specification.count ≤ maxAccessItems
  | .unconfirmedWriteRequest req => c.contains .unconfirmedWrite = true ∧
    req.specification.count = req.values.count ∧ req.specification.count ≠ 0 ∧
    req.specification.count ≤ maxAccessItems
  | _ => False

/-- A request that starts an operation does not look at the transfer that it ends. -/
theorem Apdu.Starts.drops {req : Apdu} (h : req.Starts s.negotiated) (hs : s.state = .associated)
    (room : Nat) : Srv.serveRequest C S req room s =
      Srv.serveRequest C S req room { s with transfer := .idle } := by
  have serving {required : Conformance} (m : Srv σ π N Bytes)
      (hc : s.negotiated.contains required = true) (hm : m s = m { s with transfer := .idle }) :
      Srv.serving C required room m s =
        Srv.serving C required room m { s with transfer := .idle } := by
    rw [Srv.serving_run C room ⟨hs, hc⟩, hm]
    exact (Srv.serving_run C room (s := { s with transfer := .idle }) ⟨hs, hc⟩).symm
  have references (m : Srv σ π N Bytes) (hc : s.negotiated.contains .multipleReferences = true)
      (hm : m s = m { s with transfer := .idle }) :
      Srv.withReferences C room m s = Srv.withReferences C room m { s with transfer := .idle } := by
    rw [Srv.withReferences_run C room hc, hm]
    exact (Srv.withReferences_run C room (s := { s with transfer := .idle }) hc).symm
  have write (req : WriteRequest) (confirmed : Bool)
      (hc : s.negotiated.contains (Srv.writeRequired confirmed) = true)
      (hreq : ¬ (req.specification.count ≠ req.values.count ∨ req.specification.count = 0 ∨
        maxAccessItems < req.specification.count)) :
      Srv.handleWrite C S req confirmed room s =
        Srv.handleWrite C S req confirmed room { s with transfer := .idle } := by
    simp only [Srv.handleWrite, Prog.gets_bind_run]
    rw [if_neg (by simpa using hs), if_neg (by simpa using hc), if_neg hreq]
    rfl
  cases req with
  | getRequest req =>
    cases req with
    | normal i d access => exact serving _ h rfl
    | next => exact h.elim
    | withList i list => exact serving _ h.1 (references _ h.2 rfl)
  | setRequest req =>
    cases req with
    | normal => exact serving _ h rfl
    | withFirstDataBlock => exact serving _ h rfl
    | withDataBlock => exact h.elim
    | withListAndFirstDataBlock => exact serving _ h rfl
    | withList i descriptors values =>
      refine serving _ h.1 (references _ h.2.1 ?_)
      rw [if_neg (not_not.mpr h.2.2)]
      rfl
  | actionRequest req =>
    have action : Srv.handleAction C S req room s = Srv.handleAction C S req room
        { s with transfer := .idle } → Srv.serveRequest C S (.actionRequest req) room s =
        Srv.serveRequest C S (.actionRequest req) room { s with transfer := .idle } := id
    refine action ?_
    rw [Srv.handleAction_run C S room hs,
      Srv.handleAction_run C S room (s := { s with transfer := .idle }) hs]
    cases req with
    | normal => exact serving _ h rfl
    | nextPblock => exact h.elim
    | withFirstPblock => exact serving _ h rfl
    | withPblock => exact h.elim
    | withListAndFirstPblock => exact h.elim
    | withList i descriptors parameters =>
      obtain ⟨hc, hrefs, hcount, hmax⟩ := h
      refine serving _ hc (references _ hrefs ?_)
      rw [if_neg (by omega)]
      rfl
  | accessRequest req =>
    obtain ⟨hc, hcount, hmax⟩ := h
    refine serving _ hc ?_
    rw [if_neg (not_not.mpr hcount), if_neg (by omega)]
    rfl
  | readRequest req =>
    obtain ⟨hc, hpos, hmax, hacked⟩ := h
    refine serving _ hc ?_
    rw [if_neg (by omega), hacked]
    rfl
  | writeRequest req =>
    obtain ⟨hc, hcount, hpos, hmax⟩ := h
    exact write req true hc (by omega)
  | unconfirmedWriteRequest req =>
    obtain ⟨hc, hcount, hpos, hmax⟩ := h
    exact write req false hc (by omega)
  | _ => exact h.elim

/-- The first block of a write that the rights refuse is the last one: the refusal is reported as the
plain request reports it, and the store is left as that leaves it. -/
theorem Purpose.denied {d : AttributeDescriptor} (hs : s.state = .associated)
    (hc : s.negotiated.contains .set = true)
    (hb : s.negotiated.contains .blockTransferWithSetOrWrite = true)
    (hw : (S.attributeAccess s.store d).1.canWrite = false) (access : Option SelectiveAccess)
    (i : InvokeId) (b : DataBlockSA) (room : Nat) :
    ∃ t : Server σ π N, t.transfer = .idle ∧ t.accesses = s.accesses ∧
      (∀ access' value', t.store = (S.write s.store d access' value').2 ∧
        (S.write s.store d access' value').1 = .readWriteDenied) ∧
      Srv.serveRequest C S ((Purpose.set d access).first i b) room s =
        Srv.send C (.setResponse (.lastDataBlock i .readWriteDenied b.blockNumber)) room t := by
  have hwrite (access' : Option SelectiveAccess) (value' : Data) : S.write s.store d access' value' =
      (.readWriteDenied, S.audit (S.attributeAccess s.store d).2
        (.attributeWritten d .readWriteDenied)) := by
    unfold ObjectStore.write ObjectStore.put
    dsimp only
    rw [hw, if_neg Bool.false_ne_true]
  refine ⟨({ s with transfer := .idle } : Server σ π N).asked (S.audit
      (S.attributeAccess s.store d).2 (.attributeWritten d .readWriteDenied))
      [.attributeAccess .gather d (S.attributeAccess s.store d).1,
        .audit (.attributeWritten d .readWriteDenied)], rfl, ?_, fun access' value' => ?_, ?_⟩
  · rw [Server.accesses_asked]
    exact List.append_nil _
  · rw [hwrite]
    exact ⟨rfl, rfl⟩
  · have hrun : Srv.serveRequest C S ((Purpose.set d access).first i b) room s =
        Srv.beginBlockedSet C S i d access b room s := Srv.serving_run C room ⟨hs, hc⟩
    rw [hrun]
    unfold Srv.beginBlockedSet
    rw [Srv.setTransfer, Prog.modify_bind_run, Prog.gets_bind_run, if_neg (by simpa using hb),
      Prog.bind_run_ok (Srv.attributeAccess_run ..), if_pos (by simpa using hw),
      Prog.bind_run_ok (Srv.audit_asked ..), Server.asked_asked]
    rfl

end Ended

/-! ## Runs without a first block -/

/-- The server takes the APDU of this step for the first block of a write. -/
def Server.TakesFirst (C : CryptoProvider π) (s : Server σ π N) : Step σ → Prop
  | .handle apdu _ _ => ∃ opened req, (Srv.unprotectInto C apdu s).1 = .ok opened ∧
    Apdu.fromBytes opened.plain = .ok req ∧ req.BringsFirst
  | _ => False

/-- Without a first block nothing is ever gathered. -/
theorem Server.run_quiet {C : CryptoProvider π} {S : ObjectStore σ} {s : Server σ π N}
    (h : s.transfer.Quiet N) {steps : List (Step σ)}
    (hno : ∀ pre x post, steps = pre ++ x :: post → ¬ (s.run C S pre).TakesFirst C x) :
    (s.run C S steps).transfer.Quiet N := by
  refine run_induction (I := fun s => s.transfer.Quiet N) (K := fun s x => ¬ s.TakesFirst C x)
    (fun s x h hx => ?_) h hno
  cases x with
  | handle apdu room rng =>
    refine Srv.Moves.handle (Transfer.Quiet.closed N) C S room rng (fun opened req ho hr hf => ?_) h
    exact absurd ⟨opened, req, ho, hr, hf⟩ hx
  | reset => exact ⟨trivial, nofun⟩
  | resume => exact h
  | storeMut => exact h

/-! ## Blocked writes -/

section Blocked

variable {C : CryptoProvider π} {S : ObjectStore σ} {s t t₁ s₁ : Server σ π N} {p : Purpose}
  {i i' : InvokeId} {raws : List Bytes} {raw apdu apdu' : Bytes} {plain : Apdu}

theorem Purpose.delivered (hS : S.AsksLeave) (hV : S.SeesValues) (ha : p.Admitted S s)
    (hr : s.Receives C S (p.blocks i 0 raws) t)
    (hb : t.Brings C apdu (p.block i true raws.length raw) t₁) (hb' : s.Brings C apdu' plain s₁)
    (hplain : p.Plain (raws.flatten ++ raw) i' plain)
    (hfit : p.header.length + (raws.flatten ++ raw).length ≤ N) (hn : raws.length + 1 < 2 ^ 32)
    (room room' : Nat) (rng rng' : Entropy) :
    s.Unaffected t ∧ Ends C S s p (raws.flatten ++ raw) i i' (UInt32.ofNat (raws.length + 1)) room
      room' (Srv.handle C S apdu room rng t) (Srv.handle C S apdu' room' rng' s) := by
  have hp := Purpose.decoded_of_run hr hb
  obtain ⟨haff, u, hu, -, hbuf, hrun⟩ := Purpose.blocks_finish
    (Purpose.hidden_unaffected hS hp.fault (by omega)) hfit hn ha hr hb room rng
  refine ⟨haff, ?_⟩
  rw [hrun, hb'.handle]
  exact Purpose.finish_ends hV hp ha hu hfit hbuf hplain hb'.decoded (.of_brings hb') i _ room room'

theorem Purpose.broken (hS : S.AsksLeave) (ha : p.Admitted S s)
    (hr : s.Receives C S (p.blocks i 0 raws) t) (hraws : raws ≠ []) {b : DataBlockSA}
    (hb : t.Brings C apdu (p.next i' b) t₁) (hfit : p.header.length + raws.flatten.length ≤ N)
    (hn : raws.length + 1 < 2 ^ 32)
    (hne : i' ≠ i ∨ b.blockNumber ≠ UInt32.ofNat (raws.length + 1)) (room : Nat) (rng : Entropy) :
    (Srv.handle C S apdu room rng t).2.transfer = .idle ∧
      s.Unaffected (Srv.handle C S apdu room rng t).2 := by
  have hp : p.Decoded := by
    cases raws with
    | nil => exact absurd rfl hraws
    | cons first raws =>
      cases hr with
      | cons room rng hb' _ => exact .of_first hb'.decoded
  have hwaits : s.Awaits p i [] 0 := rfl
  obtain ⟨hg, haff⟩ := Purpose.blocks_gather (Purpose.hidden_unaffected hS hp.fault (by omega))
    (by rwa [List.nil_append]) (by omega) ha hwaits hr
  rw [List.nil_append, Nat.zero_add, Server.Awaits, if_neg (by simpa using hraws)] at hg
  have hb₁ := Server.Unaffected.of_brings hb
  obtain ⟨hidle, hcont⟩ := (hg.brought hb).broken (C := C) (S := S) hn hne room
  rw [hb.handle, Purpose.later (ha.unaffected (haff.trans hb₁))]
  exact ⟨hidle, haff.trans (hb₁.trans hcont)⟩

/-- A transfer whose first block is not numbered 1 does not begin. -/
theorem Purpose.misnumbered (hS : S.AsksLeave) (ha : p.Admitted S s) {b : DataBlockSA}
    (hb : s.Brings C apdu (p.first i b) s₁) (hfit : p.header.length ≤ N) (hne : b.blockNumber ≠ 1)
    (room : Nat) (rng : Entropy) : (Srv.handle C S apdu room rng s).2.transfer = .idle ∧
      s.Unaffected (Srv.handle C S apdu room rng s).2 := by
  have hp : p.Decoded := .of_first hb.decoded
  have hb₁ := Server.Unaffected.of_brings hb
  obtain ⟨u, hrun, hg, hu⟩ := Purpose.begins (C := C) hS (ha.unaffected hb₁) hp.fault hfit i b room
  have hbad : i ≠ i ∨ b.blockNumber ≠ UInt32.ofNat 1 := .inr hne
  obtain ⟨hidle, hcont⟩ := hg.broken (C := C) (S := S) (by norm_num) hbad room
  rw [hb.handle, hrun]
  exact ⟨hidle, hb₁.trans (hu.trans hcont)⟩

theorem Purpose.abandoned (hs : s.state = .associated) {req : Apdu}
    (hb : s.Brings C apdu req s₁) (hreq : req.Starts s.negotiated) (room : Nat) (rng : Entropy) :
    Srv.handle C S apdu room rng s = Srv.serveRequest C S req room { s₁ with transfer := .idle } ∧
      (¬ req.BringsFirst → ¬ (Srv.handle C S apdu room rng s).2.transfer.Receiving) := by
  have hb₁ := Server.Unaffected.of_brings hb
  have hrun : Srv.handle C S apdu room rng s =
      Srv.serveRequest C S req room { s₁ with transfer := .idle } := by
    rw [hb.handle, Apdu.Starts.drops (by rwa [hb₁.negotiated]) (hb₁.state.trans hs)]
  refine ⟨hrun, fun hfirst => ?_⟩
  have hidle : Transfer.Quiet N .idle := ⟨trivial, nofun⟩
  rw [hrun]
  exact ((Srv.Moves.serveRequest (Transfer.Quiet.closed N) C S req (absurd · hfirst) room).run
    { s₁ with transfer := .idle } hidle).2

end Blocked

/-- In every state that a server reaches, for every way of cutting the encoding of a value into
numbered blocks that fit the response buffer:

* nothing is touched before the last block, which ends as the plain request ends, after the one write
  (`Purpose.Performs`), with the same report;
* a write that the rights refuse is refused at its first block, as the plain request refuses it;
* a block with another number or invoke id, a first block not numbered 1, and a request that starts
  another operation end the transfer, and what the server does then does not depend on it;
* where no transfer is gathered none comes about without a first block, and a later block is refused
  without touching anything. -/
theorem blocked_write_as_plain (C : CryptoProvider π) (S : ObjectStore σ) (hS : S.AsksLeave)
    (hV : S.SeesValues) (config : ServerConfig) (store : σ) (provider : π) (steps : List (Step σ)) :
    let s := (Server.new N config store provider).run C S steps
    (∀ (p : Purpose) (i i' : InvokeId) (raws : List Bytes) (raw apdu apdu' : Bytes) (plain : Apdu)
        (t t₁ s₁ : Server σ π N) (room room' : Nat) (rng rng' : Entropy),
      p.Admitted S s → s.Receives C S (p.blocks i 0 raws) t →
      t.Brings C apdu (p.block i true raws.length raw) t₁ → s.Brings C apdu' plain s₁ →
      p.Plain (raws.flatten ++ raw) i' plain →
      p.header.length + (raws.flatten ++ raw).length ≤ N → raws.length + 1 < 2 ^ 32 →
      s.Unaffected t ∧ p.Ends C S s (raws.flatten ++ raw) i i' (UInt32.ofNat (raws.length + 1)) room
        room' (Srv.handle C S apdu room rng t) (Srv.handle C S apdu' room' rng' s)) ∧
    (∀ (d : AttributeDescriptor) (access : Option SelectiveAccess) (i : InvokeId) (b : DataBlockSA)
        (apdu : Bytes) (s₁ : Server σ π N) (room : Nat) (rng : Entropy),
      s.state = .associated → s.negotiated.contains .set = true →
      s.negotiated.contains .blockTransferWithSetOrWrite = true →
      (S.attributeAccess s.store d).1.canWrite = false →
      s.Brings C apdu ((Purpose.set d access).first i b) s₁ →
      ∃ t : Server σ π N, t.transfer = .idle ∧ t.accesses = s.accesses ∧
        (∀ access' value', t.store = (S.write s.store d access' value').2 ∧
          (S.write s.store d access' value').1 = .readWriteDenied) ∧
        Srv.handle C S apdu room rng s =
          Srv.send C (.setResponse (.lastDataBlock i .readWriteDenied b.blockNumber)) room t) ∧
    (∀ (p : Purpose) (i i' : InvokeId) (raws : List Bytes) (b : DataBlockSA) (apdu : Bytes)
        (t t₁ : Server σ π N) (room : Nat) (rng : Entropy),
      p.Admitted S s → s.Receives C S (p.blocks i 0 raws) t → raws ≠ [] →
      t.Brings C apdu (p.next i' b) t₁ → p.header.length + raws.flatten.length ≤ N →
      raws.length + 1 < 2 ^ 32 → i' ≠ i ∨ b.blockNumber ≠ UInt32.ofNat (raws.length + 1) →
      (Srv.handle C S apdu room rng t).2.transfer = .idle ∧
        s.Unaffected (Srv.handle C S apdu room rng t).2) ∧
    (∀ (p : Purpose) (i : InvokeId) (b : DataBlockSA) (apdu : Bytes) (s₁ : Server σ π N) (room : Nat)
        (rng : Entropy), p.Admitted S s → s.Brings C apdu (p.first i b) s₁ → p.header.length ≤ N →
      b.blockNumber ≠ 1 → (Srv.handle C S apdu room rng s).2.transfer = .idle ∧
        s.Unaffected (Srv.handle C S apdu room rng s).2) ∧
    (∀ (req : Apdu) (apdu : Bytes) (s₁ : Server σ π N) (room : Nat) (rng : Entropy),
      s.state = .associated → s.Brings C apdu req s₁ → req.Starts s.negotiated →
      Srv.handle C S apdu room rng s = Srv.serveRequest C S req room { s₁ with transfer := .idle } ∧
        (¬ req.BringsFirst → ¬ (Srv.handle C S apdu room rng s).2.transfer.Receiving)) ∧
    (¬ s.transfer.Receiving → ∀ later : List (Step σ),
      (∀ pre x post, later = pre ++ x :: post → ¬ (s.run C S pre).TakesFirst C x) →
      ¬ (s.run C S later).transfer.Receiving ∧
        ∀ (p : Purpose) (i : InvokeId) (b : DataBlockSA) (apdu : Bytes) (t₁ : Server σ π N)
          (room : Nat) (rng : Entropy), (s.run C S later).Brings C apdu (p.next i b) t₁ →
        (s.run C S later).Unaffected (Srv.handle C S apdu room rng (s.run C S later)).2) := by
  intro s
  have hwithin : s.transfer.Within N := Server.run_within C S steps trivial
  refine ⟨?_, ?_, ?_, ?_, ?_, ?_⟩
  · intro p i i' raws raw apdu apdu' plain t t₁ s₁ room room' rng rng' ha hr hb hb' hplain hfit hn
    exact Purpose.delivered hS hV ha hr hb hb' hplain hfit hn room room' rng rng'
  · intro d access i b apdu s₁ room rng hs hc hblock hw hb
    have hb₁ := Server.Unaffected.of_brings hb
    obtain ⟨t, hidle, hacc, hstore, hrun⟩ := Purpose.denied (C := C) (S := S) (hb₁.state.trans hs)
      (by rwa [hb₁.negotiated]) (by rwa [hb₁.negotiated]) (by rwa [hb₁.store]) access i b room
    refine ⟨t, hidle, hacc.trans hb₁.accesses, ?_, (hb.handle S room rng).trans hrun⟩
    rwa [hb₁.store] at hstore
  · intro p i i' raws b apdu t t₁ room rng ha hr hraws hb hfit hn hne
    exact Purpose.broken hS ha hr hraws hb hfit hn hne room rng
  · intro p i b apdu s₁ room rng ha hb hfit hne
    exact Purpose.misnumbered hS ha hb hfit hne room rng
  · intro req apdu s₁ room rng hs hb hreq
    exact Purpose.abandoned hs hb hreq room rng
  · intro hq later hno
    have hquiet : (s.run C S later).transfer.Quiet N := Server.run_quiet ⟨hwithin, hq⟩ hno
    refine ⟨hquiet.2, fun p i b apdu t₁ room rng hb => ?_⟩
    have hb₁ := Server.Unaffected.of_brings hb
    have ht : ¬ t₁.transfer.Receiving := by
      obtain ⟨w, ev, rfl, -⟩ := hb.after
      exact hquiet.2
    rw [hb.handle]
    exact hb₁.trans (Purpose.next_ignored ht p i b room)

/-- A store whose attributes may be read and written, but refuse every value. -/
def stubbornStore : ObjectStore Unit := .constant [0x00] ⟨0x03⟩

theorem stubbornStore_asks : stubbornStore.AsksLeave := ⟨fun _ _ => rfl, fun _ _ => rfl⟩

theorem stubbornStore_sees : stubbornStore.SeesValues :=
  ⟨fun _ _ _ _ _ _ _ _ => rfl, fun _ _ _ _ _ => rfl⟩

/-- A server without security that agreed to every service. -/
def openServer (N : Nat) : Server Unit SampleKeys N :=
  (Server.new N {} () SampleKeys.plain).run sampleProvider stubbornStore [.handle plainAarq 64 .zeros]

/-- An APDU without protection, as that server takes it. -/
theorem openServer_brings {N : Nat} (s : Server Unit SampleKeys N) (apdu : Bytes) (req : Apdu)
    (tag : ApduTag) (hlen : apdu.length ≤ s.config.maxPduSize.toNat)
    (htag : ApduTag.fromU8 (apdu.headD 0) = some tag) (hne : tag ≠ .aarq ∧ tag ≠ .releaseRequest)
    (hs : s.state = .associated)
    (ho : (Srv.unprotectInto sampleProvider apdu s).1 = .ok ⟨apdu, none⟩)
    (hreq : Apdu.fromBytes apdu = .ok req) : ∃ t, s.Brings sampleProvider apdu req t :=
  ⟨_, hlen, ⟨tag, htag, hne⟩, .inl hs, ⟨apdu, none⟩, ho, hreq, rfl⟩

/-- The clock's time is set to the byte 5, in one APDU. -/
def clockSet : Bytes :=
  [0xC1, 0x01, 0xC1, 0x00, 0x08, 0x00, 0x00, 0x01, 0x00, 0x00, 0xFF, 0x02, 0x00, 0x11, 0x05]

/-- The same in two blocks: the tag of the value, and the value. -/
def clockSetFirst : Bytes :=
  [0xC1, 0x02, 0xC1, 0x00, 0x08, 0x00, 0x00, 0x01, 0x00, 0x00, 0xFF, 0x02, 0x00,
    0x00, 0x00, 0x00, 0x00, 0x01, 0x01, 0x11]

def clockSetLast : Bytes := [0xC1, 0x03, 0xC1, 0x01, 0x00, 0x00, 0x00, 0x02, 0x01, 0x05]

theorem blocked_write_as_plain_clock :
    let s := openServer 64
    let t := (Srv.handle sampleProvider stubbornStore clockSetFirst 64 .zeros s).2
    s.Unaffected t ∧ (Purpose.set clockTime none).Ends sampleProvider stubbornStore s [0x11, 0x05]
      ⟨0xC1⟩ ⟨0xC1⟩ 2 64 64 (Srv.handle sampleProvider stubbornStore clockSetLast 64 .zeros t)
      (Srv.handle sampleProvider stubbornStore clockSet 64 .zeros s) := by
  obtain ⟨s₁, hfirst⟩ := openServer_brings (openServer 64) clockSetFirst
    ((Purpose.set clockTime none).block ⟨0xC1⟩ false 0 [0x11]) .setRequest
    (by decide +kernel) (by decide) (by decide) (by decide +kernel) (by decide +kernel)
    (by decide +kernel)
  obtain ⟨t₁, hlast⟩ := openServer_brings
    (Srv.handle sampleProvider stubbornStore clockSetFirst 64 .zeros (openServer 64)).2
    clockSetLast ((Purpose.set clockTime none).block ⟨0xC1⟩ true 1 [0x05])
    .setRequest (by decide +kernel) (by decide) (by decide) (by decide +kernel)
    (by decide +kernel) (by decide +kernel)
  obtain ⟨s₂, hplain⟩ := openServer_brings (openServer 64) clockSet
    (.setRequest (.normal ⟨0xC1⟩ clockTime none (.unsigned 5))) .setRequest
    (by decide +kernel) (by decide) (by decide) (by decide +kernel) (by decide +kernel)
    (by decide +kernel)
  have hadmitted : (Purpose.set clockTime none).Admitted stubbornStore (openServer 64) :=
    ⟨by decide +kernel, by decide +kernel, by decide +kernel, by decide +kernel⟩
  exact (blocked_write_as_plain (N := 64) sampleProvider stubbornStore stubbornStore_asks
    stubbornStore_sees {} () .plain [.handle plainAarq 64 .zeros]).1 (.set clockTime none) ⟨0xC1⟩
    ⟨0xC1⟩ [[0x11]] [0x05] clockSetLast clockSet _ _ _ _ 64 64 .zeros .zeros hadmitted
    (.cons 64 .zeros hfirst (.nil _)) hlast hplain
    (.set rfl (by decide +kernel : Read.fromBytes Data.decode [0x11, 0x05] = .ok (.unsigned 5))
      (.refl _)) (by decide) (by decide)

/-- The time of 65 clocks. -/
def manyClocks : Bytes :=
  0x41 :: (List.replicate 65 [0x00, 0x08, 0x00, 0x00, 0x01, 0x00, 0x00, 0xFF, 0x02, 0x00]).flatten

def manyClocksSet : Bytes := [0xC1, 0x04, 0xC1] ++ manyClocks ++ (0x41 :: zeros 65)

def manyClocksFirst : Bytes :=
  [0xC1, 0x05, 0xC1] ++ manyClocks ++ [0x01, 0x00, 0x00, 0x00, 0x01, 0x42] ++ (0x41 :: zeros 65)

/-- A blocked write of a list of 65 entries is refused, where the plain one is carried out. -/
theorem long_blocked_list_refused :
    ¬ ∀ (s t s₁ : Server Unit SampleKeys 1024) (p : Purpose) (i i' : InvokeId)
      (raw apdu apdu' : Bytes) (plain : Apdu), s.state = .associated →
      s.negotiated = Conformance.serverDefault → s.Brings sampleProvider apdu (p.block i true 0 raw) t →
      s.Brings sampleProvider apdu' plain s₁ → p.Plain raw i' plain →
      p.header.length + raw.length ≤ 1024 →
      p.Ends sampleProvider stubbornStore s raw i i' 1 1024 1024
        (Srv.handle sampleProvider stubbornStore apdu 1024 .zeros s)
        (Srv.handle sampleProvider stubbornStore apdu' 1024 .zeros s) := by
  intro h
  obtain ⟨t, hblocked⟩ := openServer_brings (openServer 1024) manyClocksFirst
    ((Purpose.setList ⟨65, manyClocks.tail, 4⟩).block ⟨0xC1⟩ true 0 (0x41 :: zeros 65))
    .setRequest (by decide +kernel) (by decide) (by decide) (by decide +kernel)
    (by decide +kernel) (by decide +kernel)
  obtain ⟨s₁, hplain⟩ := openServer_brings (openServer 1024) manyClocksSet
    (.setRequest (.withList ⟨0xC1⟩ ⟨65, manyClocks.tail, 4⟩ ⟨65, zeros 65, 655⟩))
    .setRequest (by decide +kernel) (by decide) (by decide) (by decide +kernel)
    (by decide +kernel) (by decide +kernel)
  obtain ⟨ws, -, hws, hws'⟩ := (h (openServer 1024) t s₁ _ ⟨0xC1⟩ ⟨0xC1⟩ _ _ _ _ (by decide +kernel)
    (by decide +kernel) hblocked hplain
    (.setList rfl (by decide +kernel : Read.fromBytes (WireList.decodeOf Data.decode)
      (0x41 :: zeros 65) = .ok ⟨65, zeros 65, 1⟩) rfl rfl) (by decide +kernel)).accesses
  exact absurd (hws.trans hws'.symm) (by decide +kernel)

end Dlms
