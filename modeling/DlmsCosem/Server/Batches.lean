import DlmsCosem.Server.Audit
import DlmsCosem.Server.BlockedWrites
import DlmsCosem.Server.Mirrors

/-!
# Batches against single requests

A `Batch` is a request of several operations, of any of the services that take several.
`ObjectStore.serve` is its walk over the store, and `Batch.Asked.served` the handler that takes it.
`batches_as_singles_iff` compares it with a request for each operation: they part only in a GET with a
list and in an ACCESS, over a store that does not do what it says.
-/

namespace Dlms

variable {σ π : Type} {N : Nat}

/-! ## Requests of several operations -/

/-- A request of several operations. -/
inductive Batch
  | get (items : List AttributeDescriptorWithSelection)
  | set (items : List (AttributeDescriptorWithSelection × Data))
  | action (items : List (MethodDescriptor × Data))
  | access (items : List (AccessRequestSpecification × Data))
  | read (entries : List VariableAccess)
  | write (items : List (VariableAccess × Data))

namespace Batch

/-- The operations. `null-data` stands for the parameter of a method that takes none. -/
def singles : Batch → List Single
  | get items => items.map fun x => .get x.descriptor x.access
  | set items => items.map fun x => .set x.1.descriptor x.1.access x.2
  | action items => items.map fun x => .action x.1 (Srv.parameterOf x.2)
  | access items => items.map fun x => x.1.single x.2
  | read entries => entries.map .read
  | write items => items.map fun x => .write x.1 x.2

/-- The slot that an outcome has in the response. -/
def slot : Batch → Told → Slot
  | access _ => Told.accessSlot
  | _ => Told.slot

/-- What stands before a value in its slot. -/
def lead : Batch → Nat
  | get _ | read _ => 1
  | action _ => 3
  | set _ | access _ | write _ => 0

/-- The request in one APDU. -/
inductive Asked (i : InvokeId) : Batch → Apdu → Prop
  | get {items : List AttributeDescriptorWithSelection} {list : WireList} :
    list.iter AttributeDescriptorWithSelection.decode = items.map .ok →
    Asked i (get items) (.getRequest (.withList i list))
  | set {items : List (AttributeDescriptorWithSelection × Data)} {descriptors values : WireList} :
    descriptors.iter AttributeDescriptorWithSelection.decode = items.map (fun x => .ok x.1) →
    values.iter Data.decode = items.map (fun x => .ok x.2) →
    Asked i (set items) (.setRequest (.withList i descriptors values))
  | action {items : List (MethodDescriptor × Data)} {descriptors parameters : WireList} :
    descriptors.iter MethodDescriptor.decode = items.map (fun x => .ok x.1) →
    parameters.iter Data.decode = items.map (fun x => .ok x.2) →
    Asked i (action items) (.actionRequest (.withList i descriptors parameters))
  | access {items : List (AccessRequestSpecification × Data)} {req : AccessRequest} :
    req.specification.iter AccessRequestSpecification.decode = items.map (fun x => .ok x.1) →
    req.data.iter Data.decode = items.map (fun x => .ok x.2) →
    Asked i (access items) (.accessRequest req)
  | read {entries : List VariableAccess} {req : ReadRequest} :
    req.specification.iter VariableAccess.decode = entries.map .ok →
    (∀ n, VariableAccess.blockNumber n ∉ entries) → Asked i (read entries) (.readRequest req)
  | write {items : List (VariableAccess × Data)} {req : WriteRequest} :
    req.specification.iter VariableAccess.decode = items.map (fun x => .ok x.1) →
    req.values.iter Data.decode = items.map (fun x => .ok x.2) →
    Asked i (write items) (.writeRequest req)

/-- The server is ready for the request, and does not refuse it for its length. -/
def Admitted (b : Batch) (s : Server σ π N) : Prop :=
  s.state = .associated ∧
  match b with
  | get _ => s.negotiated.contains .get = true ∧ s.negotiated.contains .multipleReferences = true
  | set _ => s.negotiated.contains .set = true ∧ s.negotiated.contains .multipleReferences = true
  | action items => s.negotiated.contains .action = true ∧
    s.negotiated.contains .multipleReferences = true ∧ items.length ≤ maxAccessItems
  | access items => s.negotiated.contains .access = true ∧ items.length ≤ maxAccessItems
  | read entries => s.negotiated.contains .read = true ∧ 0 < entries.length ∧
    entries.length ≤ maxAccessItems
  | write items => s.negotiated.contains .write = true ∧ 0 < items.length ∧
    items.length ≤ maxAccessItems

/-- How a response answers with these slots. The last block of a SET is answered like the whole. -/
inductive Answered (C : CryptoProvider π) (i : InvokeId) (room : Nat) :
    Batch → List Slot → Srv σ π N Bytes → Prop
  | get {items : List AttributeDescriptorWithSelection} {slots : List Slot} {w : SliceWriter} :
    w.asSlice = (slots.map Slot.element).flatten →
    Answered C i room (get items) slots (Srv.answerGetList C i items.length room w)
  | set (items : List (AttributeDescriptorWithSelection × Data)) (slots : List Slot) :
    Answered C i room (set items) slots (Srv.send C (.setResponse (.withList i
      (.fromRaw items.length (slots.map Slot.element).flatten))) room)
  | setBlocked (items : List (AttributeDescriptorWithSelection × Data)) (slots : List Slot)
    (n : UInt32) : Answered C i room (set items) slots (Srv.send C (.setResponse
      (.lastDataBlockWithList i (.fromRaw items.length (slots.map Slot.element).flatten) n)) room)
  | action (items : List (MethodDescriptor × Data)) (slots : List Slot) :
    Answered C i room (action items) slots (Srv.send C (.actionResponse (.withList i
      (.fromRaw items.length (slots.map Slot.element).flatten))) room)
  | access {items : List (AccessRequestSpecification × Data)} {slots : List Slot}
    {w : SliceWriter × SliceWriter} (longInvokeId : LongInvokeId) :
    w.1.asSlice = (slots.map Slot.element).flatten →
    w.2.asSlice = (slots.map Slot.result).flatten →
    Answered C i room (access items) slots (Srv.answerAccess C longInvokeId items.length room w)
  | read {entries : List VariableAccess} {slots : List Slot} {w : SliceWriter} :
    w.asSlice = (slots.map Slot.element).flatten →
    Answered C i room (read entries) slots (Srv.answerRead C entries.length room w)
  | write (items : List (VariableAccess × Data)) (slots : List Slot) :
    Answered C i room (write items) slots (Srv.send C (.writeResponse
      ⟨.fromRaw items.length (slots.map Slot.element).flatten⟩) room)

theorem Answered.keeps {C : CryptoProvider π} {i : InvokeId} {room : Nat} {b : Batch}
    {slots : List Slot} {m : Srv σ π N Bytes} (h : b.Answered C i room slots m)
    {R : Server σ π N → Server σ π N → Prop} (hR : Server.Delivering R) : Prog.Keeps R m := by
  cases h with
  | get => exact hR.answerGetList ..
  | read => exact hR.answerRead ..
  | _ => exact hR.send ..

end Batch

/-- The walk of a request over the store. -/
def ObjectStore.serve (S : ObjectStore σ) (N : Nat) (st : σ) : Batch → Served σ (Option (List Slot))
  | .get items => (walk (S.getEntry N) (fun t => (readSlot t).length) st 0 items).slots
    fun t => ⟨readSlot t, []⟩
  | .set items => (walk (S.setEntry N) (fun t => [t.asU8].length) st 0 items).slots
    fun t => ⟨[t.asU8], []⟩
  | .action items => (walk (S.runEntry N) (fun t => (runSlot t).length) st 0 items).slots
    fun t => ⟨runSlot t, []⟩
  | .access items => (walk (S.accessListEntry N) (fun t => t.2.length) st 0 items).slots Slot.ofAccess
  | .read entries => (walk (S.readListEntry N) (fun t => (readSlot t).length) st 0 entries).slots
    fun t => ⟨readSlot t, []⟩
  | .write items => (walk S.writeListEntry (fun _ => 0) st 0 items).slots fun t => ⟨writeSlot t, []⟩

namespace Batch

/-! ## The handlers -/

section Handlers

variable {C : CryptoProvider π} {S : ObjectStore σ} {s : Server σ π N} {α τ : Type}

/-- Two lists of the same length, as the handlers walk through them. -/
theorem zip_items {α β : Type} (items : List (α × β)) :
    (items.map fun x => (.ok x.1 : Result α)).zip (items.map fun x => (.ok x.2 : Result β)) =
      items.map fun x => (.ok x.1, .ok x.2) := by
  rw [List.zip_map']

theorem count_eq {α β : Type} {decode : Read α} {list : WireList} {f : β → Result α} {items : List β}
    (h : list.iter decode = items.map f) : list.count = items.length := by
  rw [← WireList.length_iter decode, h, List.length_map]

/-- A SET with a list. -/
theorem setWithList_run (i : InvokeId) (descriptors values : WireList) (room : Nat)
    (h : s.state = .associated ∧ s.negotiated.contains .set = true)
    (hm : s.negotiated.contains .multipleReferences = true)
    (hcount : descriptors.count = values.count) :
    Srv.serveRequest C S (.setRequest (.withList i descriptors values)) room s =
      (Prog.fold (Srv.setListItem S) (SliceWriter.new (zeros N))
        ((descriptors.iter AttributeDescriptorWithSelection.decode).zip (values.iter Data.decode)) >>=
        fun w => Srv.send C (.setResponse (.withList i (.fromRaw descriptors.count w.asSlice))) room)
        { s with transfer := .idle } := by
  have hserve : Srv.serveRequest C S (.setRequest (.withList i descriptors values)) room s =
      Srv.handleSetWithList C S i descriptors values room s := Srv.serving_run C room h
  rw [hserve, Srv.handleSetWithList, Srv.withReferences_run C room hm, if_neg (by omega),
    Srv.setTransfer, Prog.modify_bind_run]
  simp only [List.length_zip, WireList.length_iter, ← hcount, Nat.min_self]

/-- A request was served with this walk: it is answered with the slots, or ends with an error. -/
def Walked (C : CryptoProvider π) (b : Batch) (i : InvokeId) (room : Nat)
    (run : Except Error Bytes × Server σ π N) (s : Server σ π N)
    (r : Served σ (Option (List Slot))) : Prop :=
  (∃ slots m, r.outcome = some slots ∧ b.Answered C i room slots m ∧
    run = m (s.asked r.store r.calls)) ∨
  (r.outcome = none ∧ ∃ e, run = (.error e, s.asked r.store r.calls))

/-- A service whose answers each add a slot to one list. -/
theorem Walked.of_slots {γ : Type} {f : SliceWriter → γ → Srv σ π N SliceWriter} {entry : α → γ}
    {one : σ → Nat → α → Served σ (Option τ)} {slot : τ → Bytes} {b : Batch} {i : InvokeId}
    {room : Nat}
    (h : Walking f entry one (fun t => (slot t).length) SliceWriter.pos
      (fun _ w => w.buf.length = N) fun w ts w' => w.Grown w' (ts.map slot).flatten)
    {items : List α} {answer : SliceWriter → Srv σ π N Bytes} {run : Except Error Bytes × Server σ π N}
    (hrun : run = (Prog.fold f (SliceWriter.new (zeros N)) (items.map entry) >>= answer) s)
    (hanswer : ∀ slots w, w.asSlice = (slots.map Slot.element).flatten →
      b.Answered C i room slots (answer w)) :
    Walked C b i room run s
      ((walk one (fun t => (slot t).length) s.store 0 items).slots fun t => ⟨slot t, []⟩) := by
  obtain ⟨ts, w, hts, hfold, hslice, -⟩ | ⟨hnone, e, hfold⟩ := h.slots items s
  · refine .inl ⟨ts.map fun t => ⟨slot t, []⟩, answer w, ?_, hanswer _ w ?_, ?_⟩
    · exact congrArg (Option.map _) hts
    · rw [hslice, List.map_map]
      rfl
    · exact hrun.trans (Prog.bind_run_ok hfold)
  · exact .inr ⟨congrArg (Option.map _) hnone, e, hrun.trans (Prog.bind_run_error hfold)⟩

/-- The handlers serve a request with its walk. -/
theorem Asked.served {b : Batch} {i : InvokeId} {req : Apdu} (h : b.Asked i req) (ha : b.Admitted s)
    (room : Nat) : Walked C b i room (Srv.serveRequest C S req room s) { s with transfer := .idle }
      (S.serve N s.store b) := by
  cases h with
  | @get items list hlist =>
    obtain ⟨hs, hget, hrefs⟩ := ha
    have hrun := Srv.getWithList_run C S i list room ⟨hs, hget⟩ hrefs
    rw [hlist, count_eq hlist] at hrun
    exact .of_slots (Srv.getListItem_walking S N) hrun fun slots w hw => .get hw
  | @set items descriptors values hd hv =>
    obtain ⟨hs, hset, hrefs⟩ := ha
    have hrun := setWithList_run (C := C) (S := S) i descriptors values room ⟨hs, hset⟩ hrefs
      ((count_eq hd).trans (count_eq hv).symm)
    rw [hd, hv, zip_items, count_eq hd] at hrun
    refine .of_slots (Srv.setListItem_walking S N) hrun fun slots w hw => ?_
    rw [hw]
    exact .set items slots
  | @action items descriptors parameters hd hp =>
    obtain ⟨hs, haction, hrefs, hlen⟩ := ha
    have hrun := Srv.actionWithList_run C S i descriptors parameters room ⟨hs, haction⟩ hrefs
      ((count_eq hd).trans (count_eq hp).symm) (by rw [count_eq hd]; exact hlen)
    rw [hd, hp, zip_items, count_eq hd] at hrun
    refine .of_slots (Srv.actionListItem_walking S N) hrun fun slots w hw => ?_
    rw [hw]
    exact .action items slots
  | @access items req hspec hdata =>
    obtain ⟨hs, haccess, hlen⟩ := ha
    have hrun := Srv.access_run C S req room ⟨hs, haccess⟩
      ((count_eq hspec).trans (count_eq hdata).symm) (by rw [count_eq hspec]; exact hlen)
    rw [AccessRequest.entries, hspec, hdata, zip_items, count_eq hspec] at hrun
    have hfold := (Srv.accessItem_walking S N).fold items
      (b := (SliceWriter.new (zeros N), SliceWriter.new (zeros (maxAccessItems * 2))))
      (s := ({ s with transfer := .idle } : Server σ π N))
      ⟨by
        rw [SliceWriter.new_pos, SliceWriter.new_buf, length_zeros]
        omega, length_zeros N⟩
    obtain ⟨ts, w, hts, hfold, hg⟩ | ⟨hnone, e, hfold⟩ := hfold
    · refine .inl ⟨ts.map Slot.ofAccess, _, ?_, .access req.longInvokeId ?_ ?_,
        hrun.trans (Prog.bind_run_ok hfold)⟩
      · exact congrArg (Option.map (List.map Slot.ofAccess)) hts
      · rw [hg.1.slice, SliceWriter.new_asSlice, List.nil_append, List.map_map]
        rfl
      · rw [hg.2.slice, SliceWriter.new_asSlice, List.nil_append, List.map_map]
        rfl
    · exact .inr ⟨congrArg (Option.map _) hnone, e, hrun.trans (Prog.bind_run_error hfold)⟩
  | @read entries req hentries hname =>
    obtain ⟨hs, hread, hpos, hlen⟩ := ha
    have hacked : Srv.ackedBlock req = none := by
      unfold Srv.ackedBlock
      rw [hentries]
      split
      · cases entries with
        | nil => rfl
        | cons entry entries =>
          cases entry with
          | blockNumber n => exact absurd List.mem_cons_self (hname n)
          | _ => rfl
      · rfl
    have hrun := Srv.read_run C S req room ⟨hs, hread⟩ (by rw [count_eq hentries]; exact ⟨hpos, hlen⟩)
      hacked
    rw [hentries, count_eq hentries] at hrun
    exact .of_slots (Srv.readItem_walking S N) hrun fun slots w hw => .read hw
  | @write items req hspec hvalues =>
    obtain ⟨hs, hwrite, hpos, hlen⟩ := ha
    have hrun := Srv.write_run C S req room ⟨hs, hwrite⟩
      ((count_eq hspec).trans (count_eq hvalues).symm) (by rw [count_eq hspec]; exact ⟨hpos, hlen⟩)
    rw [WriteRequest.entries, hspec, hvalues, zip_items, count_eq hspec] at hrun
    have hfold := (Srv.writeItem_walking S).fold items
      (b := SliceWriter.new (zeros (maxAccessItems * 2)))
      (s := ({ s with transfer := .idle } : Server σ π N))
      (by rw [SliceWriter.new_pos, SliceWriter.new_buf, length_zeros]; omega)
    obtain ⟨ts, w, hts, hfold, hg⟩ | ⟨hnone, e, hfold⟩ := hfold
    · have hslice : w.asSlice = ((ts.map fun t => (⟨writeSlot t, []⟩ : Slot)).map Slot.element).flatten := by
        rw [hg.slice, SliceWriter.new_asSlice, List.nil_append, List.map_map]
        rfl
      refine .inl ⟨ts.map fun t => ⟨writeSlot t, []⟩, _, congrArg (Option.map _) hts, ?_,
        hrun.trans (Prog.bind_run_ok hfold)⟩
      rw [hslice]
      exact .write items _
    · exact .inr ⟨congrArg (Option.map _) hnone, e, hrun.trans (Prog.bind_run_error hfold)⟩

end Handlers

/-! ## What a walk comes to -/

section Compare

variable (S : ObjectStore σ) (N : Nat) (st : σ)

/-- There is room in one APDU for the slots, and for what the store writes for each. The results of a
short-name write have room in any case. -/
def Fits : Batch → Prop
  | write _ => True
  | b => S.AlongEach N (fun told => (b.slot told).element.length) (S.FitsAt N b.lead b.slot) st 0
    b.singles

/-- In the services that notice, the store keeps to what it says. -/
def Kept : Batch → Prop
  | b@(get _) => S.AlongEach N (fun told => (b.slot told).element.length)
    (fun st _ x => S.ReadKept N st x) st 0 b.singles
  | b@(access _) => S.AlongEach N (fun told => (b.slot told).element.length)
    (fun st _ x => S.AccessKept N st x) st 0 b.singles
  | _ => True

variable {S N st}

/-- A walk that gets to its end is its operations one by one exactly if the store keeps to what it
says. -/
theorem serve_iff (hS : S.Steady N) {b : Batch} (hfits : b.Fits S N st)
    (hans : (S.serve N st b).outcome ≠ none) :
    (S.serve N st b).AsEach b.slot (S.each N st b.singles) ↔ b.Kept S N st := by
  have hwalk {τ : Type} {r : Served σ (Option (List τ))} {put : τ → Slot}
      (h : (r.slots put).outcome ≠ none) : r.outcome ≠ none := fun hnone =>
    h (congrArg (Option.map (List.map put)) hnone)
  have hall {width : Told → Nat} (xs : List Single) :
      S.AlongEach N width (fun _ _ _ => True) st 0 xs ↔ True :=
    iff_true_intro (S.alongEach_of (fun _ _ _ => trivial) st 0 xs)
  cases b with
  | get items => exact (getEntry_mirrors hS).walk_iff items hfits (hwalk hans)
  | set items => exact (setEntry_mirrors.walk_iff items hfits (hwalk hans)).trans (hall _)
  | action items => exact ((runEntry_mirrors hS).walk_iff items hfits (hwalk hans)).trans (hall _)
  | access items => exact (accessListEntry_mirrors hS).walk_iff items hfits (hwalk hans)
  | read entries =>
    exact ((readListEntry_mirrors hS).walk_iff entries hfits (hwalk hans)).trans (hall _)
  | write items =>
    exact (writeListEntry_mirrors.walk_iff items (S.alongEach_of (fun _ _ _ => trivial) ..)
      (hwalk hans)).trans (hall _)

/-- A slot for a read of a short name takes two bytes at least. -/
theorem Fits.room {b : Batch} (h : b.Fits S N st) (entry : VariableAccess)
    (hentry : Single.read entry ∈ b.singles) : 2 ≤ N := by
  cases b with
  | read entries =>
    cases entries with
    | nil => cases hentry
    | cons first rest =>
      have hfirst := h.1.1
      have hslot (r : Except DataAccessResult Unit × Bytes) : 2 ≤ (readSlot (readOutcome r)).length := by
        match r with
        | (.error e, v) => exact Nat.le_refl _
        | (.ok (), v) =>
          rw [readOutcome]
          split
          · exact Nat.le_refl _
          · next hv => exact Nat.succ_le_succ (List.length_pos_iff.mpr hv)
      have := hslot (S.readEntry st first N 1).outcome
      change 0 + (readSlot (readOutcome (S.readEntry st first N 1).outcome)).length ≤ N at hfirst
      omega
  | access items =>
    obtain ⟨⟨spec, value⟩, -, hx⟩ := List.mem_map.mp hentry
    cases spec <;> cases hx
  | _ =>
    obtain ⟨x, -, hx⟩ := List.mem_map.mp hentry
    cases hx

end Compare

/-! ## A SET in blocks -/

section Blocked

variable {C : CryptoProvider π} {S : ObjectStore σ} {s t t₁ : Server σ π N}

theorem each_set (items : List (AttributeDescriptorWithSelection × Data)) (st : σ) :
    S.each N st (set items).singles = ⟨(S.writes items st).1.1.map Told.set, (S.writes items st).2,
      (S.writes items st).1.2⟩ := by
  induction items generalizing st with
  | nil => rfl
  | cons x items ih =>
    have hcons : (set (x :: items)).singles =
        .set x.1.descriptor x.1.access x.2 :: (set items).singles := rfl
    rw [hcons, ObjectStore.each_cons, ih]
    rfl

/-- The blocks of a list ask for nothing before the last one. -/
theorem hidden_untouched {descriptors : WireList}
    (hf : (Purpose.setList descriptors).headerEmit.fault = none)
    (hfit : (Purpose.setList descriptors).header.length ≤ N) :
    (Purpose.setList descriptors).Hidden C S
      (Server.Untouched : Server σ π N → Server σ π N → Prop) where
  toDelivering := Server.Untouched.delivering
  brings := .of_brings
  admitted ha hu := by
    unfold Purpose.Admitted
    rw [hu.state, hu.negotiated]
    exact ha
  begins i b room ha := Purpose.begins_list Server.Untouched.delivering ha hf hfit i b room

/-- Entries that are the same but for their places are the same operations. -/
theorem singles_zip {xs : List AttributeDescriptorWithSelection}
    {items : List (AttributeDescriptorWithSelection × Data)}
    (h : xs.map AttributeDescriptorWithSelection.unplaced =
      items.map fun x => x.1.unplaced) :
    (set (xs.zip (items.map Prod.snd))).singles.map Single.unplaced =
      (set items).singles.map Single.unplaced := by
  induction items generalizing xs with
  | nil =>
    obtain rfl : xs = [] := List.map_eq_nil_iff.mp h
    rfl
  | cons x items ih =>
    cases xs with
    | nil => cases h
    | cons y xs =>
      obtain ⟨hy, hrest⟩ := List.cons.inj h
      obtain ⟨hd, ha⟩ := AttributeDescriptorWithSelection.mk.inj hy
      refine congrArg₂ List.cons ?_ (ih hrest)
      change Single.set y.descriptor _ _ = Single.set x.1.descriptor _ _
      rw [hd]
      exact congrArg (Single.set _ · _) ha

/-- A SET of a list in blocks does and reports what its writes do one by one. -/
theorem blocked_set (hS : S.Steady N) {descriptors values : WireList}
    {items : List (AttributeDescriptorWithSelection × Data)} {i : InvokeId} {raws : List Bytes}
    {raw apdu : Bytes} (ha : (Purpose.setList descriptors).Admitted S s)
    (hr : s.Receives C S ((Purpose.setList descriptors).blocks i 0 raws) t)
    (hb : t.Brings C apdu ((Purpose.setList descriptors).block i true raws.length raw) t₁)
    (hd : descriptors.iter AttributeDescriptorWithSelection.decode = items.map fun x => .ok x.1)
    (hv : Read.fromBytes (WireList.decodeOf Data.decode) (raws.flatten ++ raw) = .ok values)
    (hvs : values.iter Data.decode = items.map fun x => .ok x.2)
    (hfit : (Purpose.setList descriptors).header.length + (raws.flatten ++ raw).length ≤ N)
    (hn : raws.length + 1 < 2 ^ 32) (room : Nat) (rng : Entropy) :
    let each := S.each N s.store (set items).singles
    let after := (Srv.handle C S apdu room rng t).2
    (∃ m u, (set items).Answered C i room (each.outcome.map Told.slot) m ∧
      Srv.handle C S apdu room rng t = m u) ∧
    after.store = each.store ∧ after.calls = s.calls ++ each.calls.map StoreCall.unplaced := by
  intro each after
  have hp := Purpose.decoded_of_run hr hb
  obtain ⟨-, u, hu, -, hbuf, hrun⟩ := Purpose.blocks_finish (hidden_untouched hp.fault (by omega)) hfit
    hn ha hr hb room rng
  have hvs' : values.iter Data.decode = (items.map Prod.snd).map .ok := by
    rw [hvs, List.map_map]
    rfl
  obtain ⟨descriptors', xs, hplace, hxs, hfinish⟩ := Srv.finishBlockedListSet_run C S hp ha.2.2.2.2 hfit
    hbuf hv ((count_eq hd).trans (count_eq hvs).symm) hvs' i (UInt32.ofNat (raws.length + 1)) room
  -- The entries are decoded from the buffer, where they stand elsewhere than in the first block.
  obtain ⟨entries, hentries⟩ := hp.listed.entries
  obtain ⟨xs₁, hxs₁, hu₁⟩ := hentries descriptors' hplace
  obtain ⟨xs₂, hxs₂, hu₂⟩ := hentries descriptors rfl
  obtain rfl := Purpose.map_ok_inj (hxs.symm.trans hxs₁)
  have hfirst : xs₂ = items.map Prod.fst := by
    refine Purpose.map_ok_inj (hxs₂.symm.trans (hd.trans ?_))
    rw [List.map_map]
    rfl
  have hplaces : xs.map AttributeDescriptorWithSelection.unplaced =
      items.map fun x => x.1.unplaced := by
    rw [hu₁, ← hu₂, hfirst, List.map_map]
    rfl
  have hlength : (xs.zip (items.map Prod.snd)).length = items.length := by
    have := congrArg List.length hplaces
    rw [List.length_map, List.length_map] at this
    rw [List.length_zip, List.length_map, this, Nat.min_self]
  have hlike := hS.each_like (N := N) s.store (singles_zip hplaces)
  rw [each_set] at hlike
  have hslots : ((each.outcome.map Told.slot).map Slot.element).flatten =
      (S.writes (xs.zip (items.map Prod.snd)) u.store).1.1.map DataAccessResult.asU8 := by
    rw [hu.store, ← hlike.outcome, List.map_map, List.map_map, ← List.flatMap_def]
    exact List.flatMap_pure_eq_map ..
  have hhandle := hrun.trans hfinish
  rw [hlength, ← hslots] at hhandle
  have hafter : Server.Untouched _ after :=
    congrArg Prod.snd hhandle ▸ ((Answered.setBlocked items (each.outcome.map Told.slot)
      (UInt32.ofNat (raws.length + 1))).keeps Server.Untouched.delivering).run _
  refine ⟨⟨_, _, .setBlocked items _ _, hhandle⟩, ?_, ?_⟩
  · rw [hafter.store, Server.asked_store, hu.store]
    exact hlike.store
  · rw [hafter.calls, Server.calls_asked, hu.calls, hu.store]
    exact congrArg _ hlike.calls

end Blocked

end Batch

/-- For a store that goes by what it is asked, and an association that agreed to the services of its
operations, a request of several operations that is answered, and a server that is sent the requests
for its operations one by one:

* the answer has the slots of the operations, the store is left as they leave it, and was asked what
  they ask of it, exactly if in a GET with a list and in an ACCESS the store kept to what it said
  (`Batch.Kept`);
* a SET of a list in blocks is its writes one by one in any case. -/
theorem batches_as_singles_iff (C : CryptoProvider π) {S : ObjectStore σ} (hS : S.Steady N)
    (s : Server σ π N) :
    (∀ (b : Batch) (i : InvokeId) (req : Apdu) (apdu bytes : Bytes) (reqs : List Apdu)
        (s₁ t : Server σ π N) (room : Nat) (rng : Entropy),
      b.Admitted s → b.Asked i req → s.Brings C apdu req s₁ →
      (Srv.handle C S apdu room rng s).1 = .ok bytes → b.Fits S N s.store →
      (∀ x ∈ b.singles, s.negotiated.contains x.required = true) →
      List.Forall₂ Single.AskedBy b.singles reqs → s.Receives C S reqs t →
      let r := S.serve N s.store b
      let each := S.each N s.store b.singles
      let after := (Srv.handle C S apdu room rng s).2
      (∃ slots m u, r.outcome = some slots ∧ b.Answered C i room slots m ∧
        Srv.handle C S apdu room rng s = m u) ∧
      s.OneByOne C S b.singles each.outcome t ∧
      ((r.outcome = some (each.outcome.map b.slot) ∧ after.store = t.store ∧ after.calls = t.calls) ↔
        b.Kept S N s.store)) ∧
    (∀ (descriptors values : WireList) (items : List (AttributeDescriptorWithSelection × Data))
        (i : InvokeId) (raws : List Bytes) (raw apdu : Bytes) (reqs : List Apdu)
        (w w₁ t : Server σ π N) (room : Nat) (rng : Entropy),
      (Purpose.setList descriptors).Admitted S s →
      s.Receives C S ((Purpose.setList descriptors).blocks i 0 raws) w →
      w.Brings C apdu ((Purpose.setList descriptors).block i true raws.length raw) w₁ →
      descriptors.iter AttributeDescriptorWithSelection.decode = items.map (fun x => .ok x.1) →
      Read.fromBytes (WireList.decodeOf Data.decode) (raws.flatten ++ raw) = .ok values →
      values.iter Data.decode = items.map (fun x => .ok x.2) →
      (Purpose.setList descriptors).header.length + (raws.flatten ++ raw).length ≤ N →
      raws.length + 1 < 2 ^ 32 → List.Forall₂ Single.AskedBy (Batch.set items).singles reqs →
      s.Receives C S reqs t →
      let each := S.each N s.store (Batch.set items).singles
      let after := (Srv.handle C S apdu room rng w).2
      (∃ m u, (Batch.set items).Answered C i room (each.outcome.map Told.slot) m ∧
        Srv.handle C S apdu room rng w = m u) ∧
      s.OneByOne C S (Batch.set items).singles each.outcome t ∧
      after.store = t.store ∧ after.calls = t.calls) := by
  refine ⟨?_, ?_⟩
  · intro b i req apdu bytes reqs s₁ t room rng ha hask hb hok hfits hagreed hreqs hr r each after
    have hs₁ := Server.Untouched.of_brings hb
    have ha₁ : b.Admitted s₁ := by
      unfold Batch.Admitted
      rw [hs₁.state, hs₁.negotiated]
      exact ha
    have hrun := hb.handle S room rng
    have hserved := hask.served (C := C) (S := S) ha₁ room
    rw [← hrun, hs₁.store] at hserved
    obtain ⟨hone, hstore, hcalls⟩ := hr.one_by_one hS.toSeesRequests hreqs ha.1 hagreed hfits.room
    obtain ⟨slots, m, hslots, hanswered, hhandle⟩ | ⟨-, e, herror⟩ := hserved
    · have hafter : Server.Untouched _ after :=
        congrArg Prod.snd hhandle ▸ (hanswered.keeps Server.Untouched.delivering).run _
      have hafterCalls : after.calls = s.calls ++ r.calls.map StoreCall.unplaced := by
        rw [hafter.calls, Server.calls_asked]
        exact congrArg (· ++ _) hs₁.calls
      refine ⟨⟨slots, m, _, hslots, hanswered, hhandle⟩, hone, ?_⟩
      rw [← Batch.serve_iff hS hfits (by rw [hslots]; exact Option.some_ne_none _), hafterCalls, hcalls,
        List.append_cancel_left_eq, hstore, hafter.store]
      exact Iff.rfl
    · rw [herror] at hok
      cases hok
  · intro descriptors values items i raws raw apdu reqs w w₁ t room rng ha hw hb hd hv hvs hfit hn hreqs
      hr each after
    obtain ⟨hanswered, hstore, hcalls⟩ := Batch.blocked_set hS ha hw hb hd hv hvs hfit hn room rng
    obtain ⟨hone, hstore', hcalls'⟩ := hr.one_by_one hS.toSeesRequests hreqs ha.1
      (fun x hx => by
        obtain ⟨item, -, rfl⟩ := List.mem_map.mp hx
        exact ha.2.1)
      fun entry hentry => by
        obtain ⟨item, -, hitem⟩ := List.mem_map.mp hentry
        cases hitem
    exact ⟨hanswered, hone, hstore.trans hstore'.symm, hcalls.trans hcalls'.symm⟩

/-- A store of one value goes by what it is asked. -/
theorem stubbornStore_seesRequests : stubbornStore.SeesRequests where
  toSeesValues := stubbornStore_sees
  selector _ _ _ _ _ := rfl

theorem stubbornStore_steady (N : Nat) : stubbornStore.Steady N where
  toSeesRequests := stubbornStore_seesRequests
  read st d access pos pos' hpos hfit := by
    have hsink (at' : Nat) : (stubbornStore.getAttribute st d access).sink N at' =
        if at' + 1 ≤ N then ((.ok (), ()), [0x00]) else ((.error .otherReason, ()), []) := by
      change WriteProg.sink (.write [0x00] _) N at' = _
      rw [WriteProg.sink]
      rfl
    rw [hsink] at hfit
    rw [hsink, hsink]
    by_cases h : pos + 1 ≤ N
    · rw [if_pos h] at hfit ⊢
      exact if_pos hfit
    · rw [if_neg h, if_neg (by omega)]
  run _ _ _ _ _ _ _ := rfl

/-- The clock's time twice, in one request. -/
def clocksGet : Bytes :=
  [0xC0, 0x03, 0xC1, 0x02, 0x00, 0x08, 0x00, 0x00, 0x01, 0x00, 0x00, 0xFF, 0x02, 0x00,
    0x00, 0x08, 0x00, 0x00, 0x01, 0x00, 0x00, 0xFF, 0x02, 0x00]

theorem batches_as_singles_clocks :
    let s := openServer 64
    let list := Srv.handle sampleProvider stubbornStore clocksGet 64 .zeros s
    let first := Srv.handle sampleProvider stubbornStore plainGet 64 .zeros s
    let second := Srv.handle sampleProvider stubbornStore plainGet 64 .zeros first.2
    list.2.store = second.2.store ∧ list.2.calls = second.2.calls := by
  let clocks : WireList := ⟨2, clocksGet.drop 4, 4⟩
  let single : Apdu := .getRequest (.normal ⟨0xC1⟩ clockTime none)
  have hasked : (Batch.get [⟨clockTime, none⟩, ⟨clockTime, none⟩]).Asked ⟨0xC1⟩
      (.getRequest (.withList ⟨0xC1⟩ clocks)) := .get (by decide +kernel)
  have hsingle : Single.AskedBy (.get clockTime none) single := ⟨⟨0xC1⟩, _, .get _ _, rfl⟩
  obtain ⟨s₁, hlist⟩ := openServer_brings (openServer 64) clocksGet
    (.getRequest (.withList ⟨0xC1⟩ clocks)) .getRequest (by decide +kernel) (by decide) (by decide)
    (by decide +kernel) (by decide +kernel) (by decide +kernel)
  obtain ⟨t₁, hfirst⟩ := openServer_brings (openServer 64) plainGet single .getRequest
    (by decide +kernel) (by decide) (by decide) (by decide +kernel) (by decide +kernel)
    (by decide +kernel)
  obtain ⟨t₂, hsecond⟩ := openServer_brings
    (Srv.handle sampleProvider stubbornStore plainGet 64 .zeros (openServer 64)).2 plainGet single
    .getRequest (by decide +kernel) (by decide) (by decide) (by decide +kernel) (by decide +kernel)
    (by decide +kernel)
  have hagreed : (openServer 64).negotiated.contains .get = true := by decide +kernel
  have hfits : (Batch.get [⟨clockTime, none⟩, ⟨clockTime, none⟩]).Fits stubbornStore 64
      (openServer 64).store :=
    ⟨⟨by decide +kernel, by decide +kernel⟩, ⟨by decide +kernel, by decide +kernel⟩, trivial⟩
  have hread (st : Unit) : (stubbornStore.readAt st clockTime none 64 0).1 ≠ (.ok (), []) := by
    decide +revert
  obtain ⟨-, -, hiff⟩ := (batches_as_singles_iff sampleProvider (stubbornStore_steady 64)
    (openServer 64)).1 (.get [⟨clockTime, none⟩, ⟨clockTime, none⟩]) ⟨0xC1⟩ _ clocksGet
    [0xC4, 0x03, 0xC1, 0x02, 0x00, 0x00, 0x00, 0x00] [single, single] s₁ _ 64 .zeros
    ⟨by decide +kernel, by decide +kernel, by decide +kernel⟩ hasked hlist (by decide +kernel) hfits
    (fun x hx => by
      simp only [Batch.singles, List.map_cons, List.map_nil, List.mem_cons, List.not_mem_nil, or_false,
        or_self] at hx
      rw [hx]
      exact hagreed)
    (.cons hsingle (.cons hsingle .nil)) (.cons 64 .zeros hfirst (.cons 64 .zeros hsecond (.nil _)))
  exact (hiff.mpr ⟨hread _, hread _, trivial⟩).2

end Dlms
