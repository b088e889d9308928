import DlmsCosem.Server.Protection
import DlmsCosem.Server.Slots

/-!
# Lists that line up with their requests

GET and ACTION with a list, ACCESS and a short-name Read answer with lists that a client takes apart by
position. `Aligned` says that every entry of the request adds exactly one element to a list; from
that the list has as many elements as the request has entries, and holds nothing else
(`Aligned.list`). Whether an entry does is a matter of what the store wrote, and in ACCESS of the
room for a placeholder.
-/

namespace Dlms

variable {σ π : Type} {N : Nat}

/-! ## Entries and elements -/

/-- Every entry that the walk got to and past added one element to the list. -/
def Aligned {α β γ : Type} (decode : Read α) (f : β → γ → Srv σ π N β) (list : β → SliceWriter)
    (b : β) (items : List γ) (s : Server σ π N) : Prop :=
  ∀ m ∈ Prog.met f b items s, ∀ b' s', f m.1 m.2.1 m.2.2 = (.ok b', s') →
    ∃ bs, (list m.1).Grown (list b') bs ∧ Whole decode bs

/-- The bytes that the entries added, entry by entry. -/
def Pieces {β γ : Type} (f : β → γ → Srv σ π N β) (list : β → SliceWriter)
    (steps : List (β × γ × Server σ π N)) (chunks : List Bytes) : Prop :=
  List.Forall₂ (fun m c => ∃ b' s', f m.1 m.2.1 m.2.2 = (.ok b', s') ∧
    (list m.1).Grown (list b') c) steps chunks

namespace Aligned

variable {α β γ : Type} {decode : Read α} {f : β → γ → Srv σ π N β} {list : β → SliceWriter}

theorem pieces {b b' : β} {items : List γ} {s t : Server σ π N}
    (h : Aligned decode f list b items s) (hrun : Prog.fold f b items s = (.ok b', t)) :
    ∃ chunks, Pieces f list (Prog.met f b items s) chunks ∧ chunks.length = items.length ∧
      (list b).Grown (list b') chunks.flatten ∧ ∀ c ∈ chunks, Whole decode c := by
  induction items generalizing b s with
  | nil =>
    obtain ⟨rfl, -⟩ : b = b' ∧ s = t := by simpa [Prog.fold] using hrun
    exact ⟨[], .nil, rfl, .refl _, by simp⟩
  | cons x xs ih =>
    obtain ⟨b₁, s₁, hx, hrun⟩ := Prog.bind_ok hrun
    unfold Aligned at h
    rw [Prog.met_cons_ok hx] at h ⊢
    obtain ⟨c, hg, hc⟩ := h _ (List.mem_cons_self ..) b₁ s₁ hx
    obtain ⟨cs, hcs, hlen, hg', hall⟩ :=
      ih (fun m hm => h m (List.mem_cons_of_mem _ hm)) hrun
    refine ⟨c :: cs, .cons ⟨b₁, s₁, hx, hg⟩ hcs, by simp [hlen], hg.trans hg', fun c' hc' => ?_⟩
    obtain rfl | hc' := List.mem_cons.mp hc'
    · exact hc
    · exact hall c' hc'

end Aligned

/-- A list that a walk over the entries left: as many elements as there are entries, nothing else, and
each in the bytes that its entry added. -/
structure Filled {α β γ : Type} (decode : Read α) (f : β → γ → Srv σ π N β) (list : β → SliceWriter)
    (b : β) (items : List γ) (s : Server σ π N) (b' : β) (chunks : List Bytes) : Prop where
  pieces : Pieces f list (Prog.met f b items s) chunks
  length : chunks.length = items.length
  slice : (list b').asSlice = chunks.flatten
  whole : ∀ c ∈ chunks, Whole decode c
  elements : ∃ xs, (WireList.fromRaw items.length (list b').asSlice).iter decode = xs.map .ok ∧
    List.Forall₂ (fun x c => ∃ r tail, r.rest = c ++ tail ∧ (decode r).1 = .ok x) xs chunks
  full : Takes (Prog.times items.length (do let _ ← decode)) (list b').asSlice fun _ => True

section Filled

variable {α β γ : Type} {decode : Read α} {f : β → γ → Srv σ π N β} {list : β → SliceWriter}
  {b b' : β} {items : List γ} {s t : Server σ π N}

/-- A list that is aligned has an element for every entry, and nothing else. -/
theorem Aligned.filled {S : α → α → Prop} (hd : Echoes S decode decode) {n : Nat}
    (hb : list b = SliceWriter.new (zeros n)) (h : Aligned decode f list b items s)
    (hrun : Prog.fold f b items s = (.ok b', t)) :
    ∃ chunks, Filled decode f list b items s b' chunks := by
  obtain ⟨chunks, hpieces, hlen, hg, hall⟩ := h.pieces hrun
  have hslice : (list b').asSlice = chunks.flatten := by
    rw [hg.slice, hb, SliceWriter.new_asSlice, List.nil_append]
  have htakes : ∀ c ∈ chunks, Takes decode c fun _ => True := fun c hc => (hall c hc).takes hd
  refine ⟨chunks, hpieces, hlen, hslice, hall, ?_, ?_⟩
  · rw [hslice, ← hlen]
    have hrest : (Reader.withBase chunks.flatten 0).rest = chunks.flatten ++ [] := by
      rw [Reader.withBase_rest, List.append_nil]
    exact WireList.iterFrom_chunks htakes hrest
  · rw [hslice, ← hlen]
    exact WireList.decodeOf_chunks htakes

theorem Filled.aligned {chunks : List Bytes} (h : Filled decode f list b items s b' chunks) :
    Aligned decode f list b items s := by
  intro m hm b₁ s₁ hstep
  have hmem : ∀ {steps : List (β × γ × Server σ π N)} {chunks : List Bytes},
      Pieces f list steps chunks → m ∈ steps → (∀ c ∈ chunks, Whole decode c) →
      ∃ bs, (list m.1).Grown (list b₁) bs ∧ Whole decode bs := by
    intro steps chunks hp hm hall
    induction hp with
    | nil => cases hm
    | @cons m' c steps chunks hc _ ih =>
      obtain rfl | hm := List.mem_cons.mp hm
      · obtain ⟨b₂, s₂, hstep', hg⟩ := hc
        obtain rfl := Except.ok.inj (Prod.mk.inj (hstep'.symm.trans hstep)).1
        exact ⟨c, hg, hall c (List.mem_cons_self ..)⟩
      · exact ih hm fun c hc => hall c (List.mem_cons_of_mem _ hc)
  exact hmem h.pieces hm h.whole

end Filled

/-! ## What the store writes -/

/-- What the store wrote with a success is one value. -/
structure ObjectStore.WritesData (S : ObjectStore σ) : Prop where
  get : ∀ st d access len pos, ((S.getAttribute st d access).sink len pos).1.1 = .ok () →
    ((S.getAttribute st d access).sink len pos).2 ≠ [] →
    Whole Data.decode ((S.getAttribute st d access).sink len pos).2
  invoke : ∀ st d parameters len pos, ((S.invokeMethod st d parameters).sink len pos).1.1 = .ok true →
    ((S.invokeMethod st d parameters).sink len pos).2 ≠ [] →
    Whole Data.decode ((S.invokeMethod st d parameters).sink len pos).2

namespace ObjectStore.WritesData

variable {S : ObjectStore σ}

theorem readAt (h : S.WritesData) {st : σ} {d : AttributeDescriptor} {access : Option SelectiveAccess}
    {len pos : Nat} {v : Bytes} (hr : readOutcome (S.readAt st d access len pos).1 = .ok v) :
    v ≠ [] ∧ Whole Data.decode v := by
  unfold ObjectStore.readAt at hr
  dsimp only at hr
  split at hr
  · have hdata := h.get (S.attributeAccess st d).2 d access len pos
    generalize (S.getAttribute (S.attributeAccess st d).2 d access).sink len pos = r at hr hdata
    obtain ⟨⟨result, st'⟩, bs⟩ := r
    cases result with
    | error e => cases hr
    | ok u =>
      rw [readOutcome] at hr
      split at hr
      · cases hr
      · rename_i hne
        obtain rfl := Except.ok.inj hr
        exact ⟨hne, hdata rfl hne⟩
  · cases hr

theorem runAt (h : S.WritesData) {st : σ} {d : MethodDescriptor} {parameters : Option Data}
    {len pos : Nat} {v : Bytes} (hr : (S.runAt st d parameters len pos).1 = (.ok true, v))
    (hne : v ≠ []) : Whole Data.decode v := by
  unfold ObjectStore.runAt at hr
  dsimp only at hr
  split at hr
  · have hdata := h.invoke (S.methodAccess st d).2 d parameters len pos
    generalize (S.invokeMethod (S.methodAccess st d).2 d parameters).sink len pos = r at hr hdata
    obtain ⟨⟨result, st'⟩, bs⟩ := r
    obtain ⟨rfl, rfl⟩ := Prod.mk.inj hr
    exact hdata rfl hne
  · cases hr

end ObjectStore.WritesData

/-! ## Elements of the lists -/

/-- A value in a list of results is an element where it is one by itself. -/
theorem whole_value_iff (v : Bytes) : Whole ReadResult.decode (0 :: v) ↔ Whole Data.decode v :=
  (Whole.cons_iff (S := fun _ _ => True) ((Data.decodeAt_echoes _).map fun _ _ _ => trivial)).trans
    Whole.map_iff

theorem readError_whole (e : DataAccessResult) : Whole ReadResult.decode (readSlot (.error e)) :=
  ⟨.error (.fromU8 e.asU8), rfl⟩

theorem readSlot_whole {outcome : Except DataAccessResult Bytes}
    (h : ∀ v, outcome = .ok v → Whole Data.decode v) :
    Whole ReadResult.decode (readSlot outcome) ∧ Whole GetDataResult.decode (readSlot outcome) := by
  cases outcome with
  | error e =>
    exact ⟨⟨.error (.fromU8 e.asU8), rfl⟩, ⟨.error (.fromU8 e.asU8), rfl⟩⟩
  | ok v =>
    have hv := h v rfl
    refine ⟨(whole_value_iff v).mpr hv, ?_⟩
    refine .of_takes (P := fun _ => True) ((Takes.u8 0).bind fun b hb => ?_)
    subst hb
    exact (hv.takes (Data.decodeAt_echoes _)).map fun _ _ => trivial

theorem runSlot_whole {outcome : Except ActionResult (Option Bytes)}
    (h : ∀ v, outcome = .ok (some v) → Whole Data.decode v) :
    Whole ActionResponseWithOptionalData.decode (runSlot outcome) := by
  match outcome with
  | .error e => exact ⟨⟨.fromU8 e.asU8, none⟩, rfl⟩
  | .ok none => exact ⟨⟨.success, none⟩, rfl⟩
  | .ok (some v) =>
    have hv := (h v rfl).takes (Data.decodeAt_echoes _)
    refine .of_takes (P := fun _ => True) ?_
    have hcode : Takes (Read.u8 >>= fun b => pure (ActionResult.fromU8 b))
      [ActionResult.success.asU8] fun _ => True := (Takes.u8 _).map fun _ _ => trivial
    refine hcode.bind fun _ _ => .map (P := fun _ => True) ?_ fun _ _ => trivial
    refine (Takes.u8 1).bind fun b hb => ?_
    subst hb
    refine Takes.map (P := fun _ => True) ?_ fun _ _ => trivial
    refine (Takes.u8 0).bind fun b hb => ?_
    subst hb
    exact hv.map fun _ _ => trivial

/-! ## When an entry adds one element -/

namespace ObjectStore

variable (S : ObjectStore σ)

/-- A method whose name is read leaves one value: it writes nothing before it says that it returns
nothing, or what the placeholder completes. -/
def ReadHolds (st : σ) (entry : VariableAccess) (len pos : Nat) : Prop :=
  match Srv.namedEntry entry with
  | none => True
  | some (name, access) =>
    match (S.resolveShortName st name).1 with
    | some (.method d) =>
      match (S.runAt (S.resolveShortName st name).2 d (access.map SelectiveAccess.parameters) len
          pos).1 with
      | (.ok false, v) => v.length < len - pos → Whole Data.decode (v ++ [0])
      | _ => True
    | _ => True

/-- A read of an ACCESS request leaves one value: the store does not call a failure a success. -/
def AccessReadHolds (st : σ) (d : AttributeDescriptor) (access : Option SelectiveAccess)
    (len pos : Nat) : Prop :=
  match (S.readAt st d access len pos).1 with
  | (.ok (), _) => True
  | (.error e, v) => e = .success → Whole Data.decode v

/-- An operation of an ACCESS request leaves one value in the data list. A method that says that it
returns a value writes one, and one that says that it returns nothing writes nothing, or what the
placeholder completes. -/
def AccessHolds (st : σ) (spec : AccessRequestSpecification) (value : Data) (len pos : Nat) : Prop :=
  match spec with
  | .get d => S.AccessReadHolds st d none len pos
  | .getWithSelection d => S.AccessReadHolds st d.descriptor d.access len pos
  | .set _ | .setWithSelection _ => True
  | .action d =>
    match (S.runAt st d (Srv.parameterOf value) len pos).1 with
    | (.ok true, v) => v ≠ []
    | (.ok false, v) => pos + v.length < len → Whole Data.decode (v ++ [0])
    | (.error _, _) => True

end ObjectStore

theorem not_whole_nil : ¬ Whole Data.decode [] := by decide

theorem whole_null : Whole Data.decode [0] := by decide

section Steps

variable (C : CryptoProvider π) {S : ObjectStore σ}

theorem Srv.getListItem_aligned (hS : S.WritesData) {x : Result AttributeDescriptorWithSelection}
    {w w' : SliceWriter} {s s' : Server σ π N} (h : getListItem S w x s = (.ok w', s')) :
    ∃ bs, w.Grown w' bs ∧ Whole GetDataResult.decode bs := by
  cases x with
  | error e => cases h
  | ok item =>
    by_cases hroom : w.pos + 2 ≤ w.buf.length
    · obtain ⟨w₁, hrun, hg⟩ := getListItem_run S item hroom s
      obtain rfl := Except.ok.inj (Prod.mk.inj (hrun.symm.trans h)).1
      exact ⟨_, hg, (readSlot_whole fun v hv => (hS.readAt hv).2).2⟩
    · obtain ⟨e, hfull⟩ := getListItem_full S item (w := w) (by omega) s
      rw [hfull] at h
      cases h

theorem Srv.actionListItem_aligned (hS : S.WritesData) {x : Result MethodDescriptor × Result Data}
    {w w' : SliceWriter} {s s' : Server σ π N} (h : actionListItem S w x s = (.ok w', s')) :
    ∃ bs, w.Grown w' bs ∧ Whole ActionResponseWithOptionalData.decode bs := by
  obtain ⟨d, value⟩ := x
  match d, value with
  | .error e, _ => cases h
  | .ok d, .error e => cases h
  | .ok d, .ok value =>
    by_cases hroom : w.pos + 3 ≤ w.buf.length
    · obtain ⟨w₁, hrun, hg⟩ := actionListItem_run S d value hroom s
      obtain rfl := Except.ok.inj (Prod.mk.inj (hrun.symm.trans h)).1
      refine ⟨_, hg, runSlot_whole fun v hv => ?_⟩
      have hdata (v : Bytes) (hr : (S.runAt s.store d (parameterOf value) w.buf.length
          (w.pos + 3)).1 = (.ok true, v)) : v ≠ [] → Whole Data.decode v := hS.runAt hr
      generalize (S.runAt s.store d (parameterOf value) w.buf.length (w.pos + 3)).1 = r at hv hdata
      match r with
      | (.error e, _) => cases hv
      | (.ok false, _) => cases hv
      | (.ok true, v') =>
        rw [runOutcome] at hv
        split at hv
        · cases hv
        · rename_i hne
          obtain rfl := Option.some.inj (Except.ok.inj hv)
          exact hdata v' rfl hne
    · obtain ⟨e, hfull⟩ := actionListItem_full S d value (w := w) (by omega) s
      rw [hfull] at h
      cases h

/-- An entry of a short-name read. -/
theorem Srv.readItem_aligned_iff (hS : S.WritesData) {entry : VariableAccess}
    {w w' : SliceWriter} {s s' : Server σ π N} (h : readItem S w (.ok entry) s = (.ok w', s')) :
    (∃ bs, w.Grown w' bs ∧ Whole ReadResult.decode bs) ↔
      S.ReadHolds s.store entry w.buf.length (w.pos + 1) := by
  by_cases hroom : w.pos + 2 ≤ w.buf.length
  · obtain ⟨w₁, hrun, hg⟩ := readItem_run S entry hroom s
    obtain rfl := Except.ok.inj (Prod.mk.inj (hrun.symm.trans h)).1
    have hunique : (∃ bs, w.Grown w₁ bs ∧ Whole ReadResult.decode bs) ↔ Whole ReadResult.decode
        (readSlot (readOutcome
          (S.readEntry s.store entry w.buf.length (w.pos + 1)).outcome)) :=
      ⟨fun ⟨bs, hbs, hw⟩ => hg.unique hbs ▸ hw, fun hw => ⟨_, hg, hw⟩⟩
    rw [hunique]
    unfold ObjectStore.readEntry ObjectStore.ReadHolds
    cases namedEntry entry with
    | none => exact iff_of_true (readError_whole _) trivial
    | some named =>
      obtain ⟨name, access⟩ := named
      dsimp only
      generalize S.resolveShortName s.store name = asked
      obtain ⟨target, st⟩ := asked
      match target with
      | none => exact iff_of_true (readError_whole _) trivial
      | some (.attribute d) =>
        exact iff_of_true (readSlot_whole fun v hv => (hS.readAt hv).2).1 trivial
      | some (.method d) =>
        dsimp only
        have hdata (v : Bytes) (hr : (S.runAt st d (access.map SelectiveAccess.parameters)
            w.buf.length (w.pos + 1)).1 = (.ok true, v)) : v ≠ [] → Whole Data.decode v := hS.runAt hr
        generalize (S.runAt st d (access.map SelectiveAccess.parameters) w.buf.length (w.pos + 1)).1 = r
          at hdata ⊢
        match r with
        | (.error e, v) => exact iff_of_true (readError_whole _) trivial
        | (.ok true, v) =>
          refine iff_of_true (readSlot_whole fun v' hv => ?_).1 trivial
          rw [calledAs, readOutcome] at hv
          split at hv
          · cases hv
          · rename_i hne
            obtain rfl := Except.ok.inj hv
            exact hdata _ rfl hne
        | (.ok false, v) =>
          dsimp only
          rw [calledAs]
          by_cases hlt : v.length < w.buf.length - (w.pos + 1)
          · rw [if_pos hlt, forall_prop_of_true hlt, readOutcome, if_neg (by simp)]
            exact whole_value_iff _
          · rw [if_neg hlt]
            exact iff_of_true (readError_whole _) fun h => absurd h hlt
  · obtain ⟨e, hfull⟩ := readItem_full S entry (w := w) (by omega) s
    rw [hfull] at h
    cases h

theorem ObjectStore.accessRead_whole_iff (hS : S.WritesData) (st : σ) (d : AttributeDescriptor)
    (access : Option SelectiveAccess) {len pos : Nat} (hroom : pos < len) :
    Whole Data.decode (S.accessRead st d access len pos).outcome.2 ↔
      S.AccessReadHolds st d access len pos := by
  have hdata (v : Bytes) (hr : readOutcome (S.readAt st d access len pos).1 = .ok v) :
      Whole Data.decode v := (hS.readAt hr).2
  unfold accessRead AccessReadHolds
  dsimp only
  rw [if_pos hroom]
  generalize S.readAt st d access len pos = r at hdata ⊢
  obtain ⟨⟨result, v⟩, st'⟩ := r
  cases result with
  | error e =>
    have hout : readAudit (readOutcome (.error e, v)) = e := rfl
    rw [hout]
    dsimp only
    by_cases he : e = .success
    · rw [if_pos he, forall_prop_of_true he]
    · rw [if_neg he]
      exact iff_of_true whole_null fun h => absurd h he
  | ok u =>
    dsimp only
    by_cases hv : v = []
    · have hout : readOutcome (.ok u, v) = .error .otherReason := if_pos hv
      have haudit : readAudit (.error .otherReason : Except DataAccessResult Bytes) = .otherReason := rfl
      rw [hout, haudit, if_neg (by decide)]
      exact iff_of_true whole_null trivial
    · have hout : readOutcome (.ok u, v) = .ok v := if_neg hv
      rw [hout]
      exact iff_of_true (hdata v hout) trivial

/-- What an operation of an ACCESS request adds to the data list is one value. -/
theorem ObjectStore.accessEntry_whole_iff (hS : S.WritesData) {st : σ}
    {spec : AccessRequestSpecification} {value : Data} {len pos : Nat}
    {answer : AccessResponseSpecification × Bytes} (hroom : pos < len)
    (h : (S.accessEntry st spec value len pos).outcome = some answer) :
    Whole Data.decode answer.2 ↔ S.AccessHolds st spec value len pos := by
  have hwrite (d : AttributeDescriptor) (access : Option SelectiveAccess) :
      Whole Data.decode (S.accessWrite st d access value len pos).outcome.2 := by
    unfold accessWrite
    dsimp only
    rw [if_pos hroom]
    exact whole_null
  unfold accessEntry at h
  match spec with
  | .get d =>
    obtain rfl := Option.some.inj h
    exact S.accessRead_whole_iff hS _ _ _ hroom
  | .getWithSelection d =>
    obtain rfl := Option.some.inj h
    exact S.accessRead_whole_iff hS _ _ _ hroom
  | .set d =>
    obtain rfl := Option.some.inj h
    exact iff_of_true (hwrite d none) trivial
  | .setWithSelection d =>
    obtain rfl := Option.some.inj h
    exact iff_of_true (hwrite d.descriptor d.access) trivial
  | .action d =>
    have hdata (v : Bytes) (hr : (S.runAt st d (Srv.parameterOf value) len pos).1 = (.ok true, v)) :
        v ≠ [] → Whole Data.decode v := hS.runAt hr
    unfold accessRun at h
    unfold AccessHolds
    dsimp only at h ⊢
    generalize (S.runAt st d (Srv.parameterOf value) len pos).1 = r at h hdata ⊢
    match r with
    | (.ok true, v) =>
      obtain rfl := Option.some.inj h
      dsimp only
      exact ⟨fun hw hv => not_whole_nil (hv ▸ hw), hdata v rfl⟩
    | (.ok false, v) =>
      dsimp only at h ⊢
      by_cases hlt : pos + v.length < len
      · rw [if_pos hlt] at h
        obtain rfl := Option.some.inj h
        rw [forall_prop_of_true hlt]
      · rw [if_neg hlt] at h
        cases h
    | (.error e, v) =>
      dsimp only at h ⊢
      rw [if_pos hroom] at h
      obtain rfl := Option.some.inj h
      exact iff_of_true whole_null trivial

/-- An operation of an ACCESS request, in both lists. -/
theorem Srv.accessItem_aligned_iff (hS : S.WritesData) {spec : AccessRequestSpecification}
    {value : Data} {w w' : SliceWriter × SliceWriter} {s s' : Server σ π N}
    (hroom : w.2.pos + 2 ≤ w.2.buf.length)
    (h : accessItem S w (.ok spec, .ok value) s = (.ok w', s')) :
    w.1.pos ≤ w'.1.pos ∧
    (w.1.pos < w.1.buf.length → ((∃ bs, w.1.Grown w'.1 bs ∧ Whole Data.decode bs) ↔
      S.AccessHolds s.store spec value w.1.buf.length w.1.pos)) ∧
    ∃ bs, w.2.Grown w'.2 bs ∧ bs.length = 2 ∧ Whole AccessResponseSpecification.decode bs := by
  have hrun := accessItem_run S spec value hroom s
  dsimp only at hrun
  cases hout : (S.accessEntry s.store spec value w.1.buf.length w.1.pos).outcome with
  | none =>
    rw [hout] at hrun
    obtain ⟨e, hrun⟩ := hrun
    rw [hrun] at h
    cases h
  | some answer =>
    rw [hout] at hrun
    obtain ⟨w₁, hrun, hg, hg'⟩ := hrun
    obtain rfl := Except.ok.inj (Prod.mk.inj (hrun.symm.trans h)).1
    refine ⟨by rw [hg.pos]; omega, fun hopen => ?_, _, hg', ?_, ?_⟩
    · rw [← S.accessEntry_whole_iff hS hopen hout]
      exact ⟨fun ⟨bs, hbs, hw⟩ => hg.unique hbs ▸ hw, fun hw => ⟨_, hg, hw⟩⟩
    · cases answer.1 <;> rfl
    · match answer.1 with
      | .get r => exact ⟨.get (.fromU8 r.asU8), rfl⟩
      | .set r => exact ⟨.set (.fromU8 r.asU8), rfl⟩
      | .action r => exact ⟨.action (.fromU8 r.asU8), rfl⟩

end Steps

/-! ## The requests -/

/-- The entries of an ACCESS request. -/
def AccessRequest.entries (req : AccessRequest) :
    List (Result AccessRequestSpecification × Result Data) :=
  (req.specification.iter AccessRequestSpecification.decode).zip (req.data.iter Data.decode)

namespace Srv

variable (C : CryptoProvider π) (S : ObjectStore σ)

/-- How GET with a list answers, from the list that it made. -/
def answerGetList (i : InvokeId) (count room : Nat) (w : SliceWriter) : Srv σ π N Bytes := do
  let counted ← countPrefix count
  let bodyLen := counted.length + w.pos
  if ← Prog.gets fun s => s.fitsOne normalHeaderMax bodyLen then
    send C (.getResponse (.withList i (.fromRaw count w.asSlice))) room
  else do
    let negotiated ← Prog.gets Server.negotiated
    if !negotiated.contains .blockTransferWithGetOrRead then
      getError C i .dataBlockUnavailable room
    else do
      putResponse 0 counted bodyLen
      putResponse counted.length w.asSlice bodyLen
      setTransfer (.sending i .get bodyLen 0 0)
      sendNextBlock C room

/-- How a short-name read answers. -/
def answerRead (count room : Nat) (w : SliceWriter) : Srv σ π N Bytes := do
  let counted ← countPrefix count
  let bodyLen := counted.length + w.pos
  if ← Prog.gets fun s => s.fitsOne normalHeaderMax bodyLen then
    send C (.readResponse ⟨.fromRaw count w.asSlice⟩) room
  else do
    let negotiated ← Prog.gets Server.negotiated
    if count ≠ 1 ∨ !negotiated.contains .blockTransferWithGetOrRead then
      readError C .dataBlockUnavailable room
    else do
      putResponse 0 (w.asSlice.drop 1) (w.asSlice.drop 1).length
      setTransfer (.sending ⟨0⟩ .read (w.asSlice.drop 1).length 0 0)
      sendNextBlock C room

/-- How ACCESS answers. -/
def answerAccess (longInvokeId : LongInvokeId) (count room : Nat) (w : SliceWriter × SliceWriter) :
    Srv σ π N Bytes :=
  send C (.accessResponse {
    longInvokeId
    dateTime := ⟨none⟩
    requestSpecification := none
    data := .fromRaw count w.1.asSlice
    responseSpecification := .fromRaw count w.2.asSlice }) room

variable {s : Server σ π N}

theorem getWithList_run (i : InvokeId) (list : WireList) (room : Nat)
    (h : s.state = .associated ∧ s.negotiated.contains .get = true)
    (hm : s.negotiated.contains .multipleReferences = true) :
    serveRequest C S (.getRequest (.withList i list)) room s =
      (Prog.fold (getListItem S) (SliceWriter.new (zeros N))
        (list.iter AttributeDescriptorWithSelection.decode) >>= answerGetList C i list.count room)
        { s with transfer := .idle } := by
  have hserve : serveRequest C S (.getRequest (.withList i list)) room s =
      handleGetWithList C S i list room s := serving_run C room h
  rw [hserve, handleGetWithList, withReferences_run C room hm, setTransfer, Prog.modify_bind_run]
  simp only [WireList.length_iter]
  rfl

theorem actionWithList_run (i : InvokeId) (descriptors parameters : WireList) (room : Nat)
    (h : s.state = .associated ∧ s.negotiated.contains .action = true)
    (hm : s.negotiated.contains .multipleReferences = true)
    (hcount : descriptors.count = parameters.count) (hlen : descriptors.count ≤ maxAccessItems) :
    serveRequest C S (.actionRequest (.withList i descriptors parameters)) room s =
      (Prog.fold (actionListItem S) (SliceWriter.new (zeros N))
        ((descriptors.iter MethodDescriptor.decode).zip (parameters.iter Data.decode)) >>= fun w =>
        send C (.actionResponse (.withList i (.fromRaw descriptors.count w.asSlice))) room)
        { s with transfer := .idle } := by
  have hrun : serveRequest C S (.actionRequest (.withList i descriptors parameters)) room s =
      serveAction C S (.withList i descriptors parameters) room s := handleAction_run C S room h.1
  have hserve : serveAction C S (.withList i descriptors parameters) room s =
      handleActionWithList C S i descriptors parameters room s := serving_run C room h
  rw [hrun, hserve, handleActionWithList, withReferences_run C room hm, if_neg (by omega), setTransfer,
    Prog.modify_bind_run]
  simp only [List.length_zip, WireList.length_iter, ← hcount, Nat.min_self]

theorem access_run (req : AccessRequest) (room : Nat)
    (h : s.state = .associated ∧ s.negotiated.contains .access = true)
    (hcount : req.specification.count = req.data.count)
    (hlen : req.specification.count ≤ maxAccessItems) :
    serveRequest C S (.accessRequest req) room s =
      (Prog.fold (accessItem S)
        (SliceWriter.new (zeros N), SliceWriter.new (zeros (maxAccessItems * 2))) req.entries >>=
        answerAccess C req.longInvokeId req.specification.count room)
        { s with transfer := .idle } := by
  have hentries : req.entries.length = req.specification.count := by
    rw [AccessRequest.entries, List.length_zip, WireList.length_iter, WireList.length_iter, ← hcount,
      Nat.min_self]
  rw [← hentries]
  refine (serving_run C room h).trans ?_
  rw [if_neg (by omega), if_neg (by omega)]
  rfl

theorem read_run (req : ReadRequest) (room : Nat)
    (h : s.state = .associated ∧ s.negotiated.contains .read = true)
    (hlen : 0 < req.specification.count ∧ req.specification.count ≤ maxAccessItems)
    (hfirst : ackedBlock req = none) :
    serveRequest C S (.readRequest req) room s =
      (Prog.fold (readItem S) (SliceWriter.new (zeros N))
        (req.specification.iter VariableAccess.decode) >>= answerRead C req.specification.count room)
        { s with transfer := .idle } := by
  have hserve : serveRequest C S (.readRequest req) room s = readEntries C S req room s := by
    refine (serving_run C room h).trans ?_
    rw [if_neg (by omega), hfirst]
  rw [hserve, readEntries, setTransfer, Prog.modify_bind_run]
  simp only [WireList.length_iter]
  rfl

end Srv

/-! ## Positions -/

section Positions

variable (C : CryptoProvider π) {S : ObjectStore σ}

theorem ObjectStore.readHolds_full (st : σ) (entry : VariableAccess) {len pos : Nat}
    (h : len < pos + 2) : S.ReadHolds st entry len (pos + 1) := by
  unfold ReadHolds
  split
  · trivial
  · split
    · split
      · intro hlt
        omega
      · trivial
    · trivial

theorem ObjectStore.accessHolds_ended {st : σ} {spec : AccessRequestSpecification} {value : Data}
    {len pos : Nat} (h : (S.accessEntry st spec value len pos).outcome = none) :
    S.AccessHolds st spec value len pos := by
  unfold accessEntry at h
  match spec with
  | .get _ | .set _ | .getWithSelection _ | .setWithSelection _ => cases h
  | .action d =>
    unfold accessRun at h
    unfold AccessHolds
    dsimp only at h ⊢
    generalize (S.runAt st d (Srv.parameterOf value) len pos).1 = r at h ⊢
    match r with
    | (.ok true, v) => cases h
    | (.ok false, v) =>
      dsimp only at h ⊢
      intro hlt
      rw [if_pos hlt] at h
      cases h
    | (.error e, v) => trivial

/-- The results of a short-name read are aligned where every entry is. -/
theorem Srv.read_aligned_iff (hS : S.WritesData) (items : List (Result VariableAccess))
    (s : Server σ π N) :
    Aligned ReadResult.decode (readItem S) id (SliceWriter.new (zeros N)) items s ↔
      ∀ m ∈ Prog.met (readItem S) (SliceWriter.new (zeros N)) items s, ∀ entry, m.2.1 = .ok entry →
        S.ReadHolds m.2.2.store entry m.1.buf.length (m.1.pos + 1) := by
  constructor
  · rintro h ⟨w, x, t⟩ hm entry rfl
    match hrun : readItem S w (.ok entry) t with
    | (.ok w', t') => exact (readItem_aligned_iff hS hrun).mp (h _ hm w' t' hrun)
    | (.error e, t') =>
      by_cases hroom : w.pos + 2 ≤ w.buf.length
      · obtain ⟨w', hok, -⟩ := readItem_run S entry hroom t
        rw [hok] at hrun
        cases hrun
      · exact S.readHolds_full t.store entry (by dsimp only; omega)
  · rintro h ⟨w, x, t⟩ hm w' t' hrun
    cases x with
    | error e => cases hrun
    | ok entry => exact (readItem_aligned_iff hS hrun).mpr (h _ hm entry rfl)

/-- The results of an ACCESS response are aligned. -/
theorem Srv.access_results_aligned (hS : S.WritesData)
    {items : List (Result AccessRequestSpecification × Result Data)}
    (hlen : items.length ≤ maxAccessItems) (s : Server σ π N) :
    Aligned AccessResponseSpecification.decode (accessItem S) Prod.snd
      (SliceWriter.new (zeros N), SliceWriter.new (zeros (maxAccessItems * 2))) items s := by
  rintro ⟨w, ⟨spec, value⟩, t⟩ hm w' t' hrun
  match spec, value with
  | .error e, _ => cases hrun
  | .ok spec, .error e => cases hrun
  | .ok spec, .ok value =>
    obtain ⟨bs, hg, -, hw⟩ := (accessItem_aligned_iff hS (accessItem_room S hlen hm).1 hrun).2.2
    exact ⟨bs, hg, hw⟩

/-- The values of an ACCESS response are aligned where every operation is. -/
theorem Srv.access_aligned_iff (hS : S.WritesData)
    {items : List (Result AccessRequestSpecification × Result Data)}
    (hlen : items.length ≤ maxAccessItems) (s : Server σ π N)
    (hopen : ∀ m ∈ Prog.met (accessItem S)
      (SliceWriter.new (zeros N), SliceWriter.new (zeros (maxAccessItems * 2))) items s,
      m.1.1.pos < m.1.1.buf.length) :
    Aligned Data.decode (accessItem S) Prod.fst
        (SliceWriter.new (zeros N), SliceWriter.new (zeros (maxAccessItems * 2))) items s ↔
      ∀ m ∈ Prog.met (accessItem S)
          (SliceWriter.new (zeros N), SliceWriter.new (zeros (maxAccessItems * 2))) items s,
        ∀ spec value, m.2.1 = (.ok spec, .ok value) →
          S.AccessHolds m.2.2.store spec value m.1.1.buf.length m.1.1.pos := by
  constructor
  · rintro h ⟨w, x, t⟩ hm spec value rfl
    have hroom := (accessItem_room S hlen hm).1
    match hrun : accessItem S w (.ok spec, .ok value) t with
    | (.ok w', t') =>
      exact ((accessItem_aligned_iff hS hroom hrun).2.1 (hopen _ hm)).mp (h _ hm w' t' hrun)
    | (.error e, t') =>
      have hitem := accessItem_run S spec value hroom t
      dsimp only at hitem
      cases hout : (S.accessEntry t.store spec value w.1.buf.length w.1.pos).outcome with
      | none => exact S.accessHolds_ended hout
      | some answer =>
        rw [hout] at hitem
        obtain ⟨w', hok, -⟩ := hitem
        rw [hok] at hrun
        cases hrun
  · rintro h ⟨w, ⟨spec, value⟩, t⟩ hm w' t' hrun
    match spec, value with
    | .error e, _ => cases hrun
    | .ok spec, .error e => cases hrun
    | .ok spec, .ok value =>
      exact ((accessItem_aligned_iff hS (accessItem_room S hlen hm).1 hrun).2.1 (hopen _ hm)).mpr
        (h _ hm spec value rfl)

/-- An ACCESS response is longer than the data that it carries. -/
theorem Apdu.accessResponse_size {q : AccessResponse}
    (h : (Apdu.accessResponse q).encode.fault = none) :
    q.data.raw.length < (Apdu.accessResponse q).encode.size := by
  have hencode : (Apdu.accessResponse q).encode = Emit.u8 ApduTag.accessResponse.asU8 ++ q.encode := rfl
  rw [hencode] at h ⊢
  have hq : q.encode.fault = none := (Emit.append_fault_eq_none.mp h).2
  have hsize : (Emit.u8 ApduTag.accessResponse.asU8 ++ q.encode).size = 1 + q.encode.size := by
    rw [Emit.size, Emit.append_data (Emit.u8_fault _), List.length_append]
    rfl
  rw [hsize]
  unfold AccessResponse.encode at hq ⊢
  rw [Emit.append_fault_eq_none, Emit.append_fault_eq_none] at hq
  have hdata : q.data.encode.size = (Emit.length q.data.count).size + q.data.raw.length := by
    have hf := hq.1.2
    rw [WireList.encode, Emit.append_fault_eq_none] at hf
    rw [WireList.encode, Emit.size, Emit.append_data hf.1, List.length_append, Emit.bytes_data]
    rfl
  rw [Emit.size, Emit.append_data (Emit.append_fault_eq_none.mpr hq.1), Emit.append_data hq.1.1,
    List.length_append, List.length_append]
  have : q.data.encode.data.length = q.data.encode.size := rfl
  omega

/-- Where ACCESS answers, its data list was full at no entry. -/
theorem Srv.access_open (hS : S.WritesData)
    {items : List (Result AccessRequestSpecification × Result Data)}
    (hlen : items.length ≤ maxAccessItems) {s t : Server σ π N} {w : SliceWriter × SliceWriter}
    (hrun : Prog.fold (accessItem S)
      (SliceWriter.new (zeros N), SliceWriter.new (zeros (maxAccessItems * 2))) items s = (.ok w, t))
    {longInvokeId : LongInvokeId} {count room : Nat} {bytes : Bytes}
    (hok : (answerAccess C longInvokeId count room w t).1 = .ok bytes) :
    ∀ m ∈ Prog.met (accessItem S)
      (SliceWriter.new (zeros N), SliceWriter.new (zeros (maxAccessItems * 2))) items s,
      m.1.1.pos < m.1.1.buf.length := by
  intro m hm
  have hend : w.1.pos < N := by
    obtain ⟨hf, hsize, -⟩ := (send_ok_iff C).mp hok
    have := Apdu.accessResponse_size hf
    rw [← w.1.length_asSlice]
    exact Nat.lt_of_lt_of_le this hsize
  have hstep : ∀ m ∈ Prog.met (accessItem S)
      (SliceWriter.new (zeros N), SliceWriter.new (zeros (maxAccessItems * 2))) items s,
      ∀ w' s', accessItem S m.1 m.2.1 m.2.2 = (.ok w', s') → m.1.1.pos ≤ w'.1.pos := by
    rintro ⟨w, ⟨spec, value⟩, t⟩ hm w' t' hstep
    match spec, value with
    | .error e, _ => cases hstep
    | .ok spec, .error e => cases hstep
    | .ok spec, .ok value =>
      exact (accessItem_aligned_iff hS (accessItem_room S hlen hm).1 hstep).1
  have hle := (Prog.met_le (fun w => w.1.pos) items hstep hrun).2 m hm
  rw [(accessItem_room S hlen hm).2]
  exact Nat.lt_of_le_of_lt hle hend

end Positions

/-- A store whose methods say that they return a value, and write none. -/
def silentStore : ObjectStore Unit :=
  { ObjectStore.refusing Unit fun s _ _ => .done (.error .objectUndefined, s) with
    invokeMethod := fun s _ _ => .done (.ok true, s)
    methodAccess := fun s _ => (⟨0x01⟩, s) }

theorem silentStore_writes : silentStore.WritesData :=
  ⟨fun _ _ _ _ _ => nofun, fun _ _ _ _ _ _ hne => absurd rfl hne⟩

/-- A server without security over that store. -/
def silentServer : Server Unit SampleKeys 64 :=
  (Server.new 64 {} () SampleKeys.plain).run sampleProvider silentStore [.handle plainAarq 64 .zeros]

/-- One method, invoked by ACCESS. -/
def silentAccess : Bytes :=
  [0xD9, 0x40, 0x00, 0x00, 0x01, 0x00, 0x01, 0x03, 0x00, 0x46, 0x00, 0x00, 0x60, 0x03, 0x0A, 0xFF, 0x01,
    0x01, 0x00]

def silentRequest : AccessRequest where
  longInvokeId := ⟨0x40000001⟩
  dateTime := ⟨none⟩
  specification := ⟨1, [0x03, 0x00, 0x46, 0x00, 0x00, 0x60, 0x03, 0x0A, 0xFF, 0x01], 7⟩
  data := ⟨1, [0x00], 18⟩

end Dlms
