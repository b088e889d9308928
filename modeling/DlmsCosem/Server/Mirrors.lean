import DlmsCosem.Server.Singles
import DlmsCosem.Server.Walks

/-!
# Walks against operations one by one

A request of several operations walks through them, each service in its own way. `Mirrors` compares a
step of a walk with the operation alone: where the store keeps to what it says both come to the same,
and elsewhere the difference shows. `Mirrors.walk_iff` is what follows for a whole walk; then come the
steps of each service.
-/

namespace Dlms

variable {σ π : Type} {N : Nat}

/-! ## A walk against its steps -/

/-- What an operation leaves in the lists of a response: its element, and its result where the results
have a list of their own. -/
structure Slot where
  element : Bytes
  result : Bytes
  deriving DecidableEq

/-- The slot of an operation of an ACCESS request. -/
def Slot.ofAccess (t : AccessResponseSpecification × Bytes) : Slot := ⟨t.2, t.1.encode.data⟩

/-- `P` holds of each operation where those before it have been performed, and `pos` bytes and what
`width` says of them are used. -/
def ObjectStore.AlongEach (S : ObjectStore σ) (N : Nat) (width : Told → Nat)
    (P : σ → Nat → Single → Prop) : σ → Nat → List Single → Prop
  | _, _, [] => True
  | st, pos, x :: xs => P st pos x ∧ AlongEach S N width P (S.perform N st x).store
      (pos + width (S.perform N st x).outcome) xs

theorem ObjectStore.alongEach_of (S : ObjectStore σ) {N : Nat} {width : Told → Nat}
    {P : σ → Nat → Single → Prop} (h : ∀ st pos x, P st pos x) (st : σ) (pos : Nat) (xs : List Single) :
    S.AlongEach N width P st pos xs := by
  induction xs generalizing st pos with
  | nil => trivial
  | cons x xs ih => exact ⟨h st pos x, ih ..⟩

/-- A step of a walk, against the operation alone: in the room that `fits` grants, it leaves what the
operation is told to be if `regular` holds, and does visibly something else if not. -/
structure Mirrors {α τ : Type} (S : ObjectStore σ) (N : Nat)
    (batch : σ → Nat → α → Served σ (Option τ)) (size : τ → Nat) (put : τ → Slot) (single : α → Single)
    (slot : Told → Slot) (width : Told → Nat) (fits : σ → Nat → Single → Prop)
    (regular : σ → Single → Prop) : Prop where
  same : ∀ {st pos a}, fits st pos (single a) → regular st (single a) →
    (batch st pos a).outcome ≠ none →
    let r := S.perform N st (single a)
    ∃ t, batch st pos a = ⟨some t, r.store, r.calls⟩ ∧ put t = slot r.outcome ∧
      size t = width r.outcome
  differs : ∀ {st pos a}, fits st pos (single a) → ¬ regular st (single a) →
    let r := S.perform N st (single a)
    (∀ t, (batch st pos a).outcome = some t → put t ≠ slot r.outcome) ∨
    ∀ calls calls', (batch st pos a).calls.map StoreCall.unplaced ++ calls ≠
      r.calls.map StoreCall.unplaced ++ calls'

/-- The answers of a walk, as slots. -/
def Served.slots {τ : Type} (put : τ → Slot) (r : Served σ (Option (List τ))) :
    Served σ (Option (List Slot)) := ⟨r.outcome.map (·.map put), r.store, r.calls⟩

/-- What a walk comes to is what its operations come to one by one: each slot, the store, and what it is
asked. -/
def Served.AsEach (r : Served σ (Option (List Slot))) (slot : Told → Slot)
    (each : Served σ (List Told)) : Prop :=
  r.outcome = some (each.outcome.map slot) ∧ r.store = each.store ∧
    r.calls.map StoreCall.unplaced = each.calls.map StoreCall.unplaced

section Walk

variable {α τ : Type} {S : ObjectStore σ} {batch : σ → Nat → α → Served σ (Option τ)}
  {size : τ → Nat} {put : τ → Slot} {single : α → Single} {slot : Told → Slot} {width : Told → Nat}
  {fits : σ → Nat → Single → Prop} {regular : σ → Single → Prop}

/-- A walk that gets to its end is its operations one by one exactly if each of them is regular. -/
theorem Mirrors.walk_iff (h : Mirrors S N batch size put single slot width fits regular) (xs : List α)
    {st : σ} {pos : Nat} (hfits : S.AlongEach N width fits st pos (xs.map single))
    (hans : (walk batch size st pos xs).outcome ≠ none) :
    ((walk batch size st pos xs).slots put).AsEach slot (S.each N st (xs.map single)) ↔
      S.AlongEach N width (fun st _ x => regular st x) st pos (xs.map single) := by
  induction xs generalizing st pos with
  | nil => exact iff_of_true ⟨rfl, rfl, rfl⟩ trivial
  | cons x xs ih =>
    obtain ⟨hfit, hfits⟩ := hfits
    have hhead : (batch st pos x).outcome ≠ none := fun hnone =>
      hans (by rw [walk_cons_none hnone])
    obtain ⟨t, ht⟩ := Option.ne_none_iff_exists'.mp hhead
    have hwalk : walk batch size st pos (x :: xs) = _ := walk_cons_some ht xs
    rw [hwalk] at hans ⊢
    by_cases hreg : regular st (single x)
    · obtain ⟨t', hsame, hput, hsize⟩ := h.same hfit hreg hhead
      rw [hsame] at ht
      obtain rfl := Option.some.inj ht
      rw [hsame] at hans ⊢
      dsimp only at hans ⊢
      rw [hsize] at hans ⊢
      have hrest := ih hfits fun hnone => hans (by rw [hnone]; rfl)
      rw [List.map_cons, ObjectStore.AlongEach, and_iff_right hreg, ← hrest]
      unfold Served.AsEach Served.slots
      rw [ObjectStore.each_cons]
      dsimp only
      rw [List.map_append, List.map_append, List.append_cancel_left_eq]
      generalize (walk batch size _ _ xs).outcome = rest
      cases rest with
      | none => simp
      | some ts => simp [hput]
    · refine iff_of_false (fun heach => ?_) fun hall => hreg hall.1
      obtain ⟨hout, -, hcalls⟩ := heach
      rw [List.map_cons, ObjectStore.each_cons] at hout hcalls
      unfold Served.slots at hout hcalls
      dsimp only at hout hcalls
      obtain hne | hne := h.differs hfit hreg
      · obtain ⟨ts, hts, hslots⟩ := Option.map_eq_some_iff.mp hout
        obtain ⟨rest, -, rfl⟩ := Option.map_eq_some_iff.mp hts
        exact hne t ht (List.cons.inj hslots).1
      · rw [List.map_append, List.map_append] at hcalls
        exact hne _ _ hcalls

end Walk

/-! ## The steps of each service -/

/-- The slot of an operation in a list of results of its own service. -/
def Told.slot : Told → Slot
  | get outcome | read outcome => ⟨readSlot outcome, []⟩
  | set result => ⟨[result.asU8], []⟩
  | action outcome => ⟨runSlot outcome, []⟩
  | write result => ⟨writeSlot result, []⟩

/-- The slot of an operation in an ACCESS response: `null-data` where it has no value. -/
def Told.accessSlot : Told → Slot
  | get (.ok v) => .ofAccess (.get .success, v)
  | get (.error e) => .ofAccess (.get e, [0])
  | set result => .ofAccess (.set result, [0])
  | action (.ok (some v)) => .ofAccess (.action .success, v)
  | action (.ok none) => .ofAccess (.action .success, [0])
  | action (.error e) => .ofAccess (.action e, [0])
  | told => told.slot

namespace ObjectStore

variable (S : ObjectStore σ)

/-- What the store writes for an operation, be it taken back or not. -/
def written (N : Nat) (st : σ) : Single → Bytes
  | .get d access => (S.readAt st d access N 0).1.2
  | .action d parameters => (S.runAt st d parameters N 0).1.2
  | .read entry => (S.readEntry st entry N 1).outcome.2
  | .set _ _ _ | .write _ _ => []

/-- There is room for the slot, and for what the store writes behind its first `lead` bytes. -/
def FitsAt (N lead : Nat) (slot : Told → Slot) (st : σ) (pos : Nat) (x : Single) : Prop :=
  pos + (slot (S.perform N st x).outcome).element.length ≤ N ∧
    pos + lead + (S.written N st x).length ≤ N

/-- The store does not promise the value of an attribute and write none. -/
def ReadKept (N : Nat) (st : σ) : Single → Prop
  | .get d access => (S.readAt st d access N 0).1 ≠ (.ok (), [])
  | _ => True

/-- The store writes a value exactly where it says so. An error that is called a success comes with
what ACCESS has in its place. -/
def AccessKept (N : Nat) (st : σ) : Single → Prop
  | .get d access =>
    match (S.readAt st d access N 0).1 with
    | (.ok (), v) => v ≠ []
    | (.error e, v) => e = .success → v = [0]
  | .action d parameters =>
    match (S.runAt st d parameters N 0).1 with
    | (.ok true, v) => v ≠ []
    | (.ok false, v) => v = []
    | (.error _, _) => True
  | _ => True

end ObjectStore

/-- A GET whose value was not promised and left out is audited once, as it is reported. -/
theorem ObjectStore.perform_get_kept (S : ObjectStore σ) {st : σ} {d : AttributeDescriptor}
    {access : Option SelectiveAccess} (h : (S.readAt st d access N 0).1 ≠ (.ok (), [])) :
    let r := S.readAt st d access N 0
    let e := AuditEvent.attributeRead d (readAudit (readOutcome r.1))
    S.perform N st (.get d access) =
      ⟨.get (readOutcome r.1), S.audit r.2 e, S.readCalls st d access ++ [.audit e]⟩ := by
  have hkept : readAudit (readOutcome (S.readAt st d access N 0).1) =
      readAudit (S.readAt st d access N 0).1.1 := by
    match hr : (S.readAt st d access N 0).1 with
    | (.error e, v) => rfl
    | (.ok (), v) =>
      have hv : v ≠ [] := fun hv => h (by rw [hr, hv])
      rw [readOutcome, if_neg hv]
      rfl
  unfold perform getOne audited
  dsimp only
  rw [if_neg h, hkept]

/-- One whose value was left out is audited as a success first. -/
theorem ObjectStore.perform_get_hollow (S : ObjectStore σ) {st : σ} {d : AttributeDescriptor}
    {access : Option SelectiveAccess} (h : (S.readAt st d access N 0).1 = (.ok (), [])) :
    (S.perform N st (.get d access)).calls = S.readCalls st d access ++
      [.audit (.attributeRead d .success), .audit (.attributeRead d .otherReason)] := by
  unfold perform getOne audited
  dsimp only
  rw [if_pos h, h, List.append_assoc]
  rfl

/-- What was audited as a failure differs from what was audited as a success. -/
theorem StoreCall.audits_ne (before rest rest' : List StoreCall) (d : AttributeDescriptor)
    {e : DataAccessResult} (h : e ≠ .success) :
    (before ++ [StoreCall.audit (.attributeRead d e)]).map unplaced ++ rest ≠
      (before ++ [StoreCall.audit (.attributeRead d .success),
        StoreCall.audit (.attributeRead d .otherReason)]).map unplaced ++ rest' := by
  intro heq
  rw [List.map_append, List.map_append, List.append_assoc, List.append_assoc] at heq
  have htail := List.append_cancel_left heq
  have haudit : AuditEvent.attributeRead d e = .attributeRead d .success :=
    StoreCall.audit.inj (List.cons.inj htail).1
  exact h (AuditEvent.attributeRead.inj haudit).2

section Steps

variable {S : ObjectStore σ} (hS : S.Steady N)
include hS

theorem getEntry_mirrors :
    Mirrors S N (S.getEntry N) (fun t => (readSlot t).length) (fun t => ⟨readSlot t, []⟩)
      (fun x => .get x.descriptor x.access) Told.slot (fun t => t.slot.element.length)
      (S.FitsAt N 1 Told.slot) (S.ReadKept N) where
  same {st pos x} hfit hkept hans := by
    have hread : S.readAt st x.descriptor x.access N (pos + 1) = S.readAt st x.descriptor x.access N 0 :=
      hS.readAt_eq (Nat.zero_le _) hfit.2
    have hroom : pos + 2 ≤ N := by
      by_contra hfull
      refine hans ?_
      unfold ObjectStore.getEntry
      dsimp only
      rw [if_neg hfull]
      split <;> rfl
    intro r
    have hr : r = _ := S.perform_get_kept hkept
    rw [hr]
    refine ⟨readOutcome (S.readAt st x.descriptor x.access N 0).1, ?_, rfl, rfl⟩
    unfold ObjectStore.getEntry
    rw [hread, if_pos hroom]
  differs {st pos x} hfit hkept := by
    have hnone : (S.readAt st x.descriptor x.access N 0).1 = (.ok (), []) := not_not.mp hkept
    have hread : S.readAt st x.descriptor x.access N (pos + 1) = S.readAt st x.descriptor x.access N 0 :=
      hS.readAt_eq (Nat.zero_le _) hfit.2
    by_cases hroom : pos + 2 ≤ N
    · refine .inr fun calls calls' => ?_
      have hcalls : (S.getEntry N st pos x).calls = S.readCalls st x.descriptor x.access ++
          [.audit (.attributeRead x.descriptor .otherReason)] := by
        unfold ObjectStore.getEntry
        dsimp only
        rw [hread, if_pos hroom, hnone]
        rfl
      rw [hcalls, S.perform_get_hollow hnone]
      exact StoreCall.audits_ne _ _ _ _ (by decide)
    · refine .inl fun t ht => ?_
      unfold ObjectStore.getEntry at ht
      dsimp only at ht
      rw [if_neg hroom] at ht
      split at ht <;> cases ht

omit hS in
theorem setEntry_mirrors :
    Mirrors S N (S.setEntry N) (fun t => [t.asU8].length) (fun t => ⟨[t.asU8], []⟩)
      (fun x => .set x.1.descriptor x.1.access x.2) Told.slot (fun t => t.slot.element.length)
      (S.FitsAt N 0 Told.slot) fun _ _ => True where
  same {st pos x} hfit _ _ := by
    have hroom : pos < N := hfit.1
    refine ⟨(S.write st x.1.descriptor x.1.access x.2).1, ?_, rfl, rfl⟩
    unfold ObjectStore.setEntry
    dsimp only
    rw [if_pos hroom]
    rfl
  differs _ hnot := absurd trivial hnot

theorem runEntry_mirrors :
    Mirrors S N (S.runEntry N) (fun t => (runSlot t).length) (fun t => ⟨runSlot t, []⟩)
      (fun x => .action x.1 (Srv.parameterOf x.2)) Told.slot (fun t => t.slot.element.length)
      (S.FitsAt N 3 Told.slot) fun _ _ => True where
  same {st pos x} hfit _ hans := by
    have hrun : S.runAt st x.1 (Srv.parameterOf x.2) N (pos + 3) =
        S.runAt st x.1 (Srv.parameterOf x.2) N 0 := hS.runAt_eq (Nat.zero_le _) hfit.2
    have hroom : pos + 3 ≤ N := by
      by_contra hfull
      refine hans ?_
      unfold ObjectStore.runEntry
      dsimp only
      rw [if_neg hfull]
    refine ⟨runOutcome (S.runAt st x.1 (Srv.parameterOf x.2) N 0).1, ?_, rfl, rfl⟩
    unfold ObjectStore.runEntry ObjectStore.ranAt ObjectStore.runCalls
    dsimp only
    rw [if_pos hroom, hrun]
    rfl
  differs _ hnot := absurd trivial hnot

theorem readListEntry_mirrors :
    Mirrors S N (S.readListEntry N) (fun t => (readSlot t).length) (fun t => ⟨readSlot t, []⟩)
      Single.read Told.slot (fun t => t.slot.element.length) (S.FitsAt N 1 Told.slot)
      fun _ _ => True where
  same {st pos entry} hfit _ hans := by
    have hread : S.readEntry st entry N (pos + 1) = S.readEntry st entry N 1 :=
      hS.readEntry_eq (Nat.le_add_left ..) hfit.2
    have hroom : pos + 2 ≤ N := by
      by_contra hfull
      refine hans ?_
      unfold ObjectStore.readListEntry
      dsimp only
      rw [if_neg hfull]
      split <;> rfl
    refine ⟨readOutcome (S.readEntry st entry N 1).outcome, ?_, rfl, rfl⟩
    unfold ObjectStore.readListEntry
    dsimp only
    rw [if_pos hroom, hread]
    rfl
  differs _ hnot := absurd trivial hnot

omit hS in
theorem writeListEntry_mirrors :
    Mirrors S N S.writeListEntry (fun _ => 0) (fun t => ⟨writeSlot t, []⟩)
      (fun x => .write x.1 x.2) Told.slot (fun _ => 0) (fun _ _ _ => True) fun _ _ => True where
  same {st _ x} _ _ _ := ⟨(S.writeEntry st x.1 x.2).outcome, rfl, rfl, rfl⟩
  differs _ hnot := absurd trivial hnot

/-! ## ACCESS -/

/-- A read, where there is room for its value. -/
theorem accessRead_same {st : σ} {pos : Nat} {d : AttributeDescriptor}
    {access : Option SelectiveAccess} (hfit : S.FitsAt N 0 Told.accessSlot st pos (.get d access))
    (hkept : S.AccessKept N st (.get d access)) :
    let r := S.perform N st (.get d access)
    ∃ t, S.accessRead st d access N pos = ⟨t, r.store, r.calls⟩ ∧
      Slot.ofAccess t = r.outcome.accessSlot := by
  intro r
  have hread : S.readAt st d access N pos = S.readAt st d access N 0 :=
    hS.readAt_eq (Nat.zero_le _) hfit.2
  have hroom := hfit.1
  unfold ObjectStore.AccessKept at hkept
  dsimp only at hkept
  have hpromise : (S.readAt st d access N 0).1 ≠ (.ok (), []) := by
    intro hnone
    rw [hnone] at hkept
    exact hkept rfl
  have hr : r = _ := S.perform_get_kept hpromise
  rw [S.perform_get_kept hpromise] at hroom
  rw [hr]
  unfold ObjectStore.accessRead ObjectStore.audited
  rw [hread]
  generalize S.readAt st d access N 0 = done at hkept hroom
  obtain ⟨⟨result, v⟩, st'⟩ := done
  dsimp only at hkept hroom ⊢
  cases result with
  | ok u =>
    dsimp only at hkept
    rw [readOutcome, if_neg hkept]
    exact ⟨(.get .success, v), if_pos rfl, rfl⟩
  | error e =>
    dsimp only at hkept
    by_cases he : e = .success
    · subst he
      exact ⟨(.get .success, v), if_pos rfl, by rw [hkept rfl]; rfl⟩
    · have hpos : pos < N := hroom
      have hout : readAudit (readOutcome (.error e, v)) = e := rfl
      exact ⟨(.get e, [0]), by rw [hout, if_neg he, if_pos hpos], rfl⟩

/-- A read whose value the store left out, or whose error it calls a success. -/
theorem accessRead_differs {st : σ} {pos : Nat} {d : AttributeDescriptor}
    {access : Option SelectiveAccess} (hfit : S.FitsAt N 0 Told.accessSlot st pos (.get d access))
    (hkept : ¬ S.AccessKept N st (.get d access)) :
    let r := S.perform N st (.get d access)
    let t := S.accessRead st d access N pos
    Slot.ofAccess t.outcome ≠ r.outcome.accessSlot ∨
    ∀ calls calls', t.calls.map StoreCall.unplaced ++ calls ≠
      r.calls.map StoreCall.unplaced ++ calls' := by
  intro r t
  have hread : S.readAt st d access N pos = S.readAt st d access N 0 :=
    hS.readAt_eq (Nat.zero_le _) hfit.2
  have ht : t = S.accessRead st d access N pos := rfl
  unfold ObjectStore.accessRead ObjectStore.audited at ht
  rw [hread] at ht
  unfold ObjectStore.AccessKept at hkept
  dsimp only at hkept ht
  match hdone : (S.readAt st d access N 0).1 with
  | (.ok (), v) =>
    rw [hdone] at hkept ht
    obtain rfl : v = [] := not_not.mp hkept
    right
    have hslot : r.outcome = .get (.error .otherReason) := by
      change Told.get (S.getOne st d access N).outcome = _
      unfold ObjectStore.getOne
      dsimp only
      rw [hdone, if_pos rfl]
      rfl
    have hroom : pos < N := by
      have := hfit.1
      rw [show (S.perform N st (.get d access)).outcome = _ from hslot] at this
      exact this
    have hcalls : t.calls = S.readCalls st d access ++ [.audit (.attributeRead d .otherReason)] := by
      rw [ht, if_neg (by decide), if_pos hroom]
      rfl
    intro calls calls'
    rw [hcalls, show r.calls = _ from S.perform_get_hollow hdone]
    exact StoreCall.audits_ne _ _ _ _ (by decide)
  | (.error e, v) =>
    rw [hdone] at hkept ht
    obtain ⟨rfl, hv⟩ := Classical.not_imp.mp hkept
    left
    have hslot : r.outcome = .get (.error .success) := by
      change Told.get (S.getOne st d access N).outcome = _
      unfold ObjectStore.getOne
      dsimp only
      rw [hdone, if_neg (by simp)]
      rfl
    have hout : t.outcome = (.get .success, v) := by
      rw [ht]
      rfl
    rw [hslot, hout]
    exact fun heq => hv (Slot.mk.inj heq).1

/-- A method, where there is room for its value. -/
theorem accessRun_same {st : σ} {pos : Nat} {d : MethodDescriptor} {value : Data}
    (hfit : S.FitsAt N 0 Told.accessSlot st pos (.action d (Srv.parameterOf value)))
    (hkept : S.AccessKept N st (.action d (Srv.parameterOf value))) :
    let r := S.perform N st (.action d (Srv.parameterOf value))
    ∃ t, S.accessRun st d value N pos = ⟨some t, r.store, r.calls⟩ ∧
      Slot.ofAccess t = r.outcome.accessSlot := by
  intro r
  have hrun : S.runAt st d (Srv.parameterOf value) N pos = S.runAt st d (Srv.parameterOf value) N 0 :=
    hS.runAt_eq (Nat.zero_le _) hfit.2
  have hroom := hfit.1
  have hr : r = ⟨.action (runOutcome (S.runAt st d (Srv.parameterOf value) N 0).1),
    S.ranAt st d (Srv.parameterOf value) N 0, S.runCalls st d (Srv.parameterOf value) N 0⟩ := rfl
  have hout : r.outcome = .action (runOutcome (S.runAt st d (Srv.parameterOf value) N 0).1) := rfl
  rw [show (S.perform N st (.action d (Srv.parameterOf value))).outcome = _ from hout] at hroom
  unfold ObjectStore.AccessKept at hkept
  rw [hr]
  unfold ObjectStore.accessRun ObjectStore.ranAt ObjectStore.runCalls
  dsimp only at hkept hroom ⊢
  rw [hrun]
  match hdone : (S.runAt st d (Srv.parameterOf value) N 0).1 with
  | (.ok true, v) =>
    rw [hdone] at hkept hroom
    have hsome : runOutcome (.ok true, v) = .ok (some v) := if_neg hkept
    exact ⟨(.action .success, v), rfl, by rw [hsome]; rfl⟩
  | (.ok false, v) =>
    rw [hdone] at hkept hroom
    obtain rfl : v = [] := hkept
    have hpos : pos + ([] : Bytes).length < N := hroom
    exact ⟨(.action .success, [0]), by dsimp only; rw [if_pos hpos]; rfl, rfl⟩
  | (.error e, v) =>
    rw [hdone] at hroom
    have hpos : pos < N := hroom
    exact ⟨(.action e, [0]), by dsimp only; rw [if_pos hpos], rfl⟩

/-- A method that wrote what it did not say, or did not write what it said. -/
theorem accessRun_differs {st : σ} {pos : Nat} {d : MethodDescriptor} {value : Data}
    (hfit : S.FitsAt N 0 Told.accessSlot st pos (.action d (Srv.parameterOf value)))
    (hkept : ¬ S.AccessKept N st (.action d (Srv.parameterOf value)))
    {t : AccessResponseSpecification × Bytes} (ht : (S.accessRun st d value N pos).outcome = some t) :
    Slot.ofAccess t ≠
      (S.perform N st (.action d (Srv.parameterOf value))).outcome.accessSlot := by
  have hrun : S.runAt st d (Srv.parameterOf value) N pos = S.runAt st d (Srv.parameterOf value) N 0 :=
    hS.runAt_eq (Nat.zero_le _) hfit.2
  have hout : (S.perform N st (.action d (Srv.parameterOf value))).outcome =
    .action (runOutcome (S.runAt st d (Srv.parameterOf value) N 0).1) := rfl
  unfold ObjectStore.AccessKept at hkept
  unfold ObjectStore.accessRun at ht
  rw [hout]
  dsimp only at hkept ht
  rw [hrun] at ht
  match hdone : (S.runAt st d (Srv.parameterOf value) N 0).1 with
  | (.ok true, v) =>
    rw [hdone] at hkept ht
    obtain rfl : v = [] := not_not.mp hkept
    obtain rfl := Option.some.inj ht
    decide
  | (.ok false, v) =>
    rw [hdone] at hkept ht
    dsimp only at ht
    split at ht
    · obtain rfl := Option.some.inj ht
      refine fun heq => hkept ?_
      have helement : v ++ [0] = [0] := (Slot.mk.inj heq).1
      simpa using helement
    · cases ht
  | (.error e, v) =>
    rw [hdone] at hkept
    exact absurd trivial hkept

end Steps

/-- The operation that an entry of an ACCESS request stands for. -/
def AccessRequestSpecification.single (value : Data) : AccessRequestSpecification → Single
  | get d => .get d none
  | set d => .set d none value
  | action d => .action d (Srv.parameterOf value)
  | getWithSelection d => .get d.descriptor d.access
  | setWithSelection d => .set d.descriptor d.access value

theorem accessListEntry_mirrors {S : ObjectStore σ} (hS : S.Steady N) :
    Mirrors S N (S.accessListEntry N) (fun t => t.2.length) Slot.ofAccess
      (fun x => x.1.single x.2) Told.accessSlot (fun t => t.accessSlot.element.length)
      (S.FitsAt N 0 Told.accessSlot) (S.AccessKept N) where
  same {st pos x} hfit hkept _ := by
    obtain ⟨spec, value⟩ := x
    have hread {d access} (hfit : S.FitsAt N 0 Told.accessSlot st pos (.get d access))
        (hkept : S.AccessKept N st (.get d access)) :
        let r := S.perform N st (.get d access)
        let a := S.accessRead st d access N pos
        ∃ t, (⟨some a.outcome, a.store, a.calls⟩ : Served σ _) = ⟨some t, r.store, r.calls⟩ ∧
          Slot.ofAccess t = r.outcome.accessSlot ∧
          t.2.length = r.outcome.accessSlot.element.length := by
      obtain ⟨t, ht, hslot⟩ := accessRead_same hS hfit hkept
      exact ⟨t, by rw [ht], hslot, congrArg (·.element.length) hslot⟩
    have hwrite {d access} (hfit : S.FitsAt N 0 Told.accessSlot st pos (.set d access value)) :
        let r := S.perform N st (.set d access value)
        let a := S.accessWrite st d access value N pos
        ∃ t, (⟨some a.outcome, a.store, a.calls⟩ : Served σ _) = ⟨some t, r.store, r.calls⟩ ∧
          Slot.ofAccess t = r.outcome.accessSlot ∧
          t.2.length = r.outcome.accessSlot.element.length := by
      have hpos : pos < N := hfit.1
      refine ⟨(.set (S.write st d access value).1, [0]), ?_, rfl, rfl⟩
      unfold ObjectStore.accessWrite
      dsimp only
      rw [if_pos hpos]
      rfl
    cases spec with
    | get d => exact hread hfit hkept
    | set d => exact hwrite hfit
    | getWithSelection d => exact hread hfit hkept
    | setWithSelection d => exact hwrite hfit
    | action d =>
      obtain ⟨t, ht, hslot⟩ := accessRun_same hS hfit hkept
      exact ⟨t, ht, hslot, congrArg (·.element.length) hslot⟩
  differs {st pos x} hfit hkept := by
    obtain ⟨spec, value⟩ := x
    have hread {d access} (hfit : S.FitsAt N 0 Told.accessSlot st pos (.get d access))
        (hkept : ¬ S.AccessKept N st (.get d access)) :
        let r := S.perform N st (.get d access)
        let a := S.accessRead st d access N pos
        (∀ t, some a.outcome = some t → Slot.ofAccess t ≠ r.outcome.accessSlot) ∨
        ∀ calls calls', a.calls.map StoreCall.unplaced ++ calls ≠
          r.calls.map StoreCall.unplaced ++ calls' := by
      refine (accessRead_differs hS hfit hkept).imp_left fun hne t ht => ?_
      obtain rfl := Option.some.inj ht
      exact hne
    cases spec with
    | get d => exact hread hfit hkept
    | set d => exact absurd trivial hkept
    | getWithSelection d => exact hread hfit hkept
    | setWithSelection d => exact absurd trivial hkept
    | action d => exact .inl fun t ht => accessRun_differs hS hfit hkept ht

end Dlms
