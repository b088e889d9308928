import DlmsCosem.Server.Slots

/-!
# Requests of several entries, for the store

A service that takes several entries folds a program over them. `walk` is what that comes to for the
store: the entries are served one after another, each is told how much of the list is used, and one
that finds no room ends the walk. `Walking.fold` connects the two, once for all services; each service
then shows what its step does.
-/

namespace Dlms

variable {σ π : Type} {N : Nat}

/-- Serve entries one after another, until one has no answer. -/
def walk {α τ : Type} (one : σ → Nat → α → Served σ (Option τ)) (size : τ → Nat) :
    σ → Nat → List α → Served σ (Option (List τ))
  | st, _, [] => ⟨some [], st, []⟩
  | st, pos, x :: xs =>
    let r := one st pos x
    match r.outcome with
    | none => ⟨none, r.store, r.calls⟩
    | some t =>
      let rest := walk one size r.store (pos + size t) xs
      ⟨rest.outcome.map (t :: ·), rest.store, r.calls ++ rest.calls⟩

section Walk

variable {α τ : Type} {one : σ → Nat → α → Served σ (Option τ)} {size : τ → Nat}

theorem walk_nil (st : σ) (pos : Nat) : walk one size st pos [] = ⟨some [], st, []⟩ := rfl

theorem walk_cons_none {st : σ} {pos : Nat} {x : α} (h : (one st pos x).outcome = none) (xs : List α) :
    walk one size st pos (x :: xs) = ⟨none, (one st pos x).store, (one st pos x).calls⟩ := by
  rw [walk]
  dsimp only
  rw [h]

theorem walk_cons_some {st : σ} {pos : Nat} {x : α} {t : τ} (h : (one st pos x).outcome = some t)
    (xs : List α) :
    let r := one st pos x
    let rest := walk one size r.store (pos + size t) xs
    walk one size st pos (x :: xs) =
      ⟨rest.outcome.map (t :: ·), rest.store, r.calls ++ rest.calls⟩ := by
  rw [walk]
  dsimp only
  rw [h]

/-- A walk that gets to its end has an answer for each entry. -/
theorem walk_length {st : σ} {pos : Nat} {xs : List α} {ts : List τ}
    (h : (walk one size st pos xs).outcome = some ts) : ts.length = xs.length := by
  induction xs generalizing st pos ts with
  | nil =>
    obtain rfl := Option.some.inj h
    rfl
  | cons x xs ih =>
    cases hx : (one st pos x).outcome with
    | none =>
      rw [walk_cons_none hx] at h
      cases h
    | some t =>
      rw [walk_cons_some hx] at h
      obtain ⟨rest, hrest, rfl⟩ := Option.map_eq_some_iff.mp h
      rw [List.length_cons, List.length_cons, ih hrest]

end Walk

/-- A fold over the program `f` serves its entries as `one` says: `pos` is how much of the list is used,
`I` is what holds while so many entries are left, and `G` what the answers add. -/
structure Walking {α β γ τ : Type} (f : β → γ → Srv σ π N β) (entry : α → γ)
    (one : σ → Nat → α → Served σ (Option τ)) (size : τ → Nat) (pos : β → Nat) (I : Nat → β → Prop)
    (G : β → List τ → β → Prop) : Prop where
  refl : ∀ b, G b [] b
  trans : ∀ {b ts b' ts' b''}, G b ts b' → G b' ts' b'' → G b (ts ++ ts') b''
  step : ∀ n b a s, I (n + 1) b →
    let r := one s.store (pos b) a
    (∃ t b', r.outcome = some t ∧ f b (entry a) s = (.ok b', s.asked r.store r.calls) ∧ G b [t] b' ∧
      I n b' ∧ pos b' = pos b + size t) ∨
    (r.outcome = none ∧ ∃ e, f b (entry a) s = (.error e, s.asked r.store r.calls))

section Fold

variable {α β γ τ : Type} {f : β → γ → Srv σ π N β} {entry : α → γ}
  {one : σ → Nat → α → Served σ (Option τ)} {size : τ → Nat} {pos : β → Nat} {I : Nat → β → Prop}
  {G : β → List τ → β → Prop}

/-- The fold is the walk. -/
theorem Walking.fold (h : Walking f entry one size pos I G) (xs : List α) {b : β} {s : Server σ π N}
    (hI : I xs.length b) :
    let r := walk one size s.store (pos b) xs
    (∃ ts b', r.outcome = some ts ∧
      Prog.fold f b (xs.map entry) s = (.ok b', s.asked r.store r.calls) ∧ G b ts b') ∨
    (r.outcome = none ∧ ∃ e, Prog.fold f b (xs.map entry) s = (.error e, s.asked r.store r.calls)) := by
  induction xs generalizing b s with
  | nil => exact .inl ⟨[], b, rfl, by rw [walk_nil, Server.asked_nil]; rfl, h.refl b⟩
  | cons x xs ih =>
    dsimp only
    rw [List.map_cons, Prog.fold]
    obtain ⟨t, b₁, hout, hx, hg, hI₁, hpos⟩ | ⟨hout, e, hx⟩ := h.step xs.length b x s hI
    · rw [walk_cons_some hout, Prog.bind_run_ok hx]
      dsimp only
      have hrest := ih (s := s.asked (one s.store (pos b) x).store (one s.store (pos b) x).calls) hI₁
      dsimp only at hrest
      rw [Server.asked_store, hpos] at hrest
      obtain ⟨ts, b', hts, hrun, hg'⟩ | ⟨hnone, e, hrun⟩ := hrest
      · rw [hts, hrun, Server.asked_asked]
        exact .inl ⟨t :: ts, b', rfl, rfl, h.trans hg hg'⟩
      · rw [hnone, hrun, Server.asked_asked]
        exact .inr ⟨rfl, e, rfl⟩
    · rw [walk_cons_none hout, Prog.bind_run_error hx]
      exact .inr ⟨rfl, e, rfl⟩

/-- A service whose answers each add a slot to one list. -/
theorem Walking.ofSlots {f : SliceWriter → γ → Srv σ π N SliceWriter} (slot : τ → Bytes) {len : Nat}
    (hstep : ∀ (w : SliceWriter) a (s : Server σ π N), w.buf.length = len →
      let r := one s.store w.pos a
      (∃ t w', r.outcome = some t ∧ f w (entry a) s = (.ok w', s.asked r.store r.calls) ∧
        w.Grown w' (slot t)) ∨
      (r.outcome = none ∧ ∃ e, f w (entry a) s = (.error e, s.asked r.store r.calls))) :
    Walking f entry one (fun t => (slot t).length) SliceWriter.pos (fun _ w => w.buf.length = len)
      fun w ts w' => w.Grown w' (ts.map slot).flatten where
  refl := .refl
  trans h h' := by
    rw [List.map_append, List.flatten_append]
    exact h.trans h'
  step n w a s hlen := by
    obtain ⟨t, w', hout, hrun, hg⟩ | hnone := hstep w a s hlen
    · exact .inl ⟨t, w', hout, hrun, by simpa using hg, hg.room.trans hlen, hg.pos⟩
    · exact .inr hnone

/-- The list that such a service leaves. -/
theorem Walking.slots {f : SliceWriter → γ → Srv σ π N SliceWriter} {slot : τ → Bytes} {len : Nat}
    (h : Walking f entry one (fun t => (slot t).length) SliceWriter.pos
      (fun _ w => w.buf.length = len) fun w ts w' => w.Grown w' (ts.map slot).flatten)
    (xs : List α) (s : Server σ π N) :
    let r := walk one (fun t => (slot t).length) s.store 0 xs
    (∃ ts w, r.outcome = some ts ∧
      Prog.fold f (SliceWriter.new (zeros len)) (xs.map entry) s = (.ok w, s.asked r.store r.calls) ∧
      w.asSlice = (ts.map slot).flatten ∧ (ts.map slot).flatten.length ≤ len) ∨
    (r.outcome = none ∧ ∃ e, Prog.fold f (SliceWriter.new (zeros len)) (xs.map entry) s =
      (.error e, s.asked r.store r.calls)) := by
  obtain ⟨ts, w, hts, hrun, hg⟩ | hnone := h.fold xs (b := SliceWriter.new (zeros len)) (s := s)
    (length_zeros len)
  · have hslice : w.asSlice = (ts.map slot).flatten := by
      rw [hg.slice, SliceWriter.new_asSlice, List.nil_append]
    have hle := hg.pos_le
    rw [SliceWriter.new_pos, SliceWriter.new_buf, length_zeros, Nat.zero_add] at hle
    exact .inl ⟨ts, w, hts, hrun, hslice, hle⟩
  · exact .inr hnone

end Fold

/-! ## The services -/

namespace ObjectStore

variable (S : ObjectStore σ)

/-- One pair of a SET with a list, in a list of `len` results. -/
def setEntry (len : Nat) (st : σ) (pos : Nat) (x : AttributeDescriptorWithSelection × Data) :
    Served σ (Option DataAccessResult) :=
  let r := S.write st x.1.descriptor x.1.access x.2
  ⟨if pos < len then some r.1 else none, r.2, S.writeCalls st x.1.descriptor x.1.access x.2⟩

/-- One attribute of a GET with a list. -/
def getEntry (len : Nat) (st : σ) (pos : Nat) (item : AttributeDescriptorWithSelection) :
    Served σ (Option (Except DataAccessResult Bytes)) :=
  let r := S.readAt st item.descriptor item.access len (pos + 1)
  let e := AuditEvent.attributeRead item.descriptor (readAudit (readOutcome r.1))
  let calls := S.readCalls st item.descriptor item.access
  if pos + 2 ≤ len then ⟨some (readOutcome r.1), S.audit r.2 e, calls ++ [.audit e]⟩
  else if pos + 1 ≤ len then ⟨none, r.2, calls⟩
  else ⟨none, (S.attributeAccess st item.descriptor).2,
    [.attributeAccess .read item.descriptor (S.attributeAccess st item.descriptor).1]⟩

/-- One method of an ACTION with a list. -/
def runEntry (len : Nat) (st : σ) (pos : Nat) (x : MethodDescriptor × Data) :
    Served σ (Option (Except ActionResult (Option Bytes))) :=
  let parameters := Srv.parameterOf x.2
  if pos + 3 ≤ len then
    ⟨some (runOutcome (S.runAt st x.1 parameters len (pos + 3)).1),
      S.ranAt st x.1 parameters len (pos + 3), S.runCalls st x.1 parameters len (pos + 3)⟩
  else ⟨none, st, []⟩

/-- One entry of a short-name read. -/
def readListEntry (len : Nat) (st : σ) (pos : Nat) (entry : VariableAccess) :
    Served σ (Option (Except DataAccessResult Bytes)) :=
  let r := S.readEntry st entry len (pos + 1)
  if pos + 2 ≤ len then ⟨some (readOutcome r.outcome), r.store, r.calls⟩
  else if pos + 1 ≤ len then ⟨none, r.store, r.calls⟩
  else ⟨none, st, []⟩

/-- One entry of a short-name write. There is room for every result. -/
def writeListEntry (st : σ) (_ : Nat) (x : VariableAccess × Data) : Served σ (Option DataAccessResult) :=
  let r := S.writeEntry st x.1 x.2
  ⟨some r.outcome, r.store, r.calls⟩

/-- One operation of an ACCESS request, in a data list of `len` bytes. -/
def accessListEntry (len : Nat) (st : σ) (pos : Nat) (x : AccessRequestSpecification × Data) :
    Served σ (Option (AccessResponseSpecification × Bytes)) := S.accessEntry st x.1 x.2 len pos

end ObjectStore

namespace Srv

variable (S : ObjectStore σ)

theorem setListItem_walking (len : Nat) :
    Walking (setListItem S : SliceWriter → _ → Srv σ π N SliceWriter)
      (fun x : AttributeDescriptorWithSelection × Data => (.ok x.1, .ok x.2)) (S.setEntry len)
      (fun t => [t.asU8].length) SliceWriter.pos (fun _ w => w.buf.length = len)
      fun w ts w' => w.Grown w' (ts.map fun t => [t.asU8]).flatten := by
  refine .ofSlots (fun t => [DataAccessResult.asU8 t]) fun w x s hlen => ?_
  unfold setListItem ObjectStore.setEntry
  dsimp only
  rw [Prog.ofExcept_ok, Prog.pure_bind_run, Prog.ofExcept_ok, Prog.pure_bind_run,
    Prog.bind_run_ok (writeOne_run ..)]
  by_cases hroom : w.pos < len
  · obtain ⟨w', hemit, hg⟩ := emit_grown (w := w)
      (.u8 (S.write s.store x.1.descriptor x.1.access x.2).1.asU8) (by omega)
      (s.asked (S.write s.store x.1.descriptor x.1.access x.2).2
        (S.writeCalls s.store x.1.descriptor x.1.access x.2))
    exact .inl ⟨_, w', if_pos hroom, hemit, hg⟩
  · exact .inr ⟨if_neg hroom, emit_full (w := w)
      (.u8 (S.write s.store x.1.descriptor x.1.access x.2).1.asU8) (by omega) _⟩

theorem actionListItem_walking (len : Nat) :
    Walking (actionListItem S : SliceWriter → _ → Srv σ π N SliceWriter)
      (fun x : MethodDescriptor × Data => (.ok x.1, .ok x.2)) (S.runEntry len)
      (fun t => (runSlot t).length) SliceWriter.pos (fun _ w => w.buf.length = len)
      fun w ts w' => w.Grown w' (ts.map runSlot).flatten := by
  refine .ofSlots runSlot fun w x s hlen => ?_
  obtain rfl := hlen
  unfold ObjectStore.runEntry
  by_cases hroom : w.pos + 3 ≤ w.buf.length
  · obtain ⟨w', hrun, hg⟩ := actionListItem_run S x.1 x.2 hroom s
    rw [if_pos hroom]
    exact .inl ⟨_, w', rfl, hrun, hg⟩
  · obtain ⟨e, hrun⟩ := actionListItem_full S x.1 x.2 (w := w) (by omega) s
    rw [if_neg hroom]
    exact .inr ⟨rfl, e, by rw [Server.asked_nil]; exact hrun⟩

theorem getListItem_walking (len : Nat) :
    Walking (getListItem S : SliceWriter → _ → Srv σ π N SliceWriter) .ok (S.getEntry len)
      (fun t => (readSlot t).length) SliceWriter.pos (fun _ w => w.buf.length = len)
      fun w ts w' => w.Grown w' (ts.map readSlot).flatten := by
  refine .ofSlots readSlot fun w item s hlen => ?_
  obtain rfl := hlen
  unfold ObjectStore.getEntry
  by_cases hroom : w.pos + 2 ≤ w.buf.length
  · obtain ⟨w', hrun, hg⟩ := getListItem_run S item hroom s
    rw [if_pos hroom]
    exact .inl ⟨_, w', rfl, hrun, hg⟩
  · obtain ⟨e, hrun⟩ := getListItem_full S item (w := w) (by omega) s
    rw [if_neg hroom]
    refine .inr ⟨by split <;> rfl, e, hrun.trans ?_⟩
    split <;> rfl

theorem readItem_walking (len : Nat) :
    Walking (readItem S : SliceWriter → _ → Srv σ π N SliceWriter) .ok (S.readListEntry len)
      (fun t => (readSlot t).length) SliceWriter.pos (fun _ w => w.buf.length = len)
      fun w ts w' => w.Grown w' (ts.map readSlot).flatten := by
  refine .ofSlots readSlot fun w entry s hlen => ?_
  obtain rfl := hlen
  unfold ObjectStore.readListEntry
  by_cases hroom : w.pos + 2 ≤ w.buf.length
  · obtain ⟨w', hrun, hg⟩ := readItem_run S entry hroom s
    rw [if_pos hroom]
    exact .inl ⟨_, w', rfl, hrun, hg⟩
  · obtain ⟨e, hrun⟩ := readItem_full S entry (w := w) (by omega) s
    rw [if_neg hroom]
    refine .inr ⟨by split <;> rfl, e, hrun.trans ?_⟩
    split
    · rfl
    · rw [Server.asked_nil]

theorem length_writeSlot_le (outcome : DataAccessResult) : (writeSlot outcome).length ≤ 2 := by
  unfold writeSlot
  split <;> simp

theorem writeItem_walking :
    Walking (writeItem S : SliceWriter → _ → Srv σ π N SliceWriter)
      (fun x : VariableAccess × Data => (.ok x.1, .ok x.2)) S.writeListEntry (fun _ => 0) (fun _ => 0)
      (fun n w => w.pos + 2 * n ≤ w.buf.length)
      fun w ts w' => w.Grown w' (ts.map writeSlot).flatten where
  refl := .refl
  trans h h' := by
    rw [List.map_append, List.flatten_append]
    exact h.trans h'
  step n w x s hroom := by
    obtain ⟨w', hrun, hg⟩ := writeItem_run S x.1 x.2 (w := w) (by omega) s
    refine .inl ⟨_, w', rfl, hrun, by simpa using hg, ?_, rfl⟩
    have hpos := hg.pos
    have hbuf := hg.room
    have hslot := length_writeSlot_le (S.writeEntry s.store x.1 x.2).outcome
    omega

theorem accessItem_walking (len : Nat) :
    Walking (accessItem S : SliceWriter × SliceWriter → _ → Srv σ π N (SliceWriter × SliceWriter))
      (fun x : AccessRequestSpecification × Data => (.ok x.1, .ok x.2)) (S.accessListEntry len)
      (fun t => t.2.length) (fun w => w.1.pos)
      (fun n w => w.2.pos + 2 * n ≤ w.2.buf.length ∧ w.1.buf.length = len)
      fun w ts w' => w.1.Grown w'.1 (ts.map Prod.snd).flatten ∧
        w.2.Grown w'.2 (ts.map fun t => t.1.encode.data).flatten where
  refl w := ⟨.refl w.1, .refl w.2⟩
  trans h h' := by
    rw [List.map_append, List.flatten_append, List.map_append, List.flatten_append]
    exact ⟨h.1.trans h'.1, h.2.trans h'.2⟩
  step n w x s hI := by
    obtain ⟨hroom, rfl⟩ := hI
    have hitem := accessItem_run S x.1 x.2 (w := w) (by omega) s
    unfold ObjectStore.accessListEntry
    dsimp only at hitem ⊢
    cases hout : (S.accessEntry s.store x.1 x.2 w.1.buf.length w.1.pos).outcome with
    | none =>
      rw [hout] at hitem
      exact .inr ⟨rfl, hitem⟩
    | some answer =>
      rw [hout] at hitem
      obtain ⟨w', hrun, hg₁, hg₂⟩ := hitem
      have hsize : answer.1.encode.data.length = 2 := by cases answer.1 <;> rfl
      have hpos := hg₂.pos
      have hbuf := hg₂.room
      exact .inl ⟨answer, w', rfl, hrun, ⟨by simpa using hg₁, by simpa using hg₂⟩,
        ⟨by omega, hg₁.room⟩, hg₁.pos⟩

end Srv

end Dlms
