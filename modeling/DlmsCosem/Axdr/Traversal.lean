import DlmsCosem.Axdr.CompactWalk

/-!
# Traversals of described contents

`build` and `walk` go the same way over the contents of a compact array and differ in what they do with
a leaf. A `Traversal` is that way with these differences left open. It has a hook at every node (`tick`)
and at both ends of a row, for states that keep an account of the walk.

* `Traversal.run_ends`: a traversal whose visitor takes every leaf ends as `build` does, with a value that
  is related to the tree that `build` gives.
* `Traversal.run_paid`: what an account of nodes, leaves and rows comes to.
-/

namespace Dlms

/-- What is done on the way over described contents, with the state `T`. -/
structure Traversal (T α : Type) where
  tick : T → T
  visit : Data → Prog Error T α
  array : List α → α
  «structure» : List α → α
  startRow : T → T
  endRow : T → T

namespace Traversal

variable {T α : Type}

/-- `n` runs of `m` and their values. -/
def repeated (m : Walk T α) : Nat → Walk T (List α)
  | 0 => pure []
  | n + 1 => do
    let a ← m
    let as ← repeated m n
    return a :: as

/-- The fields of a structure. -/
def fields (run : TypeDesc → Walk T α) : Nat → Reader → Walk T (List α)
  | 0, _ => pure []
  | n + 1, r =>
    match TypeDesc.parseAt maxDepth r with
    | (.error e, _) => Prog.throw e
    | (.ok inner, r') => do
      let a ← run inner
      let as ← fields run n r'
      return a :: as

variable (V : Traversal T α)

/-- One element, with `left` levels left. -/
def run : Nat → TypeDesc → Walk T α
  | 0, _ => do
    Walk.visit (Prog.modify V.tick)
    Walk.expand (Expand.read (Read.fail .depthExceeded))
  | left + 1, desc => do
    Walk.visit (Prog.modify V.tick)
    Walk.expand Expand.spend
    match desc with
    | .scalar tag => do
      let d ← Walk.expand (Expand.read (leaf tag))
      Walk.visit (V.visit d)
    | .array len elem =>
      match TypeDesc.parseAt maxDepth (Reader.new elem) with
      | (.error e, _) => Prog.throw e
      | (.ok inner, _) => return V.array (← repeated (run left inner) len.toNat)
    | .structure count fs => return V.structure (← fields (run left) count (Reader.new fs))

/-- The rows up to the end of the contents. -/
def rows (row : Walk T α) : Nat → Walk T (List α)
  | 0 => pure []
  | n + 1 => do
    if ← Walk.expand (Expand.read Read.isEmpty) then return []
    let before ← Walk.expand (Expand.read Read.offset)
    Walk.visit (Prog.modify V.startRow)
    let a ← row
    Walk.expand (Expand.ensureProgress before)
    Walk.visit (Prog.modify V.endRow)
    let as ← rows row n
    return a :: as

/-! ## Running beside `build` -/

/-- Both runs end the same way and in the same place, with values and a state that `Q` relates. -/
def Ends {γ δ : Type} (Q : γ → δ → T → Prop) :
    Except Error γ × Expansion → Except Error δ × Expansion × T → Prop
  | (.ok c, s), (.ok d, s', t) => s' = s ∧ Q c d t
  | (.error e, s), (.error e', s', _) => e' = e ∧ s' = s
  | _, _ => False

namespace Ends

variable {γ δ γ' δ' : Type} {Q : γ → δ → T → Prop} {Q' : γ' → δ' → T → Prop}

theorem bind {m : Expand γ} {w : Walk T δ} {f : γ → Expand γ'} {g : δ → Walk T δ'} {s : Expansion}
    {t : T} (h : Ends Q (m s) (w (s, t)))
    (hf : ∀ c d s' t', m s = (.ok c, s') → Q c d t' → Ends Q' (f c s') (g d (s', t'))) :
    Ends Q' ((m >>= f) s) ((w >>= g) (s, t)) := by
  rw [Prog.bind_run, Prog.bind_run]
  match hm : m s, hw : w (s, t) with
  | (.ok c, s'), (.ok d, s'', t') =>
    rw [hm, hw] at h
    obtain ⟨rfl, hq⟩ := h
    exact hf c d s'' t' hm hq
  | (.error e, s'), (.error e', s'', t') => rw [hm, hw] at h; exact h
  | (.ok _, _), (.error _, _) => rw [hm, hw] at h; cases h
  | (.error _, _), (.ok _, _) => rw [hm, hw] at h; cases h

theorem pure {c : γ} {d : δ} {s : Expansion} {t : T} (h : Q c d t) :
    Ends Q ((Pure.pure c : Expand γ) s) ((Pure.pure d : Walk T δ) (s, t)) := ⟨rfl, h⟩

/-- A part of the walk that `build` has too. -/
theorem expand (m : Expand γ) (s : Expansion) (t : T) :
    Ends (fun c d t' => c = d ∧ t = t') (m s) (Walk.expand m (s, t)) := by
  unfold Walk.expand
  match m s with
  | (.ok c, s') => exact ⟨rfl, rfl, rfl⟩
  | (.error e, s') => exact ⟨rfl, rfl⟩

end Ends

/-- `Q` along two lists, each pair from the state that the one before left. -/
inductive Along {β : Type} (Q : β → α → T → T → Prop) : List β → List α → T → T → Prop
  | nil (t : T) : Along Q [] [] t t
  | cons {b : β} {a : α} {bs : List β} {as : List α} {t t₁ t₂ : T} :
    Q b a t t₁ → Along Q bs as t₁ t₂ → Along Q (b :: bs) (a :: as) t t₂

/-- What relates the tree of `build` to the value of a traversal and its state before and after: it holds
of every leaf that `build` takes, and of a node where it holds along its parts. -/
structure Relates (Q : DataBuf → α → T → T → Prop) : Prop where
  leaf : ∀ d tree t, DataBuf.ofScalar d = .ok tree →
    ∃ a t', V.visit d (V.tick t) = (.ok a, t') ∧ Q tree a t t'
  array : ∀ trees as t t', Along Q trees as (V.tick t) t' → Q (.array trees) (V.array as) t t'
  «structure» : ∀ trees as t t', Along Q trees as (V.tick t) t' →
    Q (.structure trees) (V.structure as) t t'

variable {V} {Q : DataBuf → α → T → T → Prop}

theorem repeated_ends {m : Expand DataBuf} {w : Walk T α}
    (h : ∀ s t, Ends (fun tree a t' => Q tree a t t') (m s) (w (s, t))) (n : Nat) (s : Expansion) (t : T) :
    Ends (fun trees as t' => Along Q trees as t t') (Expand.repeated m n s) (repeated w n (s, t)) := by
  induction n generalizing s t with
  | zero => exact .pure (.nil t)
  | succ n ih =>
    refine (h s t).bind fun tree a s₁ t₁ _ hq => ?_
    refine (ih s₁ t₁).bind fun trees as s₂ t₂ _ hqs => ?_
    exact .pure (.cons hq hqs)

theorem fields_ends {build : TypeDesc → Expand DataBuf} {run : TypeDesc → Walk T α}
    (h : ∀ desc s t, Ends (fun tree a t' => Q tree a t t') (build desc s) (run desc (s, t))) (n : Nat)
    (r : Reader) (s : Expansion) (t : T) :
    Ends (fun trees as t' => Along Q trees as t t') (buildFields build n r s) (fields run n r (s, t)) := by
  induction n generalizing r s t with
  | zero => exact .pure (.nil t)
  | succ n ih =>
    rw [buildFields, fields]
    rcases TypeDesc.parseAt maxDepth r with ⟨e | inner, r'⟩
    · exact ⟨rfl, rfl⟩
    · refine (h inner s t).bind fun tree a s₁ t₁ _ hq => ?_
      refine (ih r' s₁ t₁).bind fun trees as s₂ t₂ _ hqs => ?_
      exact .pure (.cons hq hqs)

/-- A leaf is no sequence. -/
theorem leaf_scalar (tag : DataTag) :
    Prog.Yields (Dlms.leaf tag) fun d => ∃ tree, DataBuf.ofScalar d = .ok tree := by
  cases tag with
  | nullData | dontCare => exact .pure ⟨_, rfl⟩
  | array | «structure» | compactArray => exact fun r d h => nomatch h
  | bitString =>
    refine (Prog.Yields.any _).bind fun bits _ => (Prog.Yields.any _).bind fun bytes _ => ?_
    split
    · exact .pure ⟨_, rfl⟩
    · exact fun r d h => nomatch h
  | _ => exact (Prog.Yields.any _).map fun _ _ => ⟨_, rfl⟩

/-- A traversal goes the way of `build`. -/
theorem run_ends (hV : V.Relates Q) (left : Nat) (desc : TypeDesc) (s : Expansion) (t : T) :
    Ends (fun tree a t' => Q tree a t t') (build left desc s) (V.run left desc (s, t)) := by
  induction left generalizing desc s t with
  | zero => exact ⟨rfl, rfl⟩
  | succ left ih =>
    show Ends _ ((Expand.spend >>= _) s) ((Walk.expand Expand.spend >>= _) (s, V.tick t))
    refine (Ends.expand Expand.spend s (V.tick t)).bind fun _ _ s₁ t₁ _ ⟨_, ht⟩ => ?_
    subst ht
    cases desc with
    | scalar tag =>
      refine (Ends.expand (Expand.read (Dlms.leaf tag)) s₁ (V.tick t)).bind fun d d' s₂ t₂ hleaf ⟨hd, ht⟩ => ?_
      subst hd ht
      obtain ⟨tree, htree⟩ := leaf_scalar tag s₁.contents d (congrArg Prod.fst hleaf)
      obtain ⟨a, t', hvisit, hq⟩ := hV.leaf d tree t htree
      rw [htree]
      show Ends _ (.ok tree, s₂) ((V.visit d (V.tick t)).1, s₂, (V.visit d (V.tick t)).2)
      rw [hvisit]
      exact ⟨rfl, hq⟩
    | array len elem =>
      dsimp only
      rcases TypeDesc.parseAt maxDepth (Reader.new elem) with ⟨e | inner, r'⟩
      · exact ⟨rfl, rfl⟩
      · refine (repeated_ends (ih inner) len.toNat s₁ (V.tick t)).bind fun trees as s₂ t₂ _ hqs => ?_
        exact .pure (hV.array trees as t t₂ hqs)
    | «structure» count fs =>
      refine (fields_ends ih count (Reader.new fs) s₁ (V.tick t)).bind fun trees as s₂ t₂ _ hqs => ?_
      exact .pure (hV.structure trees as t t₂ hqs)

/-- So do the rows. -/
theorem rows_ends {row : Expand DataBuf} {w : Walk T α}
    (h : ∀ s t, Ends (fun tree a t' => Q tree a t t') (row s) (w (s, t))) (n : Nat) (s : Expansion) (t : T) :
    Ends (fun trees as t' => Along (fun tree a t t' => ∃ t₁, Q tree a (V.startRow t) t₁ ∧ t' = V.endRow t₁)
      trees as t t') (CompactArray.rows row n s) (V.rows w n (s, t)) := by
  induction n generalizing s t with
  | zero => exact .pure (.nil t)
  | succ n ih =>
    rw [CompactArray.rows, rows]
    refine (Ends.expand (Expand.read Read.isEmpty) s t).bind fun empty empty' s₁ t₁ _ hsame => ?_
    obtain ⟨rfl, rfl⟩ := hsame
    cases empty with
    | true => exact .pure (.nil t)
    | false =>
      simp only [Bool.false_eq_true, if_false]
      refine (Ends.expand (Expand.read Read.offset) s₁ t).bind fun before before' s₂ t₂ _ hsame => ?_
      obtain ⟨rfl, rfl⟩ := hsame
      show Ends _ ((row >>= _) s₂) ((w >>= _) (s₂, V.startRow t))
      refine (h s₂ (V.startRow t)).bind fun tree a s₃ t₃ _ hq => ?_
      refine (Ends.expand (Expand.ensureProgress before) s₃ t₃).bind fun _ _ s₄ t₄ _ hsame => ?_
      obtain ⟨-, rfl⟩ := hsame
      show Ends _ ((CompactArray.rows row n >>= _) s₄) ((V.rows w n >>= _) (s₄, V.endRow t₃))
      refine (ih s₄ (V.endRow t₃)).bind fun trees as s₅ t₅ _ hqs => ?_
      exact .pure (.cons ⟨t₃, hq, rfl⟩ hqs)

end Traversal

/-! ## Reading onward -/

/-- A decoder that moves on in its bytes and never runs out of levels. -/
structure Onward {α : Type} (m : Read α) : Prop where
  run : ∀ r, (m r).2.buf = r.buf ∧ (m r).2.base = r.base ∧ r.pos ≤ (m r).2.pos
  kind : ∀ r e, (m r).1 = .error e → e.kind ≠ .depthExceeded

namespace Onward

variable {α β : Type}

theorem pure (a : α) : Onward (Pure.pure a : Read α) := ⟨fun _ => ⟨rfl, rfl, Nat.le_refl _⟩, nofun⟩

theorem fail {k : ErrorKind} (h : k ≠ .depthExceeded) : Onward (Read.fail k : Read α) :=
  ⟨fun _ => ⟨rfl, rfl, Nat.le_refl _⟩, by rintro r _ ⟨⟩; exact h⟩

theorem errBack {k : ErrorKind} {n : Nat} (h : k ≠ .depthExceeded) : Onward (Read.errBack k n : Read α) :=
  ⟨fun _ => ⟨rfl, rfl, Nat.le_refl _⟩, by rintro r _ ⟨⟩; exact h⟩

theorem bind {m : Read α} {f : α → Read β} (hm : Onward m) (hf : ∀ a, Onward (f a)) :
    Onward (m >>= f) := by
  constructor
  · intro r
    obtain ⟨hbuf, hbase, hpos⟩ := hm.run r
    rw [Prog.bind_run]
    match h : m r with
    | (.ok a, r') =>
      rw [h] at hbuf hbase hpos
      obtain ⟨hbuf', hbase', hpos'⟩ := (hf a).run r'
      exact ⟨hbuf'.trans hbuf, hbase'.trans hbase, hpos.trans hpos'⟩
    | (.error e, r') =>
      rw [h] at hbuf hbase hpos
      exact ⟨hbuf, hbase, hpos⟩
  · intro r e
    rw [Prog.bind_run]
    match h : m r with
    | (.ok a, r') => exact (hf a).kind r' e
    | (.error e', r') =>
      intro he
      obtain rfl := Except.error.inj he
      exact hm.kind r e' (by rw [h])

theorem map {m : Read α} (hm : Onward m) (g : α → β) : Onward (m >>= fun a => Pure.pure (g a)) :=
  hm.bind fun a => pure (g a)

theorem take (n : Nat) : Onward (Read.take n) := by
  constructor
  · intro r
    unfold Read.take
    split
    · exact ⟨rfl, rfl, Nat.le_refl _⟩
    · exact ⟨rfl, rfl, Nat.le_add_right _ _⟩
  · intro r e h
    unfold Read.take at h
    split at h
    · cases h
      simp [Reader.err]
    · cases h

theorem u8 : Onward Read.u8 := by
  constructor
  · intro r
    unfold Read.u8
    split
    · exact ⟨rfl, rfl, Nat.le_succ _⟩
    · exact ⟨rfl, rfl, Nat.le_refl _⟩
  · intro r e h
    unfold Read.u8 at h
    split at h
    · cases h
    · cases h
      simp [Reader.err]

theorem u16 : Onward Read.u16 := (take 2).map _
theorem u32 : Onward Read.u32 := (take 4).map _
theorem u64 : Onward Read.u64 := (take 8).map _
theorem i8 : Onward Read.i8 := u8.map _
theorem i16 : Onward Read.i16 := u16.map _
theorem i32 : Onward Read.i32 := u32.map _
theorem i64 : Onward Read.i64 := u64.map _

theorem length : Onward Read.length := by
  refine u8.bind fun first => ?_
  split
  · exact pure _
  · dsimp only
    split
    · exact errBack nofun
    · exact (take _).map _

theorem lengthPrefixed : Onward Read.lengthPrefixed := length.bind take

theorem leaf (tag : DataTag) : Onward (Dlms.leaf tag) := by
  cases tag with
  | nullData | dontCare => exact pure _
  | array | «structure» | compactArray => exact fail nofun
  | bitString =>
    refine length.bind fun bits => (take _).bind fun bytes => ?_
    split
    · exact pure _
    · exact fail nofun
  | octetString | visibleString | utf8String => exact lengthPrefixed.map _
  | boolean | unsigned | enum | deltaUnsigned => exact u8.map _
  | bcd | integer | deltaInteger => exact i8.map _
  | long | deltaLong => exact i16.map _
  | longUnsigned | deltaLongUnsigned => exact u16.map _
  | doubleLong | deltaDoubleLong => exact i32.map _
  | doubleLongUnsigned | float32 | deltaDoubleLongUnsigned => exact u32.map _
  | long64 => exact i64.map _
  | long64Unsigned | float64 => exact u64.map _
  | dateTime | date | time => exact (take _).map _

end Onward

/-! ## An account of a traversal -/

/-- How many nodes a walk entered, how many leaves it handed out and how many rows it completed. -/
structure Account where
  entered : Nat
  handed : Nat
  rows : Nat

namespace Traversal

variable {T α β : Type}

/-- The same traversal with an account of it. -/
def counted (V : Traversal T α) : Traversal (T × Account) α where
  tick p := (V.tick p.1, { p.2 with entered := p.2.entered + 1 })
  visit d := fun p => ((V.visit d p.1).1, (V.visit d p.1).2, { p.2 with handed := p.2.handed + 1 })
  array := V.array
  «structure» := V.structure
  startRow p := (V.startRow p.1, p.2)
  endRow p := (V.endRow p.1, { p.2 with rows := p.2.rows + 1 })

/-- The account has no part in the walk. -/
def Erased (x : Expansion × T × Account) (y : Expansion × T) : Prop := x.1 = y.1 ∧ x.2.1 = y.2

section Erasure

open Prog (Sim)

variable {V : Traversal T α}

theorem expand_sim (m : Expand β) : Sim (Erased (T := T)) Eq (Walk.expand m) (Walk.expand m) := by
  refine ⟨?_⟩
  rintro ⟨s, t, a⟩ ⟨_, _⟩ ⟨rfl, rfl⟩
  exact ⟨Prog.same_eq.mpr rfl, rfl, rfl⟩

theorem modify_sim {f : T × Account → T × Account} {g : T → T} (h : ∀ p, (f p).1 = g p.1) :
    Sim Erased Eq (Walk.visit (Prog.modify f)) (Walk.visit (Prog.modify g)) := by
  refine ⟨?_⟩
  rintro ⟨s, t, a⟩ ⟨_, _⟩ ⟨rfl, rfl⟩
  exact ⟨.ok rfl, rfl, h (t, a)⟩

theorem visit_sim (d : Data) : Sim Erased Eq (Walk.visit (V.counted.visit d)) (Walk.visit (V.visit d)) := by
  refine ⟨?_⟩
  rintro ⟨s, t, a⟩ ⟨_, _⟩ ⟨rfl, rfl⟩
  exact ⟨Prog.same_eq.mpr rfl, rfl, rfl⟩

theorem repeated_sim {w : Walk (T × Account) α} {w' : Walk T α} (h : Sim Erased Eq w w') (n : Nat) :
    Sim Erased Eq (repeated w n) (repeated w' n) := by
  induction n with
  | zero => exact .pure rfl
  | succ n ih => exact h.bind fun _ _ ha => ih.bind fun _ _ has => .pure (by rw [ha, has])

theorem fields_sim {run : TypeDesc → Walk (T × Account) α} {run' : TypeDesc → Walk T α}
    (h : ∀ desc, Sim Erased Eq (run desc) (run' desc)) (n : Nat) (r : Reader) :
    Sim Erased Eq (fields run n r) (fields run' n r) := by
  induction n generalizing r with
  | zero => exact .pure rfl
  | succ n ih =>
    rw [fields, fields]
    rcases TypeDesc.parseAt maxDepth r with ⟨e | inner, r'⟩
    · exact .throw e
    · exact (h inner).bind fun _ _ ha => (ih r').bind fun _ _ has => .pure (by rw [ha, has])

theorem run_sim (left : Nat) (desc : TypeDesc) :
    Sim Erased Eq (V.counted.run left desc) (V.run left desc) := by
  induction left generalizing desc with
  | zero => exact (modify_sim fun _ => rfl).bind fun _ _ _ => expand_sim _
  | succ left ih =>
    refine (modify_sim fun _ => rfl).bind fun _ _ _ => (expand_sim _).bind fun _ _ _ => ?_
    cases desc with
    | scalar tag =>
      refine (expand_sim _).bind fun d d' hd => ?_
      subst hd
      exact visit_sim d
    | array len elem =>
      dsimp only
      rcases TypeDesc.parseAt maxDepth (Reader.new elem) with ⟨e | inner, r'⟩
      · exact .throw e
      · exact (repeated_sim (ih inner) len.toNat).bind fun _ _ has => .pure (by rw [has]; rfl)
    | «structure» count fs =>
      exact (fields_sim ih count (Reader.new fs)).bind fun _ _ has => .pure (by rw [has]; rfl)

theorem rows_sim {w : Walk (T × Account) α} {w' : Walk T α} (h : Sim Erased Eq w w') (n : Nat) :
    Sim Erased Eq (V.counted.rows w n) (V.rows w' n) := by
  induction n with
  | zero => exact .pure rfl
  | succ n ih =>
    refine (expand_sim _).bind fun empty empty' he => ?_
    subst he
    cases empty with
    | true => exact .pure rfl
    | false =>
      refine (expand_sim _).bind fun before before' hb => ?_
      subst hb
      refine (modify_sim fun _ => rfl).bind fun _ _ _ => h.bind fun _ _ ha => ?_
      refine (expand_sim _).bind fun _ _ _ => (modify_sim fun _ => rfl).bind fun _ _ _ => ?_
      exact ih.bind fun _ _ has => .pure (by rw [ha, has])

end Erasure

/-! ### What it comes to -/

variable (V : Traversal T α)

/-- From the account `a` and the contents at `s` to `a'` and `s'`: every node but the last was paid for,
that one too unless the budget was used up, and every leaf belongs to a node. What went wrong was not the
nesting, if the visitor did not say so. -/
structure Spent (s : Expansion) (a : Account) (r : Except Error β) (s' : Expansion) (a' : Account) :
    Prop where
  handed : a'.handed + s'.budget ≤ a.handed + s.budget
  entered : a'.entered + s'.budget ≤ a.entered + s.budget ∨
    a'.entered + s'.budget ≤ a.entered + s.budget + 1 ∧ ∃ e, r = .error e ∧ e.kind = .workExceeded
  buf : s'.contents.buf = s.contents.buf
  base : s'.contents.base = s.contents.base
  pos : s.contents.pos ≤ s'.contents.pos
  error : ∀ e, r = .error e → (∃ d t, (V.visit d t).1 = .error e) ∨ e.kind ≠ .depthExceeded

/-- So it is within one row, where none is completed. -/
def Within (s : Expansion) (a : Account) (x : Except Error β × Expansion × T × Account) : Prop :=
  V.Spent s a x.1 x.2.1 x.2.2.2 ∧ x.2.2.2.rows = a.rows

/-- Every run of a part of one row is paid for. -/
def Paid (w : Walk (T × Account) β) : Prop := ∀ s t a, V.Within s a (w (s, t, a))

variable {V}

namespace Spent

variable {γ : Type} {s s₁ s₂ : Expansion} {a a₁ a₂ : Account} {b : β} {r : Except Error γ}

theorem trans (h : V.Spent s a (.ok b) s₁ a₁) (h' : V.Spent s₁ a₁ r s₂ a₂) : V.Spent s a r s₂ a₂ := by
  have hentered : a₁.entered + s₁.budget ≤ a.entered + s.budget :=
    h.entered.resolve_right fun ⟨_, e, he, _⟩ => nomatch he
  refine ⟨h'.handed.trans h.handed, ?_, h'.buf.trans h.buf, h'.base.trans h.base, h.pos.trans h'.pos, h'.error⟩
  obtain hle | ⟨hle, he⟩ := h'.entered
  · exact .inl (hle.trans hentered)
  · exact .inr ⟨by omega, he⟩

/-- The value makes no difference. -/
theorem of_error {e : Error} (h : V.Spent s a (.error e : Except Error β) s₁ a₁) :
    V.Spent s a (.error e : Except Error γ) s₁ a₁ := by
  refine ⟨h.handed, ?_, h.buf, h.base, h.pos, ?_⟩
  · obtain hle | ⟨hle, e', he, hkind⟩ := h.entered
    · exact .inl hle
    · exact .inr ⟨hle, e', by rw [Except.error.inj he], hkind⟩
  · intro e' he
    exact h.error e' (by rw [Except.error.inj he])

theorem failed {e : Error} (s : Expansion) (a : Account) (h : e.kind ≠ .depthExceeded) :
    V.Spent s a (.error e : Except Error β) s a :=
  ⟨Nat.le_refl _, .inl (Nat.le_refl _), rfl, rfl, Nat.le_refl _, fun _ he => .inr (Except.error.inj he ▸ h)⟩

theorem refl (s : Expansion) (a : Account) (b : β) : V.Spent s a (.ok b) s a :=
  ⟨Nat.le_refl _, .inl (Nat.le_refl _), rfl, rfl, Nat.le_refl _, nofun⟩

end Spent

namespace Paid

variable {γ : Type}

theorem pure (b : β) : V.Paid (Pure.pure b : Walk (T × Account) β) := fun s _ a => ⟨.refl s a b, rfl⟩

theorem bind {w : Walk (T × Account) β} {f : β → Walk (T × Account) γ} (hw : V.Paid w)
    (hf : ∀ b, V.Paid (f b)) : V.Paid (w >>= f) := by
  intro s t a
  obtain ⟨hspent, hrows⟩ := hw s t a
  unfold Within
  rw [Prog.bind_run]
  match h : w (s, t, a) with
  | (.ok b, s₁, t₁, a₁) =>
    rw [h] at hspent hrows
    obtain ⟨hspent', hrows'⟩ := hf b s₁ t₁ a₁
    exact ⟨hspent.trans hspent', hrows'.trans hrows⟩
  | (.error e, s₁, t₁, a₁) =>
    rw [h] at hspent hrows
    exact ⟨hspent.of_error, hrows⟩

/-- Reading costs nothing. -/
theorem read {m : Read β} (h : Onward m) : V.Paid (Walk.expand (Expand.read m)) := by
  intro s t a
  obtain ⟨hbuf, hbase, hpos⟩ := h.run s.contents
  exact ⟨⟨Nat.le_refl _, .inl (Nat.le_refl _), hbuf, hbase, hpos, fun e he => .inr (h.kind _ e he)⟩, rfl⟩

theorem repeated {w : Walk (T × Account) α} (h : V.Paid w) (n : Nat) :
    V.Paid (Traversal.repeated w n) := by
  induction n with
  | zero => exact pure []
  | succ n ih => exact h.bind fun a => ih.bind fun as => pure (a :: as)

/-- The fields were parsed before, with `left` levels left. -/
theorem fields {left : Nat} {run : TypeDesc → Walk (T × Account) α}
    (h : ∀ desc r r', TypeDesc.parseAt left r = (.ok desc, r') → V.Paid (run desc)) (hleft : left ≤ maxDepth)
    (n : Nat) (r r' : Reader) (hr : Prog.times n (do let _ ← TypeDesc.parseAt left) r = (.ok (), r')) :
    V.Paid (Traversal.fields run n r) := by
  induction n generalizing r with
  | zero => exact pure []
  | succ n ih =>
    obtain ⟨⟨⟩, r₁, hfirst, hr⟩ := Prog.bind_ok hr
    obtain ⟨inner, r₂, hparse, hfirst⟩ := Prog.bind_ok hfirst
    obtain rfl : r₂ = r₁ := (Prod.mk.inj hfirst).2
    rw [Traversal.fields, TypeDesc.parseAt_of_le hleft hparse]
    exact (h inner r r₂ hparse).bind fun a => (ih r₂ hr).bind fun as => pure (a :: as)

/-- A node is entered: without budget the walk ends there, else one of it is spent. -/
theorem enter_cases (s : Expansion) (p : T × Account) (f : Unit → Walk (T × Account) β) :
    (s.budget = 0 ∧ (Walk.expand Expand.spend >>= f) (s, p) = (.error (s.contents.err .workExceeded), s, p)) ∨
      ∃ n, s.budget = n + 1 ∧ (Walk.expand Expand.spend >>= f) (s, p) = f () ({ s with budget := n }, p) := by
  cases hb : s.budget with
  | zero =>
    have hspend : Expand.spend s = (.error (s.contents.err .workExceeded), s) := by simp [Expand.spend, hb]
    exact .inl ⟨rfl, Prog.bind_run_error (by rw [Walk.expand, hspend])⟩
  | succ n =>
    have hspend : Expand.spend s = (.ok (), { s with budget := n }) := by simp [Expand.spend, hb]
    exact .inr ⟨n, rfl, Prog.bind_run_ok (by rw [Walk.expand, hspend])⟩

/-- The walk ends at a node that it has no budget for. -/
theorem overspent {s : Expansion} {a : Account} (hb : s.budget = 0) :
    V.Spent s a (.error (s.contents.err .workExceeded) : Except Error β) s
      { a with entered := a.entered + 1 } := by
  refine ⟨Nat.le_refl _, .inr ⟨?_, _, rfl, rfl⟩, rfl, rfl, Nat.le_refl _, fun e he => .inr ?_⟩
  · simp only [hb]
    omega
  · rw [← Except.error.inj he]
    exact nofun

theorem spend {s : Expansion} {a : Account} {n : Nat} (hb : s.budget = n + 1) :
    V.Spent s a (.ok ()) { s with budget := n } { a with entered := a.entered + 1 } := by
  refine ⟨?_, .inl ?_, rfl, rfl, Nat.le_refl _, nofun⟩ <;> simp only [hb] <;> omega

/-- A node is entered, and paid for if there is budget. -/
theorem node {w : Walk (T × Account) β} (h : V.Paid w) : V.Paid (do
    Walk.visit (Prog.modify V.counted.tick)
    Walk.expand Expand.spend
    w) := by
  intro s t a
  show V.Within s a ((Walk.expand Expand.spend >>= _) (s, V.counted.tick (t, a)))
  obtain ⟨hb, hrun⟩ | ⟨n, hb, hrun⟩ := enter_cases s (V.counted.tick (t, a)) fun _ => w
  · rw [hrun]
    exact ⟨overspent hb, rfl⟩
  · rw [hrun]
    obtain ⟨hspent, hrows⟩ := h { s with budget := n } (V.tick t) { a with entered := a.entered + 1 }
    exact ⟨(spend hb).trans hspent, hrows⟩

/-- A leaf belongs to a node that was paid for. -/
theorem node_leaf (tag : DataTag) : V.Paid (do
    Walk.visit (Prog.modify V.counted.tick)
    Walk.expand Expand.spend
    let d ← Walk.expand (Expand.read (Dlms.leaf tag))
    Walk.visit (V.counted.visit d)) := by
  intro s t a
  show V.Within s a ((Walk.expand Expand.spend >>= _) (s, V.counted.tick (t, a)))
  obtain ⟨hb, hrun⟩ | ⟨n, hb, hrun⟩ := enter_cases s (V.counted.tick (t, a)) fun _ => do
    let d ← Walk.expand (Expand.read (Dlms.leaf tag))
    Walk.visit (V.counted.visit d)
  · rw [hrun]
    exact ⟨overspent hb, rfl⟩
  · rw [hrun, Prog.bind_run]
    have hread : V.Within { s with budget := n } { a with entered := a.entered + 1 }
        (Walk.expand (Expand.read (Dlms.leaf tag)) ({ s with budget := n }, V.counted.tick (t, a))) :=
      read (Onward.leaf tag) ..
    match hleaf : Walk.expand (Expand.read (Dlms.leaf tag)) ({ s with budget := n }, V.counted.tick (t, a)) with
    | (.error e, s₂, t₂, a₂) =>
      rw [hleaf] at hread
      exact ⟨(spend hb).trans hread.1.of_error, hread.2⟩
    | (.ok d, s₂, t₂, a₂) =>
      rw [hleaf] at hread
      obtain ⟨hspent, hrows⟩ := hread
      have hentered := hspent.entered.resolve_right fun ⟨_, e, he, _⟩ => nomatch he
      have hhanded := hspent.handed
      refine ⟨⟨?_, .inl ?_, hspent.buf, hspent.base, hspent.pos, fun e he => .inl ⟨d, t₂, he⟩⟩, hrows⟩
      · show a₂.handed + 1 + s₂.budget ≤ a.handed + s.budget
        dsimp only at hhanded
        omega
      · show a₂.entered + s₂.budget ≤ a.entered + s.budget
        dsimp only at hentered
        omega

end Paid

/-- The walk over one element is paid for. -/
theorem run_paid {left : Nat} (hleft : left ≤ maxDepth) {desc : TypeDesc} {r r' : Reader}
    (h : TypeDesc.parseAt left r = (.ok desc, r')) : V.Paid (V.counted.run left desc) := by
  induction left generalizing desc r r' with
  | zero => cases h
  | succ left ih =>
    have hle : left ≤ maxDepth := by omega
    have hinside := TypeDesc.parseAt_inside h
    cases desc with
    | scalar tag => exact Paid.node_leaf tag
    | array len elem =>
      obtain ⟨inner, r₁, hinner⟩ := hinside
      refine Paid.node ?_
      dsimp only
      rw [TypeDesc.parseAt_of_le hle hinner]
      exact ((ih hle hinner).repeated len.toNat).bind fun as => .pure _
    | «structure» count fs =>
      obtain ⟨r₁, hfields⟩ := hinside
      exact Paid.node ((Paid.fields (fun _ _ _ hparse => ih hle hparse) hle count _ _ hfields).bind
        fun as => .pure _)

/-- What the loop over the rows comes to: no row is completed without a byte, and the loop ends well only
at the end of the contents. -/
structure Settled (s : Expansion) (a : Account) (x : Except Error β × Expansion × T × Account) : Prop where
  spent : V.Spent s a x.1 x.2.1 x.2.2.2
  rows : x.2.2.2.rows + s.contents.pos ≤ a.rows + x.2.1.contents.pos
  done : ∀ b, x.1 = .ok b → x.2.1.contents.isEmpty = true

/-- `ensure_progress`: the contents were read on, or the value is invalid. -/
theorem ensureProgress_cases (before : Nat) (x : Expansion × T) :
    (x.1.contents.offset = before ∧
      Walk.expand (Expand.ensureProgress before) x = (.error (x.1.contents.err .invalidValue), x)) ∨
    (x.1.contents.offset ≠ before ∧ Walk.expand (Expand.ensureProgress before) x = (.ok (), x)) := by
  by_cases h : x.1.contents.offset = before
  · exact .inl ⟨h, by simp [Walk.expand, Expand.ensureProgress, h]⟩
  · exact .inr ⟨h, by simp [Walk.expand, Expand.ensureProgress, h]⟩

/-- A completed row is in the account, and costs nothing more. -/
theorem Spent.row {s s' : Expansion} {a a' : Account} {r : Except Error β} {n : Nat}
    (h : V.Spent s { a with rows := n } r s' a') : V.Spent s a r s' a' :=
  ⟨h.handed, h.entered, h.buf, h.base, h.pos, h.error⟩

/-- The loop ends with an error. -/
theorem Settled.failed {s s' : Expansion} {a a' : Account} {e : Error} {t : T}
    (h : V.Spent s a (.error e : Except Error β) s' a')
    (hrows : a'.rows + s.contents.pos ≤ a.rows + s'.contents.pos) :
    V.Settled s a ((.error e : Except Error β), s', t, a') := ⟨h, hrows, nofun⟩

/-- One more row in front. -/
theorem Settled.cons {s : Expansion} {a : Account} {m : Walk (T × Account) (List α)}
    {q : Expansion × T × Account} (x : α) (h : V.Settled s a (m q)) :
    V.Settled s a ((m >>= fun xs => pure (x :: xs)) q) := by
  rw [Prog.bind_run]
  match hm : m q with
  | (.error e, q') =>
    rw [hm] at h
    exact .failed h.spent.of_error h.rows
  | (.ok xs, q') =>
    rw [hm] at h
    exact ⟨⟨h.spent.handed, .inl (h.spent.entered.resolve_right fun ⟨_, e, he, _⟩ => nomatch he),
      h.spent.buf, h.spent.base, h.spent.pos, nofun⟩, h.rows, fun _ _ => h.done xs rfl⟩

/-- Fuel for every byte that is left is enough. -/
theorem rows_settled {w : Walk (T × Account) α} (hw : V.Paid w) (n : Nat) (s : Expansion) (t : T)
    (a : Account) (hn : s.contents.remaining ≤ n) : V.Settled s a (V.counted.rows w n (s, t, a)) := by
  induction n generalizing s t a with
  | zero =>
    have hempty : s.contents.isEmpty = true := by simp [Reader.isEmpty, Nat.le_zero.mp hn]
    exact ⟨.refl s a [], Nat.le_refl _, fun _ _ => hempty⟩
  | succ n ih =>
    rw [rows]
    show V.Settled s a ((if s.contents.isEmpty then pure [] else _ : Walk (T × Account) (List α)) (s, t, a))
    cases hempty : s.contents.isEmpty with
    | true => exact ⟨.refl s a [], Nat.le_refl _, fun _ _ => hempty⟩
    | false =>
      rw [if_neg Bool.false_ne_true]
      show V.Settled s a ((w >>= _) (s, V.startRow t, a))
      obtain ⟨hspent, hrows⟩ := hw s (V.startRow t) a
      rw [Prog.bind_run]
      rcases h : w (s, V.startRow t, a) with ⟨e | x, s₁, t₁, a₁⟩
      · rw [h] at hspent hrows
        have := hspent.pos
        refine .failed hspent.of_error ?_
        dsimp only at hrows this ⊢
        omega
      · rw [h] at hspent hrows
        dsimp only at hspent hrows ⊢
        have hpos := hspent.pos
        obtain ⟨hsame, hrun⟩ | ⟨hne, hrun⟩ := ensureProgress_cases s.contents.offset (s₁, t₁, a₁)
        · rw [Prog.bind_run_error hrun]
          refine .failed (hspent.trans (.failed s₁ a₁ ?_)) ?_
          · simp [Reader.err]
          · omega
        · rw [Prog.bind_run_ok hrun]
          have hbase := hspent.base
          have hbuf := congrArg List.length hspent.buf
          have hlt : s.contents.pos < s₁.contents.pos := by
            simp only [Reader.offset, hbase] at hne
            omega
          have hleft : s₁.contents.remaining ≤ n := by
            simp only [Reader.remaining] at hn ⊢
            omega
          have hrest := ih s₁ (V.endRow t₁) { a₁ with rows := a₁.rows + 1 } hleft
          have hcompleted := hrest.rows
          dsimp only at hcompleted
          show V.Settled s a ((V.counted.rows w n >>= _) (s₁, V.endRow t₁, { a₁ with rows := a₁.rows + 1 }))
          exact .cons x ⟨hspent.trans (.row hrest.spent), by omega, hrest.done⟩

end Traversal

end Dlms
