import DlmsCosem.Axdr.Traversal

/-!
# The work on a compact array

`for_each_leaf`, `row_count` and `to_rows` are traversals of the contents (`CompactArray.forEachLeaf_eq`,
`rowCount_eq`, `toRows_eq`), so an account can be kept of each. Whatever the description multiplies to,
no more than `maxCompactNodes` nodes are entered before the walk is given up, no more leaves than that
are handed out, and every completed row took a byte (`CompactArray.work_bounded`).
-/

namespace Dlms

namespace Traversal

variable {τ : Type}

/-- What `walk` does with the visitor `f`, between two changes of its state at the ends of a row. -/
def walker (f : Data → Prog Error τ Unit) (startRow endRow : τ → τ) : Traversal τ Unit where
  tick := id
  visit := f
  array _ := ()
  «structure» _ := ()
  startRow
  endRow

/-- What `build` does. -/
def builder : Traversal Unit DataBuf where
  tick := id
  visit d := Prog.ofExcept (DataBuf.ofScalar d)
  array := .array
  «structure» := .structure
  startRow := id
  endRow := id

/-- `for_each_leaf` hands leaves over and counts rows and columns. -/
def handing (f : CompactLeaf → Prog Error τ Unit) : Traversal (Cursor τ) Unit :=
  walker (Cursor.hand f) (fun cur => { cur with column := 0 }) fun cur => { cur with row := cur.row + 1 }

/-- `row_count` counts rows. -/
def counting : Traversal Nat Unit := walker (fun _ => pure ()) id (· + 1)

/-! ## `walk` is a traversal -/

variable {f : Data → Prog Error τ Unit} {startRow endRow : τ → τ}

theorem times_eq (w : Walk τ Unit) (n : Nat) : Prog.times n w = repeated w n >>= fun _ => pure () := by
  induction n with
  | zero => rfl
  | succ n ih =>
    rw [Prog.times, ih, repeated, Prog.bind_assoc]
    refine bind_congr fun _ => ?_
    rw [Prog.bind_assoc]
    rfl

theorem fields_eq (run : TypeDesc → Walk τ Unit) (n : Nat) (r : Reader) :
    Walk.fields run n r = fields run n r >>= fun _ => pure () := by
  induction n generalizing r with
  | zero => rfl
  | succ n ih =>
    rw [Walk.fields, fields]
    rcases TypeDesc.parseAt maxDepth r with ⟨e | inner, r'⟩
    · rfl
    · dsimp only
      rw [ih r', Prog.bind_assoc]
      refine bind_congr fun _ => ?_
      rw [Prog.bind_assoc]
      rfl

theorem walk_eq (left : Nat) (desc : TypeDesc) :
    CompactArray.walk f left desc = (walker f startRow endRow).run left desc := by
  induction left generalizing desc with
  | zero => rfl
  | succ left ih =>
    have ih : CompactArray.walk f left = (walker f startRow endRow).run left := funext ih
    show (Walk.expand Expand.spend >>= _) = (Walk.expand Expand.spend >>= _)
    refine bind_congr fun _ => ?_
    cases desc with
    | scalar tag => rfl
    | array len elem =>
      dsimp only
      rcases TypeDesc.parseAt maxDepth (Reader.new elem) with ⟨e | inner, r'⟩
      · rfl
      · dsimp only
        rw [times_eq, ih]
    | «structure» count fs =>
      dsimp only
      rw [fields_eq, ih]

/-- The loop over the rows. -/
theorem rows_eq {row done : Walk τ Unit} {w : Walk τ Unit} {V : Traversal τ Unit}
    (hrow : row = Walk.visit (Prog.modify V.startRow) >>= fun _ => w)
    (hdone : done = Walk.visit (Prog.modify V.endRow)) (n : Nat) :
    Walk.rows row done n = V.rows w n >>= fun _ => pure () := by
  subst hrow hdone
  induction n with
  | zero => rfl
  | succ n ih =>
    rw [Walk.rows, rows, Prog.bind_assoc]
    refine bind_congr fun empty => ?_
    cases empty with
    | true => rfl
    | false =>
      simp only [Bool.false_eq_true, if_false, Prog.bind_assoc, ih]
      rfl

end Traversal

/-! ## The three walks -/

namespace CompactArray

open Traversal

variable {τ T α : Type}

/-- A traversal of a whole compact array: its values, what is left of the contents and of the budget,
and its state. -/
def traverse (c : CompactArray) (V : Traversal T α) (t : T) : Except Error (List α) × Expansion × T :=
  match c.description.1 with
  | .error e => (.error e, c.start, t)
  | .ok desc => V.rows (V.run c.left desc) c.contents.length (c.start, t)

theorem void_run (m : Walk T α) (x : Expansion × T) :
    (m >>= fun _ => pure ()) x = ((m x).1.map fun _ => (), (m x).2) := by
  rw [Prog.bind_run]
  rcases m x with ⟨_ | _, _⟩ <;> rfl

theorem forEachLeaf_eq (c : CompactArray) (f : CompactLeaf → Prog Error τ Unit) (t : τ) :
    c.forEachLeaf f t = ((c.traverse (handing f) ⟨0, 0, t⟩).1.map fun _ => (),
      (c.traverse (handing f) ⟨0, 0, t⟩).2.2.visitor) := by
  unfold forEachLeaf traverse
  cases c.description.1 with
  | error e => rfl
  | ok desc =>
    have hrows : Walk.rows (do
        Walk.visit Cursor.startRow
        walk (Cursor.hand f) c.left desc) (Walk.visit Cursor.endRow) c.contents.length =
        (handing f).rows ((handing f).run c.left desc) c.contents.length >>= fun _ => pure () := by
      rw [show walk (Cursor.hand f) c.left desc = (handing f).run c.left desc from walk_eq ..]
      exact rows_eq (V := handing f) rfl rfl _
    dsimp only
    rw [hrows, void_run]

theorem rowCount_eq (c : CompactArray) :
    c.rowCount = (c.traverse counting 0).1.map fun _ => (c.traverse counting 0).2.2 := by
  unfold rowCount traverse
  cases c.description.1 with
  | error e => rfl
  | ok desc =>
    have hrows : Walk.rows (walk (fun _ => pure ()) c.left desc) (Walk.visit (Prog.modify (· + 1)))
        c.contents.length =
        counting.rows (counting.run c.left desc) c.contents.length >>= fun _ => pure () := by
      rw [show walk (fun _ => pure ()) c.left desc = counting.run c.left desc from walk_eq ..]
      exact rows_eq (V := counting) rfl rfl _
    show (do
      let run := Walk.rows (walk (fun _ => pure ()) c.left desc) (Walk.visit (Prog.modify (· + 1)))
        c.contents.length (c.start, 0)
      run.1
      return run.2.2 : Result Nat) = _
    rw [hrows]
    dsimp only
    rw [void_run]
    rcases counting.rows (counting.run c.left desc) c.contents.length (c.start, 0) with ⟨_ | _, _⟩ <;> rfl

theorem Along.eq {Q : DataBuf → DataBuf → T → T → Prop} (hQ : ∀ b a t t', Q b a t t' → a = b)
    {bs as : List DataBuf} {t t' : T} (h : Along Q bs as t t') : as = bs := by
  induction h with
  | nil => rfl
  | cons hq _ ih => rw [hQ _ _ _ _ hq, ih]

theorem builder_relates : builder.Relates fun tree a _ _ => a = tree where
  leaf d tree t htree := by
    refine ⟨tree, t, ?_, rfl⟩
    show Prog.ofExcept (DataBuf.ofScalar d) t = _
    rw [htree]
    rfl
  array trees as _ _ h := congrArg DataBuf.array (Along.eq (fun _ _ _ _ h => h) h)
  «structure» trees as _ _ h := congrArg DataBuf.structure (Along.eq (fun _ _ _ _ h => h) h)

theorem toRows_eq (c : CompactArray) : c.toRows = (c.traverse builder ()).1 := by
  unfold toRows traverse
  cases c.description.1 with
  | error e => rfl
  | ok desc =>
    have hends := rows_ends (V := builder) (run_ends builder_relates c.left desc) c.contents.length c.start ()
    show (CompactArray.rows (build c.left desc) c.contents.length c.start).1 =
      (builder.rows (builder.run c.left desc) c.contents.length (c.start, ())).1
    rcases hx : CompactArray.rows (build c.left desc) c.contents.length c.start with ⟨e | trees, s⟩ <;>
      rcases hy : builder.rows (builder.run c.left desc) c.contents.length (c.start, ()) with
        ⟨e' | as, s', t'⟩ <;> rw [hx, hy] at hends
    · exact congrArg Except.error hends.1.symm
    · cases hends
    · cases hends
    · exact congrArg Except.ok (Along.eq (fun _ _ _ _ ⟨_, h, _⟩ => h) hends.2).symm

/-! ## The bound -/

/-- The account has no part in a traversal. -/
theorem traverse_counted (c : CompactArray) (V : Traversal T α) (t : T) (a : Account) :
    (c.traverse V.counted (t, a)).1 = (c.traverse V t).1 ∧
      (c.traverse V.counted (t, a)).2.2.1 = (c.traverse V t).2.2 := by
  unfold traverse
  cases c.description.1 with
  | error e => exact ⟨rfl, rfl⟩
  | ok desc =>
    obtain ⟨hresult, -, hstate⟩ := (rows_sim (V := V) (run_sim c.left desc) c.contents.length).run
      (c.start, t, a) (c.start, t) ⟨rfl, rfl⟩
    exact ⟨Prog.same_eq.mp hresult, hstate⟩

/-- The work of a traversal of `c`: at most `maxCompactNodes` nodes before it is given up, no more leaves
than that, a byte for every completed row, and no end before that of the contents but with an error. -/
structure Bounded (x : Except Error α × Expansion × T × Account) : Prop where
  entered : x.2.2.2.entered ≤ maxCompactNodes ∨
    x.2.2.2.entered = maxCompactNodes + 1 ∧ ∃ e, x.1 = .error e ∧ e.kind = .workExceeded
  handed : x.2.2.2.handed ≤ maxCompactNodes
  rows : x.2.2.2.rows ≤ x.2.1.contents.pos
  done : ∀ b, x.1 = .ok b → x.2.1.contents.isEmpty = true

/-- The account of a walk that begins. -/
def opened : Account := ⟨0, 0, 0⟩

/-- A traversal from its beginning, with an account. -/
def worked (c : CompactArray) (V : Traversal T α) (t : T) :
    Except Error (List α) × Expansion × T × Account := c.traverse V.counted (t, opened)

theorem worked_bounded (c : CompactArray) (hleft : c.left ≤ maxDepth) (V : Traversal T α) (t : T) :
    Bounded (c.worked V t) := by
  unfold worked traverse
  rcases hdesc : c.description with ⟨e | desc, r⟩
  · exact ⟨.inl (Nat.zero_le _), Nat.zero_le _, Nat.zero_le _, nofun⟩
  · have hsettled := rows_settled (run_paid (V := V) hleft hdesc) c.contents.length c.start t opened
      (Nat.le_of_eq (Reader.withBase_remaining ..))
    have hbudget : c.start.budget = maxCompactNodes := rfl
    have hopened : opened.entered = 0 ∧ opened.handed = 0 ∧ opened.rows = 0 := ⟨rfl, rfl, rfl⟩
    have hpos : c.start.contents.pos = 0 := rfl
    obtain ⟨hspent, hrows, hdone⟩ := hsettled
    have hhanded := hspent.handed
    refine ⟨?_, by dsimp only; omega, by dsimp only; omega, hdone⟩
    obtain hle | ⟨hle, he⟩ := hspent.entered
    · exact .inl (by dsimp only; omega)
    · by_cases hmax : (V.counted.rows (V.counted.run c.left desc) c.contents.length
        (c.start, t, opened)).2.2.2.entered ≤ maxCompactNodes
      · exact .inl hmax
      · exact .inr ⟨by dsimp only; omega, he⟩

/-- A row of `for_each_leaf` or `row_count` that takes no byte is invalid. -/
theorem walkRows_stuck {row done : Walk τ Unit} {s s' : Expansion} {t t' : τ}
    (hne : s.contents.isEmpty = false) (hrow : row (s, t) = (.ok (), s', t'))
    (hoffset : s'.contents.offset = s.contents.offset) (n : Nat) :
    (Walk.rows row done (n + 1) (s, t)).1 = .error ⟨.invalidValue, s.contents.offset⟩ := by
  rw [Walk.rows]
  show ((if s.contents.isEmpty then pure () else _ : Walk τ Unit) (s, t)).1 = _
  rw [hne, if_neg Bool.false_ne_true]
  show ((row >>= _) (s, t)).1 = _
  rw [Prog.bind_run_ok hrow]
  obtain ⟨-, hrun⟩ | ⟨hmoved, -⟩ := ensureProgress_cases s.contents.offset (s', t')
  · rw [Prog.bind_run_error hrun, Reader.err, hoffset]
  · exact absurd hoffset hmoved

/-- So is one of `to_rows`. -/
theorem rows_stuck {row : Expand DataBuf} {s s' : Expansion} {tree : DataBuf}
    (hne : s.contents.isEmpty = false) (hrow : row s = (.ok tree, s'))
    (hoffset : s'.contents.offset = s.contents.offset) (n : Nat) :
    (rows row (n + 1) s).1 = .error ⟨.invalidValue, s.contents.offset⟩ := by
  have hrun : Expand.ensureProgress s.contents.offset s' = (.error (s'.contents.err .invalidValue), s') := by
    simp [Expand.ensureProgress, hoffset]
  rw [rows]
  show ((if s.contents.isEmpty then pure [] else _ : Expand (List DataBuf)) s).1 = _
  rw [hne, if_neg Bool.false_ne_true]
  show ((row >>= _) s).1 = _
  rw [Prog.bind_run_ok hrow, Prog.bind_run_error hrun, Reader.err, hoffset]

/-- The compact arrays there are: those decoded and those built from their parts. -/
def Made (c : CompactArray) : Prop :=
  (∃ left r r', left ≤ maxDepth ∧ decodeBody left r = (.ok c, r')) ∨
    ∃ desc contents, fromParts desc contents = .ok c

theorem Made.left_le {c : CompactArray} (h : c.Made) : c.left ≤ maxDepth := by
  obtain ⟨left, r, r', hleft, h⟩ | ⟨desc, contents, h⟩ := h
  · obtain ⟨bs, tail, hc, ht⟩ := decodeBody_echoes left r c r' h
    obtain ⟨-, -, -, ⟨-, hencoded⟩, -⟩ := ht r tail hc.rest
    rw [hencoded.left_eq]
    exact hleft
  · rw [fromParts_ok h]

/-- Whatever a compact array describes, the work on it is bounded. -/
theorem work_bounded {c : CompactArray} (hc : c.Made) (f : CompactLeaf → Prog Error τ Unit) (t : τ) :
    (c.forEachLeaf f t = ((c.worked (handing f) ⟨0, 0, t⟩).1.map fun _ => (),
        (c.worked (handing f) ⟨0, 0, t⟩).2.2.1.visitor) ∧ Bounded (c.worked (handing f) ⟨0, 0, t⟩)) ∧
    (c.rowCount = (c.worked counting 0).1.map (fun _ => (c.worked counting 0).2.2.1) ∧
      Bounded (c.worked counting 0)) ∧
    (c.toRows = (c.worked builder ()).1 ∧ Bounded (c.worked builder ())) ∧
    (∀ (row done : Walk (Cursor τ) Unit) (n : Nat) (s s' : Expansion) (cur cur' : Cursor τ),
      s.contents.isEmpty = false → row (s, cur) = (.ok (), s', cur') →
      s'.contents.offset = s.contents.offset →
      (Walk.rows row done (n + 1) (s, cur)).1 = .error ⟨.invalidValue, s.contents.offset⟩) ∧
    ∀ (row : Expand DataBuf) (n : Nat) (s s' : Expansion) (tree : DataBuf),
      s.contents.isEmpty = false → row s = (.ok tree, s') → s'.contents.offset = s.contents.offset →
      (rows row (n + 1) s).1 = .error ⟨.invalidValue, s.contents.offset⟩ := by
  have hleft := hc.left_le
  obtain ⟨hleaves, hcursor⟩ := c.traverse_counted (handing f) ⟨0, 0, t⟩ opened
  obtain ⟨hrows, hcount⟩ := c.traverse_counted counting 0 opened
  obtain ⟨hbuilt, -⟩ := c.traverse_counted builder () opened
  refine ⟨⟨?_, c.worked_bounded hleft _ _⟩, ⟨?_, c.worked_bounded hleft _ _⟩,
    ⟨?_, c.worked_bounded hleft _ _⟩, fun _ _ n _ _ _ _ hne hrow ho => walkRows_stuck hne hrow ho n,
    fun _ n _ _ _ hne hrow ho => rows_stuck hne hrow ho n⟩
  · rw [forEachLeaf_eq, worked, hleaves, hcursor]
  · rw [rowCount_eq, worked, hrows, hcount]
  · rw [toRows_eq, worked, hbuilt]

/-- An array of arrays of empty structures: over four thousand million nodes, and no leaf. -/
def emptyRows : CompactArray where
  desc := [0x01, 0xFF, 0xFF, 0x01, 0xFF, 0xFF, 0x02, 0x00]
  contents := [0x00]
  descBase := 0
  contentsBase := 0
  left := maxDepth

theorem work_bounded_sample : emptyRows.toRows = (emptyRows.worked builder ()).1 ∧
    Bounded (emptyRows.worked builder ()) := by
  have hmade : fromParts emptyRows.desc emptyRows.contents = .ok emptyRows := by decide +kernel
  exact (work_bounded (.inr ⟨_, _, hmade⟩) (fun _ => pure ()) ()).2.2.1

end CompactArray

end Dlms
