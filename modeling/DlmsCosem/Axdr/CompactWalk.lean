import DlmsCosem.Axdr.OwnedRoundTrip

/-!
# Walking a compact array

Three walks go over the contents of a compact array: `CompactArray.forEachLeaf` hands its leaves to a
visitor, `CompactArray.rowCount` counts its rows and `CompactArray.toRows` builds them. The first two
share `walk`. A visitor keeps a state `τ` of its own and may refuse a leaf, which ends the walk.
`CompactArray.rowLen` says from the description alone how many leaves a row has.
-/

namespace Dlms

/-! ## How many leaves a description has -/

namespace TypeDesc

/-- A number that fits in a `usize`. -/
def checked (n : Nat) : Result Nat := if n < 2 ^ 64 then .ok n else Error.fail .invalidLength 0

/-- The fields of a structure, `n` leaves before them. -/
def leafCountFields (parse : Read TypeDesc) (leafCount : TypeDesc → Result Nat) :
    Nat → Reader → Nat → Result Nat
  | 0, _, n => .ok n
  | count + 1, fields, n =>
    match parse fields with
    | (.error e, _) => .error e
    | (.ok field, fields') => do
      let inner ← leafCount field
      leafCountFields parse leafCount count fields' (← checked (n + inner))

/-- `leaf_count_at`, with `left` levels left. -/
def leafCountAt : Nat → TypeDesc → Result Nat
  | 0, _ => Error.fail .depthExceeded 0
  | left + 1, desc =>
    match desc with
    | .scalar _ => .ok 1
    | .array len elem => do
      let inner ← (parseAt left (Reader.new elem)).1
      checked (len.toNat * (← leafCountAt left inner))
    | .structure count fields => leafCountFields (parseAt left) (leafCountAt left) count (Reader.new fields) 0

/-- `leaf_count`. -/
def leafCount (desc : TypeDesc) : Result Nat := leafCountAt maxDepth desc

end TypeDesc

/-- `row_len`: how many leaf values one row expands to. -/
def CompactArray.rowLen (c : CompactArray) : Result Nat := do (← c.description.1).leafCount

/-! ## The walk -/

/-- A part of a walk with a visitor whose state is `τ`. -/
abbrev Walk (τ α : Type) := Prog Error (Expansion × τ) α

namespace Walk

variable {τ α : Type}

/-- The visitor has no part in it. -/
def expand (m : Expand α) : Walk τ α := fun s => ((m s.1).1, (m s.1).2, s.2)

/-- Only the visitor has a part in it. -/
def visit (m : Prog Error τ α) : Walk τ α := fun s => ((m s.2).1, s.1, (m s.2).2)

/-- The fields of a structure: each is described in turn and walked. -/
def fields (walk : TypeDesc → Walk τ Unit) : Nat → Reader → Walk τ Unit
  | 0, _ => pure ()
  | n + 1, r =>
    match TypeDesc.parseAt maxDepth r with
    | (.error e, _) => Prog.throw e
    | (.ok inner, r') => do
      walk inner
      fields walk n r'

/-- The rows up to the end of the contents. A row takes at least one byte, so there are no more than
the contents have bytes. -/
def rows (row done : Walk τ Unit) : Nat → Walk τ Unit
  | 0 => pure ()
  | n + 1 => do
    if ← expand (Expand.read Read.isEmpty) then return ()
    let before ← expand (Expand.read Read.offset)
    row
    expand (Expand.ensureProgress before)
    done
    rows row done n

end Walk

/-- `walk`, with `left` levels left and the visitor `f`. -/
def CompactArray.walk {τ : Type} (f : Data → Prog Error τ Unit) : Nat → TypeDesc → Walk τ Unit
  | 0, _ => Walk.expand (Expand.read (Read.fail .depthExceeded))
  | left + 1, desc => do
    Walk.expand Expand.spend
    match desc with
    | .scalar tag => do
      let d ← Walk.expand (Expand.read (leaf tag))
      Walk.visit (f d)
    | .array len elem =>
      match TypeDesc.parseAt maxDepth (Reader.new elem) with
      | (.error e, _) => Prog.throw e
      | (.ok inner, _) => Prog.times len.toNat (walk f left inner)
    | .structure count fields => Walk.fields (walk f left) count (Reader.new fields)

/-! ## The walks over a whole array -/

/-- One value out of a compact array, with where it sat. -/
structure CompactLeaf where
  row : Nat
  column : Nat
  value : Data

/-- Where `for_each_leaf` is in the array, and its visitor. -/
structure Cursor (τ : Type) where
  row : Nat
  column : Nat
  visitor : τ

namespace Cursor

variable {τ : Type}

/-- A new row: its first leaf is in column 0. -/
def startRow : Prog Error (Cursor τ) Unit := Prog.modify fun cur => { cur with column := 0 }

def endRow : Prog Error (Cursor τ) Unit := Prog.modify fun cur => { cur with row := cur.row + 1 }

/-- The next leaf is handed to the visitor. -/
def hand (f : CompactLeaf → Prog Error τ Unit) (value : Data) : Prog Error (Cursor τ) Unit := fun cur =>
  let leaf : CompactLeaf := ⟨cur.row, cur.column, value⟩
  ((f leaf cur.visitor).1, { cur with column := cur.column + 1, visitor := (f leaf cur.visitor).2 })

end Cursor

namespace CompactArray

/-- The contents before the first row. -/
def start (c : CompactArray) : Expansion := ⟨Reader.withBase c.contents c.contentsBase, maxCompactNodes⟩

/-- `for_each_leaf`, from the state `t` of the visitor. -/
def forEachLeaf {τ : Type} (c : CompactArray) (f : CompactLeaf → Prog Error τ Unit) (t : τ) :
    Result Unit × τ :=
  match c.description.1 with
  | .error e => (.error e, t)
  | .ok desc =>
    let row : Walk (Cursor τ) Unit := do
      Walk.visit Cursor.startRow
      walk (Cursor.hand f) c.left desc
    let run := Walk.rows row (Walk.visit Cursor.endRow) c.contents.length (c.start, ⟨0, 0, t⟩)
    (run.1, run.2.2.visitor)

/-- `row_count`. -/
def rowCount (c : CompactArray) : Result Nat := do
  let desc ← c.description.1
  let run := Walk.rows (walk (fun _ => pure ()) c.left desc) (Walk.visit (Prog.modify (· + 1)))
    c.contents.length (c.start, 0)
  run.1
  return run.2.2

end CompactArray

/-! ## What a description promises -/

namespace TypeDesc

/-- What is parsed with few levels left is parsed with more, with nothing else changed. -/
theorem parseAt_of_le {left left' : Nat} (h : left ≤ left') {r r' : Reader} {desc : TypeDesc}
    (hr : parseAt left r = (.ok desc, r')) : parseAt left' r = (.ok desc, r') := by
  obtain ⟨bs, tail, hc, ht⟩ := parseAt_mono h r desc r' hr
  obtain ⟨desc', r'', hd, rfl, hadv⟩ := ht r tail hc.rest
  rw [hd, hadv.unique hc.advanced]

/-- However many levels are left, a description is what it is. -/
theorem parseAt_unique {left left' : Nat} {r r₁ r₂ : Reader} {desc desc' : TypeDesc}
    (h : parseAt left r = (.ok desc, r₁)) (h' : parseAt left' r = (.ok desc', r₂)) :
    desc = desc' ∧ r₁ = r₂ := by
  have heq := (parseAt_of_le (Nat.le_max_left left left') h).symm.trans
    (parseAt_of_le (Nat.le_max_right left left') h')
  simpa using heq

/-- The descriptions inside can be parsed, with `left` levels left. -/
def Inside (left : Nat) : TypeDesc → Prop
  | .scalar _ => True
  | .array _ elem => ∃ inner r, parseAt left (Reader.new elem) = (.ok inner, r)
  | .structure count fields =>
    ∃ r, Prog.times count (do let _ ← parseAt left) (Reader.new fields) = (.ok (), r)

/-- What was walked ahead can be walked on its own. -/
theorem runs_of_takes {f : Read Unit} {raw : Bytes} (h : Takes f raw fun _ => True) :
    ∃ r, f (Reader.new raw) = (.ok (), r) := by
  obtain ⟨⟨⟩, r, hr, -⟩ := h (Reader.new raw) [] (List.append_nil raw).symm
  exact ⟨r, hr⟩

theorem parseAt_inside_echoes (left : Nat) :
    Echoes (fun desc _ => desc.Inside left) (parseAt (left + 1)) (parseAt (left + 1)) := by
  have hinner := (parseAt_echoes left).void
  refine Echoes.u8.andThen fun b => ?_
  cases DataTag.fromU8 b with
  | none => exact .errBack
  | some tag =>
    cases tag with
    | array =>
      refine Echoes.u16.andThen fun len => .probe hinner fun raw hraw => .pure ?_
      obtain ⟨r, hr⟩ := runs_of_takes hraw
      obtain ⟨inner, r', hinner, -⟩ := Prog.bind_ok hr
      exact ⟨inner, r', hinner⟩
    | «structure» =>
      exact Echoes.length.andThen fun n => .probe (hinner.times n) fun raw hraw =>
        .pure (runs_of_takes hraw)
    | compactArray => exact .errBack
    | _ => exact .pure trivial

theorem parseAt_inside {left : Nat} {r r' : Reader} {desc : TypeDesc}
    (h : parseAt (left + 1) r = (.ok desc, r')) : desc.Inside left := by
  obtain ⟨bs, tail, hc, ht⟩ := parseAt_inside_echoes left r desc r' h
  obtain ⟨-, -, -, hinside, -⟩ := ht r tail hc.rest
  exact hinside

end TypeDesc

/-- The description of a decoded compact array can be parsed. -/
theorem CompactArray.description_ok {left : Nat} {r r' : Reader} {c : CompactArray}
    (h : decodeBody left r = (.ok c, r')) : ∃ desc, c.description.1 = .ok desc := by
  obtain ⟨bs, tail, hc, ht⟩ := decodeBody_echoes left r c r' h
  obtain ⟨-, -, -, ⟨-, hencoded⟩, -⟩ := ht r tail hc.rest
  obtain ⟨⟨⟩, r₁, hrun, -⟩ := hencoded.desc (Reader.withBase c.desc c.descBase) [] (by simp)
  obtain ⟨desc, r₂, hdesc, -⟩ := Prog.bind_ok hrun
  refine ⟨desc, ?_⟩
  rw [description, hencoded.left_eq, hdesc]

end Dlms
