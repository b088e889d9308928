import DlmsCosem.Axdr.Iteration

/-!
# Profile buffers

The rows of a profile buffer are sent against each other: a cell may be `null-data` where it repeats
the cell above it, a delta from that cell, or left out at the end of its row. `forEachCell` undoes the
three and hands the visitor an absolute value for every column of every row. It keeps one value for
each column, the last that it showed there.
-/

namespace Dlms

/-- True for one of the six delta types. -/
def DataTag.isDelta : DataTag → Bool
  | .deltaInteger | .deltaLong | .deltaDoubleLong | .deltaUnsigned | .deltaLongUnsigned
  | .deltaDoubleLongUnsigned => true
  | _ => false

namespace Data

def asArray : Data → Option Seq
  | array s => some s
  | _ => none

def asStructure : Data → Option Seq
  | .structure s => some s
  | _ => none

end Data

/-- The most columns whose compression can be undone. -/
def maxColumns : Nat := 32

/-- The sum wraps in the type of `previous`, which the type of the delta names. -/
def applyDelta : Data → Data → Option Data
  | .integer base, .deltaInteger d => some (.integer (base + d))
  | .long base, .deltaLong d => some (.long (base + d))
  | .doubleLong base, .deltaDoubleLong d => some (.doubleLong (base + d))
  | .unsigned base, .deltaUnsigned d => some (.unsigned (base + d))
  | .longUnsigned base, .deltaLongUnsigned d => some (.longUnsigned (base + d))
  | .doubleLongUnsigned base, .deltaDoubleLongUnsigned d => some (.doubleLongUnsigned (base + d))
  | _, _ => none

/-- A decoded profile buffer. -/
structure ProfileBuffer where
  rows : Seq

namespace ProfileBuffer

/-- Wrap the array a `buffer` attribute returned. -/
def new (buffer : Data) : Result ProfileBuffer :=
  match buffer.asArray with
  | some rows => .ok { rows }
  | none => Error.fail .invalidValue 0

/-- The rows as they arrived. -/
def rawRows (p : ProfileBuffer) : List (Result Seq) :=
  p.rows.iter.collect.1.map fun row => do
    match (← row).asStructure with
    | some s => .ok s
    | none => Error.fail .invalidValue 0

/-- The value in a column, where there is one to be relative to. -/
def held (slot : Option Data) : Result Data :=
  match slot with
  | some value => .ok value
  | none => Error.fail .invalidValue 0

/-- The value that a cell stands for. `slot` is the value of its column in the row before. -/
def absolute (slot : Option Data) (cell : Data) : Result Data :=
  match cell with
  | .null => held slot
  | cell =>
    if cell.tag.isDelta then do
      match applyDelta (← held slot) cell with
      | some value => .ok value
      | none => Error.fail .typeMismatch 0
    else .ok cell

section

variable {S : Type} (f : Nat → Nat → Data → Prog Error S Unit) (row columns : Nat)

/-- The cells that a row sends, from the column `col` on. `previous` is the row before, with the
columns before `col` those of this row. It gives how many columns were shown. -/
def sentCells : List (Result Data) → Nat → List (Option Data) → Prog Error S (Nat × List (Option Data))
  | [], col, previous => pure (col, previous)
  | cell :: cells, col, previous =>
    if columns ≤ col then pure (col, previous)
    else do
      let cell ← Prog.ofExcept cell
      match previous[col]? with
      | none => Prog.throw ⟨.unsupported, 0⟩
      | some slot =>
        let value ← Prog.ofExcept (absolute slot cell)
        f row col value
        sentCells cells (col + 1) (previous.set col (some value))

/-- The columns that a short row left out: `n` of them from `col` on. -/
def omittedCells (previous : List (Option Data)) : Nat → Nat → Prog Error S Unit
  | _, 0 => pure ()
  | col, n + 1 => do
    let value ← Prog.ofExcept (held previous[col]?.join)
    f row col value
    omittedCells previous (col + 1) n

/-- The rows from the one of index `row` on. -/
def visitRows : List (Result Seq) → Nat → List (Option Data) → Prog Error S Unit
  | [], _, _ => pure ()
  | sent :: rows, row, previous => do
    let s ← Prog.ofExcept sent
    let (seen, previous) ← sentCells f row columns s.iter.collect.1 0 previous
    omittedCells f row previous seen (columns - seen)
    visitRows rows (row + 1) previous

/-- Visit every cell with its row and column. -/
def forEachCell (p : ProfileBuffer) : Prog Error S Unit :=
  if maxColumns < columns then Prog.throw ⟨.unsupported, 0⟩
  else visitRows f columns p.rawRows 0 (List.replicate maxColumns none)

end

end ProfileBuffer

end Dlms
