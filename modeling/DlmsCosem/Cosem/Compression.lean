import DlmsCosem.Axdr.Levels
import DlmsCosem.Cosem.Profile
import Mathlib.Data.List.Forall2
import Mathlib.Data.List.ProdSigma

/-!
# Compression of profile buffers

What a meter may send for a table of absolute values (`Compresses`): each cell absolute, as `null-data`
or left out at the end of its row where the value is that of the row before, or as the delta from it.
`forEachCell` shows the table again, whatever the meter chose (`ProfileBuffer.forEachCell_exact`).

A row is shown column by column (`showRow`), with the cells that were left out as cells that were not
sent. The loop of the source, which stops at the end of the row and then fills in the columns that are
missing, is this walk (`sentCells_eq`).
-/

namespace Dlms

/-! ## What a meter may send -/

/-- Neither `null-data` nor a delta. -/
def Data.Absolute (d : Data) : Prop := d ≠ .null ∧ d.tag.isDelta = false

/-- The delta that leads from `base` to a value of the same type, which wraps as the sum does. -/
def deltaFrom : Data → Data → Option Data
  | .integer base, .integer value => some (.deltaInteger (value - base))
  | .long base, .long value => some (.deltaLong (value - base))
  | .doubleLong base, .doubleLong value => some (.deltaDoubleLong (value - base))
  | .unsigned base, .unsigned value => some (.deltaUnsigned (value - base))
  | .longUnsigned base, .longUnsigned value => some (.deltaLongUnsigned (value - base))
  | .doubleLongUnsigned base, .doubleLongUnsigned value =>
    some (.deltaDoubleLongUnsigned (value - base))
  | _, _ => none

/-- The type of the deltas of a type. -/
def DataTag.delta? : DataTag → Option DataTag
  | .integer => some .deltaInteger
  | .long => some .deltaLong
  | .doubleLong => some .deltaDoubleLong
  | .unsigned => some .deltaUnsigned
  | .longUnsigned => some .deltaLongUnsigned
  | .doubleLongUnsigned => some .deltaDoubleLongUnsigned
  | _ => none

/-- What may be sent for a value below the value `above`, which the first row has not. -/
inductive CellSends : Option Data → Data → Option Data → Prop
  | absolute {above : Option Data} {value cell : Data} : cell.Absolute → cell.Alike value →
      CellSends above value (some cell)
  | null {above value : Data} : above.Alike value → CellSends (some above) value (some .null)
  | delta {above value d : Data} : deltaFrom above value = some d → CellSends (some above) value (some d)
  | omitted {above value : Data} : above.Alike value → CellSends (some above) value none

/-- What may be sent for a row: a cell for each value, up to where the rest is left out. -/
inductive RowSends : List (Option Data) → List Data → List Data → Prop
  | done : RowSends [] [] []
  | next {above : Option Data} {value : Data} {aboves : List (Option Data)} {values cells : List Data} :
      CellSends above value cells.head? → RowSends aboves values cells.tail →
      RowSends (above :: aboves) (value :: values) cells

/-- What may be sent for a table, whose first row is below `above`. -/
inductive Compresses : List (Option Data) → List (List Data) → List (List Data) → Prop
  | nil {above : List (Option Data)} : Compresses above [] []
  | cons {above : List (Option Data)} {values cells : List Data} {table rows : List (List Data)} :
      RowSends above values cells → Compresses (values.map some) table rows →
      Compresses above (values :: table) (cells :: rows)

theorem RowSends.lengths {aboves : List (Option Data)} {values cells : List Data}
    (h : RowSends aboves values cells) : values.length = aboves.length := by
  induction h with
  | done => rfl
  | next _ _ ih => rw [List.length_cons, List.length_cons, ih]

/-- Every row of a table has one column for each value above it. -/
theorem Compresses.lengths {aboves : List (Option Data)} {table rows : List (List Data)}
    (h : Compresses aboves table rows) : ∀ values ∈ table, values.length = aboves.length := by
  induction h with
  | nil => exact nofun
  | cons hrow _ ih =>
    intro values hv
    obtain rfl | hv := List.mem_cons.mp hv
    · exact hrow.lengths
    · rw [ih values hv, List.length_map]
      exact hrow.lengths

namespace ProfileBuffer

/-- The rows of the buffer are structures of these cells. -/
def Carries (p : ProfileBuffer) (rows : List (List Data)) : Prop :=
  ∃ seqs : List Seq, p.rawRows = seqs.map .ok ∧
    List.Forall₂ (fun s cells => s.iter.collect.1 = cells.map .ok) seqs rows

/-! ## Column by column -/

/-- What a column shows, if anything was sent for it or not. -/
def shown (slot : Option Data) (sent : Option Data) : Result Data :=
  match sent with
  | some cell => absolute slot cell
  | none => held slot

section

variable {S : Type} (f : Nat → Nat → Data → Prog Error S Unit)

/-- The next `n` columns of a row. -/
def showRow (row : Nat) : Nat → List Data → Nat → List (Option Data) → Prog Error S (List (Option Data))
  | 0, _, _, previous => pure previous
  | n + 1, cells, col, previous => do
    let value ← Prog.ofExcept (shown previous[col]?.join cells.head?)
    f row col value
    showRow row n cells.tail (col + 1) (previous.set col (some value))

def showRows (columns : Nat) : List (List Data) → Nat → List (Option Data) → Prog Error S Unit
  | [], _, _ => pure ()
  | cells :: rows, row, previous => do
    let previous ← showRow f row columns cells 0 previous
    showRows columns rows (row + 1) previous

theorem omittedCells_eq (row n col : Nat) (previous : List (Option Data)) :
    (omittedCells f row previous col n >>= fun _ => pure previous) = showRow f row n [] col previous := by
  induction n generalizing col with
  | zero => rfl
  | succ n ih =>
    cases h : previous[col]?.join with
    | none =>
      rw [omittedCells, showRow, h]
      rfl
    | some value =>
      -- The value is in its place already.
      have hset : previous.set col (some value) = previous := by
        have hget : previous[col]? = some (some value) := by
          cases hg : previous[col]? with
          | none => simp [hg] at h
          | some slot => simpa [hg] using h
        obtain ⟨hlt, hval⟩ := List.getElem?_eq_some_iff.mp hget
        rw [← hval, List.set_getElem_self]
      rw [omittedCells, showRow, h]
      change (f row col value >>= fun _ => omittedCells f row previous (col + 1) n) >>= (fun _ => pure previous) =
        f row col value >>= fun _ => showRow f row n [] (col + 1) (previous.set col (some value))
      rw [hset, ← ih, Prog.bind_assoc]

/-- The loop over what was sent, and the columns after it. -/
theorem sentCells_eq (row n col : Nat) (cells : List Data) (previous : List (Option Data))
    (hlen : col + n ≤ previous.length) :
    (sentCells f row (col + n) (cells.map .ok) col previous >>= fun seen =>
      omittedCells f row seen.2 seen.1 (col + n - seen.1) >>= fun _ => pure seen.2) =
      showRow f row n cells col previous := by
  induction n generalizing col cells previous with
  | zero =>
    have hstop : sentCells f row (col + 0) (cells.map .ok) col previous = pure (col, previous) := by
      cases cells with
      | nil => rfl
      | cons cell cells => exact if_pos le_rfl
    rw [hstop, showRow]
    change (omittedCells f row previous col (col + 0 - col) >>= fun _ => pure previous) = _
    rw [Nat.add_zero, Nat.sub_self]
    rfl
  | succ n ih =>
    cases cells with
    | nil =>
      change (omittedCells f row previous col (col + (n + 1) - col) >>= fun _ => pure previous) = _
      rw [Nat.add_sub_cancel_left]
      exact omittedCells_eq f row (n + 1) col previous
    | cons cell cells =>
      obtain ⟨slot, hslot⟩ : ∃ slot, previous[col]? = some slot :=
        ⟨_, List.getElem?_eq_getElem (by omega)⟩
      rw [showRow, hslot, List.map_cons, sentCells, if_neg (by omega), hslot]
      change (Prog.ofExcept (absolute slot cell) >>= fun value => f row col value >>= fun _ =>
          sentCells f row (col + (n + 1)) (cells.map .ok) (col + 1) (previous.set col (some value))) >>= _ =
        Prog.ofExcept (absolute slot cell) >>= fun value => f row col value >>= fun _ =>
          showRow f row n cells (col + 1) (previous.set col (some value))
      rw [Prog.bind_assoc]
      congr 1
      funext value
      have hn := ih (col + 1) cells (previous.set col (some value)) (by rw [List.length_set]; omega)
      rw [show col + 1 + n = col + (n + 1) by omega] at hn
      rw [Prog.bind_assoc, ← hn]

theorem showRow_length {row n col : Nat} {cells : List Data} {previous previous' : List (Option Data)}
    {s s' : S} (h : showRow f row n cells col previous s = (.ok previous', s')) :
    previous'.length = previous.length := by
  induction n generalizing cells col previous s with
  | zero =>
    obtain ⟨rfl, -⟩ : previous = previous' ∧ s = s' := by simpa [showRow] using h
    rfl
  | succ n ih =>
    obtain ⟨value, s₁, -, h⟩ := Prog.bind_ok h
    obtain ⟨⟨⟩, s₂, -, h⟩ := Prog.bind_ok h
    rw [ih h, List.length_set]

theorem visitRows_eq {columns : Nat} {seqs : List Seq} {rows : List (List Data)}
    (h : List.Forall₂ (fun s cells => s.iter.collect.1 = cells.map .ok) seqs rows) (row : Nat)
    (previous : List (Option Data)) (hlen : columns ≤ previous.length) :
    visitRows f columns (seqs.map .ok) row previous = showRows f columns rows row previous := by
  induction h generalizing row previous with
  | nil => rfl
  | @cons s cells seqs rows hs _ ih =>
    have hrow := sentCells_eq f row columns 0 cells previous (by omega)
    rw [Nat.zero_add] at hrow
    rw [showRows, ← hrow, ← hs, Prog.bind_assoc, List.map_cons, visitRows]
    funext t
    change (sentCells f row columns s.iter.collect.1 0 previous >>= fun seen => _) t = _
    rcases hsent : sentCells f row columns s.iter.collect.1 0 previous t with ⟨_ | ⟨seen, previous'⟩, t₁⟩
    · rw [Prog.bind_run_error hsent, Prog.bind_run_error hsent]
    · rw [Prog.bind_run_ok hsent, Prog.bind_run_ok hsent, Prog.bind_assoc]
      rcases hfill : omittedCells f row previous' seen (columns - seen) t₁ with ⟨_ | ⟨⟩, t₂⟩
      · rw [Prog.bind_run_error hfill, Prog.bind_run_error hfill]
      · rw [Prog.bind_run_ok hfill, Prog.bind_run_ok hfill]
        have hrun : showRow f row columns cells 0 previous t = (.ok previous', t₂) := by
          rw [← hrow, ← hs, Prog.bind_run_ok hsent, Prog.bind_run_ok hfill]
          rfl
        have hlen' := showRow_length f hrun
        exact congrFun (ih (row + 1) previous' (by omega)) t₂

/-- The loop over the rows of a buffer shows them column by column. -/
theorem forEachCell_eq {p : ProfileBuffer} {rows : List (List Data)} {columns : Nat} (h : p.Carries rows)
    (hc : columns ≤ maxColumns) :
    forEachCell f columns p = showRows f columns rows 0 (List.replicate maxColumns none) := by
  obtain ⟨seqs, hraw, hrows⟩ := h
  rw [forEachCell, if_neg (Nat.not_lt.mpr hc), hraw]
  exact visitRows_eq f hrows 0 _ (by rw [List.length_replicate]; exact hc)

end

/-! ## A table is shown again -/

/-- The cells of a row from the column `col` on. -/
def cellsOfRow (row : Nat) : List Data → Nat → List (Nat × Nat × Data)
  | [], _ => []
  | value :: values, col => (row, col, value) :: cellsOfRow row values (col + 1)

/-- The cells of a table, row by row, from the row of index `row` on. -/
def cellsOf : List (List Data) → Nat → List (Nat × Nat × Data)
  | [], _ => []
  | values :: table, row => cellsOfRow row values 0 ++ cellsOf table (row + 1)

/-- The values kept for the columns once a row was shown. -/
def kept : List (Option Data) → Nat → List Data → List (Option Data)
  | previous, _, [] => previous
  | previous, col, value :: values => kept (previous.set col (some value)) (col + 1) values

theorem length_kept (previous : List (Option Data)) (col : Nat) (values : List Data) :
    (kept previous col values).length = previous.length := by
  induction values generalizing previous col with
  | nil => rfl
  | cons value values ih => rw [kept, ih, List.length_set]

theorem kept_before {previous : List (Option Data)} {col j : Nat} (values : List Data) (h : j < col) :
    (kept previous col values)[j]? = previous[j]? := by
  induction values generalizing previous col with
  | nil => rfl
  | cons value values ih => rw [kept, ih (by omega), List.getElem?_set_ne (by omega)]

theorem kept_at (previous : List (Option Data)) (col : Nat) {i : Nat} {values : List Data} {value : Data}
    (hlen : col + values.length ≤ previous.length) (h : values[i]? = some value) :
    (kept previous col values)[col + i]? = some (some value) := by
  induction values generalizing previous col i with
  | nil => simp at h
  | cons v values ih =>
    rw [List.length_cons] at hlen
    cases i with
    | zero =>
      obtain rfl : v = value := by simpa using h
      exact (kept_before values (Nat.lt_add_one col)).trans (List.getElem?_set_self (by omega))
    | succ i =>
      rw [kept, show col + (i + 1) = col + 1 + i by omega]
      exact ih _ _ (by rw [List.length_set]; omega) (by simpa using h)

theorem applyDelta_deltaFrom {base value d : Data} (h : deltaFrom base value = some d) :
    applyDelta base d = some value ∧ d ≠ .null ∧ d.tag.isDelta = true := by
  unfold deltaFrom at h
  split at h <;> cases h
  · exact ⟨congrArg (some ∘ Data.integer) ((Int8.add_comm _ _).trans (Int8.sub_add_cancel _ _)), nofun, rfl⟩
  · exact ⟨congrArg (some ∘ Data.long) ((Int16.add_comm _ _).trans (Int16.sub_add_cancel _ _)), nofun, rfl⟩
  · exact ⟨congrArg (some ∘ Data.doubleLong) ((Int32.add_comm _ _).trans (Int32.sub_add_cancel _ _)), nofun, rfl⟩
  · exact ⟨congrArg (some ∘ Data.unsigned) ((UInt8.add_comm _ _).trans (UInt8.sub_add_cancel _ _)), nofun, rfl⟩
  · exact ⟨congrArg (some ∘ Data.longUnsigned) ((UInt16.add_comm _ _).trans (UInt16.sub_add_cancel _ _)), nofun, rfl⟩
  · exact ⟨congrArg (some ∘ Data.doubleLongUnsigned) ((UInt32.add_comm _ _).trans (UInt32.sub_add_cancel _ _)), nofun, rfl⟩

/-- Only an integer has a delta, and it has no place. -/
theorem eq_of_deltaFrom {base base' value d : Data} (h : deltaFrom base value = some d)
    (hb : base'.Alike base) : base' = base := by
  unfold deltaFrom at h
  split at h <;> cases h
  all_goals
    cases base' <;> cases hb
    rfl

theorem absolute_eq {slot : Option Data} {cell : Data} (h : cell ≠ .null) :
    absolute slot cell = if cell.tag.isDelta then do
      match applyDelta (← held slot) cell with
      | some value => .ok value
      | none => Error.fail .typeMismatch 0
    else .ok cell := by
  cases cell <;> first
    | exact absurd rfl h
    | rfl

/-- A column shows the value that something was sent for. -/
theorem shown_of_sends {above : Option Data} {value : Data} {sent slot : Option Data}
    (h : CellSends above value sent) (hs : Option.Rel Data.Alike slot above) :
    ∃ v, shown slot sent = .ok v ∧ v.Alike value := by
  cases h with
  | @absolute _ _ cell hcell hv =>
    refine ⟨cell, ?_, hv⟩
    rw [shown, absolute_eq hcell.1, hcell.2]
    rfl
  | null hv =>
    cases hs with
    | some hu => exact ⟨_, rfl, hu.trans hv⟩
  | omitted hv =>
    cases hs with
    | some hu => exact ⟨_, rfl, hu.trans hv⟩
  | delta hd =>
    cases hs with
    | some hu =>
      obtain rfl := eq_of_deltaFrom hd hu
      obtain ⟨happly, hne, hdelta⟩ := applyDelta_deltaFrom hd
      refine ⟨value, ?_, .refl _⟩
      rw [shown, absolute_eq hne, hdelta, if_pos rfl]
      change (match applyDelta _ _ with | some value => _ | none => _) = _
      rw [happly]

/-- A row shows its values, and they are kept. -/
theorem showRow_of_sends {aboves : List (Option Data)} {values cells : List Data}
    (h : RowSends aboves values cells) (col : Nat) (previous : List (Option Data))
    (hslots : ∀ i above, aboves[i]? = some above → Option.Rel Data.Alike previous[col + i]?.join above) :
    ∃ vs, List.Forall₂ Data.Alike vs values ∧ ∀ {S : Type} (f : Nat → Nat → Data → Prog Error S Unit) row,
      showRow f row values.length cells col previous =
        Prog.fold (fun _ cell => f cell.1 cell.2.1 cell.2.2) () (cellsOfRow row vs col) >>= fun _ =>
          pure (kept previous col vs) := by
  induction h generalizing col previous with
  | done => exact ⟨[], .nil, fun f row => rfl⟩
  | @next above value aboves values cells hcell _ ih =>
    obtain ⟨v, hshown, hv⟩ := shown_of_sends hcell (hslots 0 above rfl)
    obtain ⟨vs, hvs, hrun⟩ := ih (col + 1) (previous.set col (some v)) fun i a ha => by
      rw [List.getElem?_set_ne (by omega), show col + 1 + i = col + (i + 1) by omega]
      exact hslots (i + 1) a ha
    refine ⟨v :: vs, .cons hv hvs, fun f row => ?_⟩
    rw [List.length_cons, showRow]
    rw [Nat.add_zero] at hshown
    rw [hshown]
    change (f row col v >>= fun _ =>
      showRow f row values.length cells.tail (col + 1) (previous.set col (some v))) = _
    rw [hrun f row, cellsOfRow, Prog.fold, Prog.bind_assoc]
    rfl

theorem fold_append {S α : Type} (g : Unit → α → Prog Error S Unit) (xs ys : List α) :
    Prog.fold g () (xs ++ ys) = Prog.fold g () xs >>= fun _ => Prog.fold g () ys := by
  induction xs with
  | nil => rfl
  | cons x xs ih =>
    rw [List.cons_append, Prog.fold, Prog.fold, Prog.bind_assoc]
    congr 1
    funext u
    exact ih

/-- A table shows its values. -/
theorem showRows_of_sends {aboves : List (Option Data)} {table rows : List (List Data)}
    (h : Compresses aboves table rows) (previous : List (Option Data))
    (hslots : ∀ (i : Nat) above, aboves[i]? = some above → Option.Rel Data.Alike previous[i]?.join above)
    (hlen : aboves.length ≤ previous.length) :
    ∃ shown, List.Forall₂ (List.Forall₂ Data.Alike) shown table ∧
      ∀ {S : Type} (f : Nat → Nat → Data → Prog Error S Unit) row,
        showRows f aboves.length rows row previous =
          Prog.fold (fun _ cell => f cell.1 cell.2.1 cell.2.2) () (cellsOf shown row) := by
  induction h generalizing previous with
  | nil => exact ⟨[], .nil, fun f row => rfl⟩
  | @cons aboves values cells table rows hrow _ ih =>
    have hcount := hrow.lengths
    obtain ⟨vs, hvs, hrun⟩ := showRow_of_sends hrow 0 previous fun i a ha => by
      rw [Nat.zero_add]
      exact hslots i a ha
    have hvlen := hvs.length_eq
    obtain ⟨rest, hrest, hruns⟩ := ih (kept previous 0 vs) (fun i a ha => by
      rw [List.getElem?_map] at ha
      obtain ⟨value, hvalue, rfl⟩ := Option.map_eq_some_iff.mp ha
      obtain ⟨hi, rfl⟩ := List.getElem?_eq_some_iff.mp hvalue
      have hget : vs[i]? = some (vs.get ⟨i, by omega⟩) := List.getElem?_eq_getElem (by omega)
      have hkept := kept_at previous 0 (by omega) hget
      rw [Nat.zero_add] at hkept
      rw [hkept]
      exact .some (hvs.get (by omega) hi)) (by rw [List.length_map, length_kept]; omega)
    refine ⟨vs :: rest, .cons hvs hrest, fun f row => ?_⟩
    have hruns := hruns f (row + 1)
    rw [List.length_map, hcount] at hruns
    rw [showRows, ← hcount, hrun f row, hcount, Prog.bind_assoc, cellsOf, fold_append]
    congr 1
    funext u
    exact hruns

theorem cellsOfRow_position (row : Nat) (values : List Data) (col : Nat) :
    (cellsOfRow row values col).map (fun cell => (cell.1, cell.2.1)) =
      (List.range' col values.length).map (row, ·) := by
  induction values generalizing col with
  | nil => rfl
  | cons value values ih =>
    rw [cellsOfRow, List.map_cons, ih, List.length_cons, List.range'_succ, List.map_cons]

theorem cellsOfRow_value (row : Nat) (values : List Data) (col : Nat) :
    (cellsOfRow row values col).map (fun cell => cell.2.2) = values := by
  induction values generalizing col with
  | nil => rfl
  | cons value values ih => rw [cellsOfRow, List.map_cons, ih]

/-- Row by row, and in each row column by column. -/
theorem cellsOf_position {columns : Nat} {table : List (List Data)}
    (h : ∀ values ∈ table, values.length = columns) (row : Nat) :
    (cellsOf table row).map (fun cell => (cell.1, cell.2.1)) =
      List.range' row table.length ×ˢ List.range columns := by
  induction table generalizing row with
  | nil => rfl
  | cons values table ih =>
    have hlen := h values (List.mem_cons_self ..)
    rw [cellsOf, List.map_append, cellsOfRow_position, ih fun v hv => h v (List.mem_cons_of_mem _ hv),
      hlen, List.length_cons, List.range'_succ, List.product_cons, List.range_eq_range']

theorem cellsOf_value (table : List (List Data)) (row : Nat) :
    (cellsOf table row).map (fun cell => cell.2.2) = table.flatten := by
  induction table generalizing row with
  | nil => rfl
  | cons values table ih => rw [cellsOf, List.map_append, cellsOfRow_value, ih, List.flatten_cons]

theorem exists_map_ok {ε α : Type} {items : List (Except ε α)} (h : ∀ item ∈ items, ∃ v, item = .ok v) :
    ∃ vs : List α, items = vs.map .ok := by
  induction items with
  | nil => exact ⟨[], rfl⟩
  | cons item items ih =>
    obtain ⟨v, rfl⟩ := h item (List.mem_cons_self ..)
    obtain ⟨vs, rfl⟩ := ih fun i hi => h i (List.mem_cons_of_mem _ hi)
    exact ⟨v :: vs, rfl⟩

theorem forall₂_flatten {α β : Type} {R : α → β → Prop} {xs : List (List α)} {ys : List (List β)}
    (h : List.Forall₂ (List.Forall₂ R) xs ys) : List.Forall₂ R xs.flatten ys.flatten := by
  induction h with
  | nil => exact .nil
  | cons h _ ih => exact List.rel_append h ih

/-- A buffer of structures that was decoded carries rows of cells. -/
theorem carries_of_decoded {b : Bytes} {d : Data} {p : ProfileBuffer} (hd : Read.fromBytes Data.decode b = .ok d)
    (hp : new d = .ok p) (hrows : ∀ row ∈ p.rawRows, ∃ s, row = .ok s) : ∃ rows, p.Carries rows := by
  obtain ⟨r, hr, -⟩ := Read.fromBytes_ok hd
  have htotal := Data.iteration_total.2 _ _ _ _ hr
  have hseq : d.seq? = some p.rows := by
    cases d with
    | array s =>
      obtain rfl := Except.ok.inj hp
      rfl
    | _ => cases hp
  obtain ⟨-, hitems, -⟩ := (htotal d .self).1 _ hseq
  unfold Carries
  unfold rawRows at hrows ⊢
  have hwithin : ∀ e, .ok e ∈ p.rows.iter.collect.1 → d.Within e := fun e he => .item .self hseq he
  generalize p.rows.iter.collect.1 = items at hitems hrows hwithin ⊢
  induction items with
  | nil => exact ⟨[], [], rfl, .nil⟩
  | cons item items ih =>
    obtain ⟨rows, seqs, hmap, hcells⟩ := ih (fun i hi => hitems i (List.mem_cons_of_mem _ hi))
      (fun row hrow => hrows row (List.mem_cons_of_mem _ hrow))
      fun e he => hwithin e (List.mem_cons_of_mem _ he)
    obtain ⟨e, rfl⟩ := hitems item (List.mem_cons_self ..)
    obtain ⟨s, hs⟩ := hrows _ (List.mem_cons_self ..)
    have he : e = .structure s := by
      cases e with
      | «structure» t => exact congrArg Data.structure (Except.ok.inj hs)
      | _ => cases hs
    subst he
    obtain ⟨-, hcell, -⟩ := (htotal _ (hwithin _ (List.mem_cons_self ..))).1 s rfl
    obtain ⟨cells, hc⟩ := exists_map_ok hcell
    exact ⟨cells :: rows, s :: seqs, congrArg (Except.ok s :: ·) hmap, .cons hc hcells⟩

/-! ## What is refused -/

/-- What a column holds below the first `r` rows. -/
def above (rows : List (List Data)) (r col : Nat) : Option Data :=
  ((rows.take r).map (·[col]?)).foldl (fun slot sent => (shown slot sent).toOption) none

/-- What must not be sent below `slot`: nothing, `null-data` or a delta where there is no value to be
relative to, and a delta of another type than that of the value. -/
inductive Refused : Option Data → Option Data → Prop
  | missing : Refused none none
  | null : Refused none (some .null)
  | delta {d : Data} : d.tag.isDelta = true → Refused none (some d)
  | mismatch {value d : Data} : d.tag.isDelta = true → value.tag.delta? ≠ some d.tag →
      Refused (some value) (some d)

theorem applyDelta_mismatch {value d : Data} (h : value.tag.delta? ≠ some d.tag) :
    applyDelta value d = none := by
  unfold applyDelta
  split <;> first
    | exact absurd rfl h
    | rfl

theorem Refused.shown {slot sent : Option Data} (h : Refused slot sent) : ∃ e, shown slot sent = .error e := by
  have hne : ∀ d : Data, d.tag.isDelta = true → d ≠ .null := by
    rintro _ hd rfl
    cases hd
  cases h with
  | missing => exact ⟨_, rfl⟩
  | null => exact ⟨_, rfl⟩
  | @delta d hd =>
    refine ⟨⟨.invalidValue, 0⟩, ?_⟩
    rw [ProfileBuffer.shown, absolute_eq (hne d hd), hd]
    rfl
  | @mismatch value d hd hm =>
    refine ⟨⟨.typeMismatch, 0⟩, ?_⟩
    rw [ProfileBuffer.shown, absolute_eq (hne d hd), hd, if_pos rfl]
    change (match applyDelta value d with | some value => _ | none => _) = _
    rw [applyDelta_mismatch hm]
    rfl

section

variable {S : Type} {f : Nat → Nat → Data → Prog Error S Unit}

/-- A row that is shown to its end has a value for each column. -/
theorem showRow_ok {row n col : Nat} {cells : List Data} {previous previous' : List (Option Data)} {s s' : S}
    (hlen : col + n ≤ previous.length)
    (h : showRow f row n cells col previous s = (.ok previous', s')) :
    (∀ j < col, previous'[j]? = previous[j]?) ∧
      ∀ i < n, ∃ v, shown previous[col + i]?.join cells[i]? = .ok v ∧ previous'[col + i]? = some (some v) := by
  induction n generalizing cells col previous s with
  | zero =>
    obtain ⟨rfl, -⟩ : previous = previous' ∧ s = s' := by simpa [showRow] using h
    exact ⟨fun _ _ => rfl, fun i hi => absurd hi (Nat.not_lt_zero i)⟩
  | succ n ih =>
    obtain ⟨value, s₁, hvalue, h⟩ := Prog.bind_ok h
    obtain ⟨⟨⟩, s₂, -, h⟩ := Prog.bind_ok h
    rw [Prog.ofExcept_run] at hvalue
    obtain ⟨hbefore, hafter⟩ := ih (by rw [List.length_set]; omega) h
    refine ⟨fun j hj => ?_, fun i hi => ?_⟩
    · rw [hbefore j (by omega), List.getElem?_set_ne (by omega)]
    · cases i with
      | zero =>
        refine ⟨value, ?_, ?_⟩
        · rw [Nat.add_zero, ← List.head?_eq_getElem?]
          exact (Prod.mk.inj hvalue).1
        · rw [Nat.add_zero, hbefore col (Nat.lt_succ_self col), List.getElem?_set_self (by omega)]
      | succ i =>
        obtain ⟨v, hv, hkept⟩ := hafter i (by omega)
        rw [List.getElem?_set_ne (by omega), List.getElem?_tail] at hv
        rw [show col + (i + 1) = col + 1 + i by omega]
        exact ⟨v, hv, hkept⟩

/-- Rows that are shown to their end have a value for each column. -/
theorem showRows_ok {columns : Nat} {rows : List (List Data)} {row : Nat} {previous : List (Option Data)}
    {s s' : S} (hlen : columns ≤ previous.length)
    (h : showRows f columns rows row previous s = (.ok (), s')) {r col : Nat} (hcol : col < columns)
    {cells : List Data} (hr : rows[r]? = some cells) :
    ∃ v, shown (((rows.take r).map (·[col]?)).foldl (fun slot sent => (shown slot sent).toOption)
      previous[col]?.join) cells[col]? = .ok v := by
  induction rows generalizing row previous s r with
  | nil => simp at hr
  | cons first rows ih =>
    obtain ⟨previous', s₁, hrow, h⟩ := Prog.bind_ok h
    obtain ⟨-, hshown⟩ := showRow_ok (by omega) hrow
    obtain ⟨v, hv, hkept⟩ := hshown col hcol
    rw [Nat.zero_add] at hv hkept
    cases r with
    | zero =>
      obtain rfl : first = cells := by simpa using hr
      exact ⟨v, hv⟩
    | succ r =>
      have hlen' := showRow_length f hrow
      have h' := ih (by omega) h (r := r) (by simpa using hr)
      rw [hkept] at h'
      rw [List.take_succ_cons, List.map_cons, List.foldl_cons, hv]
      exact h'

end

/-- What a meter may send for a table is shown as the table, cell by cell in the order of the rows. What
has nothing to be relative to, or a delta of another type, is an error. -/
theorem forEachCell_exact (p : ProfileBuffer) (rows : List (List Data)) (columns : Nat) (hp : p.Carries rows) :
    (∀ table, columns ≤ maxColumns → Compresses (List.replicate columns none) table rows →
      ∃ cells : List (Nat × Nat × Data),
        cells.length = table.length * columns ∧
        cells.map (fun cell => (cell.1, cell.2.1)) = List.range table.length ×ˢ List.range columns ∧
        List.Forall₂ Data.Alike (cells.map fun cell => cell.2.2) table.flatten ∧
        ∀ {S : Type} (f : Nat → Nat → Data → Prog Error S Unit),
          forEachCell f columns p = Prog.fold (fun _ cell => f cell.1 cell.2.1 cell.2.2) () cells) ∧
      ∀ r col cells, col < columns → rows[r]? = some cells → Refused (above rows r col) cells[col]? →
        ∀ {S : Type} (f : Nat → Nat → Data → Prog Error S Unit) (s : S),
          ∃ e s', forEachCell f columns p s = (.error e, s') := by
  refine ⟨fun table hc h => ?_, fun r col cells hcol hr hrefused S f s => ?_⟩
  · obtain ⟨shown, hshown, hrun⟩ := showRows_of_sends h (List.replicate maxColumns none)
      (fun i a ha => by
        obtain ⟨hi, rfl⟩ := List.getElem?_eq_some_iff.mp ha
        rw [List.length_replicate] at hi
        have hget : (List.replicate maxColumns (none : Option Data))[i]? = some none := by
          rw [List.getElem?_replicate, if_pos (by omega)]
        rw [hget, List.getElem_replicate]
        exact .none)
      (by rw [List.length_replicate, List.length_replicate]; exact hc)
    rw [List.length_replicate] at hrun
    have hrows : ∀ values ∈ shown, values.length = columns := by
      intro values hv
      obtain ⟨i, hi, rfl⟩ := List.getElem_of_mem hv
      have hi' : i < table.length := hshown.length_eq ▸ hi
      have hlike := (hshown.get hi hi').length_eq
      have hlen := h.lengths (table.get ⟨i, hi'⟩) (List.get_mem ..)
      rw [List.length_replicate] at hlen
      exact hlike.trans hlen
    have hpos := cellsOf_position hrows 0
    refine ⟨cellsOf shown 0, ?_, ?_, ?_, fun f => ?_⟩
    · have hlen := congrArg List.length hpos
      rw [List.length_map, List.length_product, List.length_range', List.length_range, hshown.length_eq] at hlen
      exact hlen
    · rw [hpos, hshown.length_eq, ← List.range_eq_range']
    · rw [cellsOf_value]
      exact forall₂_flatten hshown
    · rw [forEachCell_eq f hp hc]
      exact hrun f 0
  · obtain ⟨e, he⟩ := hrefused.shown
    by_cases hc : columns ≤ maxColumns
    · rcases hrun : forEachCell f columns p s with ⟨e' | ⟨⟩, s'⟩
      · exact ⟨e', s', rfl⟩
      · rw [forEachCell_eq f hp hc] at hrun
        obtain ⟨v, hv⟩ := showRows_ok (by rw [List.length_replicate]; exact hc) hrun hcol hr
        rw [List.getElem?_replicate, if_pos (by omega)] at hv
        exact nomatch he.symm.trans hv
    · exact ⟨⟨.unsupported, 0⟩, s, by rw [forEachCell, if_pos (by omega)]; rfl⟩

/-- A row of a number and a row of a delta from it. -/
theorem forEachCell_exact_sample : ∃ cells : List (Nat × Nat × Data),
    cells.length = 2 ∧ List.Forall₂ Data.Alike (cells.map fun cell => cell.2.2) [.unsigned 7, .unsigned 9] ∧
      forEachCell (fun row col value => Prog.modify (· ++ [(row, col, value)])) 1
        ⟨⟨2, [0x02, 0x01, 0x11, 0x07, 0x02, 0x01, 0x1F, 0x02], 2, 15⟩⟩ =
          Prog.fold (fun _ cell => Prog.modify (· ++ [cell])) () cells := by
  have hrows : (Seq.iter ⟨2, [0x02, 0x01, 0x11, 0x07, 0x02, 0x01, 0x1F, 0x02], 2, 15⟩).collect.1 =
      [.ok (.structure ⟨1, [0x11, 0x07], 4, 14⟩), .ok (.structure ⟨1, [0x1F, 0x02], 8, 14⟩)] := by
    rw [Seq.iter, SeqIter.collect_succ, SeqIter.collect_succ, SeqIter.collect_zero]
    rfl
  have hfirst : (Seq.iter ⟨1, [0x11, 0x07], 4, 14⟩).collect.1 = [.ok (.unsigned 7)] := by
    rw [Seq.iter, SeqIter.collect_succ, SeqIter.collect_zero]
    rfl
  have hsecond : (Seq.iter ⟨1, [0x1F, 0x02], 8, 14⟩).collect.1 = [.ok (.deltaUnsigned 2)] := by
    rw [Seq.iter, SeqIter.collect_succ, SeqIter.collect_zero]
    rfl
  have hp : Carries ⟨⟨2, [0x02, 0x01, 0x11, 0x07, 0x02, 0x01, 0x1F, 0x02], 2, 15⟩⟩
      [[.unsigned 7], [.deltaUnsigned 2]] :=
    ⟨[⟨1, [0x11, 0x07], 4, 14⟩, ⟨1, [0x1F, 0x02], 8, 14⟩], by rw [rawRows, hrows]; rfl,
      .cons hfirst (.cons hsecond .nil)⟩
  have hsends : Compresses (List.replicate 1 none) [[.unsigned 7], [.unsigned 9]]
      [[.unsigned 7], [.deltaUnsigned 2]] :=
    .cons (.next (.absolute ⟨nofun, rfl⟩ (.refl _)) .done) (.cons (.next (.delta rfl) .done) .nil)
  obtain ⟨cells, hlen, -, halike, hrun⟩ := (forEachCell_exact _ _ 1 hp).1 _ (by decide) hsends
  exact ⟨cells, hlen, halike, hrun _⟩

end ProfileBuffer

end Dlms
