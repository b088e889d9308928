import DlmsCosem.Axdr.CompactWork
import Mathlib.Data.List.Forall2

/-!
# The walks over a compact array agree

`to_rows` builds trees, and `for_each_leaf` hands over the leaves of these trees, one row after another
and each numbered by its row and column, while `row_count` counts them (`CompactArray.walks_agree`). The
three end well or badly together, never for the levels that are left, and `row_len` says how many leaves
each tree has (`build_leaves`).
-/

namespace Dlms

namespace DataBuf

mutual

/-- The leaves of a tree, depth first. -/
def leaves : DataBuf → List DataBuf
  | array ts => leavesAll ts
  | .structure ts => leavesAll ts
  | t => [t]

def leavesAll : List DataBuf → List DataBuf
  | [] => []
  | t :: ts => leaves t ++ leavesAll ts

end

/-- Leaves of one row from `column` on, each with its row and column. -/
def line (row column : Nat) (ts : List DataBuf) : List (Nat × Nat × DataBuf) :=
  (ts.zipIdx column).map fun t => (row, t.2, t.1)

/-- The leaves of the rows from `row` on. -/
def numbered (row : Nat) : List DataBuf → List (Nat × Nat × DataBuf)
  | [] => []
  | t :: ts => line row 0 t.leaves ++ numbered (row + 1) ts

theorem line_append (row column : Nat) (ts us : List DataBuf) :
    line row column (ts ++ us) = line row column ts ++ line row (column + ts.length) us := by
  simp [line, List.zipIdx_append]

theorem leaves_ofScalar {d : Data} {t : DataBuf} (h : ofScalar d = .ok t) : t.leaves = [t] := by
  cases d <;> cases h <;> rfl

end DataBuf

/-- The visitor is shown a leaf of the tree, at its row and column. -/
def CompactLeaf.Shows (l : CompactLeaf) (at' : Nat × Nat × DataBuf) : Prop :=
  l.row = at'.1 ∧ l.column = at'.2.1 ∧ DataBuf.ofScalar l.value = .ok at'.2.2

/-! ## How many leaves -/

namespace TypeDesc

theorem checked_ok {n m : Nat} (h : checked n = .ok m) : n = m := by
  unfold checked at h
  split at h
  · exact Except.ok.inj h
  · cases h

end TypeDesc

theorem repeated_yields {m : Expand DataBuf} {k : Nat} (h : Prog.Yields m fun t => t.leaves.length = k)
    (n : Nat) : Prog.Yields (Expand.repeated m n) fun ts => (DataBuf.leavesAll ts).length = n * k := by
  induction n with
  | zero => exact .pure (by simp [DataBuf.leavesAll])
  | succ n ih =>
    refine h.bind fun t ht => ih.bind fun ts hts => .pure ?_
    rw [DataBuf.leavesAll, List.length_append, ht, hts, Nat.succ_mul, Nat.add_comm]

theorem buildFields_yields {left left' : Nat}
    (h : ∀ desc k, TypeDesc.leafCountAt left' desc = .ok k →
      Prog.Yields (build left desc) fun t => t.leaves.length = k)
    (n : Nat) (r : Reader) {before k : Nat}
    (hk : TypeDesc.leafCountFields (TypeDesc.parseAt left') (TypeDesc.leafCountAt left') n r before = .ok k) :
    Prog.Yields (buildFields (build left) n r) fun ts => before + (DataBuf.leavesAll ts).length = k := by
  induction n generalizing r before with
  | zero => exact .pure (by simpa [DataBuf.leavesAll] using Except.ok.inj hk)
  | succ n ih =>
    rw [TypeDesc.leafCountFields] at hk
    rw [buildFields]
    rcases hcount : TypeDesc.parseAt left' r with ⟨e | desc, r₁⟩
    · rw [hcount] at hk
      cases hk
    · rw [hcount] at hk
      obtain ⟨inner, hinner, hk⟩ := Result.bind_ok.mp hk
      obtain ⟨sum, hsum, hk⟩ := Result.bind_ok.mp hk
      rcases hbuild : TypeDesc.parseAt maxDepth r with ⟨e | desc', r₂⟩
      · exact .throw
      · obtain ⟨rfl, rfl⟩ := TypeDesc.parseAt_unique hcount hbuild
        refine (h desc inner hinner).bind fun t ht => (ih r₁ hk).bind fun ts hts => .pure ?_
        rw [DataBuf.leavesAll, List.length_append, ht, ← hts, ← TypeDesc.checked_ok hsum, Nat.add_assoc]

/-- Every row that is built has as many leaves as its description says. -/
theorem build_leaves {left left' : Nat} {desc : TypeDesc} {k : Nat} (hk : desc.leafCountAt left' = .ok k) :
    Prog.Yields (build left desc) fun t => t.leaves.length = k := by
  induction left generalizing left' desc k with
  | zero => exact fun s t h => nomatch h
  | succ left ih =>
    cases left' with
    | zero => cases hk
    | succ left' =>
      refine (Prog.Yields.any _).bind fun _ _ => ?_
      cases desc with
      | scalar tag =>
        obtain rfl : 1 = k := Except.ok.inj hk
        refine (Prog.Yields.any _).bind fun d _ => .of_ok fun {s s' t} ht => ?_
        rw [Prog.ofExcept_run] at ht
        rw [DataBuf.leaves_ofScalar (Prod.mk.inj ht).1]
        rfl
      | array len elem =>
        obtain ⟨inner, hinner, hk⟩ := Result.bind_ok.mp hk
        obtain ⟨each, heach, hk⟩ := Result.bind_ok.mp hk
        dsimp only
        rcases hbuild : TypeDesc.parseAt maxDepth (Reader.new elem) with ⟨e | inner', r⟩
        · exact .throw
        · obtain ⟨rfl, -⟩ := TypeDesc.parseAt_unique (Prod.ext hinner rfl) hbuild
          refine (repeated_yields (ih heach) len.toNat).map fun ts hts => ?_
          rw [DataBuf.leaves, hts, TypeDesc.checked_ok hk]
      | «structure» count fields =>
        refine (buildFields_yields (fun desc k => ih) count (Reader.new fields) hk).map fun ts hts => ?_
        rw [DataBuf.leaves, ← hts, Nat.zero_add]

/-! ## The walks beside `to_rows` -/

namespace Traversal

variable {τ T α : Type} {f : CompactLeaf → Prog Error τ Unit}

/-- From one place to another the visitor was shown these leaves, in order. -/
def Handed (f : CompactLeaf → Prog Error τ Unit) (ts : List DataBuf) (cur cur' : Cursor τ) : Prop :=
  cur'.row = cur.row ∧ cur'.column = cur.column + ts.length ∧ ∃ ls : List CompactLeaf,
    cur'.visitor = ls.foldl (fun t l => (f l t).2) cur.visitor ∧
      List.Forall₂ CompactLeaf.Shows ls (DataBuf.line cur.row cur.column ts)

theorem Handed.append {ts us : List DataBuf} {cur cur₁ cur₂ : Cursor τ} (h : Handed f ts cur cur₁)
    (h' : Handed f us cur₁ cur₂) : Handed f (ts ++ us) cur cur₂ := by
  obtain ⟨hrow, hcolumn, ls, hvisitor, hshows⟩ := h
  obtain ⟨hrow', hcolumn', ls', hvisitor', hshows'⟩ := h'
  rw [hrow, hcolumn] at hshows'
  refine ⟨hrow'.trans hrow, ?_, ls ++ ls', ?_, ?_⟩
  · rw [hcolumn', hcolumn, List.length_append, Nat.add_assoc]
  · rw [hvisitor', hvisitor, List.foldl_append]
  · rw [DataBuf.line_append]
    exact List.rel_append hshows hshows'

theorem Handed.all {trees : List DataBuf} {us : List Unit} {cur cur' : Cursor τ}
    (h : Along (fun tree _ => Handed f tree.leaves) trees us cur cur') :
    Handed f (DataBuf.leavesAll trees) cur cur' := by
  induction h with
  | nil cur => exact ⟨rfl, rfl, [], rfl, .nil⟩
  | cons hq _ ih => exact hq.append ih

/-- A visitor that never fails takes every leaf. -/
theorem handing_relates (hf : ∀ l t, (f l t).1 = .ok ()) :
    (handing f).Relates fun tree _ => Handed f tree.leaves where
  leaf d tree cur htree := by
    refine ⟨(), _, Prod.ext (hf ⟨cur.row, cur.column, d⟩ cur.visitor) rfl, rfl, ?_,
      [⟨cur.row, cur.column, d⟩], rfl, ?_⟩
    · rw [DataBuf.leaves_ofScalar htree]
      rfl
    · rw [DataBuf.leaves_ofScalar htree]
      exact .cons ⟨rfl, rfl, htree⟩ .nil
  array trees us cur cur' h := Handed.all h
  «structure» trees us cur cur' h := Handed.all h

/-- The rows that were walked, from the row of `cur` on. -/
theorem handed_rows {trees : List DataBuf} {us : List Unit} {cur cur' : Cursor τ}
    (h : Along (fun tree _ cur cur' => ∃ cur₁, Handed f tree.leaves ((handing f).startRow cur) cur₁ ∧
      cur' = (handing f).endRow cur₁) trees us cur cur') :
    ∃ ls : List CompactLeaf, cur'.visitor = ls.foldl (fun t l => (f l t).2) cur.visitor ∧
      List.Forall₂ CompactLeaf.Shows ls (DataBuf.numbered cur.row trees) := by
  induction h with
  | nil cur => exact ⟨[], rfl, .nil⟩
  | cons hq _ ih =>
    obtain ⟨cur₁, ⟨hrow, -, ls, hvisitor, hshows⟩, rfl⟩ := hq
    obtain ⟨ls', hvisitor', hshows'⟩ := ih
    refine ⟨ls ++ ls', ?_, ?_⟩
    · rw [hvisitor', List.foldl_append]
      exact congrArg (fun v => ls'.foldl (fun t l => (f l t).2) v) hvisitor
    · refine List.rel_append hshows ?_
      have hnext : ((handing f).endRow cur₁).row = cur₁.row + 1 := rfl
      rw [hnext, hrow] at hshows'
      exact hshows'

theorem Along.unchanged {bs : List DataBuf} {as : List α} {t t' : T}
    (h : Along (fun _ _ t t' => t' = t) bs as t t') : t' = t := by
  induction h with
  | nil => rfl
  | cons hq _ ih => rw [ih, hq]

theorem counting_relates : counting.Relates fun _ _ n n' => n' = n where
  leaf _ _ n _ := ⟨(), n, rfl, rfl⟩
  array _ _ _ _ h := h.unchanged
  «structure» _ _ _ _ h := h.unchanged

/-- One is counted for every row. -/
theorem counted_rows {trees : List DataBuf} {us : List Unit} {n n' : Nat}
    (h : Along (fun _ _ n n' => ∃ n₁, n₁ = counting.startRow n ∧ n' = counting.endRow n₁) trees us n n') :
    n' = n + trees.length := by
  induction h with
  | nil n => rfl
  | cons hq _ ih =>
    obtain ⟨n₁, rfl, rfl⟩ := hq
    rw [ih, List.length_cons]
    show _ + 1 + _ = _
    omega

end Traversal

/-! ## Never for the levels -/

namespace TypeDesc

theorem checked_shallow {n : Nat} {e : Error} (h : checked n = .error e) : e.kind ≠ .depthExceeded := by
  unfold checked at h
  split at h
  · cases h
  · obtain rfl := Except.error.inj h
    simp

theorem leafCountFields_shallow {left left' : Nat} (hle : left ≤ left')
    (h : ∀ desc r r', parseAt left r = (.ok desc, r') →
      ∀ e, leafCountAt left' desc = .error e → e.kind ≠ .depthExceeded)
    (n : Nat) (r r' : Reader) (hr : Prog.times n (do let _ ← parseAt left) r = (.ok (), r'))
    (before : Nat) (e : Error)
    (he : leafCountFields (parseAt left') (leafCountAt left') n r before = .error e) :
    e.kind ≠ .depthExceeded := by
  induction n generalizing r before with
  | zero => cases he
  | succ n ih =>
    obtain ⟨⟨⟩, r₁, hfirst, hr⟩ := Prog.bind_ok hr
    obtain ⟨inner, r₂, hparse, hfirst⟩ := Prog.bind_ok hfirst
    obtain rfl : r₂ = r₁ := (Prod.mk.inj hfirst).2
    rw [leafCountFields, parseAt_of_le hle hparse] at he
    rcases Result.bind_error.mp he with hinner | ⟨k, -, he⟩
    · exact h inner r r₂ hparse e hinner
    · rcases Result.bind_error.mp he with hsum | ⟨sum, -, he⟩
      · exact checked_shallow hsum
      · exact ih r₂ hr sum he

/-- The leaves of a description can be counted with the levels that it was parsed with. -/
theorem leafCountAt_shallow {left left' : Nat} (hle : left ≤ left') {desc : TypeDesc} {r r' : Reader}
    (h : parseAt left r = (.ok desc, r')) {e : Error} (he : leafCountAt left' desc = .error e) :
    e.kind ≠ .depthExceeded := by
  induction left generalizing left' desc r r' e with
  | zero => cases h
  | succ left ih =>
    obtain ⟨left', rfl⟩ := Nat.exists_eq_add_of_lt (Nat.lt_of_succ_le hle)
    have hle : left ≤ left + left' := Nat.le_add_right ..
    have hinside := parseAt_inside h
    cases desc with
    | scalar tag => cases he
    | array len elem =>
      obtain ⟨inner, r₁, hinner⟩ := hinside
      rw [leafCountAt, parseAt_of_le hle hinner] at he
      change (leafCountAt (left + left') inner >>= _) = _ at he
      rcases Result.bind_error.mp he with heach | ⟨k, -, he⟩
      · exact ih hle hinner heach
      · exact checked_shallow he
    | «structure» count fields =>
      obtain ⟨r₁, hfields⟩ := hinside
      exact leafCountFields_shallow hle (fun _ _ _ hparse _ hcount => ih hle hparse hcount) count _ _ hfields
        0 e he

end TypeDesc

/-! ## The three walks -/

namespace CompactArray

open Traversal

variable {τ T α : Type}

theorem rows_yields {row : Expand DataBuf} {P : DataBuf → Prop} (h : Prog.Yields row P) (n : Nat) :
    Prog.Yields (rows row n) fun ts => ∀ t ∈ ts, P t := by
  induction n with
  | zero => exact .pure (by simp)
  | succ n ih =>
    refine (Prog.Yields.any _).bind fun empty _ => ?_
    cases empty with
    | true => exact .pure (by simp)
    | false =>
      refine (Prog.Yields.any _).bind fun _ _ => h.bind fun t ht => (Prog.Yields.any _).bind fun _ _ => ?_
      refine ih.bind fun ts hts => .pure ?_
      simpa [ht] using hts

/-- Every row has the length that the description says. -/
theorem toRows_length {c : CompactArray} {trees : List DataBuf} {n : Nat} (h : c.toRows = .ok trees)
    (hn : c.rowLen = .ok n) : ∀ row ∈ trees, row.leaves.length = n := by
  obtain ⟨desc, hdesc, hrows⟩ := Result.bind_ok.mp h
  obtain ⟨desc', hdesc', hcount⟩ := Result.bind_ok.mp hn
  obtain rfl := Except.ok.inj (hdesc.symm.trans hdesc')
  exact rows_yields (build_leaves hcount) _ _ _ hrows

/-- A traversal that takes every leaf ends as `to_rows` does. -/
theorem traverse_ends {V : Traversal T α} {Q : DataBuf → α → T → T → Prop} (hV : V.Relates Q)
    (c : CompactArray) (t : T) :
    (∃ trees as, c.toRows = .ok trees ∧ (c.traverse V t).1 = .ok as ∧
      Along (fun tree a t t' => ∃ t₁, Q tree a (V.startRow t) t₁ ∧ t' = V.endRow t₁) trees as t
        (c.traverse V t).2.2) ∨
    ∃ e, c.toRows = .error e ∧ (c.traverse V t).1 = .error e := by
  unfold toRows traverse
  cases c.description.1 with
  | error e => exact .inr ⟨e, rfl, rfl⟩
  | ok desc =>
    have hends := rows_ends (V := V) (run_ends hV c.left desc) c.contents.length c.start t
    show (∃ trees as, (rows (build c.left desc) c.contents.length c.start).1 = .ok trees ∧ _) ∨
      ∃ e, (rows (build c.left desc) c.contents.length c.start).1 = .error e ∧ _
    dsimp only
    rcases hx : rows (build c.left desc) c.contents.length c.start with ⟨e | trees, s⟩ <;>
      rcases hy : V.rows (V.run c.left desc) c.contents.length (c.start, t) with ⟨e' | as, s', t'⟩ <;>
      rw [hx, hy] at hends
    · exact .inr ⟨e, rfl, congrArg Except.error hends.1⟩
    · cases hends
    · cases hends
    · exact .inl ⟨trees, as, rfl, rfl, hends.2⟩

/-- A traversal with a visitor that never fails does not run out of levels. -/
theorem traverse_shallow {c : CompactArray} (hleft : c.left ≤ maxDepth) {desc : TypeDesc}
    (hdesc : c.description.1 = .ok desc) {V : Traversal T α} (hV : ∀ d t e, (V.visit d t).1 ≠ .error e)
    {t : T} {e : Error} (he : (c.traverse V t).1 = .error e) : e.kind ≠ .depthExceeded := by
  rw [← (c.traverse_counted V t opened).1] at he
  unfold traverse at he
  rw [hdesc] at he
  have hsettled := rows_settled (run_paid (V := V) hleft (Prod.ext hdesc rfl)) c.contents.length c.start t
    opened (Nat.le_of_eq (Reader.withBase_remaining ..))
  obtain ⟨d, t', hvisit⟩ | hkind := hsettled.spent.error e he
  · exact absurd hvisit (hV d t' e)
  · exact hkind

/-- `for_each_leaf`, `row_count` and `to_rows` agree on a decoded compact array, and `row_len` with them. -/
theorem walks_agree {left : Nat} (hleft : left ≤ maxDepth) {r r' : Reader} {c : CompactArray}
    (h : decodeBody left r = (.ok c, r')) {f : CompactLeaf → Prog Error τ Unit}
    (hf : ∀ l t, (f l t).1 = .ok ()) (t : τ) :
    ((∃ rows leaves, c.toRows = .ok rows ∧ c.rowCount = .ok rows.length ∧
        c.forEachLeaf f t = (.ok (), leaves.foldl (fun t l => (f l t).2) t) ∧
        List.Forall₂ CompactLeaf.Shows leaves (DataBuf.numbered 0 rows) ∧
        ∀ n, c.rowLen = .ok n → ∀ row ∈ rows, row.leaves.length = n) ∨
      ∃ e, c.toRows = .error e ∧ c.rowCount = .error e ∧ (c.forEachLeaf f t).1 = .error e ∧
        e.kind ≠ .depthExceeded) ∧
    ∀ e, c.rowLen = .error e → e.kind ≠ .depthExceeded := by
  have hleft : c.left ≤ maxDepth := Made.left_le (.inl ⟨left, r, r', hleft, h⟩)
  obtain ⟨desc, hdesc⟩ := description_ok h
  constructor
  · rw [forEachLeaf_eq, rowCount_eq]
    obtain ⟨trees, as, htrees, has, hleaves⟩ | ⟨e, he, hhanding⟩ :=
      traverse_ends (handing_relates hf) c ⟨0, 0, t⟩
    · obtain ⟨trees', ns, htrees', hns, hcount⟩ | ⟨e, he, -⟩ := traverse_ends counting_relates c 0
      · obtain rfl := Except.ok.inj (htrees.symm.trans htrees')
        obtain ⟨ls, hvisitor, hshows⟩ := handed_rows hleaves
        refine .inl ⟨trees, ls, htrees, ?_, ?_, hshows, fun n hn => toRows_length htrees hn⟩
        · rw [hns, counted_rows hcount, Nat.zero_add]
          rfl
        · rw [has, hvisitor]
          rfl
      · exact absurd (htrees.symm.trans he) nofun
    · obtain ⟨trees, -, htrees, -⟩ | ⟨e', he', hcounting⟩ := traverse_ends counting_relates c 0
      · exact absurd (htrees.symm.trans he) nofun
      · obtain rfl := Except.error.inj (he.symm.trans he')
        refine .inr ⟨e, he, by rw [hcounting]; rfl, by rw [hhanding]; rfl, ?_⟩
        exact traverse_shallow hleft hdesc (V := counting) (fun _ _ _ => nofun) hcounting
  · intro e he
    rcases Result.bind_error.mp he with hno | ⟨desc', hdesc', hcount⟩
    · exact absurd (hdesc.symm.trans hno) nofun
    · exact TypeDesc.leafCountAt_shallow hleft (Prod.ext hdesc' rfl) hcount

/-- Two rows of a number and two more. -/
def readings : CompactArray where
  desc := [0x02, 0x02, 0x11, 0x01, 0x00, 0x02, 0x12]
  contents := [1, 0, 2, 0, 3, 4, 0, 5, 0, 6]
  descBase := 0
  contentsBase := 8
  left := maxDepth

theorem walks_agree_sample :
    ((∃ rows leaves, readings.toRows = .ok rows ∧ readings.rowCount = .ok rows.length ∧
        readings.forEachLeaf (fun _ => Prog.modify (· + 1)) 0 =
          (.ok (), leaves.foldl (fun t (_ : CompactLeaf) => t + 1) 0) ∧
        List.Forall₂ CompactLeaf.Shows leaves (DataBuf.numbered 0 rows) ∧
        ∀ n, readings.rowLen = .ok n → ∀ row ∈ rows, row.leaves.length = n) ∨
      ∃ e, readings.toRows = .error e ∧ readings.rowCount = .error e ∧
        (readings.forEachLeaf (fun _ => Prog.modify (· + 1)) 0).1 = .error e ∧ e.kind ≠ .depthExceeded) ∧
    ∀ e, readings.rowLen = .error e → e.kind ≠ .depthExceeded := by
  have hdecoded : (decodeBody maxDepth (Reader.new (readings.desc ++ 10 :: readings.contents))).1 =
      .ok readings := by decide +kernel
  exact walks_agree (Nat.le_refl maxDepth) (Prod.ext hdecoded rfl) (fun _ _ => rfl) 0

end CompactArray

end Dlms
