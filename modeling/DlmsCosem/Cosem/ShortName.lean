import DlmsCosem.Cosem.Access
import Mathlib.Data.List.Pairwise
import Mathlib.Tactic.IntervalCases

/-!
# Short names

An object names its attributes and methods by numbers, eight apart; `ShortName.resolve` is to say what a
number stands for. The `_iff` lemmas say in natural numbers what each direction does. They are inverse to
each other (`ShortName.Inverse`) if and only if `ShortName.Regular` holds of the object: the methods begin
on the grid of its names, and no name is that of a hundred and twenty-eighth attribute or method, whose
number is not an `i8`.
-/

namespace Dlms

/-- How far apart consecutive attributes of one object are. -/
def attributeStride : UInt16 := 8

/-- The short names of one object. -/
structure ShortName where
  base : UInt16
  classId : UInt16
  logicalName : Obis
  methodOffset : Option UInt16
  attributes : UInt8
  methods : UInt8

namespace ShortName

/-- `checked_add`. -/
def checkedAdd (a b : UInt16) : Option UInt16 := if a.toNat + b.toNat < 65536 then some (a + b) else none

/-- `checked_sub`. -/
def checkedSub (a b : UInt16) : Option UInt16 := if b ≤ a then some (a - b) else none

/-- `checked_mul`. -/
def checkedMul (a b : UInt16) : Option UInt16 := if a.toNat * b.toNat < 65536 then some (a * b) else none

/-- `attribute`: the short name of an attribute, counting from one. -/
def attributeName (o : ShortName) (index : Int8) : Option UInt16 :=
  if index < 1 ∨ o.attributes < index.toUInt8 then none
  else do
    let steps := index.toInt16.toUInt16 - 1
    let offset ← checkedMul steps attributeStride
    checkedAdd o.base offset

/-- `method`: the short name of a method, counting from one. -/
def methodName (o : ShortName) (index : Int8) : Option UInt16 := do
  let methodOffset ← o.methodOffset
  if index < 1 ∨ o.methods < index.toUInt8 then none
  else
    let steps := index.toInt16.toUInt16 - 1
    let offset ← checkedMul steps attributeStride
    let offset ← checkedAdd offset methodOffset
    checkedAdd o.base offset

/-- The number of what is `steps` after the first. -/
def idOf (steps : UInt16) : Int8 := steps.toUInt8.toInt8 + 1

/-- What `resolve` makes of an offset that is in front of the methods. -/
def resolveAttribute (o : ShortName) (offset : UInt16) : Option ShortNameTarget :=
  let step := offset / attributeStride
  if 0x80 ≤ step ∨ o.attributes ≤ step.toUInt8 then none
  else some (.attribute ⟨o.classId, o.logicalName, idOf step⟩)

/-- What `resolve` makes of an offset from `methodOffset` on. -/
def resolveMethod (o : ShortName) (methodOffset offset : UInt16) : Option ShortNameTarget :=
  let steps := (offset - methodOffset) / attributeStride
  if steps < 0x80 ∧ steps.toUInt8 < o.methods then
    some (.method ⟨o.classId, o.logicalName, idOf steps⟩)
  else none

/-- What a name stands for in this object. -/
def resolve (o : ShortName) (name : UInt16) : Option ShortNameTarget := do
  let offset ← checkedSub name o.base
  if offset % attributeStride ≠ 0 then none
  else
    match o.methodOffset with
    | some methodOffset =>
      if methodOffset ≤ offset then o.resolveMethod methodOffset offset else o.resolveAttribute offset
    | none => o.resolveAttribute offset

/-- `sn::resolve`: what a name stands for in the object of a table that owns it. -/
def resolveIn (objects : List ShortName) (name : UInt16) : Option ShortNameTarget :=
  objects.findSome? (·.resolve name)

variable {o : ShortName} {n : UInt16} {i : Int8}

/-! ## Naming -/

theorem checkedAdd_iff {a b c : UInt16} : checkedAdd a b = some c ↔ c.toNat = a.toNat + b.toNat := by
  have hc := c.toNat_lt
  rw [checkedAdd]
  by_cases h : a.toNat + b.toNat < 65536
  · rw [if_pos h, Option.some_inj, ← UInt16.toNat_inj, UInt16.toNat_add, Nat.mod_eq_of_lt (by omega), eq_comm]
  · rw [if_neg h]
    refine iff_of_false (by simp) (by omega)

/-- A positive number of a thing is its number of steps from the first, and one. -/
theorem steps_of_index (h : ¬ i < 1) : ∃ k : Nat, k ≤ 126 ∧ i.toInt = k + 1 ∧ i.toUInt8.toNat = k + 1 ∧
    (i.toInt16.toUInt16 - 1).toNat = k := by
  have hall : ∀ b : Fin 256, ¬ (UInt8.ofFin b).toInt8 < 1 → ∃ k : Fin 127,
      (UInt8.ofFin b).toInt8.toInt = (k.val : Int) + 1 ∧ (UInt8.ofFin b).toInt8.toUInt8.toNat = k + 1 ∧
        ((UInt8.ofFin b).toInt8.toInt16.toUInt16 - 1).toNat = k := by decide +kernel
  obtain ⟨k, hk⟩ := hall i.toUInt8.toFin (by simpa using h)
  exact ⟨k, Nat.le_of_lt_succ k.isLt, by simpa using hk⟩

/-- The offset of something that is `k` steps after the first. -/
theorem checkedMul_stride {steps : UInt16} {k : Nat} (hk : k ≤ 126) (hsteps : steps.toNat = k) :
    ∃ offset, checkedMul steps attributeStride = some offset ∧ offset.toNat = 8 * k := by
  have hstride : attributeStride.toNat = 8 := rfl
  refine ⟨steps * attributeStride, ?_, ?_⟩
  · rw [checkedMul, hsteps, hstride, if_pos (by omega)]
  · rw [UInt16.toNat_mul, hsteps, hstride, Nat.mod_eq_of_lt (by omega), Nat.mul_comm]

theorem attributeName_iff : o.attributeName i = some n ↔ ∃ k : Nat, i.toInt = k + 1 ∧ k < o.attributes.toNat ∧
    n.toNat = o.base.toNat + 8 * k := by
  rw [attributeName]
  by_cases hlow : i < 1
  · rw [if_pos (.inl hlow)]
    refine iff_of_false (by simp) ?_
    rintro ⟨k, hk, -⟩
    have := Int8.lt_iff_toInt_lt.mp hlow
    have hone : (1 : Int8).toInt = 1 := rfl
    omega
  · obtain ⟨k, hle, hint, hbyte, hsteps⟩ := steps_of_index hlow
    have hunique : ∀ k' : Nat, i.toInt = k' + 1 ↔ k' = k := fun k' => by omega
    simp only [hunique, exists_eq_left]
    by_cases hcount : o.attributes < i.toUInt8
    · rw [if_pos (.inr hcount)]
      have := UInt8.lt_iff_toNat_lt.mp hcount
      exact iff_of_false (by simp) (by omega)
    · have := Nat.not_lt.mp (mt UInt8.lt_iff_toNat_lt.mpr hcount)
      obtain ⟨offset, hmul, hoffset⟩ := checkedMul_stride hle hsteps
      rw [if_neg (not_or.mpr ⟨hlow, hcount⟩), hmul, Option.bind_eq_bind, Option.bind_some, checkedAdd_iff, hoffset]
      exact (and_iff_right (by omega)).symm

theorem methodName_iff : o.methodName i = some n ↔ ∃ m, o.methodOffset = some m ∧ ∃ k : Nat, i.toInt = k + 1 ∧
    k < o.methods.toNat ∧ n.toNat = o.base.toNat + m.toNat + 8 * k := by
  rw [methodName]
  cases hmethods : o.methodOffset with
  | none => exact iff_of_false (by simp) (by simp)
  | some m =>
    simp only [Option.bind_eq_bind, Option.bind_some, Option.some_inj, exists_eq_left']
    by_cases hlow : i < 1
    · rw [if_pos (.inl hlow)]
      refine iff_of_false (by simp) ?_
      rintro ⟨k, hk, -⟩
      have := Int8.lt_iff_toInt_lt.mp hlow
      have hone : (1 : Int8).toInt = 1 := rfl
      omega
    · obtain ⟨k, hle, hint, hbyte, hsteps⟩ := steps_of_index hlow
      have hunique : ∀ k' : Nat, i.toInt = k' + 1 ↔ k' = k := fun k' => by omega
      simp only [hunique, exists_eq_left]
      by_cases hcount : o.methods < i.toUInt8
      · rw [if_pos (.inr hcount)]
        have := UInt8.lt_iff_toNat_lt.mp hcount
        exact iff_of_false (by simp) (by omega)
      · have := Nat.not_lt.mp (mt UInt8.lt_iff_toNat_lt.mpr hcount)
        obtain ⟨offset, hmul, hoffset⟩ := checkedMul_stride hle hsteps
        rw [if_neg (not_or.mpr ⟨hlow, hcount⟩), hmul, Option.bind_some]
        cases hadd : checkedAdd offset m with
        | none =>
          rw [Option.bind_none]
          refine iff_of_false (by simp) fun ⟨_, hn⟩ => ?_
          have hlt := n.toNat_lt
          rw [checkedAdd, if_pos (by omega)] at hadd
          cases hadd
        | some total =>
          have htotal := checkedAdd_iff.mp hadd
          rw [Option.bind_some, checkedAdd_iff, htotal, hoffset]
          constructor
          · exact fun h => ⟨by omega, by omega⟩
          · exact fun h => by omega

/-! ## Resolving -/

/-- The number of what is `k` steps after the first, where it is one of a byte. -/
theorem idOf_toInt {steps : UInt16} {k : Nat} (hsteps : steps.toNat = k) (hk : k ≤ 126) :
    (idOf steps).toInt = k + 1 := by
  have hall : ∀ k : Fin 127, (idOf (UInt16.ofNat k)).toInt = k + 1 := by decide +kernel
  obtain rfl : steps = UInt16.ofNat k := by rw [← hsteps, UInt16.ofNat_toNat]
  exact hall ⟨k, by omega⟩

/-- The hundred and twenty-eighth has the number -128. -/
theorem idOf_last {steps : UInt16} (hsteps : steps.toNat = 127) : (idOf steps).toInt = -128 := by
  obtain rfl : steps = 127 := UInt16.toNat_inj.mp hsteps
  decide

theorem div_stride (offset : UInt16) : (offset / attributeStride).toNat = offset.toNat / 8 := UInt16.toNat_div ..

/-- Where a count is one of a byte and a step below 128, no byte is cut off. -/
theorem toUInt8_lt {steps : UInt16} {count : UInt8} (hsteps : steps.toNat < 128) :
    steps.toUInt8 < count ↔ steps.toNat < count.toNat := by
  rw [UInt8.lt_iff_toNat_lt, UInt16.toNat_toUInt8, Nat.mod_eq_of_lt (by omega)]

theorem resolveAttribute_iff {offset : UInt16} {t : ShortNameTarget} : o.resolveAttribute offset = some t ↔
    offset.toNat / 8 < 128 ∧ offset.toNat / 8 < o.attributes.toNat ∧
      t = .attribute ⟨o.classId, o.logicalName, idOf (offset / attributeStride)⟩ := by
  have hdiv := div_stride offset
  have hhigh : 0x80 ≤ offset / attributeStride ↔ 128 ≤ offset.toNat / 8 := by
    rw [UInt16.le_iff_toNat_le, hdiv]
    rfl
  rw [resolveAttribute]
  by_cases hlow : offset.toNat / 8 < 128
  · have hcount : o.attributes ≤ (offset / attributeStride).toUInt8 ↔ o.attributes.toNat ≤ offset.toNat / 8 := by
      rw [UInt8.le_iff_toNat_le, UInt16.toNat_toUInt8, hdiv, Nat.mod_eq_of_lt (by omega)]
    simp only [hhigh, hcount]
    by_cases hin : offset.toNat / 8 < o.attributes.toNat
    · rw [if_neg (by omega)]
      simp [hlow, hin, eq_comm]
    · rw [if_pos (by omega)]
      simp [hin]
  · simp only [hhigh]
    rw [if_pos (.inl (by omega))]
    simp [hlow]

theorem resolveMethod_iff {m offset : UInt16} (hm : m ≤ offset) {t : ShortNameTarget} :
    o.resolveMethod m offset = some t ↔ (offset.toNat - m.toNat) / 8 < 128 ∧
      (offset.toNat - m.toNat) / 8 < o.methods.toNat ∧
      t = .method ⟨o.classId, o.logicalName, idOf ((offset - m) / attributeStride)⟩ := by
  have hdiv : ((offset - m) / attributeStride).toNat = (offset.toNat - m.toNat) / 8 := by
    rw [div_stride, UInt16.toNat_sub_of_le _ _ hm]
  have hhigh : (offset - m) / attributeStride < 0x80 ↔ (offset.toNat - m.toNat) / 8 < 128 := by
    rw [UInt16.lt_iff_toNat_lt, hdiv]
    rfl
  rw [resolveMethod]
  by_cases hlow : (offset.toNat - m.toNat) / 8 < 128
  · have hcount : ((offset - m) / attributeStride).toUInt8 < o.methods ↔
        (offset.toNat - m.toNat) / 8 < o.methods.toNat := by
      rw [toUInt8_lt (by omega), hdiv]
    simp only [hhigh, hcount]
    by_cases hin : (offset.toNat - m.toNat) / 8 < o.methods.toNat
    · rw [if_pos ⟨hlow, hin⟩]
      simp [hlow, hin, eq_comm]
    · rw [if_neg fun h => hin h.2]
      simp [hin]
  · simp only [hhigh]
    rw [if_neg fun h => hlow h.1]
    simp [hlow]

/-- A name stands for something where it is on the grid, and the offset decides for what. -/
theorem resolve_iff {t : ShortNameTarget} : o.resolve n = some t ↔ ∃ offset : UInt16,
    n.toNat = o.base.toNat + offset.toNat ∧ offset.toNat % 8 = 0 ∧
      ((∃ m, o.methodOffset = some m ∧ m ≤ offset ∧ o.resolveMethod m offset = some t) ∨
        (∀ m, o.methodOffset = some m → ¬ m ≤ offset) ∧ o.resolveAttribute offset = some t) := by
  have hgrid : ∀ offset : UInt16, offset % attributeStride ≠ 0 ↔ offset.toNat % 8 ≠ 0 := by
    intro offset
    rw [ne_eq, ← UInt16.toNat_inj, UInt16.toNat_mod]
    rfl
  rw [resolve, checkedSub]
  by_cases hbase : o.base ≤ n
  · have hsub : (n - o.base).toNat = n.toNat - o.base.toNat := UInt16.toNat_sub_of_le _ _ hbase
    have hle := UInt16.le_iff_toNat_le.mp hbase
    have hunique : ∀ offset : UInt16, n.toNat = o.base.toNat + offset.toNat ↔ offset = n - o.base := by
      intro offset
      rw [← UInt16.toNat_inj, hsub]
      omega
    simp only [hunique, exists_eq_left]
    rw [if_pos hbase, Option.bind_eq_bind, Option.bind_some]
    by_cases hon : (n - o.base).toNat % 8 = 0
    · rw [if_neg (by rw [hgrid]; exact not_not.mpr hon)]
      cases hmethods : o.methodOffset with
      | none => simp [hon]
      | some m =>
        dsimp only
        by_cases hm : m ≤ n - o.base
        · rw [if_pos hm]
          simp [hon, hm]
        · rw [if_neg hm]
          simp [hon, UInt16.not_le.mp hm]
    · rw [if_pos ((hgrid _).mpr hon)]
      simp [hon]
  · rw [if_neg hbase]
    refine iff_of_false (by simp) ?_
    rintro ⟨offset, hn, -⟩
    exact hbase (UInt16.le_iff_toNat_le.mpr (by omega))

/-! ## One direction against the other -/

/-- The name is in front of the methods. -/
def BelowMethods (o : ShortName) (n : UInt16) : Prop :=
  ∀ m, o.methodOffset = some m → n.toNat < o.base.toNat + m.toNat

/-- The object names `n` as `t`. -/
def Names (o : ShortName) (n : UInt16) (t : ShortNameTarget) : Prop :=
  (∃ i, o.attributeName i = some n ∧ o.BelowMethods n ∧ t = .attribute ⟨o.classId, o.logicalName, i⟩) ∨
    ∃ j, o.methodName j = some n ∧ t = .method ⟨o.classId, o.logicalName, j⟩

/-- The number of the attribute or the method. -/
def idIn : ShortNameTarget → Int8
  | .attribute d => d.attributeId
  | .method d => d.methodId

/-- Resolving is the inverse of naming, and gives numbers from 1 to 127. -/
structure Inverse (o : ShortName) : Prop where
  method : ∀ n j, o.resolve n = some (.method ⟨o.classId, o.logicalName, j⟩) ↔ o.methodName j = some n
  attr : ∀ n i, o.resolve n = some (.attribute ⟨o.classId, o.logicalName, i⟩) ↔
    o.attributeName i = some n ∧ o.BelowMethods n
  own : ∀ n t, o.resolve n = some t → ∃ i, t = .method ⟨o.classId, o.logicalName, i⟩ ∨
    t = .attribute ⟨o.classId, o.logicalName, i⟩
  ids : ∀ n t, o.resolve n = some t → 1 ≤ (idIn t).toInt ∧ (idIn t).toInt ≤ 127

/-- No name is that of a hundred and twenty-eighth attribute. -/
def FewAttributes (o : ShortName) : Prop :=
  o.attributes.toNat ≤ 127 ∨ 65535 < o.base.toNat + 1016 ∨
    ∃ m, o.methodOffset = some m ∧ m.toNat ≤ 1016

/-- The methods that have a name begin on the grid, and no name is that of a hundred and twenty-eighth. -/
def MethodsOnGrid (o : ShortName) : Prop :=
  ∀ m, o.methodOffset = some m → o.methods.toNat = 0 ∨ 65535 < o.base.toNat + m.toNat ∨
    (m.toNat % 8 = 0 ∧ (o.methods.toNat ≤ 127 ∨ 65535 < o.base.toNat + m.toNat + 1016))

/-- Both directions agree of an object that is so. -/
def Regular (o : ShortName) : Prop := o.FewAttributes ∧ o.MethodsOnGrid

/-- What a name stands for, where both directions agree. -/
theorem Regular.resolve_method (h : o.Regular) {d : MethodDescriptor} (hd : o.resolve n = some (.method d)) :
    o.methodName d.methodId = some n ∧ d = ⟨o.classId, o.logicalName, d.methodId⟩ ∧
      1 ≤ d.methodId.toInt := by
  obtain ⟨offset, hn, hgrid, ⟨m, hm, hle, hmethod⟩ | ⟨-, hattribute⟩⟩ := resolve_iff.mp hd
  · obtain ⟨hlow, hcount, heq⟩ := (resolveMethod_iff hle).mp hmethod
    obtain rfl := ShortNameTarget.method.inj heq
    have hlt := n.toNat_lt
    have hle := UInt16.le_iff_toNat_le.mp hle
    have hon := h.2 m hm
    have hk : (offset.toNat - m.toNat) / 8 ≤ 126 := by omega
    have hid : (idOf ((offset - m) / attributeStride)).toInt = ((offset.toNat - m.toNat) / 8 : Nat) + 1 :=
      idOf_toInt (by rw [div_stride, UInt16.toNat_sub_of_le _ _ (UInt16.le_iff_toNat_le.mpr hle)]) hk
    refine ⟨methodName_iff.mpr ⟨m, hm, _, hid, hcount, by omega⟩, rfl, ?_⟩
    show 1 ≤ (idOf ((offset - m) / attributeStride)).toInt
    omega
  · exact absurd (resolveAttribute_iff.mp hattribute).2.2 (by simp)

theorem Regular.resolve_attribute (h : o.Regular) {d : AttributeDescriptor}
    (hd : o.resolve n = some (.attribute d)) : o.attributeName d.attributeId = some n ∧ o.BelowMethods n ∧
      d = ⟨o.classId, o.logicalName, d.attributeId⟩ ∧ 1 ≤ d.attributeId.toInt := by
  obtain ⟨offset, hn, hgrid, ⟨m, hm, hle, hmethod⟩ | ⟨hbelow, hattribute⟩⟩ := resolve_iff.mp hd
  · exact absurd ((resolveMethod_iff hle).mp hmethod).2.2 (by simp)
  · obtain ⟨hlow, hcount, heq⟩ := resolveAttribute_iff.mp hattribute
    obtain rfl := ShortNameTarget.attribute.inj heq
    have hlt := n.toNat_lt
    have hbelow : o.BelowMethods n := by
      intro m hm
      have := mt UInt16.le_iff_toNat_le.mpr (hbelow m hm)
      omega
    have hk : offset.toNat / 8 ≤ 126 := by
      obtain hfew | hfar | ⟨m, hm, hnear⟩ := h.1
      · omega
      · omega
      · have := hbelow m hm
        omega
    have hid : (idOf (offset / attributeStride)).toInt = (offset.toNat / 8 : Nat) + 1 :=
      idOf_toInt (div_stride offset) hk
    refine ⟨attributeName_iff.mpr ⟨_, hid, hcount, by omega⟩, hbelow, rfl, ?_⟩
    show 1 ≤ (idOf (offset / attributeStride)).toInt
    omega

/-- Of a sum that is a name, the part behind the base is an offset. -/
theorem offset_of_name {k : Nat} (hn : n.toNat = o.base.toNat + k) : ∃ offset : UInt16, offset.toNat = k := by
  have := n.toNat_lt
  exact ⟨UInt16.ofNat k, by rw [UInt16.toNat_ofNat', Nat.mod_eq_of_lt (by omega)]⟩

/-- The name of a method stands for it. -/
theorem Regular.methodName (h : o.Regular) {j : Int8} (hj : o.methodName j = some n) :
    o.resolve n = some (.method ⟨o.classId, o.logicalName, j⟩) := by
  obtain ⟨m, hm, k, hk, hcount, hn⟩ := methodName_iff.mp hj
  obtain ⟨offset, hoffset⟩ := offset_of_name (hn.trans (Nat.add_assoc ..))
  have hlast := j.toInt_le
  have hlt := n.toNat_lt
  have hon := h.2 m hm
  have hle : m ≤ offset := UInt16.le_iff_toNat_le.mpr (by omega)
  have hsteps : (offset.toNat - m.toNat) / 8 = k := by omega
  have hid : idOf ((offset - m) / attributeStride) = j := by
    refine Int8.toInt_inj.mp (Eq.trans (idOf_toInt ?_ ?_) hk.symm)
    · rw [div_stride, UInt16.toNat_sub_of_le _ _ hle, hsteps]
    · show (k : Nat) ≤ 126
      have : j.toInt ≤ 127 := hlast
      omega
  refine resolve_iff.mpr ⟨offset, by omega, by omega, .inl ⟨m, hm, hle, ?_⟩⟩
  refine (resolveMethod_iff hle).mpr ⟨?_, by omega, by rw [hid]⟩
  have : j.toInt ≤ 127 := hlast
  omega

/-- The name of an attribute in front of the methods stands for it. -/
theorem attributeName_resolve {i : Int8} (hi : o.attributeName i = some n) (hbelow : o.BelowMethods n) :
    o.resolve n = some (.attribute ⟨o.classId, o.logicalName, i⟩) := by
  obtain ⟨k, hk, hcount, hn⟩ := attributeName_iff.mp hi
  obtain ⟨offset, hoffset⟩ := offset_of_name hn
  have hlast : i.toInt ≤ 127 := i.toInt_le
  have hsteps : offset.toNat / 8 = k := by omega
  have hid : idOf (offset / attributeStride) = i := by
    refine Int8.toInt_inj.mp (Eq.trans (idOf_toInt ?_ ?_) hk.symm)
    · rw [div_stride, hsteps]
    · omega
  refine resolve_iff.mpr ⟨offset, by omega, by omega, .inr ⟨fun m hm hle => ?_, ?_⟩⟩
  · have := hbelow m hm
    have := UInt16.le_iff_toNat_le.mp hle
    omega
  · exact resolveAttribute_iff.mpr ⟨by omega, by omega, by rw [hid]⟩

theorem Regular.inverse (h : o.Regular) : o.Inverse where
  method n j := ⟨fun hd => (h.resolve_method hd).1, h.methodName⟩
  attr n i := by
    refine ⟨fun hd => ?_, fun hi => attributeName_resolve hi.1 hi.2⟩
    obtain ⟨hname, hbelow, -⟩ := h.resolve_attribute hd
    exact ⟨hname, hbelow⟩
  own n t ht := by
    match t with
    | .method d => exact ⟨d.methodId, .inl (congrArg _ (h.resolve_method ht).2.1)⟩
    | .attribute d => exact ⟨d.attributeId, .inr (congrArg _ (h.resolve_attribute ht).2.2.1)⟩
  ids n t ht := by
    match t with
    | .method d => exact ⟨(h.resolve_method ht).2.2, d.methodId.toInt_le⟩
    | .attribute d => exact ⟨(h.resolve_attribute ht).2.2.2, d.attributeId.toInt_le⟩

/-- A name that is `k` behind the base. -/
theorem exists_name {k : Nat} (h : o.base.toNat + k ≤ 65535) : ∃ n offset : UInt16,
    n.toNat = o.base.toNat + k ∧ offset.toNat = k := by
  refine ⟨UInt16.ofNat (o.base.toNat + k), UInt16.ofNat k, ?_, ?_⟩
  · rw [UInt16.toNat_ofNat', Nat.mod_eq_of_lt (by omega)]
  · rw [UInt16.toNat_ofNat', Nat.mod_eq_of_lt (by omega)]

/-- Of an object that is not regular, some name does not stand for what it names. -/
theorem Inverse.regular (h : o.Inverse) : o.Regular := by
  constructor
  · by_contra hmany
    obtain ⟨hcount, hroom, hfar⟩ : ¬ o.attributes.toNat ≤ 127 ∧ ¬ 65535 < o.base.toNat + 1016 ∧
        ¬ ∃ m, o.methodOffset = some m ∧ m.toNat ≤ 1016 := by
      simpa only [FewAttributes, not_or] using hmany
    obtain ⟨n, offset, hn, hoffset⟩ := exists_name (o := o) (k := 1016) (by omega)
    -- The name of the attribute after the last that a number of eight bits counts.
    have hd : o.resolve n = some (.attribute ⟨o.classId, o.logicalName, idOf (offset / attributeStride)⟩) := by
      refine resolve_iff.mpr ⟨offset, by omega, by omega, .inr ⟨fun m hm hle => hfar ⟨m, hm, ?_⟩, ?_⟩⟩
      · have := UInt16.le_iff_toNat_le.mp hle
        omega
      · exact resolveAttribute_iff.mpr ⟨by omega, by omega, rfl⟩
    have hlow := (h.ids n _ hd).1
    rw [idIn, idOf_last (by rw [div_stride, hoffset])] at hlow
    omega
  · intro m hm
    by_contra hbad
    obtain ⟨hcount, hroom, hgrid⟩ : ¬ o.methods.toNat = 0 ∧ ¬ 65535 < o.base.toNat + m.toNat ∧
        ¬ (m.toNat % 8 = 0 ∧ (o.methods.toNat ≤ 127 ∨ 65535 < o.base.toNat + m.toNat + 1016)) := by
      simpa only [not_or] using hbad
    by_cases hon : m.toNat % 8 = 0
    · obtain ⟨n, offset, hn, hoffset⟩ := exists_name (o := o) (k := m.toNat + 1016) (by omega)
      have hle : m ≤ offset := UInt16.le_iff_toNat_le.mpr (by omega)
      have hd : o.resolve n =
          some (.method ⟨o.classId, o.logicalName, idOf ((offset - m) / attributeStride)⟩) := by
        refine resolve_iff.mpr ⟨offset, by omega, by omega, .inl ⟨m, hm, hle, ?_⟩⟩
        exact (resolveMethod_iff hle).mpr ⟨by omega, by omega, rfl⟩
      have hlow := (h.ids n _ hd).1
      rw [idIn, idOf_last (by rw [div_stride, UInt16.toNat_sub_of_le _ _ hle, hoffset]; omega)] at hlow
      omega
    · -- The first method has a name off the grid.
      obtain ⟨n, offset, hn, hoffset⟩ := exists_name (o := o) (k := m.toNat) (by omega)
      have hname : o.methodName 1 = some n := by
        have hone : (1 : Int8).toInt = (0 : Nat) + 1 := rfl
        exact methodName_iff.mpr ⟨m, hm, 0, hone, by omega, by omega⟩
      obtain ⟨offset', hn', hgrid', -⟩ := resolve_iff.mp ((h.method n 1).mpr hname)
      omega

/-- Resolving is the inverse of naming if and only if the object is regular. -/
theorem inverse_iff : o.Inverse ↔ o.Regular := ⟨Inverse.regular, Regular.inverse⟩

/-- In a regular object a name stands for what it names. -/
theorem Regular.names_iff (h : o.Regular) {t : ShortNameTarget} : o.resolve n = some t ↔ o.Names n t := by
  constructor
  · intro ht
    match t with
    | .method d =>
      obtain ⟨hname, hown, -⟩ := h.resolve_method ht
      exact .inr ⟨d.methodId, hname, congrArg _ hown⟩
    | .attribute d =>
      obtain ⟨hname, hbelow, hown, -⟩ := h.resolve_attribute ht
      exact .inl ⟨d.attributeId, hname, hbelow, congrArg _ hown⟩
  · rintro (⟨i, hname, hbelow, rfl⟩ | ⟨j, hname, rfl⟩)
    · exact attributeName_resolve hname hbelow
    · exact h.methodName hname

/-! ## A table -/

/-- No name belongs to two objects of the table. -/
def Apart (objects : List ShortName) : Prop :=
  objects.Pairwise fun o o' => ∀ n t t', o.Names n t → ¬ o'.Names n t'

/-- In a table of regular objects that share no name, a name stands for what the one object that has it
names. -/
theorem resolveIn_iff {objects : List ShortName} (hregular : ∀ o ∈ objects, o.Regular) (hapart : Apart objects)
    {t : ShortNameTarget} : resolveIn objects n = some t ↔ ∃ o ∈ objects, o.Names n t := by
  induction objects with
  | nil => simp [resolveIn]
  | cons o objects ih =>
    obtain ⟨hfirst, hrest⟩ := List.pairwise_cons.mp hapart
    obtain ⟨hregular, hregulars⟩ := List.forall_mem_cons.mp hregular
    have ih := ih hregulars hrest
    unfold resolveIn at ih ⊢
    rw [List.findSome?_cons]
    cases hown : o.resolve n with
    | none =>
      dsimp only
      rw [ih]
      have hnot : ¬ o.Names n t := fun h => by simp [hregular.names_iff.mpr h] at hown
      simp [hnot]
    | some t' =>
      dsimp only
      have hnames := hregular.names_iff.mp hown
      rw [Option.some_inj]
      constructor
      · rintro rfl
        exact ⟨o, List.mem_cons_self, hnames⟩
      · rintro ⟨o', hmem, hnames'⟩
        rcases List.mem_cons.mp hmem with rfl | hmem
        · exact Option.some.inj (hown.symm.trans (hregular.names_iff.mpr hnames'))
        · exact absurd hnames' (hfirst o' hmem n t' t hnames)

/-- Over a table of objects, resolving is the inverse of naming in each of them, and finds the one object
that names a number where no two do; if and only if every object is regular. -/
theorem resolve_inverse_iff (objects : List ShortName) :
    ((∀ o ∈ objects, o.Inverse) ∧
      (Apart objects → ∀ n t, resolveIn objects n = some t ↔ ∃ o ∈ objects, o.Names n t)) ↔
    ∀ o ∈ objects, o.Regular := by
  constructor
  · exact fun h o ho => (h.1 o ho).regular
  · exact fun h => ⟨fun o ho => (h o ho).inverse, fun hapart n t => resolveIn_iff h hapart⟩

/-- Methods off the grid: what is sent for the first one is not known, and another name invokes it. An
attribute after the hundred and twenty-seventh has the number -128. -/
theorem off_grid_method :
    let o : ShortName := ⟨0x0028, 3, ⟨1, 0, 1, 8, 0, 255⟩, some 0x2C, 3, 1⟩
    let many : ShortName := ⟨0, 3, ⟨1, 0, 1, 8, 0, 255⟩, none, 200, 0⟩
    o.methodName 1 = some 0x0054 ∧ o.resolve 0x0054 = none ∧
      o.resolve 0x0058 = some (.method ⟨3, ⟨1, 0, 1, 8, 0, 255⟩, 1⟩) ∧
      many.resolve 1016 = some (.attribute ⟨3, ⟨1, 0, 1, 8, 0, 255⟩, -128⟩) ∧
      many.attributeName (-128) = none := by
  decide +kernel

end ShortName

end Dlms
