import DlmsCosem.Codec.Error
import Mathlib.Data.BitVec

/-!
# Invocation counters

A sender numbers its messages (`InvocationCounter`); the receiver takes each number from one peer
at most once (`ReplayWindow`): it remembers the highest number taken and, in a bitmap, which of
those below it were. A number that was refused stays refused (`Refuses.record`), and a number that
was taken is refused from then on (`record_refuses`).
-/

namespace Dlms

/-- A sending counter: the last value used. -/
structure InvocationCounter where
  last : UInt32
  deriving Repr, DecidableEq

namespace InvocationCounter

/-- Take the next value. There is none after `u32::MAX`. -/
def next (c : InvocationCounter) : Result (UInt32 × InvocationCounter) :=
  if c.last = 0xFFFFFFFF then Error.fail .unsupported 0
  else .ok (c.last + 1, ⟨c.last + 1⟩)

/-- The number after the last. -/
theorem next_ok {c c' : InvocationCounter} {value : UInt32} (h : c.next = .ok (value, c')) :
    c' = ⟨value⟩ ∧ value.toNat = c.last.toNat + 1 := by
  unfold next at h
  split at h
  · cases h
  · rename_i hlast
    obtain ⟨rfl, rfl⟩ := Prod.mk.inj (Except.ok.inj h)
    refine ⟨rfl, ?_⟩
    have hlt := c.last.toNat_lt
    have hne : c.last.toNat ≠ 0xFFFFFFFF := fun h => hlast (UInt32.toNat_inj.mp h)
    rw [UInt32.toNat_add]
    exact Nat.mod_eq_of_lt (by simp only [UInt32.toNat_one]; omega)

/-- There is no number after the largest. -/
theorem next_error {c : InvocationCounter} {e : Error} (h : c.next = .error e) :
    e = ⟨.unsupported, 0⟩ := by
  unfold next at h
  split at h
  · exact (Except.error.inj h).symm
  · cases h

end InvocationCounter

/-- How many values a window remembers. -/
def replayWindowMax : UInt32 := 64

/-- The largest reorder width of a window. -/
def replayWidthMax : UInt32 := replayWindowMax - 1

/-- Takes each counter from one peer at most once. Bit `i` of `seen` says that `highest - i` was
taken. -/
structure ReplayWindow where
  highest : Option UInt32
  seen : BitVec 64
  width : UInt32
  deriving Repr, DecidableEq

namespace ReplayWindow

/-- Takes only strictly increasing counters. -/
def strict : ReplayWindow := ⟨none, 0, 0⟩

/-- Tolerates arrival up to `width` values out of order. -/
def new (width : UInt32) : ReplayWindow :=
  ⟨none, 0, if width > replayWidthMax then replayWidthMax else width⟩

/-- Resumes with everything up to `highest` taken. -/
def resumed (highest width : UInt32) : ReplayWindow :=
  { new width with highest := some highest, seen := BitVec.allOnes 64 }

/-- The lowest counter that is certain to be taken next. -/
def expectedNext (w : ReplayWindow) : UInt32 :=
  match w.highest with
  | some highest => if highest = 0xFFFFFFFF then highest else highest + 1
  | none => 0

/-- Whether `received` would be taken. -/
def check (w : ReplayWindow) (received : UInt32) : Result Unit :=
  match w.highest with
  | none => .ok ()
  | some highest =>
    if received > highest then .ok ()
    else
      let back := highest - received
      if back > w.width || back ≥ replayWindowMax then Error.fail .replay 0
      else if w.seen &&& (1#64 <<< back.toNat) != 0 then Error.fail .replay 0
      else .ok ()

/-- The window after `received` was taken. -/
def record (w : ReplayWindow) (received : UInt32) : ReplayWindow :=
  match w.highest with
  | none => { w with highest := some received, seen := 1 }
  | some highest =>
    if received > highest then
      let advance := received - highest
      let seen := if advance ≥ replayWindowMax then 0 else w.seen <<< advance.toNat
      { w with highest := some received, seen := seen ||| 1 }
    else
      { w with seen := w.seen ||| (1#64 <<< (highest - received).toNat) }

/-- Take `received`. -/
def accept (w : ReplayWindow) (received : UInt32) : Result ReplayWindow := do
  w.check received
  return w.record received

/-! ## What a window refuses -/

/-- `c` is not above `highest`, and it is too old or its bit is set. -/
def Refuses (w : ReplayWindow) (c : UInt32) : Prop :=
  ∃ h, w.highest = some h ∧ c.toNat ≤ h.toNat ∧
    (w.width.toNat < h.toNat - c.toNat ∨ 64 ≤ h.toNat - c.toNat ∨
      w.seen.getLsbD (h.toNat - c.toNat) = true)

theorem and_bit_eq_zero (s : BitVec 64) (i : Nat) (hi : i < 64) :
    s &&& (1#64 <<< i) = 0 ↔ s.getLsbD i = false := by
  constructor
  · intro h
    have := congrArg (fun b : BitVec 64 => b.getLsbD i) h
    simpa [hi] using this
  · intro h
    apply BitVec.eq_of_getLsbD_eq
    intro j hj
    by_cases hji : j = i
    · subst hji; simp [h]
    · simp; grind

theorem check_ne_ok_iff {w : ReplayWindow} {c : UInt32} : w.check c ≠ .ok () ↔ w.Refuses c := by
  unfold check Refuses
  cases hh : w.highest with
  | none => simp
  | some h =>
    by_cases hgt : c > h
    · have : ¬ c.toNat ≤ h.toNat := by
        rw [gt_iff_lt, UInt32.lt_iff_toNat_lt] at hgt; omega
      simp [hgt, this]
    · have hle : c ≤ h := by
        rw [gt_iff_lt, UInt32.lt_iff_toNat_lt] at hgt
        rw [UInt32.le_iff_toNat_le]; omega
      have hb : (h - c).toNat = h.toNat - c.toNat := UInt32.toNat_sub_of_le _ _ hle
      have hwidth : h - c > w.width ↔ w.width.toNat < h.toNat - c.toNat := by
        rw [gt_iff_lt, UInt32.lt_iff_toNat_lt, hb]
      have hmax : h - c ≥ replayWindowMax ↔ 64 ≤ h.toNat - c.toNat := by
        rw [ge_iff_le, UInt32.le_iff_toNat_le, hb]; rfl
      have hc : c.toNat ≤ h.toNat := UInt32.le_iff_toNat_le.mp hle
      simp only [hgt, if_false, Option.some.injEq, exists_eq_left', hc, true_and]
      by_cases hold : h - c > w.width ∨ h - c ≥ replayWindowMax
      · rw [if_pos (by simpa using hold)]
        rw [hwidth, hmax] at hold
        simp only [ne_eq, Error.fail, reduceCtorEq, not_false_eq_true, true_iff]
        tauto
      · rw [if_neg (by simpa using hold)]
        rw [hwidth, hmax] at hold
        have hlt : h.toNat - c.toNat < 64 := by omega
        have hbit := and_bit_eq_zero w.seen _ hlt
        rw [hb]
        cases hs : w.seen.getLsbD (h.toNat - c.toNat) with
        | false => rw [hbit.mpr hs]; simp; omega
        | true =>
          have hne : w.seen &&& 1#64 <<< (h.toNat - c.toNat) ≠ 0 := by
            rw [Ne, hbit, hs]; simp
          rw [if_pos (by simpa using hne)]
          simp [Error.fail]

/-- A window after a value above all before it: what was refused has moved down with the rest. -/
theorem record_above {w : ReplayWindow} {h d : UInt32} (hh : w.highest = some h) (hd : d > h)
    (i : Nat) : (w.record d).highest = some d ∧ (w.record d).width = w.width ∧
      (w.record d).seen.getLsbD i =
        (decide (i < 64) && decide (d.toNat - h.toNat ≤ i) && w.seen.getLsbD (i - (d.toNat - h.toNat))
          || decide (i = 0)) := by
  have hle : h ≤ d := by
    rw [gt_iff_lt, UInt32.lt_iff_toNat_lt] at hd
    rw [UInt32.le_iff_toNat_le]; omega
  have hb : (d - h).toNat = d.toNat - h.toNat := UInt32.toNat_sub_of_le _ _ hle
  have hmax : d - h ≥ replayWindowMax ↔ 64 ≤ d.toNat - h.toNat := by
    rw [ge_iff_le, UInt32.le_iff_toNat_le, hb]; rfl
  unfold record
  simp only [hh, hd, if_true]
  refine ⟨trivial, trivial, ?_⟩
  by_cases hfar : d - h ≥ replayWindowMax
  · rw [if_pos hfar]
    rw [hmax] at hfar
    have : ¬ (i < 64 ∧ d.toNat - h.toNat ≤ i) := by omega
    simp
    grind
  · rw [if_neg hfar, hb]
    simp
    grind

theorem record_below {w : ReplayWindow} {h d : UInt32} (hh : w.highest = some h) (hd : ¬ d > h)
    (i : Nat) : (w.record d).highest = some h ∧ (w.record d).width = w.width ∧
      (w.record d).seen.getLsbD i =
        (w.seen.getLsbD i || decide (i < 64) && decide (i = h.toNat - d.toNat)) := by
  have hle : d ≤ h := by
    rw [gt_iff_lt, UInt32.lt_iff_toNat_lt] at hd
    rw [UInt32.le_iff_toNat_le]; omega
  have hb : (h - d).toNat = h.toNat - d.toNat := UInt32.toNat_sub_of_le _ _ hle
  unfold record
  simp only [hh, hd, if_false]
  refine ⟨trivial, trivial, ?_⟩
  rw [hb]
  simp
  grind

/-- What was refused stays refused. -/
theorem Refuses.record {w : ReplayWindow} {c : UInt32} (hc : w.Refuses c) (d : UInt32) :
    (w.record d).Refuses c := by
  obtain ⟨h, hh, hle, hold⟩ := hc
  by_cases hd : d > h
  · have hlt : h.toNat < d.toNat := by rwa [gt_iff_lt, UInt32.lt_iff_toNat_lt] at hd
    obtain ⟨h1, h2, h3⟩ := record_above hh hd (d.toNat - c.toNat)
    refine ⟨d, h1, by omega, ?_⟩
    rw [h2, h3]
    rcases hold with hold | hold | hold
    · left; omega
    · right; left; omega
    · by_cases hfar : 64 ≤ d.toNat - c.toNat
      · right; left; exact hfar
      · right; right
        have e : d.toNat - c.toNat - (d.toNat - h.toNat) = h.toNat - c.toNat := by omega
        rw [e, hold]
        simp
        omega
  · obtain ⟨h1, h2, h3⟩ := record_below hh hd (h.toNat - c.toNat)
    refine ⟨h, h1, hle, ?_⟩
    rw [h2, h3]
    rcases hold with hold | hold | hold
    · exact .inl hold
    · exact .inr (.inl hold)
    · right; right; rw [hold, Bool.true_or]

/-- What was taken is refused from then on. -/
theorem record_refuses (w : ReplayWindow) (d : UInt32) : (w.record d).Refuses d := by
  cases hh : w.highest with
  | none =>
    refine ⟨d, by simp [record, hh], Nat.le_refl _, .inr (.inr ?_)⟩
    simp [record, hh]
  | some h =>
    by_cases hd : d > h
    · obtain ⟨h1, h2, h3⟩ := record_above hh hd 0
      refine ⟨d, h1, Nat.le_refl _, .inr (.inr ?_)⟩
      rw [Nat.sub_self, h3]
      simp
    · have hle : d.toNat ≤ h.toNat := by
        rw [gt_iff_lt, UInt32.lt_iff_toNat_lt] at hd; omega
      obtain ⟨h1, h2, h3⟩ := record_below hh hd (h.toNat - d.toNat)
      refine ⟨h, h1, hle, ?_⟩
      rw [h3]
      by_cases hfar : 64 ≤ h.toNat - d.toNat
      · exact .inr (.inl hfar)
      · right; right
        simp
        omega

end ReplayWindow

end Dlms
