import Mathlib.Data.List.Range
import Mathlib.Order.Basic

/-!
# Numbered parts

Parts that are numbered from one arrive in any order, some of them more than once and some not at all,
and each is taken only where it is the next one. What was taken last is the length of the longest run of
numbers, from the start on, that arrived in order (`le_lastTaken_iff`).
-/

namespace Dlms

/-- The last part that is taken of those that arrive, where `n` is the last that is taken already. -/
def lastTaken (n : Nat) : List Nat → Nat
  | [] => n
  | k :: ks => lastTaken (if k = n + 1 then k else n) ks

theorem le_lastTaken (n : Nat) (ks : List Nat) : n ≤ lastTaken n ks := by
  induction ks generalizing n with
  | nil => exact le_rfl
  | cons k ks ih =>
    rw [lastTaken]
    split
    · next h => exact le_trans (by omega) (ih k)
    · exact ih n

theorem lastTaken_mono {n m : Nat} (h : n ≤ m) (ks : List Nat) : lastTaken n ks ≤ lastTaken m ks := by
  induction ks generalizing n m with
  | nil => exact h
  | cons k ks ih =>
    rw [lastTaken, lastTaken]
    apply ih
    split <;> split <;> omega

theorem lastTaken_cons (n k : Nat) (ks : List Nat) :
    lastTaken n (k :: ks) = lastTaken (lastTaken n [k]) ks := rfl

/-- What is taken arrived in order. -/
theorem lastTaken_sublist (n : Nat) (ks : List Nat) :
    (List.range' (n + 1) (lastTaken n ks - n)).Sublist ks := by
  induction ks generalizing n with
  | nil => rw [lastTaken, Nat.sub_self]; exact List.Sublist.refl _
  | cons k ks ih =>
    rw [lastTaken]
    split
    · next h =>
      subst h
      have hle := le_lastTaken (n + 1) ks
      have hsplit : lastTaken (n + 1) ks - n = lastTaken (n + 1) ks - (n + 1) + 1 := by omega
      rw [hsplit, List.range'_succ]
      exact (ih (n + 1)).cons_cons _
    · exact (ih n).cons _

/-- What arrives in order is taken. -/
theorem le_lastTaken_of_sublist {n m : Nat} {ks : List Nat} (h : (List.range' (n + 1) m).Sublist ks) :
    n + m ≤ lastTaken n ks := by
  induction ks generalizing n m with
  | nil =>
    have hnil := List.sublist_nil.mp h
    rw [List.range'_eq_nil_iff] at hnil
    rw [hnil, lastTaken, Nat.add_zero]
  | cons k ks ih =>
    rw [lastTaken]
    cases m with
    | zero => exact le_trans (by split <;> omega) (le_lastTaken _ ks)
    | succ m =>
      rw [List.range'_succ] at h
      split
      · next hk =>
        subst hk
        have hrest := ih (List.cons_sublist_cons.mp h)
        omega
      · next hk =>
        cases h with
        | cons _ h =>
          have hrest : n + (m + 1) ≤ lastTaken n ks := ih (by rwa [List.range'_succ])
          omega
        | cons_cons => exact absurd rfl hk

/-- The last part that is taken is the length of the longest run that arrives in order. -/
theorem le_lastTaken_iff (m : Nat) (ks : List Nat) :
    m ≤ lastTaken 0 ks ↔ (List.range' 1 m).Sublist ks := by
  refine ⟨fun h => ?_, fun h => ?_⟩
  · refine (List.Sublist.trans ?_ (lastTaken_sublist 0 ks))
    rw [Nat.sub_zero, Nat.zero_add]
    exact List.range'_sublist_right.mpr h
  · have := le_lastTaken_of_sublist h
    omega

end Dlms
