import Mathlib.Data.List.Basic
import Mathlib.Data.List.TakeWhile
import Mathlib.Data.Rat.Cast.Order
import Mathlib.Order.Basic
import Mathlib.Tactic.Ring

/-!
# Numbers in decimal digits

`value` is the number that ASCII digits spell, `text` the digits of a number without leading zeros and
`padded` with them. Reading one more digit never makes a number smaller (`le_valueFrom`), so a bound that
is checked at each digit is a bound on the whole. `read` is the rational number of a decimal with a sign
and a point.
-/

namespace Decimal

/-- An ASCII digit. -/
def IsDigit (b : UInt8) : Prop := 0x30 ≤ b ∧ b ≤ 0x39

instance (b : UInt8) : Decidable (IsDigit b) := inferInstanceAs (Decidable (_ ∧ _))

/-- The number a digit stands for. -/
def digit (b : UInt8) : Nat := (b - 0x30).toNat

/-- The number that some digits make of what was read in front of them. -/
def valueFrom : Nat → List UInt8 → Nat
  | v, [] => v
  | v, b :: ds => valueFrom (10 * v + digit b) ds

/-- The number that some digits spell. -/
def value (ds : List UInt8) : Nat := valueFrom 0 ds

variable {b : UInt8} {v : Nat} {ds es : List UInt8}

@[simp] theorem valueFrom_nil : valueFrom v [] = v := by rw [valueFrom]

@[simp] theorem valueFrom_cons : valueFrom v (b :: ds) = valueFrom (10 * v + digit b) ds := by
  rw [valueFrom]

@[simp] theorem value_nil : value [] = 0 := by simp [value]

theorem valueFrom_append : valueFrom v (ds ++ es) = valueFrom (valueFrom v ds) es := by
  induction ds generalizing v with
  | nil => simp
  | cons b ds ih => simp [ih]

theorem value_append : value (ds ++ es) = valueFrom (value ds) es := valueFrom_append

theorem valueFrom_eq (v : Nat) (ds : List UInt8) : valueFrom v ds = v * 10 ^ ds.length + value ds := by
  induction ds generalizing v with
  | nil => simp
  | cons b ds ih =>
    rw [value, valueFrom_cons, valueFrom_cons, ih, ih (10 * 0 + digit b), List.length_cons, Nat.pow_succ]
    ring

/-- Digits in front of others count for as many powers of ten more. -/
theorem value_append_eq (ds es : List UInt8) : value (ds ++ es) = value ds * 10 ^ es.length + value es := by
  rw [value_append, valueFrom_eq]

theorem value_concat : value (ds ++ [b]) = 10 * value ds + digit b := by
  simp [value_append]

theorem le_valueFrom (v : Nat) (ds : List UInt8) : v ≤ valueFrom v ds := by
  induction ds generalizing v with
  | nil => simp
  | cons b ds ih =>
    rw [valueFrom_cons]
    have := ih (10 * v + digit b)
    omega

theorem value_le_append (ds es : List UInt8) : value ds ≤ value (ds ++ es) := by
  rw [value_append]
  exact le_valueFrom ..

/-- The digit that stands for a number below ten. -/
def digitOf (d : Nat) : UInt8 := UInt8.ofNat (0x30 + d)

theorem digitOf_spec {d : Nat} (h : d < 10) : IsDigit (digitOf d) ∧ digit (digitOf d) = d := by
  have hall : ∀ d : Fin 10, IsDigit (digitOf d) ∧ digit (digitOf d) = d := by decide
  exact hall ⟨d, h⟩

/-- The digits of a number. -/
def text (n : Nat) : List UInt8 := if n < 10 then [digitOf n] else text (n / 10) ++ [digitOf (n % 10)]

theorem text_spec (n : Nat) : text n ≠ [] ∧ (∀ b ∈ text n, IsDigit b) ∧ value (text n) = n := by
  induction n using text.induct with
  | case1 n hn =>
    obtain ⟨hdigit, hvalue⟩ := digitOf_spec hn
    rw [text, if_pos hn]
    refine ⟨by simp, by simpa using hdigit, ?_⟩
    rw [value, valueFrom_cons, valueFrom_nil, hvalue, Nat.mul_zero, Nat.zero_add]
  | case2 n hn ih =>
    obtain ⟨-, hdigits, hvalue⟩ := ih
    obtain ⟨hdigit, hlast⟩ := digitOf_spec (Nat.mod_lt n (by omega : 0 < 10))
    rw [text, if_neg hn]
    refine ⟨by simp, fun b hb => ?_, ?_⟩
    · rcases List.mem_append.mp hb with hb | hb
      · exact hdigits b hb
      · rwa [List.mem_singleton.mp hb]
    · rw [value_concat, hvalue, hlast]
      omega

theorem length_text_le {n k : Nat} (hk : 0 < k) (h : n < 10 ^ k) : (text n).length ≤ k := by
  induction k generalizing n with
  | zero => exact absurd hk (Nat.lt_irrefl 0)
  | succ k ih =>
    by_cases hn : n < 10
    · rw [text, if_pos hn, List.length_singleton]
      omega
    · have hpos : 0 < k := by
        rcases Nat.eq_zero_or_pos k with rfl | hpos
        · omega
        · exact hpos
      rw [Nat.pow_succ] at h
      have := ih hpos (Nat.div_lt_of_lt_mul (by rw [Nat.mul_comm]; exact h))
      rw [text, if_neg hn, List.length_append, List.length_singleton]
      omega

/-! ## Zeros -/

theorem value_replicate_zero (k : Nat) : value (List.replicate k 0x30) = 0 := by
  induction k with
  | zero => rw [List.replicate_zero, value_nil]
  | succ k ih =>
    have hdigit : digit 0x30 = 0 := by decide
    rw [List.replicate_succ', value_concat, ih, hdigit]

/-- The digits of a number, after as many zeros as there are digits less than `width`. -/
def padded (width n : Nat) : List UInt8 := List.replicate (width - (text n).length) 0x30 ++ text n

theorem padded_spec {width n : Nat} (hw : 0 < width) (h : n < 10 ^ width) :
    (padded width n).length = width ∧ (∀ b ∈ padded width n, IsDigit b) ∧ value (padded width n) = n := by
  obtain ⟨-, hdigits, hvalue⟩ := text_spec n
  have hlen := length_text_le hw h
  unfold padded
  refine ⟨?_, fun b hb => ?_, ?_⟩
  · rw [List.length_append, List.length_replicate]
    omega
  · rcases List.mem_append.mp hb with hb | hb
    · rw [List.eq_of_mem_replicate hb]
      decide
    · exact hdigits b hb
  · rw [value_append_eq, value_replicate_zero, hvalue, Nat.zero_mul, Nat.zero_add]

/-! ## Decimals -/

/-- The number of some digits, with a point in them or not. -/
def readUnsigned (s : List UInt8) : Option ℚ :=
  let whole := s.takeWhile (· != 0x2E)
  match s.dropWhile (· != 0x2E) with
  | [] => if whole ≠ [] ∧ whole.all (IsDigit ·) then some (value whole) else none
  | _ :: fraction =>
    if whole ≠ [] ∧ fraction ≠ [] ∧ (whole ++ fraction).all (IsDigit ·) then
      some (value whole + value fraction / 10 ^ fraction.length)
    else none

/-- The number of a decimal. -/
def read : List UInt8 → Option ℚ
  | 0x2D :: s => (readUnsigned s).map (- ·)
  | s => readUnsigned s

private theorem ne_point (h : IsDigit b) : (b != 0x2E) = true := by
  rw [bne_iff_ne]
  rintro rfl
  exact absurd h (by decide)

theorem readUnsigned_whole (hne : ds ≠ []) (hds : ∀ b ∈ ds, IsDigit b) :
    readUnsigned ds = some (value ds : ℚ) := by
  have htake : ds.takeWhile (· != 0x2E) = ds :=
    List.takeWhile_eq_self_iff.mpr fun b hb => ne_point (hds b hb)
  have hdrop : ds.dropWhile (· != 0x2E) = [] :=
    List.dropWhile_eq_nil_iff.mpr fun b hb => ne_point (hds b hb)
  rw [readUnsigned, hdrop, htake]
  exact if_pos ⟨hne, List.all_eq_true.mpr fun b hb => decide_eq_true (hds b hb)⟩

theorem readUnsigned_pointed (hds : ds ≠ []) (hes : es ≠ []) (hall : ∀ b ∈ ds ++ es, IsDigit b) :
    readUnsigned (ds ++ 0x2E :: es) = some (value ds + value es / 10 ^ es.length : ℚ) := by
  have hpass : ∀ b ∈ ds, (b != 0x2E) = true := fun b hb =>
    ne_point (hall b (List.mem_append_left _ hb))
  have hstop : ¬ ((0x2E : UInt8) != 0x2E) = true := by decide
  have htake : (ds ++ 0x2E :: es).takeWhile (· != 0x2E) = ds := by
    rw [List.takeWhile_append_of_pos hpass, List.takeWhile_cons_of_neg (p := (· != 0x2E)) hstop, List.append_nil]
  have hdrop : (ds ++ 0x2E :: es).dropWhile (· != 0x2E) = 0x2E :: es := by
    rw [List.dropWhile_append_of_pos hpass, List.dropWhile_cons_of_neg (p := (· != 0x2E)) hstop]
  rw [readUnsigned, hdrop, htake]
  exact if_pos ⟨hds, hes, List.all_eq_true.mpr fun b hb => decide_eq_true (hall b hb)⟩

theorem read_negative (s : List UInt8) : read (0x2D :: s) = (readUnsigned s).map (- ·) := rfl

/-- There is no sign in front of a digit. -/
theorem read_digits {s : List UInt8} (h : ∀ b ∈ s.head?, IsDigit b) : read s = readUnsigned s := by
  unfold read
  split
  · exact absurd (h _ rfl) (by decide)
  · rfl

end Decimal
