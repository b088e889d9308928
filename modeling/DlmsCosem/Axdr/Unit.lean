import DlmsCosem.Codec.Error
import DlmsCosem.Lib.Decimal
import DlmsCosem.Lib.Text
import Mathlib.Tactic.FieldSimp
import Mathlib.Algebra.Order.Ring.Int

/-!
# Units and scaled values

A register is an integer, a power of ten and a unit. `ScaledValue.amount` is the rational number that
this stands for. `rescale` changes the power of ten where the number stays the same, and `display` prints
the number without rounding it.
-/

namespace Dlms

open Decimal

/-- A code of the unit table: `Unit` of the source. -/
structure UnitCode where
  val : UInt8
  deriving Repr, DecidableEq

namespace UnitCode

def second : UnitCode := ⟨7⟩
def cubicMetre : UnitCode := ⟨13⟩
def joule : UnitCode := ⟨25⟩
def watt : UnitCode := ⟨27⟩
def voltAmpere : UnitCode := ⟨28⟩
def var : UnitCode := ⟨29⟩
def wattHour : UnitCode := ⟨30⟩
def voltAmpereHour : UnitCode := ⟨31⟩
def varHour : UnitCode := ⟨32⟩
def ampere : UnitCode := ⟨33⟩
def volt : UnitCode := ⟨35⟩
def hertz : UnitCode := ⟨44⟩
def kilogram : UnitCode := ⟨50⟩
def percentage : UnitCode := ⟨56⟩
def noUnit : UnitCode := ⟨255⟩

/-- The codes of the table and their symbols. -/
def table : List (UInt8 × List Char) := [
  (1, ['a']), (2, ['m', 'o']), (3, ['w', 'k']), (4, ['d']), (5, ['h']), (6, ['m', 'i', 'n']),
  (7, ['s']), (8, ['°']), (9, ['°', 'C']), (10, ['¤']), (11, ['m']), (12, ['m', '/', 's']),
  (13, ['m', '³']), (14, ['m', '³']), (15, ['m', '³', '/', 'h']), (16, ['m', '³', '/', 'h']),
  (17, ['m', '³', '/', 'd']), (18, ['m', '³', '/', 'd']), (19, ['l']), (20, ['k', 'g', '/', 's']),
  (21, ['N']), (22, ['N', 'm']), (23, ['P', 'a']), (24, ['b', 'a', 'r']), (25, ['J']),
  (26, ['J', '/', 'h']), (27, ['W']), (28, ['V', 'A']), (29, ['v', 'a', 'r']), (30, ['W', 'h']),
  (31, ['V', 'A', 'h']), (32, ['v', 'a', 'r', 'h']), (33, ['A']), (34, ['C']), (35, ['V']),
  (36, ['V', '/', 'm']), (37, ['F']), (38, ['Ω']), (39, ['Ω', 'm', '²', '/', 'm']), (40, ['W', 'b']),
  (41, ['T']), (42, ['A', '/', 'm']), (43, ['H']), (44, ['H', 'z']), (45, ['1', '/', 'W', 'h']),
  (46, ['1', '/', 'v', 'a', 'r', 'h']), (47, ['1', '/', 'V', 'A', 'h']), (48, ['V', '²', 'h']),
  (49, ['A', '²', 'h']), (50, ['k', 'g']), (51, ['S']), (52, ['K']),
  (53, ['1', '/', '(', 'V', '²', 'h', ')']), (54, ['1', '/', '(', 'A', '²', 'h', ')']),
  (55, ['1', '/', 'm', '³']), (56, ['%']), (57, ['A', 'h']), (60, ['W', 'h', '/', 'm', '³']),
  (61, ['J', '/', 'm', '³']), (62, ['m', 'o', 'l', ' ', '%']), (63, ['g', '/', 'm', '³']),
  (64, ['P', 'a', ' ', 's']), (65, ['J', '/', 'k', 'g']), (70, ['d', 'B', 'm']),
  (71, ['d', 'B', 'µ', 'V']), (72, ['d', 'B']), (254, ['?']), (255, [])]

/-- `symbol`: of a unit in the table. -/
def symbol (u : UnitCode) : Option (List Char) := table.lookup u.val

end UnitCode

/-- An integer with a power of ten and a unit. -/
structure ScaledValue where
  value : Int64
  scaler : Int8
  unit : UnitCode
  deriving DecidableEq

namespace ScaledValue

/-- `checked_mul(10)`. -/
def checkedTenfold (v : Int64) : Option Int64 :=
  if Int64.minValue.toInt ≤ v.toInt * 10 ∧ v.toInt * 10 ≤ Int64.maxValue.toInt then some (v * 10)
  else none

/-- `n` multiplications by ten. -/
def raised : Nat → Int64 → Option Int64
  | 0, v => some v
  | n + 1, v => do raised n (← checkedTenfold v)

/-- `n` divisions by ten that leave nothing. -/
def lowered : Nat → Int64 → Option Int64
  | 0, v => some v
  | n + 1, v => if v % 10 ≠ 0 then none else lowered n (v / 10)

/-- `rescale`: the same number with another power of ten. -/
def rescale (v : ScaledValue) (scaler : Int8) : Option ScaledValue := do
  let diff := v.scaler.toInt - scaler.toInt
  let value ← (match compare diff 0 with
    | .eq => some v.value
    | .gt => raised diff.toNat v.value
    | .lt => lowered (-diff).toNat v.value)
  return { value, scaler, unit := v.unit }

/-- The digits that `fmt` prints of a magnitude: with zeros behind them, or with a point among them. -/
def digits (mag : Nat) (scaler : Int) : Bytes :=
  if scaler = 0 then text mag
  else if 0 < scaler then text mag ++ List.replicate scaler.toNat 0x30
  else
    let places := (-scaler).toNat
    -- A power of ten that leaves 64 bits is above every magnitude, and so is the largest of them.
    let divisor := if 10 ^ places < 2 ^ 64 then 10 ^ places else 2 ^ 64 - 1
    text (mag / divisor) ++ 0x2E :: padded places (mag % divisor)

/-- `fmt`: the number, and its unit where that has a symbol. -/
def display (v : ScaledValue) : Bytes :=
  (if v.value < 0 then [0x2D] else []) ++ digits v.value.toInt.natAbs v.scaler.toInt ++
  match v.unit.symbol with
  | some sym => if sym.isEmpty then [] else 0x20 :: Text.bytesOf sym
  | none => []

/-- The number that a scaled value stands for. -/
def amount (v : ScaledValue) : ℚ := v.value.toInt * 10 ^ v.scaler.toInt

/-! ## Rescaling -/

theorem checkedTenfold_eq_some {v w : Int64} :
    checkedTenfold v = some w ↔ w.toInt = v.toInt * 10 := by
  have hmin : Int64.minValue.toInt = -9223372036854775808 := rfl
  have hmax : Int64.maxValue.toInt = 9223372036854775807 := rfl
  have hten : (10 : Int64).toInt = 10 := rfl
  unfold checkedTenfold
  split
  · rename_i h
    rw [hmin, hmax] at h
    have hmul : (v * 10).toInt = v.toInt * 10 := by
      rw [Int64.toInt_mul, hten]
      exact Int.bmod_eq_of_le (by omega) (by omega)
    rw [Option.some.injEq, ← Int64.toInt_inj, hmul, eq_comm]
  · rename_i h
    rw [hmin, hmax] at h
    have hlow := w.le_toInt
    have hhigh := w.toInt_lt
    exact iff_of_false nofun (by omega)

/-- A number whose multiple by a power of ten fits has all the multiples in between. -/
theorem exists_tenfold {v w : Int64} {n : Nat} (h : w.toInt = v.toInt * 10 ^ (n + 1)) :
    ∃ u : Int64, u.toInt = v.toInt * 10 := by
  have hlow := w.le_toInt
  have hhigh := w.toInt_lt
  have hpow : (1 : Int) ≤ 10 ^ n := one_le_pow₀ (by norm_num)
  rw [pow_succ', ← mul_assoc] at h
  generalize v.toInt * 10 = m at h ⊢
  have hfits : -2 ^ 63 ≤ m ∧ m < 2 ^ 63 := by
    rcases le_total 0 m with hm | hm
    · have := le_mul_of_one_le_right hm hpow
      omega
    · have := mul_le_of_one_le_right hm hpow
      omega
  exact ⟨.ofInt m, Int64.toInt_ofInt_of_le hfits.1 hfits.2⟩

theorem raised_eq_some {n : Nat} {v w : Int64} : raised n v = some w ↔ w.toInt = v.toInt * 10 ^ n := by
  induction n generalizing v with
  | zero => rw [raised, Option.some.injEq, pow_zero, mul_one, ← Int64.toInt_inj, eq_comm]
  | succ n ih =>
    rw [raised, Option.bind_eq_bind, Option.bind_eq_some_iff]
    simp only [checkedTenfold_eq_some, ih]
    constructor
    · rintro ⟨u, hu, hw⟩
      rw [hw, hu, mul_assoc, ← pow_succ']
    · intro hw
      obtain ⟨u, hu⟩ := exists_tenfold hw
      exact ⟨u, hu, by rw [hw, hu, mul_assoc, ← pow_succ']⟩

theorem lowered_eq_some {n : Nat} {v w : Int64} : lowered n v = some w ↔ v.toInt = w.toInt * 10 ^ n := by
  induction n generalizing v with
  | zero => rw [lowered, Option.some.injEq, pow_zero, mul_one, ← Int64.toInt_inj]
  | succ n ih =>
    have hten : (10 : Int64).toInt = 10 := rfl
    have hzero : (0 : Int64).toInt = 0 := rfl
    have hrem : v % 10 = 0 ↔ 10 ∣ v.toInt := by
      rw [← Int64.toInt_inj, Int64.toInt_mod, hten, hzero]
      exact (Int.dvd_iff_tmod_eq_zero ..).symm
    rw [lowered]
    by_cases hdvd : 10 ∣ v.toInt
    · have hlow := v.le_toInt
      have hhigh := v.toInt_lt
      have hcancel := Int.tdiv_mul_cancel hdvd
      have hdiv : (v / 10).toInt = v.toInt.tdiv 10 := by
        rw [Int64.toInt_div, hten]
        exact Int.bmod_eq_of_le (by omega) (by omega)
      rw [if_neg (not_not_intro (hrem.mpr hdvd)), ih, hdiv, pow_succ, ← mul_assoc]
      omega
    · rw [if_pos (mt hrem.mp hdvd)]
      refine iff_of_false nofun fun h => hdvd ?_
      rw [h, pow_succ, ← mul_assoc]
      exact Int.dvd_mul_left _ _

/-- The value with `diff` more powers of ten. -/
theorem shifted_eq_some {v x : Int64} {diff : Int} :
    (match compare diff 0 with
      | .eq => some v
      | .gt => raised diff.toNat v
      | .lt => lowered (-diff).toNat v) = some x ↔ (x.toInt : ℚ) = v.toInt * 10 ^ diff := by
  rcases lt_trichotomy diff 0 with h | rfl | h
  · obtain ⟨n, rfl⟩ : ∃ n : Nat, diff = -n := ⟨(-diff).toNat, by omega⟩
    have hne : (10 : ℚ) ^ n ≠ 0 := pow_ne_zero n (by norm_num)
    rw [compare_lt_iff_lt.mpr h]
    dsimp only
    rw [neg_neg, Int.toNat_natCast, lowered_eq_some, zpow_neg, zpow_natCast, eq_mul_inv_iff_mul_eq₀ hne]
    norm_cast
    exact eq_comm
  · rw [compare_eq_iff_eq.mpr rfl]
    dsimp only
    rw [Option.some.injEq, zpow_zero, mul_one, Int.cast_inj, Int64.toInt_inj, eq_comm]
  · obtain ⟨n, rfl⟩ : ∃ n : Nat, diff = n := ⟨diff.toNat, by omega⟩
    rw [compare_gt_iff_gt.mpr h]
    dsimp only
    rw [Int.toNat_natCast, raised_eq_some, zpow_natCast]
    norm_cast

theorem rescale_eq_some {v w : ScaledValue} {s : Int8} : v.rescale s = some w ↔
    w.scaler = s ∧ w.unit = v.unit ∧
      (w.value.toInt : ℚ) = v.value.toInt * 10 ^ (v.scaler.toInt - s.toInt) := by
  unfold rescale
  simp only [Option.bind_eq_bind, Option.bind_eq_some_iff, shifted_eq_some]
  constructor
  · rintro ⟨x, hx, hw⟩
    obtain rfl := Option.some.inj hw
    exact ⟨rfl, rfl, hx⟩
  · rintro ⟨rfl, hunit, hvalue⟩
    exact ⟨w.value, hvalue, by rw [← hunit]; rfl⟩

/-! ## Printing -/

/-- The digits on both sides of the point, and the number that they make. -/
theorem digits_parts {mag : Nat} (hmag : mag < 2 ^ 64 - 1) (scaler : Int) :
    ∃ whole fraction, whole ≠ [] ∧ (∀ b ∈ whole ++ fraction, IsDigit b) ∧
      (digits mag scaler = whole ∧ fraction = [] ∨
        digits mag scaler = whole ++ 0x2E :: fraction ∧ fraction ≠ []) ∧
      (Decimal.value whole + Decimal.value fraction / 10 ^ fraction.length : ℚ) = mag * 10 ^ scaler := by
  obtain ⟨hne, htext, hvalue⟩ := text_spec mag
  rcases lt_trichotomy scaler 0 with h | rfl | h
  · obtain ⟨n, rfl⟩ : ∃ n : Nat, scaler = -n := ⟨(-scaler).toNat, by omega⟩
    have hn : 0 < n := by omega
    have hpow : (10 : ℚ) ^ n ≠ 0 := pow_ne_zero n (by norm_num)
    -- The divisor splits the magnitude as the power of ten does.
    obtain ⟨d, hd, hlt, hsplit⟩ : ∃ d, d = (if 10 ^ n < 2 ^ 64 then 10 ^ n else 2 ^ 64 - 1) ∧
        mag % d < 10 ^ n ∧ mag / d * 10 ^ n + mag % d = mag := by
      refine ⟨_, rfl, ?_⟩
      split
      · exact ⟨Nat.mod_lt _ (by positivity), by rw [Nat.mul_comm]; exact Nat.div_add_mod ..⟩
      · rw [Nat.mod_eq_of_lt hmag, Nat.div_eq_of_lt hmag]
        omega
    obtain ⟨hlen, hpadded, hfraction⟩ := padded_spec hn hlt
    obtain ⟨hwhole, hwholes, hint⟩ := text_spec (mag / d)
    refine ⟨text (mag / d), padded n (mag % d), hwhole, fun b hb => ?_, .inr ⟨?_, ?_⟩, ?_⟩
    · exact (List.mem_append.mp hb).elim (hwholes b) (hpadded b)
    · rw [hd, digits, if_neg (by omega), if_neg (by omega), neg_neg, Int.toNat_natCast]
    · rintro hnil
      rw [hnil] at hlen
      exact absurd hlen (by simpa using hn.ne)
    · rw [hint, hfraction, hlen, zpow_neg, zpow_natCast, ← div_eq_mul_inv]
      conv_rhs => rw [← hsplit]
      push_cast
      rw [add_div, mul_div_cancel_right₀ _ hpow]
  · refine ⟨text mag, [], hne, by simpa using htext, .inl ⟨by rw [digits, if_pos rfl], rfl⟩, ?_⟩
    rw [hvalue, value_nil, zpow_zero]
    simp
  · obtain ⟨n, rfl⟩ : ∃ n : Nat, scaler = n := ⟨scaler.toNat, by omega⟩
    refine ⟨text mag ++ List.replicate n 0x30, [], List.append_ne_nil_of_left_ne_nil hne _, fun b hb => ?_,
      .inl ⟨by rw [digits, if_neg (by omega), if_pos h, Int.toNat_natCast], rfl⟩, ?_⟩
    · rw [List.append_nil] at hb
      rcases List.mem_append.mp hb with hb | hb
      · exact htext b hb
      · rw [List.eq_of_mem_replicate hb]
        decide
    · rw [value_append_eq, value_replicate_zero, hvalue, List.length_replicate, value_nil, zpow_natCast]
      simp

/-- What is printed is read as the number. -/
theorem digits_read {mag : Nat} (hmag : mag < 2 ^ 64 - 1) (scaler : Int) :
    readUnsigned (digits mag scaler) = some (mag * 10 ^ scaler : ℚ) := by
  obtain ⟨whole, fraction, hne, hall, hdigits, hvalue⟩ := digits_parts hmag scaler
  rw [← hvalue]
  rcases hdigits with ⟨hdigits, rfl⟩ | ⟨hdigits, hfraction⟩
  · rw [hdigits, readUnsigned_whole hne (by simpa using hall), value_nil]
    simp
  · rw [hdigits, readUnsigned_pointed hne hfraction hall]

/-- A digit comes first, and no space is among them. -/
theorem digits_bytes {mag : Nat} (hmag : mag < 2 ^ 64 - 1) (scaler : Int) :
    (∀ b ∈ (digits mag scaler).head?, IsDigit b) ∧ ∀ b ∈ digits mag scaler, b ≠ 0x20 := by
  obtain ⟨whole, fraction, hne, hall, hdigits, -⟩ := digits_parts hmag scaler
  have hspace : ∀ b ∈ whole ++ fraction, b ≠ 0x20 := by
    rintro b hb rfl
    exact absurd (hall _ hb) (by decide)
  obtain ⟨b, whole, rfl⟩ := List.exists_cons_of_ne_nil hne
  have hhead : IsDigit b := hall b (by simp)
  rcases hdigits with ⟨hdigits, rfl⟩ | ⟨hdigits, -⟩
  · rw [hdigits]
    exact ⟨by simpa using hhead, by simpa using hspace⟩
  · rw [hdigits]
    refine ⟨by simpa using hhead, fun x hx => ?_⟩
    rcases List.mem_append.mp hx with hx | hx
    · exact hspace x (List.mem_append_left _ hx)
    · rcases List.mem_cons.mp hx with rfl | hx
      · decide
      · exact hspace x (List.mem_append_right _ hx)

/-- What stands in front of the first space. -/
theorem display_takeWhile (v : ScaledValue) : v.display.takeWhile (· != 0x20) =
    (if v.value < 0 then [0x2D] else []) ++ digits v.value.toInt.natAbs v.scaler.toInt := by
  have hlow := v.value.le_toInt
  have hhigh := v.value.toInt_lt
  have hmag : v.value.toInt.natAbs < 2 ^ 64 - 1 := by omega
  obtain ⟨-, hspace⟩ := digits_bytes hmag v.scaler.toInt
  have hnumber : ∀ b ∈ (if v.value < 0 then [0x2D] else []) ++ digits v.value.toInt.natAbs v.scaler.toInt,
      (b != 0x20) = true := by
    intro b hb
    rw [bne_iff_ne]
    rcases List.mem_append.mp hb with hb | hb
    · split at hb
      · rw [List.mem_singleton.mp hb]
        decide
      · cases hb
    · exact hspace b hb
  have hstop : ¬ ((0x20 : UInt8) != 0x20) = true := by decide
  unfold display
  rw [List.takeWhile_append_of_pos hnumber]
  cases v.unit.symbol with
  | none => rw [List.takeWhile_nil, List.append_nil]
  | some sym =>
    dsimp only
    by_cases hsym : sym.isEmpty = true
    · rw [if_pos hsym, List.takeWhile_nil, List.append_nil]
    · rw [if_neg hsym, List.takeWhile_cons_of_neg (p := (· != 0x20)) hstop, List.append_nil]

/-- What stands in front of the unit is read as the amount. -/
theorem display_read (v : ScaledValue) : read (v.display.takeWhile (· != 0x20)) = some v.amount := by
  have hlow := v.value.le_toInt
  have hhigh := v.value.toInt_lt
  have hmag : v.value.toInt.natAbs < 2 ^ 64 - 1 := by omega
  have hread := digits_read hmag v.scaler.toInt
  have hsign : v.value < 0 ↔ v.value.toInt < 0 := Int64.lt_iff_toInt_lt
  rw [display_takeWhile, amount]
  by_cases hneg : v.value.toInt < 0
  · have habs : (v.value.toInt.natAbs : ℚ) = -v.value.toInt := by
      rw [Nat.cast_natAbs, abs_of_neg hneg, Int.cast_neg]
    rw [if_pos (hsign.mpr hneg), List.singleton_append, read_negative, hread, habs, Option.map_some,
      neg_mul, neg_neg]
  · have habs : (v.value.toInt.natAbs : ℚ) = v.value.toInt := by
      rw [Nat.cast_natAbs, abs_of_nonneg (Int.not_lt.mp hneg)]
    rw [if_neg (mt hsign.mp hneg), List.nil_append, read_digits (digits_bytes hmag _).1, hread, habs]

end ScaledValue

/-- Rescaling gives a value where the number is a whole one of the other power of ten and fits, and then
that one. What is printed in front of the unit is the number, digit for digit. -/
theorem scaled_value_exact (v : ScaledValue) :
    (∀ (s : Int8) (w : ScaledValue), v.rescale s = some w ↔ w.scaler = s ∧ w.unit = v.unit ∧
      (w.value.toInt : ℚ) = v.value.toInt * 10 ^ (v.scaler.toInt - s.toInt)) ∧
    (∀ s : Int8, (v.rescale s).isSome ↔ ∃ n : Int, -2 ^ 63 ≤ n ∧ n < 2 ^ 63 ∧
      (n : ℚ) = v.value.toInt * 10 ^ (v.scaler.toInt - s.toInt)) ∧
    read (v.display.takeWhile (· != 0x20)) = some (v.value.toInt * 10 ^ v.scaler.toInt : ℚ) := by
  refine ⟨fun s w => ScaledValue.rescale_eq_some, fun s => ?_, v.display_read⟩
  rw [Option.isSome_iff_exists]
  constructor
  · rintro ⟨w, hw⟩
    obtain ⟨-, -, hvalue⟩ := ScaledValue.rescale_eq_some.mp hw
    exact ⟨w.value.toInt, w.value.le_toInt, w.value.toInt_lt, hvalue⟩
  · rintro ⟨n, hlow, hhigh, hn⟩
    refine ⟨⟨.ofInt n, s, v.unit⟩, ScaledValue.rescale_eq_some.mpr ⟨rfl, rfl, ?_⟩⟩
    rw [Int64.toInt_ofInt_of_le hlow hhigh, hn]

example : (ScaledValue.mk 12345 (-3) .wattHour).display = Text.bytesOf
    ['1', '2', '.', '3', '4', '5', ' ', 'W', 'h'] := by decide +kernel

end Dlms
