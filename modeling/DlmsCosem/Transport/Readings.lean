import DlmsCosem.Axdr.Unit
import DlmsCosem.Transport.P1
import DlmsCosem.Xdlms.Descriptor
import Mathlib.Tactic.FieldSimp

/-!
# Readings of a telegram

A line of a telegram is a name and some values in parentheses. `Line.asScaled` takes the first value for
a decimal with a unit, and puts the point and the SI prefix into the scaler. `Reading` is what such a text
says as a rational number; `Line.asScaled_iff` says which texts are taken, and `Reading.result_amount`
that nothing is rounded.
-/

namespace Dlms

namespace P1

open Decimal

/-! ## Numbers and units -/

/-- The `.` of a decimal. -/
def point : UInt8 := 0x2E

/-- What an operation on `i64` gives if it is checked. -/
def checkedI64 (v : Int) : Option Int :=
  if Int64.minValue.toInt ≤ v ∧ v ≤ Int64.maxValue.toInt then some v else none

/-- Where `parse_decimal` is in its digits. -/
structure DecimalScan where
  mantissa : Int
  decimals : Nat
  seenPoint : Bool
  any : Bool
  deriving Repr, DecidableEq

/-- One byte of a decimal. The count of decimals has eight bits. -/
def DecimalScan.step (s : DecimalScan) (b : UInt8) : Option DecimalScan :=
  if IsDigit b then do
    let mantissa ← checkedI64 (s.mantissa * 10)
    let mantissa ← checkedI64 (mantissa + digit b)
    let decimals ←
      if s.seenPoint then if s.decimals + 1 ≤ 255 then some (s.decimals + 1) else none
      else some s.decimals
    return ⟨mantissa, decimals, s.seenPoint, true⟩
  else if b = point && !s.seenPoint then some { s with seenPoint := true }
  else none

/-- The sign of a decimal, and what follows it. -/
def signOf : Bytes → Int × Bytes
  | 0x2D :: rest => (-1, rest)
  | 0x2B :: rest => (1, rest)
  | s => (1, s)

/-- `parse_decimal`: the mantissa and the digits behind the point. -/
def parseDecimal (s : Bytes) : Option (Int × Nat) := do
  let (sign, digits) := signOf s
  let scan ← digits.foldlM DecimalScan.step ⟨0, 0, false, false⟩
  let mantissa ← checkedI64 (scan.mantissa * sign)
  if scan.any then some (mantissa, scan.decimals) else none

/-- The symbols of the units, with the exponent of their SI prefix. -/
def units : List (List Char × UnitCode × Int8) := [
  ([], .noUnit, 0),
  (['W'], .watt, 0), (['k', 'W'], .watt, 3), (['M', 'W'], .watt, 6),
  (['W', 'h'], .wattHour, 0), (['k', 'W', 'h'], .wattHour, 3), (['M', 'W', 'h'], .wattHour, 6),
  (['v', 'a', 'r'], .var, 0), (['k', 'v', 'a', 'r'], .var, 3),
  (['v', 'a', 'r', 'h'], .varHour, 0), (['k', 'v', 'a', 'r', 'h'], .varHour, 3),
  (['V', 'A'], .voltAmpere, 0), (['k', 'V', 'A'], .voltAmpere, 3),
  (['V', 'A', 'h'], .voltAmpereHour, 0), (['k', 'V', 'A', 'h'], .voltAmpereHour, 3),
  (['V'], .volt, 0), (['A'], .ampere, 0), (['H', 'z'], .hertz, 0), (['s'], .second, 0),
  (['m', '3'], .cubicMetre, 0), (['m', '³'], .cubicMetre, 0), (['d', 'm', '3'], .cubicMetre, -3),
  (['G', 'J'], .joule, 9), (['M', 'J'], .joule, 6), (['J'], .joule, 0),
  (['k', 'g'], .kilogram, 0), (['%'], .percentage, 0)]

/-- `parse_unit`: the unit of a symbol, and the exponent of its prefix. -/
def parseUnit (symbol : Bytes) : Option (UnitCode × Int8) :=
  (units.find? fun u => Text.bytesOf u.1 == symbol).map (·.2)

/-! ## A line -/

/-- A name and everything from the first parenthesis on. -/
structure Line where
  obis : Obis
  raw : Bytes
  deriving Repr, DecidableEq

namespace Line

/-- One turn of the iterator of `values`: a value, and what follows it. -/
def nextValue (rest : Bytes) : Option (Bytes × Bytes) := do
  let start ← rest.idxOf? 0x28
  let after := rest.drop (start + 1)
  let close ← after.idxOf? 0x29
  return (after.take close, after.drop (close + 1))

/-- `as_str`: the first value. -/
def asStr (l : Line) : Option Bytes := (nextValue l.raw).map (·.1)

/-- `split_once('*')`, with nothing behind a `*` that is not there. -/
def splitUnit (text : Bytes) : Bytes × Bytes :=
  match text.idxOf? 0x2A with
  | some at' => (text.take at', text.drop (at' + 1))
  | none => (text, [])

/-- `as_scaled`: the first value as a decimal with its unit. -/
def asScaled (l : Line) : Option ScaledValue := do
  let text ← l.asStr
  let (number, unitText) := splitUnit text
  let (unit, si) ← parseUnit unitText
  let (mantissa, decimals) ← parseDecimal number
  let scaler := si.toInt - decimals
  if Int8.minValue.toInt ≤ scaler ∧ scaler ≤ Int8.maxValue.toInt then
    some ⟨.ofInt mantissa, .ofInt scaler, unit⟩
  else none

end Line

/-! ## What a decimal spells -/

variable {s : Bytes} {scan scan' : DecimalScan} {m : Nat} {b : UInt8}

theorem checkedI64_nat (n : Nat) : checkedI64 n = if n < 9223372036854775808 then some (n : Int) else none := by
  have hmin : Int64.minValue.toInt = -9223372036854775808 := rfl
  have hmax : Int64.maxValue.toInt = 9223372036854775807 := rfl
  rw [checkedI64, hmin, hmax]
  by_cases h : n < 9223372036854775808
  · rw [if_pos h, if_pos (by omega)]
  · rw [if_neg h, if_neg (by omega)]

/-- A digit is read while mantissa and count stay in their range. -/
theorem step_digit (hb : IsDigit b) (hm : scan.mantissa = m) : scan.step b =
    if 10 * m + digit b < 9223372036854775808 ∧ (scan.seenPoint = true → scan.decimals < 255) then
      some ⟨((10 * m + digit b : Nat) : Int), scan.decimals + (if scan.seenPoint then 1 else 0),
        scan.seenPoint, true⟩
    else none := by
  have hten : scan.mantissa * 10 = ((10 * m : Nat) : Int) := by rw [hm]; omega
  have hsum : ((10 * m : Nat) : Int) + digit b = ((10 * m + digit b : Nat) : Int) := by omega
  rw [DecimalScan.step, if_pos hb, hten, checkedI64_nat]
  by_cases hfits : 10 * m + digit b < 9223372036854775808
  · rw [if_pos (by omega), Option.bind_eq_bind, Option.bind_some, hsum, checkedI64_nat, if_pos hfits]
    cases scan.seenPoint
    · simp [hfits]
    · by_cases hcount : scan.decimals < 255
      · have : scan.decimals + 1 ≤ 255 := hcount
        simp [hfits, hcount, this]
      · have : ¬ scan.decimals + 1 ≤ 255 := hcount
        simp [hcount, this]
  · have hno : ¬ (10 * m + digit b < 9223372036854775808 ∧
        (scan.seenPoint = true → scan.decimals < 255)) := fun h => hfits h.1
    rw [if_neg hno]
    by_cases hsmall : 10 * m < 9223372036854775808
    · rw [if_pos hsmall, Option.bind_eq_bind, Option.bind_some, hsum, checkedI64_nat, if_neg hfits]
      rfl
    · rw [if_neg hsmall]
      rfl

theorem not_isDigit_point : ¬ IsDigit point := by decide

/-- Behind the point there are only digits. -/
theorem foldl_fraction (hm : scan.mantissa = m) (hlt : m < 9223372036854775808)
    (hpoint : scan.seenPoint = true) (hcount : scan.decimals ≤ 255) :
    s.foldlM DecimalScan.step scan = some scan' ↔ (∀ b ∈ s, IsDigit b) ∧
      valueFrom m s < 9223372036854775808 ∧ scan.decimals + s.length ≤ 255 ∧
      scan' = ⟨valueFrom m s, scan.decimals + s.length, true, scan.any || !s.isEmpty⟩ := by
  induction s generalizing scan m with
  | nil =>
    obtain ⟨mantissa, decimals, seenPoint, any⟩ := scan
    obtain rfl : seenPoint = true := hpoint
    obtain rfl : mantissa = m := hm
    simp [hlt, hcount, eq_comm]
  | cons b s ih =>
    rw [List.foldlM_cons]
    by_cases hb : IsDigit b
    · rw [step_digit hb hm, hpoint]
      by_cases hfits : 10 * m + digit b < 9223372036854775808 ∧ (true = true → scan.decimals < 255)
      · let next : DecimalScan := ⟨(10 * m + digit b : Nat), scan.decimals + 1, true, true⟩
        have hnext : next.mantissa = (10 * m + digit b : Nat) := rfl
        rw [if_pos hfits]
        refine (ih hnext hfits.1 rfl (hfits.2 rfl)).trans ?_
        simp [next, hb, Nat.add_assoc, Nat.add_comm 1]
      · rw [if_neg hfits]
        refine iff_of_false (by rintro ⟨⟩) ?_
        rintro ⟨-, hvalue, hlen, -⟩
        rw [valueFrom_cons] at hvalue
        rw [List.length_cons] at hlen
        have := le_valueFrom (10 * m + digit b) s
        exact hfits ⟨by omega, fun _ => by omega⟩
    · have hstep : scan.step b = none := by
        rw [DecimalScan.step, if_neg hb, hpoint]
        simp
      rw [hstep]
      exact iff_of_false (by rintro ⟨⟩) fun h => hb (h.1 b List.mem_cons_self)

/-- Digits, and perhaps a point and digits behind it. -/
theorem foldl_whole (hm : scan.mantissa = m) (hlt : m < 9223372036854775808)
    (hpoint : scan.seenPoint = false) (hcount : scan.decimals = 0) :
    s.foldlM DecimalScan.step scan = some scan' ↔ ∃ whole fraction pointed,
      s = whole ++ (if pointed then point :: fraction else []) ∧ (pointed = false → fraction = []) ∧
      (∀ b ∈ whole ++ fraction, IsDigit b) ∧ valueFrom m (whole ++ fraction) < 9223372036854775808 ∧
      fraction.length ≤ 255 ∧ scan' = ⟨valueFrom m (whole ++ fraction), fraction.length, pointed,
        scan.any || !(whole ++ fraction).isEmpty⟩ := by
  induction s generalizing scan m with
  | nil =>
    obtain ⟨mantissa, decimals, seenPoint, any⟩ := scan
    obtain rfl : seenPoint = false := hpoint
    obtain rfl : mantissa = m := hm
    obtain rfl : decimals = 0 := hcount
    rw [List.foldlM_nil]
    constructor
    · rintro ⟨⟩
      exact ⟨[], [], false, rfl, fun _ => rfl, by simp, by simpa using hlt, by simp, by simp⟩
    · rintro ⟨whole, fraction, pointed, hs, hnone, -, -, -, rfl⟩
      cases pointed
      · obtain rfl := hnone rfl
        obtain rfl : whole = [] := by simpa using hs.symm
        simp
      · simp at hs
  | cons b s ih =>
    rw [List.foldlM_cons]
    by_cases hb : IsDigit b
    · have hne : b ≠ point := fun h => not_isDigit_point (h ▸ hb)
      have hwhole : ∀ {whole fraction : Bytes} {pointed : Bool},
          b :: s = whole ++ (if pointed then point :: fraction else []) → ∃ more, whole = b :: more ∧
            s = more ++ (if pointed then point :: fraction else []) := by
        intro whole fraction pointed hs
        cases whole with
        | nil => cases pointed <;> simp_all
        | cons x more =>
          obtain ⟨rfl, hmore⟩ := List.cons.inj hs
          exact ⟨more, rfl, hmore⟩
      rw [step_digit hb hm, hpoint]
      by_cases hfits : 10 * m + digit b < 9223372036854775808
      · let next : DecimalScan := ⟨(10 * m + digit b : Nat), scan.decimals, false, true⟩
        have hnext : next.mantissa = (10 * m + digit b : Nat) := rfl
        rw [if_pos ⟨hfits, by simp⟩]
        refine (ih hnext hfits rfl hcount).trans ?_
        constructor
        · rintro ⟨whole, fraction, pointed, rfl, hnone, hdigits, hvalue, hlen, rfl⟩
          refine ⟨b :: whole, fraction, pointed, rfl, hnone, ?_, by simpa using hvalue, hlen, by simp [next]⟩
          simpa [hb] using hdigits
        · rintro ⟨whole, fraction, pointed, hs, hnone, hdigits, hvalue, hlen, rfl⟩
          obtain ⟨more, rfl, rfl⟩ := hwhole hs
          refine ⟨more, fraction, pointed, rfl, hnone, ?_, by simpa using hvalue, hlen, by simp [next]⟩
          exact fun x hx => hdigits x (List.mem_cons_of_mem _ hx)
      · rw [if_neg fun h => hfits h.1]
        refine iff_of_false (by rintro ⟨⟩) ?_
        rintro ⟨whole, fraction, pointed, hs, -, -, hvalue, -⟩
        obtain ⟨more, rfl, -⟩ := hwhole hs
        rw [List.cons_append, valueFrom_cons] at hvalue
        have := le_valueFrom (10 * m + digit b) (more ++ fraction)
        omega
    · have hempty : ∀ {whole fraction : Bytes} {pointed : Bool},
          b :: s = whole ++ (if pointed then point :: fraction else []) →
          (∀ x ∈ whole ++ fraction, IsDigit x) → whole = [] ∧ pointed = true ∧ b = point ∧ s = fraction := by
        intro whole fraction pointed hs hdigits
        cases whole with
        | nil => cases pointed <;> simp_all
        | cons x more =>
          obtain ⟨rfl, -⟩ := List.cons.inj hs
          exact absurd (hdigits b (by simp)) hb
      rw [DecimalScan.step, if_neg hb, hpoint]
      by_cases hdot : b = point
      · let next : DecimalScan := ⟨scan.mantissa, scan.decimals, true, scan.any⟩
        have hnext : next.mantissa = m := hm
        rw [if_pos (by simp [hdot])]
        refine (foldl_fraction hnext hlt rfl (by simp [next, hcount])).trans ?_
        constructor
        · rintro ⟨hdigits, hvalue, hlen, rfl⟩
          refine ⟨[], s, true, by simp [hdot], by simp, hdigits, hvalue, ?_, ?_⟩
          · simpa [next, hcount] using hlen
          · simp [next, hcount]
        · rintro ⟨whole, fraction, pointed, hs, -, hdigits, hvalue, hlen, rfl⟩
          obtain ⟨rfl, rfl, -, rfl⟩ := hempty hs hdigits
          exact ⟨hdigits, hvalue, by simpa [next, hcount] using hlen, by simp [next, hcount]⟩
      · rw [if_neg (by simp [hdot])]
        refine iff_of_false (by rintro ⟨⟩) ?_
        rintro ⟨whole, fraction, pointed, hs, -, hdigits, -⟩
        exact hdot (hempty hs hdigits).2.2.1

/-- The texts of a sign: nothing, `+` or `-`. -/
def IsSign (negative : Bool) (sign : Bytes) : Prop :=
  if negative then sign = [0x2D] else sign = [] ∨ sign = [0x2B]

/-- A sign, digits with at most one point, and at least one digit. -/
def IsDecimal (s : Bytes) (negative : Bool) (whole fraction : Bytes) : Prop :=
  ∃ sign pointed, IsSign negative sign ∧ s = sign ++ whole ++ (if pointed then point :: fraction else []) ∧
    (pointed = false → fraction = []) ∧ (∀ b ∈ whole ++ fraction, IsDigit b) ∧ whole ++ fraction ≠ []

/-- The number that a sign and digits spell, without the point. -/
def mantissa (negative : Bool) (whole fraction : Bytes) : Int :=
  if negative then -(value (whole ++ fraction) : Int) else value (whole ++ fraction)

/-- A text is a sign and what `signOf` leaves of it. -/
theorem signOf_cases (s : Bytes) : ∃ negative sign digits, IsSign negative sign ∧ s = sign ++ digits ∧
    signOf s = (if negative then -1 else 1, digits) := by
  unfold signOf
  split
  · exact ⟨true, [0x2D], _, rfl, rfl, rfl⟩
  · exact ⟨false, [0x2B], _, .inr rfl, rfl, rfl⟩
  · exact ⟨false, [], _, .inl rfl, rfl, rfl⟩

/-- The sign is taken off what begins with a digit or a point. -/
theorem signOf_append {negative : Bool} {sign digits : Bytes} (hsign : IsSign negative sign)
    (hhead : ∀ b ∈ digits.head?, IsDigit b ∨ b = point) :
    signOf (sign ++ digits) = (if negative then -1 else 1, digits) := by
  cases negative
  · obtain rfl | rfl : sign = [] ∨ sign = [0x2B] := hsign
    · rw [List.nil_append]
      unfold signOf
      split
      · exact absurd (hhead _ rfl) (by decide)
      · exact absurd (hhead _ rfl) (by decide)
      · rfl
    · rfl
  · obtain rfl : sign = [0x2D] := hsign
    rfl

/-- `parse_decimal` takes the decimals whose digits fit the mantissa and whose decimals can be counted. -/
theorem parseDecimal_iff {v : Int} {n : Nat} : parseDecimal s = some (v, n) ↔ ∃ negative whole fraction,
    IsDecimal s negative whole fraction ∧ value (whole ++ fraction) < 9223372036854775808 ∧
      fraction.length ≤ 255 ∧ v = mantissa negative whole fraction ∧ n = fraction.length := by
  have hfold : ∀ {digits : Bytes} {scan : DecimalScan},
      digits.foldlM DecimalScan.step ⟨0, 0, false, false⟩ = some scan ↔ _ :=
    fun {digits scan} => foldl_whole (s := digits) (m := 0) rfl (by decide) rfl rfl
  have hsigned : ∀ (negative : Bool) (whole fraction : Bytes),
      value (whole ++ fraction) < 9223372036854775808 →
      checkedI64 (valueFrom 0 (whole ++ fraction) * (if negative then -1 else 1)) =
        some (mantissa negative whole fraction) := by
    intro negative whole fraction hlt
    have hmin : Int64.minValue.toInt = -9223372036854775808 := rfl
    have hmax : Int64.maxValue.toInt = 9223372036854775807 := rfl
    rw [value] at hlt
    rw [checkedI64, hmin, hmax, mantissa, value]
    cases negative
    · rw [if_neg Bool.false_ne_true, if_neg Bool.false_ne_true, Int.mul_one, if_pos (by omega)]
    · rw [if_pos rfl, if_pos rfl, Int.mul_neg_one, if_pos (by omega)]
  constructor
  · intro h
    obtain ⟨negative, sign, digits, hsign, rfl, hsplit⟩ := signOf_cases s
    rw [parseDecimal, hsplit] at h
    obtain ⟨scan, hscan, h⟩ := Option.bind_eq_some_iff.mp h
    obtain ⟨whole, fraction, pointed, rfl, hnone, hdigits, hvalue, hlen, rfl⟩ := hfold.mp hscan
    obtain ⟨v', hv', h⟩ := Option.bind_eq_some_iff.mp h
    rw [hsigned negative whole fraction hvalue] at hv'
    obtain rfl := Option.some.inj hv'
    split at h
    · rename_i hany
      obtain ⟨rfl, rfl⟩ := Prod.mk.inj (Option.some.inj h)
      refine ⟨negative, whole, fraction, ⟨sign, pointed, hsign, by simp, hnone, hdigits, ?_⟩, hvalue, hlen,
        rfl, rfl⟩
      simpa using hany
    · cases h
  · rintro ⟨negative, whole, fraction, ⟨sign, pointed, hsign, rfl, hnone, hdigits, hne⟩, hvalue, hlen, rfl,
      rfl⟩
    have hhead : ∀ b ∈ (whole ++ if pointed then point :: fraction else []).head?, IsDigit b ∨ b = point := by
      intro b hb
      cases whole with
      | nil =>
        cases pointed
        · exact absurd (by simp [hnone rfl]) hne
        · exact .inr (Option.some.inj hb).symm
      | cons x whole => exact .inl (hdigits b (by simp [Option.some.inj hb]))
    have hscan := hfold.mpr ⟨whole, fraction, pointed, rfl, hnone, hdigits, hvalue, hlen, rfl⟩
    rw [parseDecimal, List.append_assoc, signOf_append hsign hhead]
    dsimp only
    rw [hscan, Option.bind_eq_bind, Option.bind_some, hsigned negative whole fraction hvalue,
      Option.bind_eq_bind, Option.bind_some, if_pos (by simpa using hne)]

/-- A decimal with a unit, as it is written: its sign, the digits on both sides of the point, and the
exponent `si` of the prefix of the unit. -/
structure Reading where
  negative : Bool
  whole : Bytes
  fraction : Bytes
  unit : UnitCode
  si : Int8

namespace Reading

/-- The text is the decimal, and behind a `*` the symbol of the unit. -/
def Writes (r : Reading) (text : Bytes) : Prop :=
  ∃ number symbol, IsDecimal number r.negative r.whole r.fraction ∧ parseUnit symbol = some (r.unit, r.si) ∧
    (text = number ++ 0x2A :: symbol ∨ text = number ∧ symbol = [])

/-- The digits without the point fit a mantissa, and the exponent a scaler. -/
def Fits (r : Reading) : Prop :=
  value (r.whole ++ r.fraction) < 2 ^ 63 ∧ -128 ≤ r.si.toInt - r.fraction.length ∧
    r.si.toInt - r.fraction.length ≤ 127

/-- What the text says, in the unit without its prefix. -/
def amount (r : Reading) : ℚ :=
  (if r.negative then -1 else 1) * (value r.whole + value r.fraction / 10 ^ r.fraction.length) *
    10 ^ r.si.toInt

/-- The scaled value of the text. -/
def result (r : Reading) : ScaledValue :=
  ⟨.ofInt (mantissa r.negative r.whole r.fraction), .ofInt (r.si.toInt - r.fraction.length), r.unit⟩

variable {r : Reading}

/-- Nothing is rounded. -/
theorem Fits.result_amount (h : r.Fits) :
    (r.result.value.toInt : ℚ) * 10 ^ r.result.scaler.toInt = r.amount := by
  obtain ⟨hvalue, hlow, hhigh⟩ := h
  have hmantissa : r.result.value.toInt = mantissa r.negative r.whole r.fraction := by
    have hrange : -2 ^ 63 ≤ mantissa r.negative r.whole r.fraction ∧
        mantissa r.negative r.whole r.fraction < 2 ^ 63 := by
      unfold mantissa
      split <;> omega
    exact Int64.toInt_ofInt_of_le hrange.1 hrange.2
  have hscaler : r.result.scaler.toInt = r.si.toInt - r.fraction.length :=
    Int8.toInt_ofInt_of_le (by omega) (by omega)
  have hpow : (10 : ℚ) ^ (r.si.toInt - r.fraction.length) = 10 ^ r.si.toInt / 10 ^ r.fraction.length := by
    rw [zpow_sub₀ (by norm_num), zpow_natCast]
  have hsigned : (mantissa r.negative r.whole r.fraction : ℚ) = (if r.negative then -1 else 1) *
      (value r.whole * 10 ^ r.fraction.length + value r.fraction) := by
    rw [mantissa, value_append_eq]
    cases r.negative <;> simp
  rw [hmantissa, hscaler, hpow, hsigned, amount]
  field_simp

end Reading

namespace Line

theorem splitUnit_star {number symbol : Bytes} (h : 0x2A ∉ number) :
    splitUnit (number ++ 0x2A :: symbol) = (number, symbol) := by
  rw [splitUnit, Text.idxOf?_append_cons h]
  simp [← List.drop_drop]

theorem splitUnit_plain {text : Bytes} (h : 0x2A ∉ text) : splitUnit text = (text, []) := by
  rw [splitUnit, List.idxOf?_eq_none_iff.mpr h]

/-- A text is what `splitUnit` gives, with a `*` between the two or nothing. -/
theorem splitUnit_cases (text : Bytes) : text = (splitUnit text).1 ++ 0x2A :: (splitUnit text).2 ∨
    text = (splitUnit text).1 ∧ (splitUnit text).2 = [] := by
  by_cases hstar : 0x2A ∈ text
  · obtain ⟨number, symbol, rfl, hnot⟩ := List.eq_append_cons_of_mem hstar
    rw [splitUnit_star hnot]
    exact .inl rfl
  · rw [splitUnit_plain hstar]
    exact .inr ⟨rfl, rfl⟩

/-- A decimal has no `*`. -/
theorem star_notMem {number whole fraction : Bytes} {negative : Bool}
    (h : IsDecimal number negative whole fraction) : 0x2A ∉ number := by
  obtain ⟨sign, pointed, hsign, rfl, -, hdigits, -⟩ := h
  have hnot : ¬ IsDigit 0x2A := by decide
  have hsigned : 0x2A ∉ sign := by
    cases negative
    · rcases hsign with rfl | rfl <;> decide
    · obtain rfl : sign = [0x2D] := hsign
      decide
  have hwhole : 0x2A ∉ whole := fun hmem => hnot (hdigits _ (List.mem_append_left _ hmem))
  have hfraction : 0x2A ∉ fraction := fun hmem => hnot (hdigits _ (List.mem_append_right _ hmem))
  have hpoint : (0x2A : UInt8) ≠ point := by decide
  cases pointed <;> simp [hsigned, hwhole, hfraction, hpoint]

/-- A scaled value is read where the first value is written as one that fits. -/
theorem asScaled_iff {l : Line} {v : ScaledValue} : l.asScaled = some v ↔
    ∃ text r, l.asStr = some text ∧ Reading.Writes r text ∧ r.Fits ∧ v = r.result := by
  have hmin : Int8.minValue.toInt = -128 := rfl
  have hmax : Int8.maxValue.toInt = 127 := rfl
  constructor
  · intro h
    obtain ⟨text, htext, h⟩ := Option.bind_eq_some_iff.mp h
    obtain ⟨⟨unit, si⟩, hunit, h⟩ := Option.bind_eq_some_iff.mp h
    obtain ⟨⟨mantissa, decimals⟩, hnumber, h⟩ := Option.bind_eq_some_iff.mp h
    obtain ⟨negative, whole, fraction, hdecimal, hvalue, hlen, rfl, rfl⟩ := parseDecimal_iff.mp hnumber
    dsimp only at h
    rw [hmin, hmax] at h
    split at h
    · rename_i hscaler
      refine ⟨text, ⟨negative, whole, fraction, unit, si⟩, htext,
        ⟨_, _, hdecimal, hunit, splitUnit_cases text⟩, ⟨by simpa using hvalue, hscaler⟩, ?_⟩
      exact (Option.some.inj h).symm
    · cases h
  · rintro ⟨text, ⟨negative, whole, fraction, unit, si⟩, htext, ⟨number, symbol, hdecimal, hunit, hsplit⟩,
      ⟨hvalue, hlow, hhigh⟩, rfl⟩
    dsimp only at hdecimal hunit hvalue hlow hhigh
    have hparts : splitUnit text = (number, symbol) := by
      rcases hsplit with rfl | ⟨rfl, rfl⟩
      · exact splitUnit_star (star_notMem hdecimal)
      · exact splitUnit_plain (star_notMem hdecimal)
    have hsi : si.toInt ≤ 127 := si.toInt_le
    have hnumber : parseDecimal number = some (mantissa negative whole fraction, fraction.length) :=
      parseDecimal_iff.mpr ⟨negative, whole, fraction, hdecimal, by simpa using hvalue, by omega, rfl, rfl⟩
    rw [asScaled, htext, Option.bind_eq_bind, Option.bind_some, hparts]
    dsimp only
    rw [hunit, Option.bind_eq_bind, Option.bind_some, hnumber, Option.bind_eq_bind, Option.bind_some]
    dsimp only
    rw [hmin, hmax, if_pos ⟨hlow, hhigh⟩]
    rfl

/-- A first value that is a decimal with a unit, whose digits and exponent fit, is read as exactly the
number that is written. No other text is read. -/
theorem asScaled_exact (l : Line) :
    (∀ text r, l.asStr = some text → Reading.Writes r text → r.Fits → ∃ v, l.asScaled = some v ∧
      v.unit = r.unit ∧ (v.value.toInt : ℚ) * 10 ^ v.scaler.toInt = r.amount) ∧
    ((¬ ∃ text r, l.asStr = some text ∧ Reading.Writes r text ∧ r.Fits) → l.asScaled = none) := by
  constructor
  · intro text r htext hwrites hfits
    exact ⟨r.result, asScaled_iff.mpr ⟨text, r, htext, hwrites, hfits, rfl⟩, rfl, hfits.result_amount⟩
  · intro hnone
    cases hscaled : l.asScaled with
    | none => rfl
    | some v =>
      obtain ⟨text, r, htext, hwrites, hfits, -⟩ := asScaled_iff.mp hscaled
      exact absurd ⟨text, r, htext, hwrites, hfits⟩ hnone

/-- `(-12.5*m³)`. -/
example : asScaled ⟨⟨0, 1, 24, 2, 1, 255⟩, [0x28, 0x2D, 0x31, 0x32, 0x2E, 0x35, 0x2A, 0x6D, 0xC2, 0xB3, 0x29]⟩ =
    some ⟨-125, -1, .cubicMetre⟩ := by decide +kernel

end Line

end P1

end Dlms
