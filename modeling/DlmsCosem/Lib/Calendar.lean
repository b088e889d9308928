import Mathlib.Algebra.Order.Ring.Int
import Mathlib.Tactic.IntervalCases
import Mathlib.Tactic.Ring

/-!
# The proleptic Gregorian calendar

Days are counted from 1 January of the year 0, year by year and month by month (`daysBefore`), and seconds
from 1 January 1970 (`Civil.seconds`). The next second of the civil clock counts one more
(`Civil.next_seconds`), over the ends of months, leap years and centuries. `daysBeforeYear_eq` counts the
leap days without going through the years, and `daysBeforeMonth_march` puts the leap day at the end of a
year that begins in March, which is how programs count.
-/

namespace Calendar

/-- A year with a 29 February. -/
def IsLeap (y : Nat) : Prop := y % 4 = 0 ∧ (y % 100 ≠ 0 ∨ y % 400 = 0)

instance (y : Nat) : Decidable (IsLeap y) := inferInstanceAs (Decidable (_ ∧ _))

def monthLength (y : Nat) : Nat → Nat
  | 1 | 3 | 5 | 7 | 8 | 10 | 12 => 31
  | 4 | 6 | 9 | 11 => 30
  | 2 => if IsLeap y then 29 else 28
  | _ => 0

theorem monthLength_congr {y y' m : Nat} (h : IsLeap y ↔ IsLeap y') :
    monthLength y m = monthLength y' m := by
  unfold monthLength
  simp only [h]

theorem monthLength_le (y m : Nat) : monthLength y m ≤ 31 := by
  unfold monthLength
  by_cases hleap : IsLeap y
  · simp only [if_pos hleap]
    split <;> decide
  · simp only [if_neg hleap]
    split <;> decide

def yearLength (y : Nat) : Nat := if IsLeap y then 366 else 365

/-- A day that the calendar has. -/
structure IsDate (y m d : Nat) : Prop where
  month_pos : 1 ≤ m
  month_le : m ≤ 12
  day_pos : 1 ≤ d
  day_le : d ≤ monthLength y m

instance (y m d : Nat) : Decidable (IsDate y m d) :=
  decidable_of_iff (1 ≤ m ∧ m ≤ 12 ∧ 1 ≤ d ∧ d ≤ monthLength y m)
    ⟨fun ⟨h₁, h₂, h₃, h₄⟩ => ⟨h₁, h₂, h₃, h₄⟩, fun ⟨h₁, h₂, h₃, h₄⟩ => ⟨h₁, h₂, h₃, h₄⟩⟩

/-- The days of the years 0 to `y - 1`. -/
def daysBeforeYear : Nat → Nat
  | 0 => 0
  | y + 1 => daysBeforeYear y + yearLength y

/-- The days of the months 1 to `m - 1`. -/
def daysBeforeMonth (y : Nat) : Nat → Nat
  | 0 | 1 => 0
  | m + 2 => daysBeforeMonth y (m + 1) + monthLength y (m + 1)

/-- The days from 1 January of the year 0 to a date. -/
def daysBefore (y m d : Nat) : Nat := daysBeforeYear y + daysBeforeMonth y m + (d - 1)

/-- The days from 1 January 1970 to a date. -/
def unixDays (y m d : Nat) : Int := (daysBefore y m d : Int) - 719528

/-- Monday is 1 and Sunday 7. 1 January 1970 was a Thursday. -/
def weekday (days : Int) : Nat := ((days + 3) % 7 + 1).toNat

example : daysBefore 1970 1 1 = 719528 := by decide +kernel

/-- The leap days before a year are counted without going through the years. -/
theorem daysBeforeYear_eq (y : Nat) :
    daysBeforeYear y + (y + 99) / 100 = 365 * y + (y + 3) / 4 + (y + 399) / 400 := by
  induction y with
  | zero => rfl
  | succ y ih =>
    rw [daysBeforeYear, yearLength]
    by_cases hleap : IsLeap y
    · rw [if_pos hleap]
      unfold IsLeap at hleap
      omega
    · rw [if_neg hleap]
      unfold IsLeap at hleap
      omega

/-- The days of the months before one, from March on and up to February. -/
theorem daysBeforeMonth_march {y m : Nat} (hpos : 1 ≤ m) (hle : m ≤ 12) : daysBeforeMonth y m =
    if m ≤ 2 then (153 * (m + 9) + 2) / 5 - 306
    else (153 * (m - 3) + 2) / 5 + 59 + (if IsLeap y then 1 else 0) := by
  by_cases hleap : IsLeap y
  · interval_cases m <;> simp [daysBeforeMonth, monthLength, hleap]
  · interval_cases m <;> simp [daysBeforeMonth, monthLength, hleap]

theorem weekday_range (days : Int) : 1 ≤ weekday days ∧ weekday days ≤ 7 := by
  unfold weekday
  omega

/-- A date and a time of day. -/
structure Civil where
  year : Nat
  month : Nat
  day : Nat
  hour : Nat
  minute : Nat
  second : Nat

namespace Civil

/-- A time of a real date, up to 23:59:59. -/
structure Real (c : Civil) : Prop where
  date : IsDate c.year c.month c.day
  hour_le : c.hour ≤ 23
  minute_le : c.minute ≤ 59
  second_le : c.second ≤ 59

instance (c : Civil) : Decidable c.Real :=
  decidable_of_iff (IsDate c.year c.month c.day ∧ c.hour ≤ 23 ∧ c.minute ≤ 59 ∧ c.second ≤ 59)
    ⟨fun ⟨h₁, h₂, h₃, h₄⟩ => ⟨h₁, h₂, h₃, h₄⟩, fun ⟨h₁, h₂, h₃, h₄⟩ => ⟨h₁, h₂, h₃, h₄⟩⟩

/-- The seconds from the beginning of 1970. -/
def seconds (c : Civil) : Int :=
  unixDays c.year c.month c.day * 86400 + c.hour * 3600 + c.minute * 60 + c.second

/-- The day after a date. -/
def nextDay (c : Civil) : Civil :=
  if c.day < monthLength c.year c.month then { c with day := c.day + 1 }
  else if c.month < 12 then { c with month := c.month + 1, day := 1 }
  else { c with year := c.year + 1, month := 1, day := 1 }

/-- The next second of the clock. -/
def next (c : Civil) : Civil :=
  if c.second < 59 then { c with second := c.second + 1 }
  else if c.minute < 59 then { c with minute := c.minute + 1, second := 0 }
  else if c.hour < 23 then { c with hour := c.hour + 1, minute := 0, second := 0 }
  else { c with hour := 0, minute := 0, second := 0 }.nextDay

theorem daysBeforeMonth_year (y : Nat) : daysBeforeMonth y 12 + monthLength y 12 = yearLength y := by
  by_cases hleap : IsLeap y
  · simp [daysBeforeMonth, monthLength, yearLength, hleap]
  · simp [daysBeforeMonth, monthLength, yearLength, hleap]

/-- The day after a real date counts one more. -/
theorem nextDay_daysBefore {c : Civil} (h : IsDate c.year c.month c.day) :
    daysBefore c.nextDay.year c.nextDay.month c.nextDay.day = daysBefore c.year c.month c.day + 1 := by
  obtain ⟨hmonth, hle, hday, hlast⟩ := h
  unfold nextDay
  by_cases hwithin : c.day < monthLength c.year c.month
  · rw [if_pos hwithin]
    simp only [daysBefore]
    omega
  · rw [if_neg hwithin]
    by_cases hyear : c.month < 12
    · rw [if_pos hyear]
      obtain ⟨m, hm⟩ : ∃ m, c.month = m + 1 := ⟨c.month - 1, by omega⟩
      simp only [daysBefore, hm, daysBeforeMonth]
      rw [hm] at hwithin hlast
      omega
    · rw [if_neg hyear]
      obtain hm : c.month = 12 := by omega
      have htotal := daysBeforeMonth_year c.year
      rw [hm] at hwithin hlast
      simp only [daysBefore, hm, daysBeforeYear, daysBeforeMonth] at htotal ⊢
      omega

/-- The next second counts one more, whatever ends with the one before it. -/
theorem next_seconds {c : Civil} (h : c.Real) : c.next.seconds = c.seconds + 1 := by
  obtain ⟨hdate, hhour, hminute, hsecond⟩ := h
  unfold next
  by_cases hs : c.second < 59
  · rw [if_pos hs]
    simp only [seconds]
    omega
  · rw [if_neg hs]
    by_cases hm : c.minute < 59
    · rw [if_pos hm]
      simp only [seconds]
      omega
    · rw [if_neg hm]
      by_cases hh : c.hour < 23
      · rw [if_pos hh]
        simp only [seconds]
        omega
      · rw [if_neg hh]
        have hnext := nextDay_daysBefore (c := { c with hour := 0, minute := 0, second := 0 }) hdate
        have hclock : ∀ c' : Civil, c'.hour = 0 → c'.minute = 0 → c'.second = 0 →
            c'.nextDay.hour = 0 ∧ c'.nextDay.minute = 0 ∧ c'.nextDay.second = 0 := by
          intro c' h₁ h₂ h₃
          unfold nextDay
          split
          · exact ⟨h₁, h₂, h₃⟩
          · split <;> exact ⟨h₁, h₂, h₃⟩
        obtain ⟨h₁, h₂, h₃⟩ := hclock { c with hour := 0, minute := 0, second := 0 } rfl rfl rfl
        rw [seconds, h₁, h₂, h₃, unixDays, hnext, seconds, unixDays]
        dsimp only
        omega

end Civil

end Calendar
