import DlmsCosem.Axdr.Data
import DlmsCosem.Lib.Calendar

/-!
# Time arithmetic

`DateTime.toUnixSeconds` and `DateTime.fromCivil` over fixed-width integers: an operation whose result is
out of its range is an `Overflow`, where a build that checks its arithmetic stops. `daysFromCivil_eq` holds
the day count to the calendar, and `toUnixSeconds_fromCivil` the seconds. Two things are not as documented.
An offset of -32768 minutes has no negation, and the day of the week of a date that is not a real one is
computed all the same.
-/

namespace Dlms

/-- The result of an operation was out of range. -/
structure Overflow where
  deriving Repr, DecidableEq

/-- What arithmetic gives that is checked. -/
abbrev Checked := Except Overflow

namespace Checked

/-- A result that is an `i16`. -/
def i16 (v : Int) : Checked Int := if -32768 ≤ v ∧ v ≤ 32767 then .ok v else .error {}

/-- A result that is an `i32`. -/
def i32 (v : Int) : Checked Int := if -2147483648 ≤ v ∧ v ≤ 2147483647 then .ok v else .error {}

/-- A result that is an `i64`. -/
def i64 (v : Int) : Checked Int :=
  if -9223372036854775808 ≤ v ∧ v ≤ 9223372036854775807 then .ok v else .error {}

variable {v : Int}

theorem ok_bind {α β : Type} (a : α) (f : α → Checked β) : (Except.ok a >>= f) = f a := rfl

theorem i16_ok (h : -32768 ≤ v ∧ v ≤ 32767) : i16 v = .ok v := if_pos h

theorem i32_ok (h : -2147483648 ≤ v ∧ v ≤ 2147483647) : i32 v = .ok v := if_pos h

theorem i64_ok (h : -9223372036854775808 ≤ v ∧ v ≤ 9223372036854775807) : i64 v = .ok v := if_pos h

end Checked

namespace DateTime

open Checked

/-- `DEVIATION_NOT_SPECIFIED`. -/
def deviationNotSpecified : Int16 := -0x8000

/-- `has_wildcard`. -/
def hasWildcard (t : DateTime) : Bool :=
  t.year == 0xFFFF || 0xFD ≤ t.month || 0xFD ≤ t.dayOfMonth || t.hour == 0xFF || t.minute == 0xFF ||
    t.second == 0xFF

/-- `utc_offset_minutes`: the deviation the other way round, when there is one. -/
def utcOffsetMinutes (t : DateTime) : Checked (Option Int) :=
  if t.deviation = deviationNotSpecified then .ok none
  else do return some (← i16 (-t.deviation.toInt))

/-- How many days the month has. -/
def daysInMonth (year : UInt16) (month : UInt8) : UInt8 :=
  if month ∈ ([1, 3, 5, 7, 8, 10, 12] : List UInt8) then 31
  else if month ∈ ([4, 6, 9, 11] : List UInt8) then 30
  else if month = 2 then
    let y := year.toNat
    if y % 4 = 0 ∧ (y % 100 ≠ 0 ∨ y % 400 = 0) then 29 else 28
  else 0

/-- The rest of `days_from_civil`, from the year that begins in March on. -/
def daysFromMarch (y m d : Int) : Checked Int := do
  let above ← if 0 ≤ y then pure y else i32 (y - 399)
  let era := above.tdiv 400
  let yoe ← i32 (y - (← i32 (era * 400)))
  let mp := (← i32 (m + 9)).tmod 12
  let scaled ← i32 ((← i32 (153 * mp)) + 2)
  let doy ← i32 ((← i32 (scaled.tdiv 5 + d)) - 1)
  let leaps ← i32 ((← i32 ((← i32 (yoe * 365)) + yoe.tdiv 4)) - yoe.tdiv 100)
  let doe ← i32 (leaps + doy)
  i32 ((← i32 ((← i32 (era * 146097)) + doe)) - 719468)

/-- Days from 1970-01-01 to a civil date. -/
def daysFromCivil (y : Int) (m d : UInt8) : Checked Int := do
  let m : Int := m.toNat
  let d : Int := d.toNat
  let y ← if m ≤ 2 then i32 (y - 1) else pure y
  daysFromMarch y m d

/-- ISO day of the week. -/
def dayOfWeekOf (y : Int) (m d : UInt8) : Checked UInt8 := do
  let days ← i32 ((← daysFromCivil y m d) + 3)
  return UInt8.ofInt (← i32 (days % 7 + 1))

/-- `to_unix_seconds`. -/
def toUnixSeconds (t : DateTime) : Checked (Option Int) := do
  if t.hasWildcard then return none
  let some offset ← t.utcOffsetMinutes | return none
  if t.month = 0 ∨ 12 < t.month ∨ t.dayOfMonth = 0 then return none
  if daysInMonth t.year t.month < t.dayOfMonth then return none
  if 23 < t.hour ∨ 59 < t.minute ∨ 59 < t.second then return none
  let days ← daysFromCivil t.year.toNat t.month t.dayOfMonth
  let secs ← i64 ((← i64 (days * 86400)) + (← i64 (t.hour.toNat * 3600)))
  let secs ← i64 (secs + (← i64 (t.minute.toNat * 60)))
  let secs ← i64 (secs + t.second.toNat)
  return some (← i64 (secs - (← i64 (offset * 60))))

/-- `from_civil`: a complete timestamp. -/
def fromCivil (year : UInt16) (month day hour minute second : UInt8) (utcOffsetMinutes : Int16) :
    Checked DateTime := do
  return {
    year, month, hour, minute, second
    dayOfMonth := day
    dayOfWeek := ← dayOfWeekOf year.toNat month day
    hundredths := 0xFF
    deviation := .ofInt (← i16 (-utcOffsetMinutes.toInt))
    status := 0 }

/-- The days to a date of a year that begins in March, `mp` months after that. -/
def marchDays (y mp d : Int) : Int :=
  365 * y + y / 4 - y / 100 + y / 400 + (153 * mp + 2) / 5 + d - 719469

/-- No step of the count is out of range. -/
theorem daysFromMarch_ok {y m d : Int} (hlow : -1 ≤ y) (hhigh : y ≤ 65535) (hm : 0 ≤ m ∧ m ≤ 255)
    (hd : 0 ≤ d ∧ d ≤ 255) : daysFromMarch y m d = .ok (marchDays y ((m + 9) % 12) d) := by
  have hmonth : (m + 9).tmod 12 = (m + 9) % 12 := Int.tmod_eq_emod_of_nonneg (by omega)
  unfold daysFromMarch marchDays
  by_cases h0 : 0 ≤ y
  · rw [if_pos h0]
    simp (disch := omega) only [pure_bind, i32_ok, ok_bind, hmonth, Int.tdiv_eq_ediv_of_nonneg]
    congr 1
    omega
  · obtain rfl : y = -1 := by omega
    have hera : (-1 - 399 : Int).tdiv 400 = -1 := by decide
    rw [if_neg h0]
    simp (disch := omega) only [i32_ok, ok_bind, hera, hmonth, Int.tdiv_eq_ediv_of_nonneg]
    congr 1
    omega

/-- No step of the day count is out of range, for any month and day. -/
theorem daysFromCivil_ok (y : Nat) (hy : y ≤ 65535) (m d : UInt8) : daysFromCivil y m d =
    .ok (marchDays (if m.toNat ≤ 2 then y - 1 else y) ((m.toNat + 9) % 12) d.toNat) := by
  have hm := m.toNat_lt
  have hd := d.toNat_lt
  rw [daysFromCivil]
  dsimp only
  by_cases h2 : m.toNat ≤ 2
  · rw [if_pos h2, if_pos (by omega), i32_ok (by omega), ok_bind]
    exact daysFromMarch_ok (by omega) (by omega) (by omega) (by omega)
  · rw [if_neg h2, if_neg (by omega), pure_bind]
    exact daysFromMarch_ok (by omega) (by omega) (by omega) (by omega)

/-- Over real dates the count is the one of the calendar. -/
theorem marchDays_eq {y m d : Nat} (h : Calendar.IsDate y m d) :
    marchDays (if m ≤ 2 then (y : Int) - 1 else y) ((m + 9) % 12) d = Calendar.unixDays y m d := by
  obtain ⟨hpos, hle, hday, -⟩ := h
  have hmonth := Calendar.daysBeforeMonth_march (y := y) hpos hle
  rw [Calendar.unixDays, Calendar.daysBefore, marchDays]
  by_cases h2 : m ≤ 2
  · have hyear := Calendar.daysBeforeYear_eq y
    have h4 : ((y : Int) - 1) / 4 = ((y + 3) / 4 : Nat) - 1 := by omega
    have h100 : ((y : Int) - 1) / 100 = ((y + 99) / 100 : Nat) - 1 := by omega
    have h400 : ((y : Int) - 1) / 400 = ((y + 399) / 400 : Nat) - 1 := by omega
    have hmp : ((m : Int) + 9) % 12 = m + 9 := by omega
    rw [if_pos h2] at hmonth ⊢
    rw [h4, h100, h400, hmp]
    omega
  · -- The leap day of the year itself counts from March on.
    have hyear := Calendar.daysBeforeYear_eq (y + 1)
    rw [Calendar.daysBeforeYear, Calendar.yearLength] at hyear
    have h4 : (y : Int) / 4 = ((y + 1 + 3) / 4 : Nat) - 1 := by omega
    have h100 : (y : Int) / 100 = ((y + 1 + 99) / 100 : Nat) - 1 := by omega
    have h400 : (y : Int) / 400 = ((y + 1 + 399) / 400 : Nat) - 1 := by omega
    have hmp : ((m : Int) + 9) % 12 = (m - 3 : Nat) := by omega
    rw [if_neg h2] at hmonth ⊢
    rw [h4, h100, h400, hmp]
    by_cases hleap : Calendar.IsLeap y
    · rw [if_pos hleap] at hmonth hyear
      omega
    · rw [if_neg hleap] at hmonth hyear
      omega

/-- The year says no more than whether it is a leap year. -/
theorem daysInMonth_congr {year year' : UInt16}
    (h : Calendar.IsLeap year.toNat ↔ Calendar.IsLeap year'.toNat) (month : UInt8) :
    daysInMonth year month = daysInMonth year' month := by
  unfold Calendar.IsLeap at h
  unfold daysInMonth
  simp only [h]

/-- The months have the lengths of the calendar. -/
theorem daysInMonth_eq (year : UInt16) (month : UInt8) :
    (daysInMonth year month).toNat = Calendar.monthLength year.toNat month.toNat := by
  have hall : ∀ n : Fin 256,
      (daysInMonth 2000 (.ofFin n)).toNat = Calendar.monthLength 2000 n ∧
      (daysInMonth 2001 (.ofFin n)).toNat = Calendar.monthLength 2001 n := by decide +kernel
  by_cases hleap : Calendar.IsLeap year.toNat
  · have hsame := iff_of_true hleap (by decide : Calendar.IsLeap (2000 : UInt16).toNat)
    rw [daysInMonth_congr hsame, Calendar.monthLength_congr hsame]
    exact (hall month.toFin).1
  · have hsame := iff_of_false hleap (by decide : ¬ Calendar.IsLeap (2001 : UInt16).toNat)
    rw [daysInMonth_congr hsame, Calendar.monthLength_congr hsame]
    exact (hall month.toFin).2

/-- The day count of the code, for any month and day. -/
def codeDays (year : UInt16) (month day : UInt8) : Int :=
  marchDays (if month.toNat ≤ 2 then (year.toNat : Int) - 1 else year.toNat) ((month.toNat + 9) % 12) day.toNat

theorem codeDays_range (year : UInt16) (month day : UInt8) :
    -1000000 ≤ codeDays year month day ∧ codeDays year month day ≤ 30000000 := by
  have hyear := year.toNat_lt
  have hday := day.toNat_lt
  unfold codeDays marchDays
  split <;> omega

/-- The day of the week is the one of the day count, whether the date is a real one or not. -/
theorem dayOfWeekOf_ok (year : UInt16) (month day : UInt8) : ∃ w : UInt8,
    dayOfWeekOf year.toNat month day = .ok w ∧ w.toNat = Calendar.weekday (codeDays year month day) := by
  have hyear := year.toNat_lt
  obtain ⟨hlow, hhigh⟩ := codeDays_range year month day
  have hdays : daysFromCivil year.toNat month day = .ok (codeDays year month day) :=
    daysFromCivil_ok year.toNat (by omega) month day
  refine ⟨UInt8.ofInt ((codeDays year month day + 3) % 7 + 1), ?_, ?_⟩
  · rw [dayOfWeekOf, hdays, ok_bind, i32_ok (by omega), ok_bind, i32_ok (by omega), ok_bind]
    rfl
  · obtain ⟨n, hn⟩ : ∃ n : Nat, (codeDays year month day + 3) % 7 + 1 = n :=
      ⟨((codeDays year month day + 3) % 7 + 1).toNat, by omega⟩
    rw [Calendar.weekday, hn, UInt8.ofInt, UInt8.toNat_ofNat']
    omega

/-- The fields of a timestamp as a time of the calendar. -/
def civil (t : DateTime) : Calendar.Civil :=
  ⟨t.year.toNat, t.month.toNat, t.dayOfMonth.toNat, t.hour.toNat, t.minute.toNat, t.second.toNat⟩

/-- What is a wildcard is no real date and time of a known year. -/
theorem not_real_of_wildcard {t : DateTime} (h : t.hasWildcard = true) : ¬ (t.year ≠ 0xFFFF ∧ t.civil.Real) := by
  rintro ⟨hyear, ⟨⟨hpos, hle, hday, hlast⟩, hhour, hminute, hsecond⟩⟩
  have hmonth := Calendar.monthLength_le t.year.toNat t.month.toNat
  simp only [hasWildcard, Bool.or_eq_true, beq_iff_eq, decide_eq_true_eq, UInt8.le_iff_toNat_le] at h
  simp only [civil] at hle hlast hhour hminute hsecond
  obtain ((((h | h) | h) | h) | h) | h := h
  · exact hyear h
  · exact absurd (h.trans hle) (by decide)
  · exact absurd (h.trans (hlast.trans hmonth)) (by decide)
  · rw [h] at hhour
    exact absurd hhour (by decide)
  · rw [h] at hminute
    exact absurd hminute (by decide)
  · rw [h] at hsecond
    exact absurd hsecond (by decide)

/-- A deviation that is given can be negated. -/
theorem utcOffsetMinutes_ok (t : DateTime) : t.utcOffsetMinutes =
    .ok (if t.deviation = deviationNotSpecified then none else some (-t.deviation.toInt)) := by
  rw [utcOffsetMinutes]
  by_cases hnone : t.deviation = deviationNotSpecified
  · rw [if_pos hnone, if_pos hnone]
  · have hne : t.deviation.toInt ≠ -32768 := fun h => hnone (Int16.toInt_inj.mp h)
    have hlow := t.deviation.le_toInt
    have hhigh := t.deviation.toInt_lt
    rw [if_neg hnone, if_neg hnone, i16_ok (by omega)]
    rfl

/-- No step is out of range, and a point in time is what has a year, a deviation and a real date and time
of day. -/
theorem toUnixSeconds_ok (t : DateTime) : t.toUnixSeconds = .ok
    (if t.year ≠ 0xFFFF ∧ t.deviation ≠ deviationNotSpecified ∧ t.civil.Real then
      some (t.civil.seconds + t.deviation.toInt * 60) else none) := by
  have hdays := daysInMonth_eq t.year t.month
  rw [toUnixSeconds]
  by_cases hwild : t.hasWildcard = true
  · rw [if_pos hwild, if_neg fun h => not_real_of_wildcard hwild ⟨h.1, h.2.2⟩]
    rfl
  · rw [if_neg hwild, utcOffsetMinutes_ok, ok_bind]
    by_cases hnone : t.deviation = deviationNotSpecified
    · rw [if_pos hnone, if_neg fun h => h.2.1 hnone]
      rfl
    · rw [if_neg hnone]
      dsimp only
      by_cases hmonth : t.month = 0 ∨ 12 < t.month ∨ t.dayOfMonth = 0
      · rw [if_pos hmonth, if_neg]
        · rfl
        · rintro ⟨-, -, ⟨⟨hpos, hle, hday, -⟩, -⟩⟩
          rcases hmonth with h | h | h
          · simp [civil, h] at hpos
          · exact absurd (UInt8.lt_iff_toNat_lt.mp h) (Nat.not_lt.mpr hle)
          · simp [civil, h] at hday
      · rw [if_neg hmonth]
        obtain ⟨hm0, hm12, hd0⟩ := by simpa only [not_or] using hmonth
        by_cases hlast : daysInMonth t.year t.month < t.dayOfMonth
        · rw [if_pos hlast, if_neg]
          · rfl
          · rintro ⟨-, -, ⟨⟨-, -, -, hle⟩, -⟩⟩
            rw [UInt8.lt_iff_toNat_lt, hdays] at hlast
            exact absurd hlast (Nat.not_lt.mpr hle)
        · rw [if_neg hlast]
          by_cases htime : 23 < t.hour ∨ 59 < t.minute ∨ 59 < t.second
          · rw [if_pos htime, if_neg]
            · rfl
            · rintro ⟨-, -, ⟨-, hhour, hminute, hsecond⟩⟩
              rcases htime with h | h | h
              · exact absurd (UInt8.lt_iff_toNat_lt.mp h) (Nat.not_lt.mpr hhour)
              · exact absurd (UInt8.lt_iff_toNat_lt.mp h) (Nat.not_lt.mpr hminute)
              · exact absurd (UInt8.lt_iff_toNat_lt.mp h) (Nat.not_lt.mpr hsecond)
          · obtain ⟨hhour, hminute, hsecond⟩ := by simpa only [not_or, UInt8.not_lt] using htime
            rw [UInt8.lt_iff_toNat_lt, hdays] at hlast
            have hdate : Calendar.IsDate t.year.toNat t.month.toNat t.dayOfMonth.toNat := by
              refine ⟨?_, UInt8.le_iff_toNat_le.mp (UInt8.not_lt.mp hm12), ?_, Nat.not_lt.mp hlast⟩
              · exact Nat.pos_of_ne_zero fun h => hm0 (UInt8.toNat_inj.mp h)
              · exact Nat.pos_of_ne_zero fun h => hd0 (UInt8.toNat_inj.mp h)
            have hreal : t.civil.Real := ⟨hdate, UInt8.le_iff_toNat_le.mp hhour,
              UInt8.le_iff_toNat_le.mp hminute, UInt8.le_iff_toNat_le.mp hsecond⟩
            have hyear : t.year ≠ 0xFFFF := by
              intro h
              simp [hasWildcard, h] at hwild
            have hcount := daysFromCivil_ok t.year.toNat (Nat.le_of_lt_succ t.year.toNat_lt) t.month t.dayOfMonth
            have hrange := codeDays_range t.year t.month t.dayOfMonth
            rw [codeDays] at hrange
            rw [marchDays_eq hdate] at hcount hrange
            have hoffset : -32768 ≤ t.deviation.toInt ∧ t.deviation.toInt < 32768 :=
              ⟨t.deviation.le_toInt, t.deviation.toInt_lt⟩
            have h₁ := t.hour.toNat_lt
            have h₂ := t.minute.toNat_lt
            have h₃ := t.second.toNat_lt
            rw [if_neg htime, if_pos ⟨hyear, hnone, hreal⟩, hcount, ok_bind]
            simp (disch := omega) only [i64_ok, ok_bind]
            simp only [civil, Calendar.Civil.seconds]
            congr 2
            omega

/-- A timestamp is built for every offset that has a negation. -/
theorem fromCivil_ok (year : UInt16) (month day hour minute second : UInt8) {offset : Int16}
    (h : offset ≠ -0x8000) : ∃ t, fromCivil year month day hour minute second offset = .ok t ∧
      t.civil = ⟨year.toNat, month.toNat, day.toNat, hour.toNat, minute.toNat, second.toNat⟩ ∧
      t.year = year ∧ t.deviation ≠ deviationNotSpecified ∧ t.deviation.toInt = -offset.toInt ∧
      t.dayOfWeek.toNat = Calendar.weekday (codeDays year month day) := by
  obtain ⟨w, hw, hweekday⟩ := dayOfWeekOf_ok year month day
  have hne : offset.toInt ≠ -32768 := fun heq => h (Int16.toInt_inj.mp heq)
  have hlow := offset.le_toInt
  have hhigh := offset.toInt_lt
  have hback : (Int16.ofInt (-offset.toInt)).toInt = -offset.toInt :=
    Int16.toInt_ofInt_of_le (by omega) (by omega)
  rw [fromCivil, hw, ok_bind, i16_ok (by omega), ok_bind]
  refine ⟨_, rfl, rfl, rfl, fun heq => ?_, hback, hweekday⟩
  have hdeviation : (Int16.ofInt (-offset.toInt)).toInt = -32768 := congrArg Int16.toInt heq
  omega

/-- -32768 has no negation of sixteen bits. -/
theorem fromCivil_overflow (year : UInt16) (month day hour minute second : UInt8) :
    fromCivil year month day hour minute second (-0x8000) = .error {} := by
  obtain ⟨w, hw, -⟩ := dayOfWeekOf_ok year month day
  rw [fromCivil, hw]
  rfl

/-- Civil fields and an offset make a timestamp without overflow. It is a point in time exactly where they
are a real date and time of day, then the right one; and its day of the week is the one of the date, or
255 where that is not a real one. -/
def CalendarCorrect (year : UInt16) (month day hour minute second : UInt8) (offset : Int16) : Prop :=
  ∃ t r, fromCivil year month day hour minute second offset = .ok t ∧ t.toUnixSeconds = .ok r ∧
    (r.isSome = true ↔ t.civil.Real) ∧
    (∀ secs, r = some secs → secs = t.civil.seconds - offset.toInt * 60) ∧
    t.civil = ⟨year.toNat, month.toNat, day.toNat, hour.toNat, minute.toNat, second.toNat⟩ ∧
    t.dayOfWeek.toNat =
      if Calendar.IsDate year.toNat month.toNat day.toNat then
        Calendar.weekday (Calendar.unixDays year.toNat month.toNat day.toNat)
      else 0xFF

/-- The time arithmetic is the one of the calendar if and only if the date is a real one and the offset is
not -32768. No conversion overflows, and consecutive civil seconds differ by one. -/
theorem calendar_iff (year : UInt16) (hyear : year.toNat ≤ 65534) (month day hour minute second : UInt8)
    (offset : Int16) :
    (CalendarCorrect year month day hour minute second offset ↔
      Calendar.IsDate year.toNat month.toNat day.toNat ∧ offset ≠ -0x8000) ∧
    (∀ t : DateTime, ∃ r, t.toUnixSeconds = .ok r) ∧
    ∀ t t' : DateTime, ∀ secs secs', t'.civil = t.civil.next → t'.deviation = t.deviation →
      t.toUnixSeconds = .ok (some secs) → t'.toUnixSeconds = .ok (some secs') → secs' = secs + 1 := by
  refine ⟨?_, fun t => ⟨_, toUnixSeconds_ok t⟩, ?_⟩
  · constructor
    · rintro ⟨t, r, hbuilt, -, -, -, -, hweekday⟩
      have hoffset : offset ≠ -0x8000 := by
        rintro rfl
        rw [fromCivil_overflow] at hbuilt
        cases hbuilt
      refine ⟨?_, hoffset⟩
      by_contra hnot
      obtain ⟨t', hbuilt', -, -, -, -, hcode⟩ := fromCivil_ok year month day hour minute second hoffset
      obtain rfl : t = t' := Except.ok.inj (hbuilt.symm.trans hbuilt')
      rw [if_neg hnot, hcode] at hweekday
      have := Calendar.weekday_range (codeDays year month day)
      omega
    · rintro ⟨hdate, hoffset⟩
      obtain ⟨t, hbuilt, hcivil, hsame, hdeviation, hback, hcode⟩ :=
        fromCivil_ok year month day hour minute second hoffset
      have hknown : t.year ≠ 0xFFFF := by
        rw [hsame]
        rintro rfl
        exact absurd hyear (by decide)
      refine ⟨t, _, hbuilt, toUnixSeconds_ok t, ?_, ?_, hcivil, ?_⟩
      · by_cases hreal : t.civil.Real
        · simp [hknown, hdeviation, hreal]
        · simp [hreal]
      · intro secs hsecs
        split at hsecs
        · rw [← Option.some.inj hsecs, hback]
          omega
        · cases hsecs
      · rw [if_pos hdate, hcode, codeDays, marchDays_eq hdate]
  · intro t t' secs secs' hnext hsame hsecs hsecs'
    rw [toUnixSeconds_ok] at hsecs hsecs'
    have hsecs := Except.ok.inj hsecs
    have hsecs' := Except.ok.inj hsecs'
    split at hsecs
    · rename_i hreal
      split at hsecs'
      · rw [← Option.some.inj hsecs, ← Option.some.inj hsecs', hnext, hsame,
          Calendar.Civil.next_seconds hreal.2.2]
        omega
      · cases hsecs'
    · cases hsecs

/-- Noon of 15 January 2025, an hour ahead of UTC. -/
theorem calendar_iff_sample : CalendarCorrect 2025 1 15 12 0 0 60 ↔
    Calendar.IsDate (2025 : UInt16).toNat (1 : UInt8).toNat (15 : UInt8).toNat ∧ (60 : Int16) ≠ -0x8000 :=
  (calendar_iff 2025 (by decide) 1 15 12 0 0 60).1

/-- The 31 February 2025 is a Monday, and an offset of -32768 overflows. -/
theorem february_has_weekday : (∃ t, fromCivil 2025 2 31 0 0 0 0 = .ok t ∧ t.dayOfWeek = 1) ∧
    ¬ Calendar.IsDate 2025 2 31 ∧ ¬ CalendarCorrect 2025 2 31 0 0 0 0 ∧
    fromCivil 2025 1 1 0 0 0 (-0x8000) = .error {} := by
  refine ⟨⟨_, rfl, by decide +kernel⟩, by decide, ?_, by decide +kernel⟩
  rintro ⟨t, r, hbuilt, -, -, -, -, hweekday⟩
  obtain ⟨t', hbuilt', -, -, -, -, hcode⟩ := fromCivil_ok 2025 2 31 0 0 0 (by decide : (0 : Int16) ≠ -0x8000)
  obtain rfl : t = t' := Except.ok.inj (hbuilt.symm.trans hbuilt')
  rw [if_neg (by decide), hcode] at hweekday
  have := Calendar.weekday_range (codeDays 2025 2 31)
  omega

end DateTime

end Dlms
