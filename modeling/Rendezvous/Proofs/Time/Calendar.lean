import Rendezvous.Time.Timestamp
/-!
# The calendar there and back

The date of a day number has this number again (`Timestamp.dayNumber_dateOf`), so it is a date
(`Timestamp.isDate_dateOf`) as far as its year is one that has dates.
-/

namespace Rendezvous.Timestamp

/-- The year within its era of 400 years that a day of the era is in. -/
def yearOfEra (dayOfEra : Int) : Int :=
  (dayOfEra - dayOfEra / 1460 + dayOfEra / 36524 - dayOfEra / 146096) / 365

/-- The days of an era before a year of it. -/
def daysBeforeYear (year : Int) : Int := 365 * year + year / 4 - year / 100

theorem yearOfEra_range {dayOfEra : Int} (hlow : 0 ≤ dayOfEra) (hhigh : dayOfEra < 146097) :
    0 ≤ yearOfEra dayOfEra ∧ yearOfEra dayOfEra ≤ 399 := by
  unfold yearOfEra
  omega

/-- A day of an era lies in the year that is found for it. -/
theorem daysBeforeYear_yearOfEra {dayOfEra : Int} (hlow : 0 ≤ dayOfEra)
    (hhigh : dayOfEra < 146097) :
    daysBeforeYear (yearOfEra dayOfEra) ≤ dayOfEra ∧
      dayOfEra ≤ daysBeforeYear (yearOfEra dayOfEra) + 365 := by
  have hyear := yearOfEra_range hlow hhigh
  have hcentury : yearOfEra dayOfEra / 100 = 0 ∨ yearOfEra dayOfEra / 100 = 1 ∨
      yearOfEra dayOfEra / 100 = 2 ∨ yearOfEra dayOfEra / 100 = 3 := by
    omega
  have hdays : dayOfEra / 36524 = 0 ∨ dayOfEra / 36524 = 1 ∨ dayOfEra / 36524 = 2 ∨
      dayOfEra / 36524 = 3 ∨ dayOfEra / 36524 = 4 := by
    omega
  unfold daysBeforeYear
  unfold yearOfEra at *
  -- With the centuries known, all that is left is linear.
  rcases hcentury with h | h | h | h <;> rcases hdays with h' | h' | h' | h' | h' <;>
    constructor <;> omega

/-- A day of a year, counted from March, lies in the month that is found for it. -/
theorem daysBefore_month {dayOfYear : Nat} (h : dayOfYear ≤ 365) :
    (5 * dayOfYear + 2) / 153 ≤ 11 ∧ daysBefore ((5 * dayOfYear + 2) / 153) ≤ dayOfYear ∧
      dayOfYear - daysBefore ((5 * dayOfYear + 2) / 153) + 1 ≤ 31 := by
  unfold daysBefore
  omega

/-- The month of the calendar that a month counted from March is. -/
def calendarMonth (fromMarch : Nat) : Nat :=
  if fromMarch < 10 then fromMarch + 3 else fromMarch - 9

theorem calendarMonth_range {month : Nat} (h : month ≤ 11) :
    1 ≤ calendarMonth month ∧ calendarMonth month ≤ 12 := by
  unfold calendarMonth
  split <;> omega

theorem fromMarch_calendarMonth {month : Nat} (h : month ≤ 11) :
    (if calendarMonth month ≤ 2 then calendarMonth month + 9 else calendarMonth month - 3) =
      month := by
  unfold calendarMonth
  by_cases hmonth : month < 10
  · rw [if_pos hmonth, if_neg (by omega)]
    omega
  · rw [if_neg hmonth, if_pos (by omega)]
    omega

/-- The parts of a date: the era, the year in it, the day in the year, and the month of this day. -/
theorem dateOf_parts (number : Int) :
    ∃ (era year : Int) (day month : Nat), 0 ≤ year ∧ year ≤ 399 ∧ month ≤ 11 ∧
      daysBefore month ≤ day ∧ day - daysBefore month + 1 ≤ 31 ∧
      number = era * 146097 + daysBeforeYear year + day - 719468 ∧
      dateOf number =
        (if calendarMonth month ≤ 2 then year + era * 400 + 1 else year + era * 400,
          calendarMonth month, day - daysBefore month + 1) := by
  let z := number + 719468
  let era := z / 146097
  let dayOfEra := z - era * 146097
  have hlow : 0 ≤ dayOfEra := by omega
  have hhigh : dayOfEra < 146097 := by omega
  have hyear := yearOfEra_range hlow hhigh
  have hday := daysBeforeYear_yearOfEra hlow hhigh
  let dayOfYear := (dayOfEra - daysBeforeYear (yearOfEra dayOfEra)).toNat
  have hinYear : dayOfYear ≤ 365 := by omega
  have hmonth := daysBefore_month hinYear
  refine ⟨era, yearOfEra dayOfEra, dayOfYear, (5 * dayOfYear + 2) / 153, hyear.1, hyear.2,
    hmonth.1, hmonth.2.1, hmonth.2.2, ?_, rfl⟩
  omega

/-- The date of a day number has this number. -/
theorem dayNumber_dateOf (number : Int) :
    dayNumber (dateOf number).1 (dateOf number).2.1 (dateOf number).2.2 = number := by
  obtain ⟨era, year, day, month, hlow, hhigh, hmonth, hbefore, -, hnumber, hdate⟩ :=
    dateOf_parts number
  rw [hdate]
  have hyear : (if calendarMonth month ≤ 2 then
      (if calendarMonth month ≤ 2 then year + era * 400 + 1 else year + era * 400) - 1
      else (if calendarMonth month ≤ 2 then year + era * 400 + 1 else year + era * 400)) =
      year + era * 400 := by
    by_cases h : calendarMonth month ≤ 2
    · simp only [if_pos h]
      omega
    · simp only [if_neg h]
  have hera : (year + era * 400) / 400 = era := by omega
  have hrest : year + era * 400 - era * 400 = year := by omega
  unfold dayNumber
  simp only [hyear, fromMarch_calendarMonth hmonth, hera, hrest]
  rw [hnumber]
  unfold daysBeforeYear
  omega

/-- The month and the day of a date. -/
theorem dateOf_range (number : Int) :
    1 ≤ (dateOf number).2.1 ∧ (dateOf number).2.1 ≤ 12 ∧ 1 ≤ (dateOf number).2.2 ∧
      (dateOf number).2.2 ≤ 31 := by
  obtain ⟨era, year, day, month, -, -, hmonth, -, hday, -, hdate⟩ := dateOf_parts number
  rw [hdate]
  obtain ⟨h1, h2⟩ := calendarMonth_range hmonth
  exact ⟨h1, h2, Nat.le_add_left .., hday⟩

/-- Whether a day is in a year that has dates. -/
def HasDate (number : Int) : Prop :=
  yearRange.1 ≤ (dateOf number).1 ∧ (dateOf number).1 ≤ yearRange.2

theorem isDate_dateOf {number : Int} (h : HasDate number) :
    isDate (dateOf number).1 (dateOf number).2.1 (dateOf number).2.2 = true := by
  obtain ⟨hlow, hhigh⟩ := h
  obtain ⟨h1, h2, h3, h4⟩ := dateOf_range number
  unfold isDate
  simp [hlow, hhigh, h1, h2, h3, h4, dayNumber_dateOf]

end Rendezvous.Timestamp
