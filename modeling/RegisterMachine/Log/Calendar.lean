import RegisterMachine.Text.Numeral

namespace RegisterMachine.Log

/-!
# Calendar dates of log records

A moment is a count of seconds and nanoseconds since 1970-01-01 00:00:00.  Its
date is found in the Gregorian calendar without a loop over years: years are
counted from March, so that a leap day ends its year, and eras of 400 years
all have the same number of days.
-/

/-- A date of the Gregorian calendar; the year is held modulo 2^32. -/
structure Date where
  year : UInt32
  month : Nat
  day : Nat
  deriving Repr, DecidableEq

namespace Date

/-- Number of days in 400 years. -/
def daysPerEra : Nat := 146097

/-- Number of days from 0000-03-01 to 1970-01-01. -/
def epochDay : Nat := 719468

/-- The year of an era, counted from 0 and from March, that holds a day of the era. -/
def yearOfEra (dayOfEra : Nat) : Nat :=
  (dayOfEra - dayOfEra / 1460 + dayOfEra / 36524 - dayOfEra / 146096) / 365

/-- The day within its year, counted from March 1 as day 0. -/
def dayOfYear (dayOfEra yearOfEra : Nat) : Nat :=
  dayOfEra - (365 * yearOfEra + yearOfEra / 4 - yearOfEra / 100)

/-- The date that is a number of days after 1970-01-01. -/
def ofDays (days : Nat) : Date :=
  let shifted := days + epochDay
  let dayOfEra := shifted % daysPerEra
  let yearInEra := yearOfEra dayOfEra
  let day := dayOfYear dayOfEra yearInEra
  let monthFromMarch := (5 * day + 2) / 153
  let month := if monthFromMarch < 10 then monthFromMarch + 3 else monthFromMarch - 9
  let marchYear := yearInEra + 400 * (shifted / daysPerEra)
  { year := UInt32.ofNat (if month ≤ 2 then marchYear + 1 else marchYear)
    month := month
    day := day - (153 * monthFromMarch + 2) / 5 + 1 }

/-- The date as year, month and day with hyphens. -/
def text (date : Date) : String :=
  Text.Numeral.decimal 4 date.year.toNat ++ "-" ++
    Text.Numeral.decimal 2 date.month ++ "-" ++ Text.Numeral.decimal 2 date.day

/-- The first day is the first of January 1970. -/
example : ofDays 0 = ⟨1970, 1, 1⟩ := by decide

/-- A leap day is a day of its own. -/
example : ofDays 19782 = ⟨2024, 2, 29⟩ := by decide

end Date

/-- A moment after 1970-01-01 00:00:00. -/
structure Moment where
  seconds : Nat
  nanoseconds : Nat
  deriving Repr, DecidableEq

namespace Moment

/-- The start of 1970. -/
def epoch : Moment := ⟨0, 0⟩

/-- The moment that a clock shows; a clock before 1970 counts as the start of 1970. -/
def ofClock (seconds : Int) (nanoseconds : Nat) : Moment :=
  if seconds < 0 then epoch else ⟨seconds.toNat, nanoseconds⟩

/-- The hour of the day. -/
def hour (moment : Moment) : Nat := moment.seconds / 3600 % 24

/-- The minute of the hour. -/
def minute (moment : Moment) : Nat := moment.seconds / 60 % 60

/-- The second of the minute. -/
def second (moment : Moment) : Nat := moment.seconds % 60

/-- The date of a moment. -/
def date (moment : Moment) : Date := Date.ofDays (moment.seconds / 86400)

/-- The text of a moment: the date, then the time down to milliseconds. -/
def text (moment : Moment) : String :=
  moment.date.text ++ " " ++
    Text.Numeral.decimal 2 moment.hour ++ ":" ++
    Text.Numeral.decimal 2 moment.minute ++ ":" ++
    Text.Numeral.decimal 2 moment.second ++ "." ++
    Text.Numeral.decimal 3 (moment.nanoseconds / 1000000)

end Moment

end RegisterMachine.Log
