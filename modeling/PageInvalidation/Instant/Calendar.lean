/-! # The calendar

The Gregorian calendar, extended over all years, by the number of days since 1970-01-01. Years are counted
in eras of 400 years, which all have the same number of days, and start in March, so that the leap day
is the last of a year. -/

namespace PageInvalidation.Calendar

/-- A day by year, month and day of the month. -/
structure Date where
  year : Int
  month : Nat
  day : Nat
  deriving DecidableEq, Repr

/-- Whether a year has a leap day. -/
def isLeap (year : Int) : Bool := year % 4 == 0 && (year % 100 != 0 || year % 400 == 0)

/-- The number of days of a month. -/
def daysIn (year : Int) (month : Nat) : Nat :=
  if month == 2 then if isLeap year then 29 else 28
  else if month ∈ [4, 6, 9, 11] then 30
  else 31

/-- Days from 0000-03-01 to 1970-01-01. -/
def epochShift : Int := 719468

/-- The number of days from 1970-01-01 to a date. -/
def toDays (d : Date) : Int :=
  let year := if d.month ≤ 2 then d.year - 1 else d.year
  let era := year / 400
  let yearOfEra := year % 400
  let month := if 2 < d.month then d.month - 3 else d.month + 9
  let dayOfYear : Int := (153 * month + 2) / 5 + d.day - 1
  let dayOfEra := yearOfEra * 365 + yearOfEra / 4 - yearOfEra / 100 + dayOfYear
  era * 146097 + dayOfEra - epochShift

/-- The date a number of days after 1970-01-01. -/
def ofDays (days : Int) : Date :=
  let shifted := days + epochShift
  let era := shifted / 146097
  let dayOfEra := (shifted % 146097).toNat
  let yearOfEra := (dayOfEra - dayOfEra / 1460 + dayOfEra / 36524 - dayOfEra / 146096) / 365
  let dayOfYear := dayOfEra - (365 * yearOfEra + yearOfEra / 4 - yearOfEra / 100)
  let shiftedMonth := (5 * dayOfYear + 2) / 153
  let day := dayOfYear - (153 * shiftedMonth + 2) / 5 + 1
  let month := if shiftedMonth < 10 then shiftedMonth + 3 else shiftedMonth - 9
  let year := era * 400 + yearOfEra
  ⟨if month ≤ 2 then year + 1 else year, month, day⟩

/-- The weekday of a day, from Monday as 0. -/
def weekday (days : Int) : Nat := ((days + 3) % 7).toNat

/-- The Monday of the first week of a year, the one that holds 4 January. -/
def firstMonday (year : Int) : Int :=
  let fourth := toDays ⟨year, 1, 4⟩
  fourth - weekday fourth

/-- The number of weeks of a year. -/
def weeksIn (year : Int) : Nat := ((firstMonday (year + 1) - firstMonday year) / 7).toNat

end PageInvalidation.Calendar
