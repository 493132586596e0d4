/-!
# The calendar

Dates of the Gregorian calendar, continued backward without a gap, and their number of days from
the first of January 1970. Years are counted in eras of four hundred, which all have the same
number of days, and start in March so that a leap day is the last of its year.
-/

namespace RenderKit.Time

/-- A date by year, month from 1 and day from 1. -/
structure Date where
  year : Int
  month : Nat
  day : Nat
deriving DecidableEq, Repr

/-- Whether a year has a twenty-ninth of February. -/
def isLeap (year : Int) : Bool :=
  year % 4 == 0 && (year % 100 != 0 || year % 400 == 0)

/-- The number of days of a month. -/
def daysInMonth (year : Int) (month : Nat) : Nat :=
  if month = 2 then (if isLeap year then 29 else 28)
  else if month = 4 ∨ month = 6 ∨ month = 9 ∨ month = 11 then 30
  else 31

namespace Date

/-- Whether the month and the day exist. -/
def isValid (d : Date) : Bool :=
  1 ≤ d.month && d.month ≤ 12 && 1 ≤ d.day && d.day ≤ daysInMonth d.year d.month

/-- The number of days in an era. -/
def daysOfEra : Int := 146097

/-- The number of days from the start of year zero in March to 1970. -/
def epoch : Int := 719468

/-- Days from the first of January 1970. -/
def toDays (d : Date) : Int :=
  let year := if d.month ≤ 2 then d.year - 1 else d.year
  let era := year.fdiv 400
  let yearOfEra := year - era * 400
  let month : Int := if d.month ≤ 2 then d.month + 9 else d.month - 3
  let dayOfYear := (153 * month + 2) / 5 + d.day - 1
  let dayOfEra := yearOfEra * 365 + yearOfEra / 4 - yearOfEra / 100 + dayOfYear
  era * daysOfEra + dayOfEra - epoch

/-- The date that many days from the first of January 1970. -/
def ofDays (days : Int) : Date :=
  let shifted := days + epoch
  let era := shifted.fdiv daysOfEra
  let dayOfEra := shifted - era * daysOfEra
  let yearOfEra := (dayOfEra - dayOfEra / 1460 + dayOfEra / 36524 - dayOfEra / 146096) / 365
  let dayOfYear := dayOfEra - (365 * yearOfEra + yearOfEra / 4 - yearOfEra / 100)
  let month := (5 * dayOfYear + 2) / 153
  let day := dayOfYear - (153 * month + 2) / 5 + 1
  let year := yearOfEra + era * 400
  if month < 10 then ⟨year, (month + 3).toNat, day.toNat⟩
  else ⟨year + 1, (month - 9).toNat, day.toNat⟩

/-- Every four hundred years the calendar repeats. -/
example : (ofDays (toDays ⟨2000, 2, 29⟩ + daysOfEra)) = ⟨2400, 2, 29⟩ := by decide

example : toDays ⟨1970, 1, 1⟩ = 0 := by decide

end Date

end RenderKit.Time
