/-! The Gregorian calendar, carried back to year 1, and its count of days. -/
namespace Custody

/-- A day named by its year, month and day of the month. -/
structure Date where
  year : Nat
  month : Nat
  day : Nat
deriving DecidableEq, Repr, Inhabited

namespace Date

/-- Every fourth year is a leap year; of the centuries, every fourth. -/
def isLeap (year : Nat) : Bool := year % 4 = 0 && (year % 100 ≠ 0 || year % 400 = 0)

def months (leap : Bool) : List Nat :=
  [31, if leap then 29 else 28, 31, 30, 31, 30, 31, 31, 30, 31, 30, 31]

def daysBeforeYear (year : Nat) : Nat :=
  let past := year - 1
  365 * past + past / 4 - past / 100 + past / 400

def daysBeforeMonth (leap : Bool) (month : Nat) : Nat := ((months leap).take (month - 1)).foldl (· + ·) 0

def maxYear : Nat := 9999

def dayCount : Nat := 3652059

def isValid (d : Date) : Bool :=
  1 ≤ d.year && d.year ≤ maxYear && 1 ≤ d.month && d.month ≤ 12 && 1 ≤ d.day &&
    d.day ≤ (months (isLeap d.year)).getD (d.month - 1) 0

/-- Days since the first day of year 1. -/
def toDay (d : Date) : Nat :=
  daysBeforeYear d.year + daysBeforeMonth (isLeap d.year) d.month + (d.day - 1)

/-- The month and the day of the month at a number of days into a run of months. -/
def splitMonths : (month : Nat) → List Nat → (days : Nat) → Nat × Nat
  | month, [], days => (month, days + 1)
  | month, length :: rest, days =>
    if days < length then (month, days + 1) else splitMonths (month + 1) rest (days - length)

/-- The year and the day of the year, by cycles of 400, 100, 4 and single years. The last century of a
cycle and the last year of four may be a day longer than the others. -/
def splitYears (day : Nat) : Nat × Nat :=
  let rest := day % 146097
  let century := min 3 (rest / 36524)
  let rest' := rest - 36524 * century
  let four := rest' / 1461
  let rest'' := rest' % 1461
  let single := min 3 (rest'' / 365)
  (400 * (day / 146097) + 100 * century + 4 * four + single + 1, rest'' - 365 * single)

def ofDay (day : Nat) : Date :=
  let (year, inYear) := splitYears day
  let (month, inMonth) := splitMonths 1 (months (isLeap year)) inYear
  ⟨year, month, inMonth⟩

/-- The day of the week, from 0 for Monday. Year 1 began on a Monday. -/
def weekday (day : Nat) : Nat := day % 7

/-- The Monday of the first week of a year: the week that holds the year's first Thursday. The result is
one week too late, so that it is never negative. -/
def firstMondayAhead (year : Nat) : Nat :=
  let first := daysBeforeYear year
  if weekday first ≤ 3 then first - weekday first + 7 else first - weekday first + 14

/-- Whether a year has 53 weeks. -/
def hasLongWeekYear (year : Nat) : Bool :=
  let first := weekday (daysBeforeYear year)
  first = 3 || (first = 2 && isLeap year)

def ofWeek? (year week day : Nat) : Option Date :=
  if year < 1 || maxYear < year || week < 1 || 53 < week || (week = 53 && !hasLongWeekYear year)
      || day < 1 || 7 < day then none
  else some (ofDay (firstMondayAhead year - 7 + (week - 1) * 7 + (day - 1)))

end Date

end Custody
