/-! # Calendar days

Days are counted from 1970-01-01 in the Gregorian calendar, extended to all years. The count groups
years into eras of 400 years, each of the same number of days, and starts a year in March so that the
leap day is its last. -/
namespace EntityGraph

structure Date where
  year : Int
  month : Nat
  day : Nat
  deriving DecidableEq, Repr

namespace Date

def daysPerEra : Int := 146097

/-- Days from the start of an era to 1970-01-01. -/
def epochOffset : Int := 719468

def isLeapYear (year : Int) : Bool := year % 4 == 0 && (year % 100 != 0 || year % 400 == 0)

def daysInMonth (year : Int) (month : Nat) : Nat :=
  if month = 2 then (if isLeapYear year then 29 else 28)
  else if month = 4 ∨ month = 6 ∨ month = 9 ∨ month = 11 then 30
  else 31

def isValid (date : Date) : Bool :=
  1 ≤ date.month && date.month ≤ 12 && 1 ≤ date.day && date.day ≤ daysInMonth date.year date.month

/-- Days before the first of a month, counted in years that start in March. -/
def daysBeforeMonth (marchMonth : Int) : Int := (153 * marchMonth + 2) / 5

/-- Days before a year of an era. -/
def daysBeforeYear (yearOfEra : Int) : Int := 365 * yearOfEra + yearOfEra / 4 - yearOfEra / 100

def toDays (date : Date) : Int :=
  let year := if date.month ≤ 2 then date.year - 1 else date.year
  let marchMonth := if date.month ≤ 2 then (date.month : Int) + 9 else date.month - 3
  year / 400 * daysPerEra + daysBeforeYear (year % 400) + daysBeforeMonth marchMonth
    + (date.day - 1) - epochOffset

def ofDays (days : Int) : Date :=
  let shifted := days + epochOffset
  let dayOfEra := shifted % daysPerEra
  let yearOfEra := (dayOfEra - dayOfEra / 1460 + dayOfEra / 36524 - dayOfEra / 146096) / 365
  let dayOfYear := dayOfEra - daysBeforeYear yearOfEra
  let marchMonth := (5 * dayOfYear + 2) / 153
  let month := if marchMonth < 10 then marchMonth + 3 else marchMonth - 9
  let year := shifted / daysPerEra * 400 + yearOfEra
  { year := if month ≤ 2 then year + 1 else year
    month := month.toNat
    day := (dayOfYear - daysBeforeMonth marchMonth + 1).toNat }

end Date
end EntityGraph
