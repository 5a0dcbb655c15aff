/-!
Calendar dates from 0001-01-01 to 9999-12-31 in the proleptic Gregorian calendar. A date is its day
number, 0001-01-01 being day 1; year, month and day are computed from it.
-/
namespace Rulebook

/-- The day number of 9999-12-31. -/
def lastDay : Nat := 3652059

/-- A calendar date, as the number of its day. -/
structure Date where
  day : Nat
  one_le : 1 ≤ day
  le_last : day ≤ lastDay
  deriving DecidableEq, Repr

namespace Date

instance : Inhabited Date := ⟨1, by decide, by decide⟩

def isLeap (year : Nat) : Bool :=
  year % 4 == 0 && (year % 100 != 0 || year % 400 == 0)

/-- The lengths of the months of a year. -/
def monthLengths (year : Nat) : List Nat :=
  [31, if isLeap year then 29 else 28, 31, 30, 31, 30, 31, 31, 30, 31, 30, 31]

/-- The days before the first of January of a year. -/
def daysBefore (year : Nat) : Nat :=
  let past := year - 1
  365 * past + past / 4 - past / 100 + past / 400

/-- The date of a day number, if it is in the calendar. -/
def ofDay? (day : Int) : Option Date :=
  if h : 1 ≤ day ∧ day ≤ lastDay then some ⟨day.toNat, by omega, by omega⟩ else none

/-- The date of a year, month and day of the month, if there is such a day. -/
def ofCivil? (year month day : Nat) : Option Date :=
  let lengths := monthLengths year
  match lengths[month - 1]? with
  | some length =>
    if 1 ≤ year && year ≤ 9999 && 1 ≤ month && 1 ≤ day && day ≤ length then
      ofDay? (daysBefore year + (lengths.take (month - 1)).foldl Nat.add 0 + day)
    else none
  | none => none

/-- The date so many days later, or earlier for a negative number. -/
def addDays? (d : Date) (days : Int) : Option Date :=
  ofDay? (d.day + days)

/-- The year a day number falls in: an estimate by the mean year, at most one year off. -/
def yearOfDay (day : Nat) : Nat :=
  let estimate := (day - 1) * 400 / 146097 + 1
  if day ≤ daysBefore estimate then estimate - 1
  else if daysBefore (estimate + 1) < day then estimate + 1
  else estimate

/-- Counts a day of the year off against the lengths of the months; months count from 1. -/
def splitMonths : List Nat → Nat → Nat × Nat
  | [], day => (1, day)
  | length :: rest, day =>
    if day ≤ length then (1, day)
    else
      let (month, day) := splitMonths rest (day - length)
      (month + 1, day)

def year (d : Date) : Nat := yearOfDay d.day

/-- The month and the day of the month. -/
def monthDay (d : Date) : Nat × Nat :=
  splitMonths (monthLengths d.year) (d.day - daysBefore d.year)

def month (d : Date) : Nat := d.monthDay.1

def dayOfMonth (d : Date) : Nat := d.monthDay.2

/-- The day of the week, Monday being 0. -/
def weekdayOfDay (day : Nat) : Nat := (day + 6) % 7

/-- The day number of the Monday of week 1 of a year, the week that holds its first Thursday. -/
def firstMonday (year : Nat) : Int :=
  let newYear := daysBefore year + 1
  let weekday := weekdayOfDay newYear
  if 3 < weekday then newYear - weekday + 7 else newYear - weekday

/-- Whether a year has a week 53: it starts on a Thursday, or is a leap year that starts on a
Wednesday. -/
def hasWeek53 (year : Nat) : Bool :=
  let weekday := weekdayOfDay (daysBefore year + 1)
  weekday == 3 || (weekday == 2 && isLeap year)

/-- The date of a weekday (1 to 7, Monday first) in a numbered week of a year. -/
def ofWeek? (year week weekday : Nat) : Option Date :=
  if 1 ≤ year && year ≤ 9999 && 1 ≤ week && (week ≤ 52 || (week == 53 && hasWeek53 year)) &&
      1 ≤ weekday && weekday ≤ 7 then
    ofDay? (firstMonday year + ((week - 1) * 7 + (weekday - 1) : Nat))
  else none

end Date

end Rulebook
