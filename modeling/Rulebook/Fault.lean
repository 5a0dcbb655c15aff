/-!
What can go wrong while a condition is evaluated or a plan is made, apart from input that is refused
with a reason of its own.
-/
namespace Rulebook

/-- A computation on values that has no result. -/
inductive Fault where
  /-- An integer that has no nearest double. -/
  | beyondDouble
  /-- A date outside the calendar. -/
  | beyondCalendar
  /-- A count of days that is too large for a difference of dates. -/
  | tooManyDays (days : Int)
  /-- A count of days that does not even fit in 32 bits. -/
  | daysTooWide
  /-- A path step that looks like an index and is not a decimal number. -/
  | badIndex (step : String)
  /-- A path step of more digits than an index may have. -/
  | longIndex (digits : Nat)
  /-- A value of a kind that has no items. -/
  | notIterable (kind : String)
  deriving DecidableEq, Repr, Inhabited

namespace Fault

/-- The most decimal digits of an index. -/
def maxIndexDigits : Nat := 4300

/-- The most characters of a quoted step that a message shows. -/
def maxQuoted : Nat := 200

/-- The largest count of days between two dates. -/
def maxDays : Nat := 999999999

end Fault

end Rulebook
