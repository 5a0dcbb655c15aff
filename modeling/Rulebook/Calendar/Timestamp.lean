import Rulebook.Calendar.Moment
import Rulebook.Number.Double

/-!
Moments as requests give them: by a text, with its time or as a date alone, or by a number of
seconds since the start of 1970 in universal time, which counts milliseconds where it is too large
for seconds. Requests can also name moments of the year 0, which the calendar lacks.
-/
namespace Rulebook

/-- A moment that a request gives. -/
inductive GivenMoment where
  | inCalendar (m : Moment)
  /-- A moment of the year 0. -/
  | beforeCalendar (midnight : Bool)
  deriving DecidableEq, Repr, Inhabited

namespace GivenMoment

/-- The day number of 1970-01-01. -/
def epochDay : Int := 719163

/-- The largest count that is taken for seconds. -/
def secondsLimit : Nat := 20000000000

/-- The first second of the year 0, counted from 1970. -/
def firstSecond : Int := -62167219200

/-- The last second of 9999, counted from 1970. -/
def lastSecond : Int := 253402300799

def microsPerSecond : Nat := 1000000

/-- The moment so many seconds and microseconds after the start of 1970. -/
def ofSeconds? (seconds : Int) (micros : Nat) : Option GivenMoment :=
  let seconds : Int := seconds + (micros / microsPerSecond : Nat)
  let micros := micros % microsPerSecond
  if seconds < firstSecond || lastSecond < seconds then none
  else
    let second := (seconds.fmod 86400).toNat
    match Date.ofDay? (seconds.fdiv 86400 + epochDay) with
    | some date => some (.inCalendar {
        date, hour := second / 3600, minute := second / 60 % 60, second := second % 60,
        microsecond := micros, offset := some 0 })
    | none => some (.beforeCalendar (second == 0 && micros == 0))

/-- The moment that a count gives, with so many microseconds after it. -/
def ofCount? (count : Int) (micros : Nat) : Option GivenMoment :=
  if count.natAbs ≤ secondsLimit then ofSeconds? count micros
  else ofSeconds? (count.fdiv 1000) (micros + (count.fmod 1000).toNat * 1000)

/-- The magnitude of a double that gives a moment: what is too large for seconds is divided by
1000. -/
def unitsOfSeconds (units : Nat) : Nat :=
  if units ≤ secondsLimit * Double.unitsPerOne then units
  else Double.roundUnits units (1000 * Double.unitsPerOne)

/-- The microseconds of a fraction of a second. The product is rounded to a double first and then,
a half up, to a whole number. -/
def microsOfUnits (fraction : Nat) : Nat :=
  let micros := Double.roundUnits (fraction * microsPerSecond) Double.unitsPerOne
  (2 * micros + Double.unitsPerOne) / (2 * Double.unitsPerOne)

/-- The moment that a double gives: the whole seconds below it, and the rest in microseconds. -/
def ofDouble? : Double → Option GivenMoment
  | .finite negative units =>
    let units := unitsOfSeconds units
    let seconds := (Double.signed negative units).fdiv Double.unitsPerOne
    let fraction := ((Double.signed negative units).fmod Double.unitsPerOne).toNat
    ofCount? seconds (microsOfUnits (Double.roundUnits fraction Double.unitsPerOne))
  | _ => none

/-- The moment that a numeral gives. Without a point it is a whole number and has no exponent. -/
def ofNumberText? (s : String) : Option GivenMoment :=
  let cs := s.toList
  if cs.all fun c => c.isDigit || "+-.eE".toList.contains c then
    match Numeral.ofChars? cs with
    | none => none
    | some n =>
      if cs.contains '.' then ofDouble? (.ofNumeral n)
      else if cs.contains 'e' || cs.contains 'E' then none
      else ofCount? (if n.negative then -n.coefficient else n.coefficient) 0
  else none

/-- The moment of a date and time, or the midnight of a date alone. -/
def momentOfChars? (cs : List Char) : Option Moment :=
  (Moment.ofChars? cs).or <|
    match Moment.dateOfChars? cs with
    | some (date, []) => some (.midnight date)
    | _ => none

/-- The moment of a date and time or of a date alone. The year 0 has the days of the year 2000. -/
def ofCalendarText? (s : String) : Option GivenMoment :=
  match s.toList with
  | '0' :: '0' :: '0' :: '0' :: rest =>
    (momentOfChars? ('2' :: '0' :: '0' :: '0' :: rest)).map (.beforeCalendar ·.isMidnight)
  | cs => (momentOfChars? cs).map .inCalendar

/-- The moment that a text gives. -/
def ofText? (s : String) : Option GivenMoment := (ofCalendarText? s).or (ofNumberText? s)

end GivenMoment

end Rulebook
