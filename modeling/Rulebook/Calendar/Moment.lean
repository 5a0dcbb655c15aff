import Rulebook.Calendar.IsoText

/-!
Dates with a time of day. A `Moment` is what a wall clock shows, with or without an offset from
universal time; an `Instant` is a point of universal time, counted in microseconds.
-/
namespace Rulebook

/-- A date and a time of day; the offset from universal time, where there is one, is in seconds. -/
structure Moment where
  date : Date
  hour : Nat
  minute : Nat
  second : Nat
  microsecond : Nat
  offset : Option Int
  deriving DecidableEq, Repr, Inhabited

/-- A point of universal time, in microseconds from the midnight that starts day 0. -/
structure Instant where
  micros : Nat
  deriving DecidableEq, Repr, Inhabited

namespace Moment

open Date (fixedDigits takeNumber?)

/-- An offset as `±HH:MM`, with seconds only where there are some. -/
def offsetChars (seconds : Int) : List Char :=
  let n := seconds.natAbs
  let tail := if n % 60 = 0 then [] else ':' :: fixedDigits 2 (n % 60)
  (if seconds < 0 then '-' else '+') ::
    (fixedDigits 2 (n / 3600) ++ ':' :: fixedDigits 2 (n / 60 % 60) ++ tail)

/-- A time of day as `HH:MM:SS`, with six decimals only where there are some. -/
def timeChars (m : Moment) : List Char :=
  let tail := if m.microsecond = 0 then [] else '.' :: fixedDigits 6 m.microsecond
  fixedDigits 2 m.hour ++ ':' :: fixedDigits 2 m.minute ++ ':' :: fixedDigits 2 m.second ++ tail

/-- Writes a moment with a separator between date and time. -/
def toText (separator : Char) (m : Moment) : String :=
  let offset := match m.offset with
    | some seconds => offsetChars seconds
    | none => []
  String.ofList (m.date.toIsoText.toList ++ separator :: m.timeChars ++ offset)

/-- Midnight at the start of a date, without an offset. -/
def midnight (d : Date) : Moment :=
  { date := d, hour := 0, minute := 0, second := 0, microsecond := 0, offset := none }

/-- Seconds since the midnight that starts day 0, in universal time for a moment with an offset. -/
def seconds (m : Moment) : Int :=
  m.date.day * 86400 + m.hour * 3600 + m.minute * 60 + m.second - m.offset.getD 0

/-- Whether two moments are the same point in time; a moment with an offset is never one without. -/
def same (m n : Moment) : Bool :=
  m.offset.isSome == n.offset.isSome && m.seconds == n.seconds && m.microsecond == n.microsecond

def isMidnight (m : Moment) : Bool :=
  m.hour == 0 && m.minute == 0 && m.second == 0 && m.microsecond == 0

/-- The digits after the decimal mark of a second, as microseconds; digits past the sixth are
dropped. -/
def microsOfDigits (ds : List Nat) : Nat :=
  ((ds ++ List.replicate (6 - ds.length) 0).take 6).foldl (fun n d => 10 * n + d) 0

/-- The digits `0` to `9` at the front of a text. -/
def takePlaces : List Char → List Nat × List Char
  | [] => ([], [])
  | c :: rest =>
    if '0' ≤ c && c ≤ '9' then
      let (ds, tail) := takePlaces rest
      ((c.toNat - '0'.toNat) :: ds, tail)
    else ([], c :: rest)

/-- Reads an offset: `Z`, or a sign with hours and minutes below one day. -/
def offsetOfChars? : List Char → Option (Option Int)
  | [] => some none
  | 'Z' :: [] | 'z' :: [] => some (some 0)
  | sign :: rest => do
    let negative ← if sign == '+' then some false
      else if sign == '-' || sign == '\u2212' then some true else none
    let (hours, rest) ← takeNumber? 2 rest
    let rest := match rest with
      | ':' :: rest => rest
      | rest => rest
    let (minutes, rest) ← takeNumber? 2 rest
    let seconds : Int := hours * 3600 + minutes * 60
    if rest.isEmpty && minutes < 60 && seconds < 86400 then
      some (some (if negative then -seconds else seconds))
    else none

/-- Reads the optional seconds of a time of day, with decimals if there are any. -/
def secondsOfChars? : List Char → Option (Nat × Nat × List Char)
  | ':' :: rest => do
    let (second, rest) ← takeNumber? 2 rest
    if 59 < second then none
    else match rest with
      | mark :: rest =>
        if mark == '.' || mark == ',' then
          match takePlaces rest with
          | ([], _) => none
          | (ds, rest) => some (second, microsOfDigits ds, rest)
        else some (second, 0, mark :: rest)
      | [] => some (second, 0, [])
  | rest => some (0, 0, rest)

/-- Reads `YYYY-MM-DD` off the front of a text. -/
def dateOfChars? (cs : List Char) : Option (Date × List Char) := do
  let (year, rest) ← takeNumber? 4 cs
  let (month, rest) ← takeNumber? 2 (← Date.takeDash? true rest)
  let (day, rest) ← takeNumber? 2 (← Date.takeDash? true rest)
  some (← Date.ofCivil? year month day, rest)

/-- Reads `YYYY-MM-DDTHH:MM[:SS[.ffffff]]` with an optional offset. -/
def ofChars? (cs : List Char) : Option Moment := do
  let (date, rest) ← dateOfChars? cs
  match rest with
  | [] => none
  | separator :: rest =>
    if "Tt _".toList.contains separator then
      let (hour, rest) ← takeNumber? 2 rest
      let rest ← match rest with
        | ':' :: rest => some rest
        | _ => none
      let (minute, rest) ← takeNumber? 2 rest
      let (second, microsecond, rest) ← secondsOfChars? rest
      let offset ← offsetOfChars? rest
      if hour < 24 && minute < 60 then some { date, hour, minute, second, microsecond, offset }
      else none
    else none

def ofText? (s : String) : Option Moment := ofChars? s.toList

end Moment

namespace Instant

def microsPerSecond : Nat := 1000000

def microsPerDay : Nat := 86400 * microsPerSecond

/-- The midnight of universal time that starts a date. -/
def ofDate (d : Date) : Instant := ⟨d.day * microsPerDay⟩

def addSeconds (t : Instant) (seconds : Nat) : Instant := ⟨t.micros + seconds * microsPerSecond⟩

/-- The next point of time that a clock can tell apart. -/
def next (t : Instant) : Instant := ⟨t.micros + 1⟩

/-- The date in universal time; the last one of the calendar for any later instant. -/
def date (t : Instant) : Date :=
  let day := t.micros / microsPerDay
  ⟨max 1 (min day lastDay), by omega, by simp only [lastDay]; omega⟩

/-- What a wall clock in universal time shows. -/
def toMoment (t : Instant) : Moment :=
  let second := t.micros / microsPerSecond % 86400
  { date := t.date, hour := second / 3600, minute := second / 60 % 60, second := second % 60,
    microsecond := t.micros % microsPerSecond, offset := some 0 }

/-- Writes an instant as `YYYY-MM-DDTHH:MM:SS[.ffffff]Z`. -/
def toText (t : Instant) : String :=
  ({ t.toMoment with offset := none }).toText 'T' ++ "Z"

end Instant

end Rulebook
