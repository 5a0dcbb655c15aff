import Rulebook.Calendar.Date

/-!
The written forms of a date. It is written `YYYY-MM-DD`; read are also `YYYYMMDD` and the week forms
`YYYY-Www`, `YYYYWww`, `YYYY-Www-D` and `YYYYWwwD`. A text has 7, 8 or 10 bytes, and in the forms
without separators what follows the date is not looked at.
-/
namespace Rulebook.Date

/-- A number in a fixed number of digits, with leading zeros. -/
def fixedDigits (width n : Nat) : List Char :=
  let digits := Nat.toDigits 10 n
  List.replicate (width - digits.length) '0' ++ digits

/-- Writes a date as `YYYY-MM-DD`. -/
def toIsoText (d : Date) : String :=
  String.ofList
    (fixedDigits 4 d.year ++ '-' :: fixedDigits 2 d.month ++ '-' :: fixedDigits 2 d.dayOfMonth)

/-- Takes so many digits `0` to `9` off the front of a text. -/
def takeNumber? : Nat → List Char → Option (Nat × List Char)
  | 0, cs => some (0, cs)
  | width + 1, c :: rest =>
    if '0' ≤ c && c ≤ '9' then
      (takeNumber? width rest).map fun (n, tail) =>
        ((c.toNat - '0'.toNat) * Nat.pow 10 width + n, tail)
    else none
  | _ + 1, [] => none

/-- Takes the separator off the front of a text, where the form has one. -/
def takeDash? (separated : Bool) : List Char → Option (List Char)
  | '-' :: rest => if separated then some rest else some ('-' :: rest)
  | rest => if separated then none else some rest

/-- Reads a week and a weekday; a text that ends after the week means its Monday. -/
def weekOfChars? (year : Nat) (separated : Bool) (cs : List Char) : Option Date := do
  let (week, rest) ← takeNumber? 2 cs
  match rest with
  | [] => ofWeek? year week 1
  | rest =>
    let (weekday, _) ← takeNumber? 1 (← takeDash? separated rest)
    ofWeek? year week weekday

/-- Reads a month and a day of the month. -/
def civilOfChars? (year : Nat) (separated : Bool) (cs : List Char) : Option Date := do
  let (month, rest) ← takeNumber? 2 cs
  let (day, _) ← takeNumber? 2 (← takeDash? separated rest)
  ofCivil? year month day

/-- Reads a year and what follows it. -/
def ofIsoChars? (cs : List Char) : Option Date := do
  let (year, rest) ← takeNumber? 4 cs
  let (separated, rest) := match rest with
    | '-' :: rest => (true, rest)
    | rest => (false, rest)
  match rest with
  | 'W' :: rest => weekOfChars? year separated rest
  | rest => civilOfChars? year separated rest

/-- Reads a date in one of its written forms. -/
def ofIsoText? (s : String) : Option Date :=
  if s.utf8ByteSize = 7 || s.utf8ByteSize = 8 || s.utf8ByteSize = 10 then ofIsoChars? s.toList
  else none

end Rulebook.Date
