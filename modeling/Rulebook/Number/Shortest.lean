import Rulebook.Number.Double

/-!
The shortest decimal that reads back as a given double, and the written form of a double. All reals
between the two midpoints to the neighbouring doubles round to it, the midpoints themselves only
when its significand is even. On the grids of 1, 2, … 17 significant digits the two points around
the value are tried; the first grid with a point in that interval gives the digits.
-/
namespace Rulebook.Double

/-- The interval of reals that round to a double, in quarters of a unit, ends included or not. -/
structure Interval where
  low : Nat
  high : Nat
  closed : Bool

/-- The interval around a positive count of units. Below a power of two the gap is half as wide. -/
def interval (units : Nat) : Interval :=
  let gap := 1 <<< (units.log2 + 1 - precision)
  let significand := units / gap
  let gapBelow := if significand = 1 <<< (precision - 1) && 1 < gap then gap / 2 else gap
  { low := 4 * units - 2 * gapBelow, high := 4 * units + 2 * gap, closed := significand % 2 == 0 }

/-- A decimal grid: the multiples of `10 ^ exponent`. -/
def gridStep (exponent : Int) : Nat × Nat :=
  if 0 ≤ exponent then (Nat.pow 10 exponent.toNat * unitsPerOne, 1)
  else (unitsPerOne, Nat.pow 10 (-exponent).toNat)

/-- Whether `k` steps of `num / den` units each lie in the interval. -/
def Interval.holds (i : Interval) (step : Nat × Nat) (k : Nat) : Bool :=
  let point := 4 * k * step.1
  if i.closed then i.low * step.2 ≤ point && point ≤ i.high * step.2
  else i.low * step.2 < point && point < i.high * step.2

/-- The place of the first significant digit: `10 ^ place ≤ value < 10 ^ (place + 1)`. -/
def leadingPlace (units : Nat) : Int :=
  let scaled := units * Nat.pow 10 340 / unitsPerOne
  (Nat.toDigits 10 scaled).length - 341

/-- The better of the two grid points around the value that lie in the interval, if any does: the
nearer one, and of two equally near ones the even one. -/
def gridPoint? (units : Nat) (i : Interval) (exponent : Int) : Option Nat :=
  let step := gridStep exponent
  let value := units * step.2
  let below := value / step.1
  match i.holds step below, i.holds step (below + 1) with
  | true, true => some (roundHalfEven value step.1)
  | true, false => some below
  | false, true => some (below + 1)
  | false, false => none

/-- Searches the grids from one significant digit upwards. -/
def searchGrids (units : Nat) (i : Interval) (place : Int) : Nat → Nat → Numeral
  | 0, _ => { negative := false, coefficient := units * Nat.pow 5 1074, exponent := -1074 }
  | tries + 1, digits =>
    let exponent := place + 1 - digits
    match gridPoint? units i exponent with
    | some k => { negative := false, coefficient := k, exponent }
    | none => searchGrids units i place tries (digits + 1)

/-- The shortest numeral that reads back as `units`; seventeen digits are always enough. -/
def shortest (units : Nat) : Numeral :=
  searchGrids units (interval units) (leadingPlace units) 17 1

/-- A coefficient without its trailing zeros, as digits, and the power of ten taken off. -/
def stripZeros (digits : List Char) : List Char × Nat :=
  let kept := (digits.reverse.dropWhile (· == '0')).reverse
  (kept, digits.length - kept.length)

/-- The exponents written with a point among the digits: the point stands after the first digits,
from three zeros in front of them up to sixteen digits before it. -/
def positional (point : Int) : Bool :=
  -4 < point && point ≤ 16

/-- An exponent of ten with its sign and at least two digits. -/
def exponentChars (e : Int) : List Char :=
  let digits := Nat.toDigits 10 e.natAbs
  let padded := if digits.length < 2 then '0' :: digits else digits
  'e' :: (if e < 0 then '-' else '+') :: padded

/-- Digits with a point among them, at a place counted from the first digit; a whole number ends
in `.0`. -/
def positionalChars (digits : List Char) (point : Int) : List Char :=
  if point ≤ 0 then '0' :: '.' :: (List.replicate (-point).toNat '0' ++ digits)
  else
    let p := point.toNat
    if digits.length ≤ p then digits ++ List.replicate (p - digits.length) '0' ++ ['.', '0']
    else digits.take p ++ '.' :: digits.drop p

/-- Digits with a point among them or, out of reach of the point, an exponent after them. -/
def layOut (digits : List Char) (point : Int) : List Char :=
  if positional point then positionalChars digits point
  else
    match digits with
    | [] => exponentChars (point - 1)
    | d :: [] => d :: exponentChars (point - 1)
    | d :: more => d :: '.' :: more ++ exponentChars (point - 1)

/-- The written form of a count of units. -/
def magnitudeChars (units : Nat) : List Char :=
  if units = 0 then ['0', '.', '0']
  else
    let n := shortest units
    let (digits, dropped) := stripZeros (Nat.toDigits 10 n.coefficient)
    layOut digits (digits.length + dropped + n.exponent)

/-- The written form of a double: the fewest digits that read back. -/
def toText : Double → String
  | finite negative units =>
    String.ofList ((if negative then ['-'] else []) ++ magnitudeChars units)
  | infinite negative => if negative then "-inf" else "inf"
  | nan => "nan"

end Rulebook.Double
