import Rulebook.Number.Shortest

/-!
The text that a column of texts holds for a double: at most fifteen significant digits, a half being
rounded up, and a digit after the point in any case.
-/
namespace Rulebook.Double

/-- The most significant digits of a rounded text. -/
def roundedDigits : Int := 15

/-- Rounds a positive count of units to a whole number of steps of a decimal grid, a half up. -/
def roundToGrid (units : Nat) (exponent : Int) : Nat :=
  let step := gridStep exponent
  (2 * units * step.2 + step.1) / (2 * step.1)

/-- Digits with a point among them if at most fifteen of them stand before it and at most three
zeros follow it, else with one digit before the point and an exponent. -/
def layOutRounded (digits : List Char) (point : Int) : List Char :=
  if -4 < point && point ≤ roundedDigits then positionalChars digits point
  else
    match digits with
    | [] => exponentChars (point - 1)
    | d :: [] => d :: '.' :: '0' :: exponentChars (point - 1)
    | d :: more => d :: '.' :: more ++ exponentChars (point - 1)

/-- The rounded text of a count of units. -/
def roundedChars (units : Nat) : List Char :=
  if units = 0 then ['0', '.', '0']
  else
    let exponent := leadingPlace units + 1 - roundedDigits
    let (digits, dropped) := stripZeros (Nat.toDigits 10 (roundToGrid units exponent))
    layOutRounded digits (digits.length + dropped + exponent)

/-- The text that a column of texts holds for a double; it holds nothing for NaN, and no sign for
zero. -/
def toRoundedText? : Double → Option String
  | finite negative units =>
    some (String.ofList ((if negative && units != 0 then ['-'] else []) ++ roundedChars units))
  | infinite negative => some (if negative then "-Inf" else "Inf")
  | nan => none

end Rulebook.Double
