import Rulebook.Number.Numeral

/-!
Double-precision numbers as the exact values they denote. Every finite one is a whole multiple of `2
^ -1074`, so order and equality are those of integers, and a quotient is converted by one rounding:
to the nearest multiple of the gap that its binade has, a half going to the even neighbour.
-/
namespace Rulebook

/-- A double-precision number. `units` counts multiples of `2 ^ -1074`, the gap below the smallest
positive number; zero keeps its sign. -/
inductive Double where
  | finite (negative : Bool) (units : Nat)
  | infinite (negative : Bool)
  | nan
  deriving DecidableEq, Repr, Inhabited

namespace Double

/-- How many units make one. -/
def unitsPerOne : Nat := 1 <<< 1074

/-- The significant bits of a double. -/
def precision : Nat := 53

/-- The number of units in `2 ^ 1024`, the first power of two out of range. -/
def limit : Nat := 1 <<< 2098

/-- A signed count of units. -/
def signed (negative : Bool) (units : Nat) : Int :=
  if negative then -units else units

def zero : Double := finite false 0

/-- The units nearest to `num / den` ones on the grid of doubles without an upper bound: the grid's
gap is one unit, or as many bits above it as the quotient has beyond the precision. -/
def roundUnits (num den : Nat) : Nat :=
  let scaled := num * unitsPerOne
  let gap := 1 <<< ((scaled / den).log2 + 1 - precision)
  roundHalfEven scaled (den * gap) * gap

/-- The double nearest to `± num / den`; infinite if it rounds to `2 ^ 1024` or more. -/
def ofQuotient (negative : Bool) (num den : Nat) : Double :=
  let units := roundUnits num den
  if units < limit then finite negative units else infinite negative

/-- A double that denotes a number in range. -/
def finite? : Double → Option Double
  | finite negative units => some (finite negative units)
  | _ => none

/-- The double nearest to an integer, if there is one in range. -/
def ofInt? (i : Int) : Option Double := (ofQuotient (i < 0) i.natAbs 1).finite?

/-- No numeral of so many digits before the point is in range. -/
def maxWholeDigits : Int := 310

/-- A numeral whose first digit is so many places after the point rounds to zero. -/
def maxLeadingZeros : Int := 330

/-- The double nearest to a numeral; infinite if it rounds to `2 ^ 1024` or more. Exponents far out
of range are decided by the number of digits alone. -/
def ofNumeral (n : Numeral) : Double :=
  if n.coefficient = 0 then finite n.negative 0
  else
    let whole : Int := (Nat.toDigits 10 n.coefficient).length + n.exponent
    if maxWholeDigits < whole then infinite n.negative
    else if whole < -maxLeadingZeros then finite n.negative 0
    else if 0 ≤ n.exponent then
      ofQuotient n.negative (n.coefficient * Nat.pow 10 n.exponent.toNat) 1
    else ofQuotient n.negative n.coefficient (Nat.pow 10 (-n.exponent).toNat)

/-- Whether two doubles denote the same number. The two zeros do; nothing equals NaN. -/
def eq : Double → Double → Bool
  | finite m u, finite n v => signed m u == signed n v
  | infinite m, infinite n => m == n
  | _, _ => false

/-- Whether the first double is below the second; never so with NaN. -/
def lt : Double → Double → Bool
  | finite m u, finite n v => signed m u < signed n v
  | finite .., infinite n => !n
  | infinite m, finite .. => m
  | infinite m, infinite n => m && !n
  | _, _ => false

/-- Whether the first double is at most the second; never so with NaN. -/
def le (x y : Double) : Bool :=
  x.lt y || x.eq y

/-- Whether a double is a whole number. -/
def isWhole : Double → Bool
  | finite _ units => units % unitsPerOne == 0
  | _ => false

/-- The whole part of a finite double, without its fraction. -/
def truncate? : Double → Option Int
  | finite negative units => some (signed negative (units / unitsPerOne))
  | _ => none

end Double

end Rulebook
