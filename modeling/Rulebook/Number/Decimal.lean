import Rulebook.Number.Double
import Rulebook.Text.Blank

/-!
Decimal numbers with a significance of their own, as a database column may hold: `1.50` and `1.5`
denote one number and are written differently.
-/
namespace Rulebook

/-- A decimal number. -/
inductive Decimal where
  | finite (numeral : Numeral)
  | infinite (negative : Bool)
  | nan (negative : Bool)
  deriving DecidableEq, Repr, Inhabited

namespace Decimal

/-- The double nearest to a decimal number. -/
def toDouble : Decimal → Double
  | finite n => Double.ofNumeral n
  | infinite negative => .infinite negative
  | nan _ => .nan

/-- The written form of a finite decimal: positional while the point stands at or after the last
digit and at most five zeros lead, else with one digit before the point and an exponent. -/
def numeralChars (n : Numeral) : List Char :=
  let digits := Nat.toDigits 10 n.coefficient
  let adjusted : Int := n.exponent + digits.length - 1
  let body :=
    if n.exponent = 0 then digits
    else if n.exponent < 0 && -6 ≤ adjusted then
      let point : Int := digits.length + n.exponent
      if 0 < point then digits.take point.toNat ++ '.' :: digits.drop point.toNat
      else '0' :: '.' :: (List.replicate (-point).toNat '0' ++ digits)
    else
      let exponent := 'E' :: (if adjusted < 0 then '-' else '+') :: Nat.toDigits 10 adjusted.natAbs
      match digits with
      | d :: e :: more => d :: '.' :: e :: more ++ exponent
      | ds => ds ++ exponent
  (if n.negative then ['-'] else []) ++ body

def toText : Decimal → String
  | finite n => String.ofList (numeralChars n)
  | infinite negative => if negative then "-Infinity" else "Infinity"
  | nan negative => if negative then "-NaN" else "NaN"

/-- Reads a decimal: a numeral, or one of the names of infinity and NaN in any case, between
blanks. Underscores do not count. -/
def ofText? (s : String) : Option Decimal :=
  let cs := (Text.trim Text.isBlank s.toList).filter (· != '_')
  let (negative, rest) := Numeral.takeSign cs
  let name := String.ofList (rest.map Char.toLower)
  if name == "inf" || name == "infinity" then some (infinite negative)
  else if name == "nan" then some (nan negative)
  else (Numeral.ofChars? cs).map finite

end Decimal

end Rulebook
