import Rulebook.Number.Rounding
import Rulebook.Text.Digit

/-!
Decimal numerals: a sign, a coefficient and a power of ten. `Numeral.ofChars?` reads the written
form `±ddd.dddE±dd` over any alphabet of decimal digits; the digits before or after the point may be
missing, but not both.
-/
namespace Rulebook

/-- The number `± coefficient · 10 ^ exponent`, with the sign kept for zero as well. -/
structure Numeral where
  negative : Bool
  coefficient : Nat
  exponent : Int
  deriving DecidableEq, Repr, Inhabited

namespace Numeral

/-- The exact value of a numeral. -/
def toRat (n : Numeral) : Rat :=
  let c : Int := if n.negative then -n.coefficient else n.coefficient
  if 0 ≤ n.exponent then ((c * Nat.pow 10 n.exponent.toNat : Int) : Rat)
  else mkRat c (Nat.pow 10 (-n.exponent).toNat)

/-- Joins digits, most significant first, onto a number read so far. -/
def joinDigits (start : Nat) (digits : List Nat) : Nat :=
  digits.foldl (fun n d => 10 * n + d) start

/-- The longest run of digits at the front of a text, and what follows it. -/
def takeDigits : List Char → List Nat × List Char
  | [] => ([], [])
  | c :: rest =>
    match Text.decimalDigit? c with
    | some d => let (ds, tail) := takeDigits rest; (d :: ds, tail)
    | none => ([], c :: rest)

/-- Takes an optional sign off the front; `true` means minus. -/
def takeSign : List Char → Bool × List Char
  | '-' :: rest => (true, rest)
  | '+' :: rest => (false, rest)
  | rest => (false, rest)

/-- Reads what follows the digits: nothing, or an exponent mark with a signed whole number. -/
def exponentOfChars? : List Char → Option Int
  | [] => some 0
  | mark :: rest =>
    if mark == 'e' || mark == 'E' then
      let (negative, rest) := takeSign rest
      match takeDigits rest with
      | ([], _) => none
      | (ds, []) => some (if negative then -(joinDigits 0 ds) else joinDigits 0 ds)
      | (_, _ :: _) => none
    else none

/-- Reads digits, an optional point with further digits, and an optional exponent. -/
def unsignedOfChars? (negative : Bool) (cs : List Char) : Option Numeral :=
  let (whole, rest) := takeDigits cs
  let (places, rest) := match rest with
    | '.' :: rest => takeDigits rest
    | rest => ([], rest)
  if whole.isEmpty && places.isEmpty then none
  else
    (exponentOfChars? rest).map fun e =>
      { negative, coefficient := joinDigits (joinDigits 0 whole) places,
        exponent := e - places.length }

/-- Reads a whole text as a numeral. -/
def ofChars? (cs : List Char) : Option Numeral :=
  let (negative, rest) := takeSign cs
  unsignedOfChars? negative rest

end Numeral

end Rulebook
