import Rulebook.Value.Shown

/-!
What a value counts as where a number or a text is asked for. A missing value and any text that is
no numeral count as NaN, null and blank text as zero. A day count is read more freely: with
underscores between digits, and infinity and NaN by name.
-/
namespace Rulebook

namespace Double

/-- Reads a numeral, or `Infinity` after an optional sign; anything else is NaN. -/
def ofNumericChars (cs : List Char) : Double :=
  let (negative, rest) := Numeral.takeSign cs
  if rest == "Infinity".toList then .infinite negative
  else
    match Numeral.unsignedOfChars? negative rest with
    | some n => .ofNumeral n
    | none => .nan

/-- Whether every underscore stands between two digits. -/
def underscoresBetweenDigits (afterDigit : Bool) : List Char → Bool
  | [] => true
  | '_' :: rest =>
    match rest with
    | d :: _ => afterDigit && (Text.decimalDigit? d).isSome && underscoresBetweenDigits false rest
    | [] => false
  | c :: rest => underscoresBetweenDigits (Text.decimalDigit? c).isSome rest

/-- Reads a number between blanks: a numeral, which may have underscores between its digits, or a
name of infinity or NaN in any case. -/
def ofSpacedChars? (cs : List Char) : Option Double :=
  let cs := Text.trim Text.isNumberBlank cs
  if underscoresBetweenDigits false cs then
    let (negative, rest) := Numeral.takeSign (cs.filter (· != '_'))
    let name := String.ofList (rest.map Char.toLower)
    if name == "inf" || name == "infinity" then some (.infinite negative)
    else if name == "nan" then some .nan
    else (Numeral.unsignedOfChars? negative rest).map .ofNumeral
  else none

end Double

namespace Value

/-- The double a text counts as. -/
def textToNumber (t : Text) : Double :=
  match t.chars?.map (Text.trim Text.isBlank) with
  | none => .nan
  | some [] => .zero
  | some cs => .ofNumericChars cs

/-- The double that a field value counts as in a comparison of numbers. -/
def toNumber : Option Value → Except Fault Double
  | none => .ok .nan
  | some null => .ok .zero
  | some (bool b) => .ok (if b then .finite false Double.unitsPerOne else .zero)
  | some (text t) => .ok (textToNumber t)
  | some v => v.toDouble?.getD (.ok .nan)

/-- The text that a value counts as in a search: whole doubles without their fraction. -/
def toSearchText : Value → Text
  | null => "null"
  | bool b => if b then "true" else "false"
  | float x =>
    match x.isWhole, x.truncate? with
    | true, some i => toString i
    | _, _ => x.toText
  | v => v.plain

/-- The double that a count of days is given by, if it is a number in some form. -/
def toDayNumber : Value → Except Fault (Option Double)
  | bool b => .ok (some (if b then .finite false Double.unitsPerOne else .zero))
  | text t => .ok (t.chars?.bind Double.ofSpacedChars?)
  | v =>
    match v.toDouble? with
    | some result => result.map some
    | none => .ok none

/-- A count of days: blank counts as none at all, fractions are cut off, and what is no finite
number is no count. -/
def toDays? : Value → Except Fault (Option Int)
  | null | bool false => .ok (some 0)
  | v =>
    if v.isEmptyText then .ok (some 0)
    else do return (← v.toDayNumber).bind Double.truncate?

end Value

end Rulebook
