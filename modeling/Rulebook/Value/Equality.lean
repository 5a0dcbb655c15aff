import Rulebook.Value.Basic

/-!
Two equalities of values. The loose one compares numbers by their exact value whatever their kind,
with the truth values as 0 and 1, lists item by item and objects member by member in any order; the
double NaN is loosely equal to itself. The strict one keeps truth values, numbers and all else apart
at the outermost level, compares numbers after conversion to doubles, where NaN equals nothing, and
is the loose one on what is left.
-/
namespace Rulebook.Value

/-- The exact value of a number. -/
inductive Exact where
  | finite (value : Rat)
  | infinite (negative : Bool)
  | nan
  deriving DecidableEq

namespace Exact

def ofDouble : Double → Exact
  | .finite negative units => finite (mkRat (Double.signed negative units) Double.unitsPerOne)
  | .infinite negative => infinite negative
  | .nan => nan

def ofDecimal : Decimal → Exact
  | .finite n => finite n.toRat
  | .infinite negative => infinite negative
  | .nan _ => nan

/-- Whether two exact values are one number; NaN is none. -/
def eq : Exact → Exact → Bool
  | finite x, finite y => x == y
  | infinite m, infinite n => m == n
  | _, _ => false

end Exact

/-- The exact value of a number or a truth value. -/
def toExact? : Value → Option Exact
  | bool b => some (.finite (if b then 1 else 0))
  | int i => some (.finite i)
  | float x => some (.ofDouble x)
  | decimal d => some (.ofDecimal d)
  | _ => none

mutual

/-- Loose equality. -/
def looseEq : Value → Value → Bool
  | null, null => true
  | float .nan, float .nan => true
  | text s, text t => s == t
  | date d, date e => d == e
  | moment m, moment n => m.same n
  | uuid u, uuid v => u == v
  | list xs, list ys => looseEqItems xs ys
  | tuple xs, tuple ys => looseEqItems xs ys
  | object fs, object gs => fs.length == gs.length && looseEqMembers fs gs
  | v, w =>
    match v.toExact?, w.toExact? with
    | some x, some y => x.eq y
    | _, _ => false

/-- Loose equality item by item. -/
def looseEqItems : List Value → List Value → Bool
  | [], [] => true
  | x :: xs, y :: ys => looseEq x y && looseEqItems xs ys
  | _, _ => false

/-- Whether every member has a loosely equal one under its key. -/
def looseEqMembers : List (Text × Value) → List (Text × Value) → Bool
  | [], _ => true
  | (key, v) :: rest, gs =>
    (match gs.lookup key with
      | some w => looseEq v w
      | none => false) && looseEqMembers rest gs

end

/-- Strict equality of two field values; one that is missing equals only another that is missing. -/
def strictEq : Option Value → Option Value → Except Fault Bool
  | none, none => .ok true
  | some v, some w =>
    match v, w with
    | bool a, bool b => .ok (a == b)
    | bool _, _ | _, bool _ => .ok false
    | v, w =>
      match v.toDouble?, w.toDouble? with
      | some x, some y => do return (← x).eq (← y)
      | none, none => .ok (looseEq v w)
      | _, _ => .ok false
  | _, _ => .ok false

end Rulebook.Value
