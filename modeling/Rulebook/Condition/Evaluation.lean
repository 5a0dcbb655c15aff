import Rulebook.Condition.Reader
import Rulebook.Text.Infix
import Rulebook.Value.Coercion
import Rulebook.Value.Equality
import Rulebook.Value.Path

/-!
Evaluating a condition tree on an entity. Groups are evaluated from left to right and no further
than their outcome needs, so a fault behind that point does not arise.
-/
namespace Rulebook

namespace Operator

/-- Whether some value of a list strictly equals a field value. -/
def anyEqual (actual : Option Value) : List Value → Except Fault Bool
  | [] => .ok false
  | v :: rest => do if ← Value.strictEq actual (some v) then return true else anyEqual actual rest

/-- Whether some item of a list strictly equals a value. -/
def anyItem (value : Value) : List Value → Except Fault Bool
  | [] => .ok false
  | v :: rest => do
    if ← Value.strictEq (some v) (some value) then return true else anyItem value rest

/-- Compares two field values as numbers, the left one being converted first. -/
def compareNumbers (holds : Double → Double → Bool) (left right : Option Value) :
    Except Fault Bool := do
  let x ← Value.toNumber left
  let y ← Value.toNumber right
  return holds x y

/-- Applies an operator to a field value, which may be missing, and the value it is compared
with. -/
def holds (op : Operator) (actual : Option Value) (value : Value) : Except Fault Bool :=
  match op with
  | present => .ok (match actual with
    | none | some .null => false
    | some _ => true)
  | equal => Value.strictEq actual (some value)
  | notEqual => do return !(← Value.strictEq actual (some value))
  | above => compareNumbers (fun x y => y.lt x) actual (some value)
  | atLeast => compareNumbers (fun x y => y.le x) actual (some value)
  | below => compareNumbers Double.lt actual (some value)
  | atMost => compareNumbers Double.le actual (some value)
  | oneOf =>
    match value with
    | .list items => anyEqual actual items
    | _ => .ok false
  | contains =>
    match actual with
    | some (.text t) => .ok (Text.isInfix value.toSearchText.letters t.letters)
    | some (.list items) => anyItem value items
    | _ => .ok false

end Operator

namespace Condition

mutual

/-- Whether a tree holds in a context, which maps entity types to entities. -/
def evaluate (context : Value) : Condition → Except Fault Bool
  | .all children => evaluateAll context children
  | .any children => evaluateAny context children
  | .leaf field op value => do op.holds (← Value.resolve (some context) field) value
  | .malformed _ outcome => .ok outcome

/-- Whether all trees hold. -/
def evaluateAll (context : Value) : List Condition → Except Fault Bool
  | [] => .ok true
  | c :: rest => do if ← evaluate context c then evaluateAll context rest else return false

/-- Whether some tree holds. -/
def evaluateAny (context : Value) : List Condition → Except Fault Bool
  | [] => .ok false
  | c :: rest => do if ← evaluate context c then return true else evaluateAny context rest

end

end Condition

end Rulebook
