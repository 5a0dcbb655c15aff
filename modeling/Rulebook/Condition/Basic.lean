import Rulebook.Value.Shown

/-!
Condition trees over the fields of an entity, and what can be wrong with the JSON they are authored
in.
-/
namespace Rulebook

/-- The comparisons of a leaf. -/
inductive Operator where
  | present
  | equal
  | notEqual
  | above
  | atLeast
  | below
  | atMost
  | oneOf
  | contains
  deriving DecidableEq, Repr, Inhabited

namespace Operator

/-- The written form of an operator. -/
def symbol : Operator → String
  | present => "exists"
  | equal => "="
  | notEqual => "!="
  | above => ">"
  | atLeast => ">="
  | below => "<"
  | atMost => "<="
  | oneOf => "in"
  | contains => "contains"

def all : List Operator :=
  [present, equal, notEqual, above, atLeast, below, atMost, oneOf, contains]

def ofSymbol? (s : String) : Option Operator := all.find? (·.symbol == s)

theorem ofSymbol?_symbol (op : Operator) : ofSymbol? op.symbol = some op := by
  cases op <;> decide

end Operator

/-- The two kinds of group. -/
inductive Group where
  | all
  | any
  deriving DecidableEq, Repr, Inhabited

/-- The key under which a group is authored. -/
def Group.key : Group → String
  | all => "all"
  | any => "any"

/-- A step from a group to one of its conditions. -/
structure Branch where
  group : Group
  index : Nat
  deriving DecidableEq, Repr

/-- A place in a tree, from the root down. -/
abbrev Place := List Branch

/-- The written form of a place: `$.all[1].any[0]`. -/
def Place.text (p : Place) : String :=
  p.foldl (fun s b => s ++ "." ++ b.group.key ++ "[" ++ toString b.index ++ "]") "$"

/-- What is wrong with one node. -/
inductive NodeFault where
  | notAnObject
  | groupNotAList (group : Group)
  | noField
  | unknownOperator (op : Value)
  | membersNotAList
  deriving Repr, Inhabited

def NodeFault.message : NodeFault → String
  | notAnObject => "condition must be an object"
  | groupNotAList group => "'" ++ group.key ++ "' must be a list of conditions"
  | noField => "condition must define 'all', 'any' or a non-empty 'field'"
  | unknownOperator op => "unknown operator " ++ op.shown
  | membersNotAList => "operator 'in' requires a list value"

/-- A malformed node: where it stands and what is wrong with it. -/
structure Malformed where
  place : Place
  fault : NodeFault
  deriving Repr, Inhabited

/-- The reason kept with a malformed node. -/
def Malformed.reason (m : Malformed) : String := m.place.text ++ ": " ++ m.fault.message

/-- The message with which a malformed node is refused. -/
def Malformed.message (m : Malformed) : String := "Invalid condition at " ++ m.reason

/-- What becomes of a malformed node: the whole tree is refused, or the node is kept with a fixed
outcome. -/
inductive FailurePolicy where
  | reject
  | neverTrigger
  | alwaysTrigger
  deriving DecidableEq, Repr, Inhabited

def FailurePolicy.label : FailurePolicy → String
  | reject => "reject"
  | neverTrigger => "never_trigger"
  | alwaysTrigger => "always_trigger"

def FailurePolicy.ofLabel? (s : String) : Option FailurePolicy :=
  [reject, neverTrigger, alwaysTrigger].find? (·.label == s)

/-- A condition tree. A malformed node is a leaf with an outcome of its own. -/
inductive Condition where
  | all (children : List Condition)
  | any (children : List Condition)
  | leaf (field : Text) (op : Operator) (value : Value)
  | malformed (node : Malformed) (outcome : Bool)
  deriving Repr, Inhabited

/-- The node of a group of conditions. -/
def Group.node : Group → List Condition → Condition
  | all => .all
  | any => .any

end Rulebook
