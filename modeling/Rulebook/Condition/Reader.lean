import Rulebook.Condition.Basic

/-!
Reading a condition tree from a JSON value, and writing it back. The empty object is a group `any`
of nothing; a key `all` is looked at before a key `any`, and both before the keys of a leaf.
-/
namespace Rulebook.Condition

/-- What becomes of a malformed node under a policy. -/
def refuse (policy : FailurePolicy) (place : Place) (fault : NodeFault) :
    Except Malformed Condition :=
  match policy with
  | .reject => .error ⟨place, fault⟩
  | .neverTrigger => .ok (.malformed ⟨place, fault⟩ false)
  | .alwaysTrigger => .ok (.malformed ⟨place, fault⟩ true)

/-- The operator that a member `op` names. -/
def operatorOf? : Value → Option Operator
  | .text t => t.string?.bind Operator.ofSymbol?
  | _ => none

/-- Reads a leaf from the members of an object. -/
def readLeaf (policy : FailurePolicy) (place : Place) (fields : Fields) :
    Except Malformed Condition :=
  match fields.get? "field" with
  | some (.text field) =>
    if field.isEmpty then refuse policy place .noField
    else
      let op := fields.getD "op"
      let value := fields.getD "value"
      match operatorOf? op with
      | none => refuse policy place (.unknownOperator op)
      | some op =>
        if op = .oneOf && !value.isList then refuse policy place .membersNotAList
        else .ok (.leaf field op value)
  | _ => refuse policy place .noField

mutual

/-- Reads the tree that stands at a place. -/
def read (policy : FailurePolicy) (place : Place) : Value → Except Malformed Condition
  | .object [] => .ok (.any [])
  | .object fields =>
    match readMember policy place .all fields with
    | some result => result
    | none =>
      match readMember policy place .any fields with
      | some result => result
      | none => readLeaf policy place fields
  | _ => refuse policy place .notAnObject
termination_by structural v => v

/-- Reads the group under its key, if there is such a member. -/
def readMember (policy : FailurePolicy) (place : Place) (group : Group) :
    List (Text × Value) → Option (Except Malformed Condition)
  | [] => none
  | (key, v) :: rest =>
    if key = group.key then some (readGroup policy place group v)
    else readMember policy place group rest
termination_by structural fields => fields

/-- Reads a group from the value under its key. -/
def readGroup (policy : FailurePolicy) (place : Place) (group : Group) :
    Value → Except Malformed Condition
  | .list items => do return group.node (← readItems policy place group 0 items)
  | _ => refuse policy place (.groupNotAList group)
termination_by structural v => v

/-- Reads the conditions of a group from a position on. -/
def readItems (policy : FailurePolicy) (place : Place) (group : Group) (index : Nat) :
    List Value → Except Malformed (List Condition)
  | [] => .ok []
  | v :: rest => do
    let c ← read policy (place ++ [⟨group, index⟩]) v
    let cs ← readItems policy place group (index + 1) rest
    return c :: cs
termination_by structural items => items

end

/-- Reads a tree under a policy. -/
def ofValue (policy : FailurePolicy) (v : Value) : Except Malformed Condition := read policy [] v

/-- Reads a tree that is authored: nothing malformed is let through. -/
def authored (v : Value) : Except Malformed Condition := ofValue .reject v

mutual

/-- Writes a tree as JSON; a malformed node has no written form of its own and is written as
null. -/
def toValue : Condition → Value
  | .all children => .object [("all", .list (toValues children))]
  | .any children => .object [("any", .list (toValues children))]
  | .leaf field op value =>
    .object [("field", .text field), ("op", .text op.symbol), ("value", value)]
  | .malformed .. => .null

def toValues : List Condition → List Value
  | [] => []
  | c :: rest => toValue c :: toValues rest

end

end Rulebook.Condition
