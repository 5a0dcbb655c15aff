import Rulebook.Condition.Basic
import Rulebook.Text.Ascending
import Rulebook.Value.Path

/-!
The fields that a condition tree reads, and a snapshot of their values. The walk keeps the subtrees
still to visit on a stack; their total size falls with every step.
-/
namespace Rulebook.Condition

mutual

/-- The number of nodes of a tree. -/
def size : Condition → Nat
  | .all children | .any children => 1 + sizes children
  | .leaf .. | .malformed .. => 1

/-- The number of nodes of several trees. -/
def sizes : List Condition → Nat
  | [] => 0
  | c :: rest => size c + sizes rest

end

theorem sizes_append (cs ds : List Condition) : sizes (cs ++ ds) = sizes cs + sizes ds := by
  induction cs with
  | nil => simp [sizes]
  | cons c rest ih => simp [sizes, ih, Nat.add_assoc]

/-- Adds the fields of the trees on a stack to those found so far. -/
def collectFields : List Condition → List Text → List Text
  | [], found => found
  | .leaf field _ _ :: stack, found => collectFields stack (Text.insertAscending field found)
  | .malformed .. :: stack, found => collectFields stack found
  | .all children :: stack, found => collectFields (children ++ stack) found
  | .any children :: stack, found => collectFields (children ++ stack) found
termination_by stack => sizes stack
decreasing_by all_goals simp only [sizes, sizes_append, size]; omega

/-- The fields that a tree reads, in ascending order. -/
def fields (c : Condition) : List Text := collectFields [c] []

/-- The key of a field in a snapshot: relative to the entity, if the path starts at it. -/
def snapshotKey (entityType field : Text) : Text :=
  let start := entityType.letters ++ [.char '.']
  if start.isPrefixOf field.letters then ⟨field.letters.drop start.length⟩ else field

/-- Adds the values of fields to a snapshot; what is missing is recorded as null. -/
def snapshotFields (entityType : Text) (context : Value) (snapshot : Fields) :
    List Text → Except Fault Fields
  | [] => .ok snapshot
  | field :: rest => do
    let v ← Value.resolve (some context) field
    snapshotFields entityType context
      (snapshot.put (snapshotKey entityType field) (v.getD .null)) rest

/-- The values of the fields that a tree reads. -/
def snapshot (c : Condition) (context : Value) (entityType : Text) : Except Fault Fields :=
  snapshotFields entityType context [] c.fields

end Rulebook.Condition
