import Rulebook.Condition.Evaluation
import Rulebook.Condition.Fields
import Rulebook.Proofs.Text.Ascending

/-!
The fields that a tree reads. The walk with a stack finds the fields of the leaves (`mem_fields`),
each once and in ascending order (`pairwise_fields`). Evaluation and snapshot look at a context
through nothing else, so where two contexts give each of these fields one value, or fail alike at
it, nothing tells them apart (`fields_determine_outcome`).
-/
namespace Rulebook.Condition

/-- Induction over trees: what holds of all conditions of a group holds of the group. -/
@[elab_as_elim]
theorem tree_induction {motive : Condition → Prop}
    (all : ∀ children, (∀ c ∈ children, motive c) → motive (.all children))
    (any : ∀ children, (∀ c ∈ children, motive c) → motive (.any children))
    (leaf : ∀ field op value, motive (.leaf field op value))
    (malformed : ∀ node outcome, motive (.malformed node outcome)) (c : Condition) : motive c := by
  cases c with
  | all children => exact all children fun d _ => tree_induction all any leaf malformed d
  | any children => exact any children fun d _ => tree_induction all any leaf malformed d
  | leaf field op value => exact leaf field op value
  | malformed node outcome => exact malformed node outcome

/-! ## The fields of the leaves -/

mutual

/-- The fields of the leaves of a tree, from left to right. -/
def leafFields : Condition → List Text
  | .all children | .any children => leafFieldsAmong children
  | .leaf field _ _ => [field]
  | .malformed .. => []

def leafFieldsAmong : List Condition → List Text
  | [] => []
  | c :: rest => leafFields c ++ leafFieldsAmong rest

end

theorem leafFieldsAmong_append (cs ds : List Condition) :
    leafFieldsAmong (cs ++ ds) = leafFieldsAmong cs ++ leafFieldsAmong ds := by
  induction cs with
  | nil => rfl
  | cons c rest ih => simp only [List.cons_append, leafFieldsAmong, ih, List.append_assoc]

theorem mem_leafFieldsAmong {field : Text} {cs : List Condition} :
    field ∈ leafFieldsAmong cs ↔ ∃ c ∈ cs, field ∈ c.leafFields := by
  induction cs with
  | nil => simp [leafFieldsAmong]
  | cons c rest ih => simp [leafFieldsAmong, ih]

/-- The walk finds the fields of all trees on the stack. -/
theorem mem_collectFields {field : Text} (stack : List Condition) (found : List Text) :
    field ∈ collectFields stack found ↔ field ∈ leafFieldsAmong stack ∨ field ∈ found := by
  fun_induction collectFields stack found with
  | case1 found => simp [leafFieldsAmong]
  | case2 name op value stack found ih =>
    rw [ih, Text.mem_insertAscending]
    simp only [leafFieldsAmong, leafFields, List.singleton_append, List.mem_cons]
    rw [or_left_comm, or_assoc]
  | case3 node outcome stack found ih =>
    rw [ih]
    rfl
  | case4 children stack found ih | case5 children stack found ih =>
    rw [ih, leafFieldsAmong_append]
    rfl

theorem mem_fields {c : Condition} {field : Text} : field ∈ c.fields ↔ field ∈ c.leafFields := by
  simp [fields, mem_collectFields, leafFieldsAmong]

theorem pairwise_collectFields (stack : List Condition) {found : List Text}
    (h : found.Pairwise (· < ·)) : (collectFields stack found).Pairwise (· < ·) := by
  fun_induction collectFields stack found with
  | case1 => exact h
  | case2 name op value stack found ih => exact ih (Text.pairwise_insertAscending h)
  | case3 node outcome stack found ih => exact ih h
  | case4 children stack found ih | case5 children stack found ih => exact ih h

/-- The fields of a tree are in ascending order, each once. -/
theorem pairwise_fields (c : Condition) : c.fields.Pairwise (· < ·) :=
  pairwise_collectFields [c] List.Pairwise.nil

/-! ## Two contexts -/

variable {context other : Value}

theorem evaluateAll_congr {cs : List Condition}
    (h : ∀ c ∈ cs, evaluate context c = evaluate other c) :
    evaluateAll context cs = evaluateAll other cs := by
  induction cs with
  | nil => rfl
  | cons c rest ih =>
    rw [evaluateAll, evaluateAll, h c List.mem_cons_self,
      ih fun d hd => h d (List.mem_cons_of_mem c hd)]

theorem evaluateAny_congr {cs : List Condition}
    (h : ∀ c ∈ cs, evaluate context c = evaluate other c) :
    evaluateAny context cs = evaluateAny other cs := by
  induction cs with
  | nil => rfl
  | cons c rest ih =>
    rw [evaluateAny, evaluateAny, h c List.mem_cons_self,
      ih fun d hd => h d (List.mem_cons_of_mem c hd)]

/-- The outcome of a tree depends on what the fields of its leaves lead to. -/
theorem evaluate_congr {c : Condition}
    (h : ∀ field ∈ c.leafFields, Value.resolve (some context) field =
      Value.resolve (some other) field) :
    evaluate context c = evaluate other c := by
  induction c using tree_induction with
  | all children ih =>
    have hchildren : ∀ d ∈ children, evaluate context d = evaluate other d := fun d hd =>
      ih d hd fun field hfield => h field (mem_leafFieldsAmong.mpr ⟨d, hd, hfield⟩)
    rw [evaluate, evaluate, evaluateAll_congr hchildren]
  | any children ih =>
    have hchildren : ∀ d ∈ children, evaluate context d = evaluate other d := fun d hd =>
      ih d hd fun field hfield => h field (mem_leafFieldsAmong.mpr ⟨d, hd, hfield⟩)
    rw [evaluate, evaluate, evaluateAny_congr hchildren]
  | leaf field op value => rw [evaluate, evaluate, h field List.mem_cons_self]
  | malformed node outcome => rw [evaluate, evaluate]

theorem snapshotFields_congr {entityType : Text} {names : List Text}
    (h : ∀ field ∈ names, Value.resolve (some context) field = Value.resolve (some other) field)
    (start : Fields) :
    snapshotFields entityType context start names =
      snapshotFields entityType other start names := by
  induction names generalizing start with
  | nil => rfl
  | cons name rest ih =>
    have hrest := ih fun field hfield => h field (List.mem_cons_of_mem name hfield)
    simp only [snapshotFields, h name List.mem_cons_self, hrest]

/-- Evaluation reads nothing but the fields of a tree: two contexts in which each of them leads to
one value, is missing in both or fails in the same way give the tree one outcome, be it a fault, and
one snapshot for every type of entity. -/
theorem fields_determine_outcome (tree : Condition) (context other : Value)
    (h : ∀ field ∈ tree.fields, Value.resolve (some context) field =
      Value.resolve (some other) field) :
    tree.evaluate context = tree.evaluate other ∧
      ∀ entityType, tree.snapshot context entityType = tree.snapshot other entityType :=
  ⟨evaluate_congr fun field hfield => h field (mem_fields.mpr hfield),
    fun _ => snapshotFields_congr h []⟩

/-- The second leaf fails at every list, since `²` looks like an index and is none. -/
def squareTag : Condition :=
  .any [.leaf "loan.state" .equal (.text "NY"), .leaf "loan.tags.²" .present .null]

/-- Two loans in one state and with different tags: both evaluations get to the second leaf and
fail at it. -/
theorem fields_determine_outcome_square :
    let plain : Value := .object [("loan", .object [("state", .text "TX"), ("tags", .list [])])]
    let tagged : Value := .object [("app", .null),
      ("loan", .object [("tags", .list [.text "arm"]), ("state", .text "TX")])]
    (∀ field ∈ squareTag.fields, Value.resolve (some tagged) field =
      Value.resolve (some plain) field) ∧
      squareTag.evaluate plain = .error (.badIndex "²") ∧
      squareTag.evaluate tagged = squareTag.evaluate plain ∧
      squareTag.snapshot tagged "loan" = squareTag.snapshot plain "loan" := by
  intro plain tagged
  have hfields : ∀ field ∈ squareTag.fields, Value.resolve (some tagged) field =
      Value.resolve (some plain) field := by
    intro field hfield
    have hleaf : field ∈ [Text.ofString "loan.state", Text.ofString "loan.tags.²"] :=
      mem_fields.mp hfield
    simp only [List.mem_cons, List.not_mem_nil, or_false] at hleaf
    rcases hleaf with rfl | rfl <;> rfl
  obtain ⟨hevaluate, hsnapshot⟩ := fields_determine_outcome squareTag tagged plain hfields
  exact ⟨hfields, rfl, hevaluate, hsnapshot "loan"⟩

end Rulebook.Condition
