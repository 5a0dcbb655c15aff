import Rulebook.Directive.DueDate

/-!
The plan of a list of directives: one finding and any number of tasks. The last due date, title and
severity that count as present win; artifacts and blocks add up; tasks are drafted after the walk,
so that each sees the due date and all artifacts of the finding.
-/
namespace Rulebook

def defaultFindingTitle : String := "Compliance requirement triggered"

def defaultTaskTitle : String := "Compliance task"

def defaultSeverity : String := "medium"

/-- A task to be. -/
structure TaskDraft where
  title : Value
  dueDate : Value
  artifacts : List Value
  notes : Value
  deriving Repr, Inhabited

/-- A finding to be. -/
structure FindingDraft where
  title : Value := .text defaultFindingTitle
  severity : Value := .text defaultSeverity
  dueDate : Value := .null
  artifacts : List Value := []
  blocks : List Value := []
  deriving Repr, Inhabited

/-- All that a triggered version writes. -/
structure Plan where
  finding : FindingDraft
  tasks : List TaskDraft
  deriving Repr, Inhabited

namespace Plan

/-- What one directive does to the finding. Directives for tasks, and those of no kind, do
nothing. -/
def absorb (today : Date) (finding : FindingDraft) (directive : Value) :
    Except Fault FindingDraft :=
  match Directive.kind? directive with
  | some .setDueDate => do
    let due ← Directive.dueDate directive today
    return { finding with dueDate := due.orElse finding.dueDate }
  | some .createFinding =>
    .ok { finding with
      title := (directive.getD "title").orElse finding.title
      severity := (directive.getD "severity").orElse finding.severity }
  | some .requireArtifact => do
    let items ← Directive.entries (directive.getD "items")
    return { finding with artifacts := finding.artifacts ++ items }
  | some .blockAction => .ok { finding with blocks := finding.blocks ++ [directive] }
  | some .createTask | none => .ok finding

/-- The finding that a list of directives asks for. -/
def findingOf (today : Date) (start : FindingDraft) (directives : List Value) :
    Except Fault FindingDraft :=
  directives.foldlM (absorb today) start

/-- The task that a directive asks for. Its own count of days, unless blank or zero, and its own
list of artifacts take the place of those of the finding. -/
def taskOf (today : Date) (finding : FindingDraft) (directive : Value) :
    Except Fault TaskDraft := do
  let dueDate ← match ← (directive.getD "sla_days").toDays? with
    | none | some 0 => pure finding.dueDate
    | some days => do pure (.text (← today.shift days).toIsoText)
  let artifacts ← match directive.getD "required_artifacts" with
    | .null => pure finding.artifacts
    | own => own.items
  return {
    title := (directive.getD "title").orElse (.text defaultTaskTitle)
    dueDate, artifacts
    notes := directive.getD "notes" }

/-- The plan of a list of directives. -/
def ofEntries (directives : List Value) (severity : Value) (today : Date) : Except Fault Plan := do
  let finding ← findingOf today { severity := severity.orElse (.text defaultSeverity) } directives
  let tasks ← (directives.filter (Directive.kind? · = some .createTask)).mapM (taskOf today finding)
  return { finding, tasks }

/-- The plan of an authored value. -/
def ofValue (directives severity : Value) (today : Date) : Except Fault Plan := do
  ofEntries (← Directive.entries directives) severity today

end Plan

end Rulebook
