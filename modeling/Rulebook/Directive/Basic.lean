import Rulebook.Value.Coercion

/-!
Action directives: what a rule asks for when it triggers. A directive is a JSON object whose member
`type` names its kind; the other members depend on the kind.
-/
namespace Rulebook

/-- The kinds of directive. -/
inductive DirectiveKind where
  | setDueDate
  | createFinding
  | createTask
  | requireArtifact
  | blockAction
  deriving DecidableEq, Repr, Inhabited

namespace DirectiveKind

def label : DirectiveKind → String
  | setDueDate => "set_due_date"
  | createFinding => "create_finding"
  | createTask => "create_task"
  | requireArtifact => "require_artifact"
  | blockAction => "block_action"

def all : List DirectiveKind :=
  [setDueDate, createFinding, createTask, requireArtifact, blockAction]

def ofLabel? (s : String) : Option DirectiveKind := all.find? (·.label == s)

theorem ofLabel?_label (k : DirectiveKind) : ofLabel? k.label = some k := by
  cases k <;> decide

/-- The kind that a member `type` names. -/
def ofValue? : Value → Option DirectiveKind
  | .text t => t.string?.bind ofLabel?
  | _ => none

end DirectiveKind

/-- How a due date is given. -/
inductive DueDateMode where
  | fixed
  | daysFromNow
  deriving DecidableEq, Repr, Inhabited

namespace DueDateMode

def label : DueDateMode → String
  | fixed => "fixed"
  | daysFromNow => "days_from_now"

def ofLabel? (s : String) : Option DueDateMode := [fixed, daysFromNow].find? (·.label == s)

theorem ofLabel?_label (m : DueDateMode) : ofLabel? m.label = some m := by
  cases m <;> decide

/-- The mode that a member `mode` names. -/
def ofValue? : Value → Option DueDateMode
  | .text t => t.string?.bind ofLabel?
  | _ => none

end DueDateMode

namespace Directive

/-- The kind of a directive; what is no object, or names no kind, has none. -/
def kind? (v : Value) : Option DirectiveKind :=
  match v with
  | .object _ => DirectiveKind.ofValue? (v.getD "type")
  | _ => none

/-- The entries of an authored list; a value that does not count as present has none. -/
def entries (v : Value) : Except Fault (List Value) :=
  if v.isPresent then v.items else .ok []

end Directive

/-- The date a count of days away. The count itself has a limit well beyond the calendar. -/
def Date.shift (d : Date) (days : Int) : Except Fault Date :=
  if days < -2147483648 ∨ 2147483647 < days then .error .daysTooWide
  else if Fault.maxDays < days.natAbs then .error (.tooManyDays days)
  else
    match d.addDays? days with
    | some shifted => .ok shifted
    | none => .error .beyondCalendar

end Rulebook
