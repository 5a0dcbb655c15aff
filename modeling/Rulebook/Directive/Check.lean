import Rulebook.Directive.DueDate
import Rulebook.Value.Shown

/-!
Checking directives as they are authored. The first entry that is not well formed is refused, with
its place in the list and the member at fault.
-/
namespace Rulebook

/-- What is wrong with one entry. -/
inductive EntryFault where
  | notAnObject
  | unknownKind (kind : Value)
  | unknownMode (mode : Value)
  | fixedNotADate
  | daysNotANumber
  | notAText (member : String)
  | deadlineNotANumber
  | artifactsNotAList
  | itemsNotAList
  deriving Repr, Inhabited

namespace EntryFault

def message : EntryFault → String
  | notAnObject => "action must be an object"
  | unknownKind kind => "unknown action type " ++ kind.shown
  | unknownMode mode => "unknown due date mode " ++ mode.shown
  | fixedNotADate => "fixed due date must be an ISO date"
  | daysNotANumber => "days_from_now value must be a number"
  | notAText member => member ++ " must be a string"
  | deadlineNotANumber => "sla_days must be a number"
  | artifactsNotAList => "required_artifacts must be a list"
  | itemsNotAList => "items must be a list"

/-- The member at fault, if it is not the whole entry. -/
def member? : EntryFault → Option String
  | notAnObject => none
  | unknownKind _ => some "type"
  | unknownMode _ => some "mode"
  | fixedNotADate | daysNotANumber => some "value"
  | notAText member => some member
  | deadlineNotANumber => some "sla_days"
  | artifactsNotAList => some "required_artifacts"
  | itemsNotAList => some "items"

end EntryFault

/-- Why a list of directives is refused. -/
inductive DirectiveRefusal where
  | notAList
  | entry (index : Nat) (what : EntryFault)
  /-- A number in an entry that cannot be converted. -/
  | unconvertible (f : Fault)
  deriving Repr, Inhabited

namespace DirectiveRefusal

def message : DirectiveRefusal → String
  | notAList => "actions must be a list"
  | entry _ what => what.message
  | unconvertible _ => ""

/-- The place of the refused part. -/
def place : DirectiveRefusal → String
  | notAList | unconvertible _ => "actions"
  | entry index what =>
    let start := "actions[" ++ toString index ++ "]"
    match what.member? with
    | some member => start ++ "." ++ member
    | none => start

end DirectiveRefusal

namespace Directive

/-- Whether a value converts to a count of days. -/
def givesDays (v : Value) : Except Fault Bool := do return (← v.toDays?).isSome

/-- Whether a value is the text of a date. -/
def isDateText : Value → Bool
  | .text t => (t.string?.bind Date.ofIsoText?).isSome
  | _ => false

/-- What is wrong with a directive that sets a due date. -/
def dueDateFault? (directive : Value) : Except Fault (Option EntryFault) :=
  let mode := directive.getD "mode"
  let value := directive.getD "value"
  match DueDateMode.ofValue? mode with
  | none => .ok (some (.unknownMode mode))
  | some .fixed => .ok (if isDateText value then none else some .fixedNotADate)
  | some .daysFromNow => do return if ← givesDays value then none else some .daysNotANumber

/-- Whether a member is a text or null. -/
def isTextOrNull (v : Value) : Bool := v.isNull || v.isText

/-- What is wrong with a directive for a task. -/
def taskFault? (directive : Value) : Except Fault (Option EntryFault) := do
  let deadline := directive.getD "sla_days"
  let artifacts := directive.getD "required_artifacts"
  if !deadline.isNull && !(← givesDays deadline) then return some .deadlineNotANumber
  else if !artifacts.isNull && !artifacts.isList then return some .artifactsNotAList
  else return none

/-- What is wrong with one entry, if anything is. -/
def entryFault? (v : Value) : Except Fault (Option EntryFault) :=
  match v with
  | .object _ =>
    match kind? v with
    | none => .ok (some (.unknownKind (v.getD "type")))
    | some .setDueDate => dueDateFault? v
    | some .createFinding =>
      if !isTextOrNull (v.getD "title") then .ok (some (.notAText "title"))
      else if !isTextOrNull (v.getD "severity") then .ok (some (.notAText "severity"))
      else .ok none
    | some .createTask => taskFault? v
    | some .requireArtifact =>
      .ok (if (v.getD "items").isList then none else some .itemsNotAList)
    | some .blockAction => .ok none
  | _ => .ok (some .notAnObject)

/-- Checks the entries from a position on. -/
def checkFrom (index : Nat) : List Value → Except DirectiveRefusal Unit
  | [] => .ok ()
  | v :: rest =>
    match entryFault? v with
    | .error f => .error (.unconvertible f)
    | .ok (some what) => .error (.entry index what)
    | .ok none => checkFrom (index + 1) rest

/-- Checks an authored list of directives. -/
def check (v : Value) : Except DirectiveRefusal (List Value) :=
  match v with
  | .list entries => do
    checkFrom 0 entries
    return entries
  | _ => .error .notAList

end Directive

end Rulebook
