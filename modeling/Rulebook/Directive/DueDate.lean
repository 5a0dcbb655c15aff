import Rulebook.Directive.Basic

/-!
Due dates of directives. A fixed date is taken as it is authored; a count of days is added to the
reference date.
-/
namespace Rulebook.Directive

/-- The due date of a directive that sets one: the authored value, or the ISO text of a date so many
days after the reference date. Any other directive, mode or count gives null. -/
def dueDate (directive : Value) (today : Date) : Except Fault Value :=
  if kind? directive = some .setDueDate then
    match DueDateMode.ofValue? (directive.getD "mode") with
    | some .fixed => .ok (directive.getD "value")
    | some .daysFromNow => do
      match ← (directive.getD "value").toDays? with
      | some days => return .text (← today.shift days).toIsoText
      | none => return .null
    | none => .ok .null
  else .ok .null

/-- The due date of the first directive in a list that sets one. -/
def firstDueDateOf (today : Date) : List Value → Except Fault Value
  | [] => .ok .null
  | v :: rest => if kind? v = some .setDueDate then dueDate v today else firstDueDateOf today rest

/-- The due date of the first directive that sets one, in an authored list. -/
def firstDueDate (directives : Value) (today : Date) : Except Fault Value := do
  firstDueDateOf today (← entries directives)

end Rulebook.Directive
