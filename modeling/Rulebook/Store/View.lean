import Rulebook.Store.Txn

/-!
Rows as answers show them: a version with its conditions and actions made whole, a rule with its
versions, a finding with its tasks.
-/
namespace Rulebook

/-- A version as it is shown: what does not count as present is shown as an empty object and an
empty list, and other actions as the list of their items. Conditions that are no object cannot be
shown. -/
def Version.shown (v : Version) : Except Failure Version := do
  let actions ← (Directive.entries v.actions).mapError Failure.fault
  let conditions := v.conditionsOrNone
  if conditions.isObject then return { v with conditions, actions := .list actions }
  else throw .unpresentable

/-- A rule with its versions in the order of their numbers. -/
structure RuleView where
  rule : Rule
  versions : List Version
  deriving Repr, Inhabited

/-- A finding with its tasks. -/
structure FindingView where
  finding : Finding
  tasks : List Task
  deriving Repr, Inhabited

/-- An override and the finding it was made on, as it stands then. -/
structure OverrideView where
  override : Override
  finding : FindingView
  deriving Repr, Inhabited

/-- A run with the first of its results. -/
structure RunView where
  run : ImpactRun
  results : List ImpactResult
  deriving Repr, Inhabited

namespace Store

/-- A rule as it is shown. -/
def ruleView (s : Store) (r : Rule) : Except Failure RuleView := do
  return { rule := r, versions := ← (s.versionsOf r.id).mapM Version.shown }

/-- A finding as it is shown. -/
def findingView (s : Store) (f : Finding) : FindingView :=
  { finding := f, tasks := s.tasksOf f.id }

end Store

namespace Txn

def showVersion (v : Version) : Txn Version := ofExcept v.shown

def showRule (r : Rule) : Txn RuleView := do ofExcept ((← get).ruleView r)

def showFinding (f : Finding) : Txn FindingView := do return (← get).findingView f

end Txn

end Rulebook
