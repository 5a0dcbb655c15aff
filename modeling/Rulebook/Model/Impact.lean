import Rulebook.Model.Row
import Rulebook.Value.Basic

/-!
Impact runs: dry runs of a version over all entities of a type, with one result for each entity.
-/
namespace Rulebook

/-- Where a run stands. All but running are final. -/
inductive RunStatus where
  | running
  | complete
  | failed
  | cancelled
  deriving DecidableEq, Repr, Inhabited

def RunStatus.label : RunStatus → String
  | running => "running"
  | complete => "complete"
  | failed => "failed"
  | cancelled => "cancelled"

/-- The counts of a complete run. -/
structure ImpactSummary where
  total : Nat
  wouldTrigger : Nat
  noTrigger : Nat
  severity : String
  deriving DecidableEq, Repr, Inhabited

/-- One dry run of a version. -/
structure ImpactRun extends Row where
  pack : Option Uuid
  version : Uuid
  status : RunStatus
  summary : Option ImpactSummary
  error : Option String
  createdBy : Option Uuid
  completedAt : Option Instant
  deriving DecidableEq, Repr, Inhabited

instance : Stored ImpactRun := ⟨ImpactRun.toRow⟩

/-- What a version would do to one entity. -/
structure Projection where
  entityType : String
  entityId : Text
  wouldTrigger : Bool
  severity : String
  dueDate : Option Date
  ruleName : String
  inputs : Fields
  deriving Repr, Inhabited

/-- The stored result of a run for one entity. -/
structure ImpactResult extends Row where
  run : Uuid
  entityType : String
  entityId : String
  wouldTrigger : Bool
  severity : String
  dueDate : Option Date
  ruleName : String
  inputs : Fields
  deriving Repr, Inhabited

instance : Stored ImpactResult := ⟨ImpactResult.toRow⟩

end Rulebook
