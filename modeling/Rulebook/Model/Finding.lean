import Rulebook.Model.Row
import Rulebook.Value.Basic

/-!
Findings, the tasks that follow from them, and the overrides that people decide on.
-/
namespace Rulebook

/-- Where a finding stands. Dismissed and waived are final. -/
inductive FindingStatus where
  | open
  | inProgress
  | dismissed
  | waived
  deriving DecidableEq, Repr, Inhabited

namespace FindingStatus

def label : FindingStatus → String
  | .open => "open"
  | inProgress => "in_progress"
  | dismissed => "dismissed"
  | waived => "waived"

def all : List FindingStatus := [.open, inProgress, dismissed, waived]

def ofLabel? (s : String) : Option FindingStatus := all.find? (·.label == s)

theorem ofLabel?_label (s : FindingStatus) : ofLabel? s.label = some s := by
  cases s <;> decide

/-- The statuses that a finding may be moved to. -/
def successors : FindingStatus → List FindingStatus
  | .open => [inProgress, dismissed, waived]
  | inProgress => [dismissed, waived]
  | dismissed | waived => []

/-- Whether a finding still calls for something. -/
def isLive : FindingStatus → Bool
  | .open | inProgress => true
  | dismissed | waived => false

/-- The status that an override gives a finding. -/
def ofOverride (action : String) : FindingStatus :=
  if action = "dismiss" then dismissed else if action = "waive" then waived else inProgress

end FindingStatus

/-- A version of a rule matched an entity. -/
structure Finding extends Row where
  entityType : String
  entityId : String
  pack : Option Uuid
  rule : Uuid
  version : Uuid
  status : FindingStatus
  severity : String
  title : String
  dueDate : Option Date
  details : Fields
  deriving Repr, Inhabited

instance : Stored Finding := ⟨Finding.toRow⟩

/-- What at most one live finding may be about. -/
structure FindingKey where
  tenant : Uuid
  entityType : String
  entityId : String
  version : Uuid
  deriving DecidableEq, Repr, Inhabited

def Finding.key (f : Finding) : FindingKey := ⟨f.tenant, f.entityType, f.entityId, f.version⟩

/-- Whether a finding is live and about a key. -/
def Finding.isLiveFor (f : Finding) (key : FindingKey) : Bool := f.status.isLive && f.key == key

/-- A piece of work that a finding asks for. -/
structure Task extends Row where
  finding : Uuid
  title : String
  status : String
  dueDate : Option Date
  artifacts : List Value
  notes : Option String
  deriving Repr, Inhabited

instance : Stored Task := ⟨Task.toRow⟩

/-- The record of a decision on a finding; it is never changed. -/
structure Override extends Row where
  finding : Uuid
  action : String
  reasonCode : Option String
  reason : Option String
  approvedBy : Option Uuid
  approvedAt : Instant
  expiresAt : Option Moment
  deriving Repr, Inhabited

instance : Stored Override := ⟨Override.toRow⟩

/-- What is decided with an override. -/
structure OverrideDraft where
  action : Text
  reasonCode : Option Text := none
  reason : Option Text := none
  expiresAt : Option Moment := none
  deriving Repr, Inhabited

end Rulebook
