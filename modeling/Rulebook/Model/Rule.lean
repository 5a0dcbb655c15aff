import Rulebook.Model.Row
import Rulebook.Value.Equality

/-!
Rules and their versions. A version moves from draft through review and approval to active and is
retired in the end; a rule points at its active version.
-/
namespace Rulebook

/-- Where a version stands in its life. An unchecked write can also store a label of no such
place. -/
inductive VersionStatus where
  | draft
  | inReview
  | approved
  | active
  | retired
  | unlisted (label : String)
  deriving DecidableEq, Repr, Inhabited

namespace VersionStatus

def label : VersionStatus → String
  | draft => "draft"
  | inReview => "in_review"
  | approved => "approved"
  | active => "active"
  | retired => "retired"
  | unlisted label => label

def ofLabel (s : String) : VersionStatus :=
  if s = "draft" then draft
  else if s = "in_review" then inReview
  else if s = "approved" then approved
  else if s = "active" then active
  else if s = "retired" then retired
  else unlisted s

end VersionStatus

inductive RuleStatus where
  | draft
  | inReview
  | active
  deriving DecidableEq, Repr, Inhabited

def RuleStatus.label : RuleStatus → String
  | draft => "draft"
  | inReview => "in_review"
  | active => "active"

/-- A compliance requirement. Without `appliesTo` it is about entities of every type. -/
structure Rule extends Row where
  pack : Uuid
  regulation : Option Uuid
  name : String
  appliesTo : Option String
  currentVersion : Option Uuid
  status : RuleStatus
  deriving DecidableEq, Repr, Inhabited

instance : Stored Rule := ⟨Rule.toRow⟩

/-- Whether a rule is about entities of a type. -/
def Rule.covers (r : Rule) (entityType : String) : Bool :=
  match r.appliesTo with
  | some t => t == entityType
  | none => true

/-- The logic of a rule as it stood at one time. Conditions and actions are kept as authored. -/
structure Version extends Row where
  rule : Uuid
  number : Int
  status : VersionStatus
  conditions : Value
  actions : Value
  severity : String
  changeNote : Option String
  effectiveDate : Option Date
  createdBy : Option Uuid
  approvedBy : Option Uuid
  approvedAt : Option Instant
  deriving Repr, Inhabited

instance : Stored Version := ⟨Version.toRow⟩

def Version.isActive (v : Version) : Bool := v.status == .active

/-- The conditions to read; an authored value that does not count as present means no conditions. -/
def Version.conditionsOrNone (v : Version) : Value := v.conditions.orElse (.object [])

/-- What is authored of a version. -/
structure VersionDraft where
  conditions : Value := .null
  actions : Value := .null
  severity : Option Text := some "medium"
  changeNote : Option Text := none
  effectiveDate : Option Date := none
  deriving Repr, Inhabited

/-- A change of some columns of a version; a column without a value is left as it is. -/
structure VersionChange where
  conditions : Option Value := none
  actions : Option Value := none
  severity : Option Text := none
  changeNote : Option Text := none
  effectiveDate : Option Date := none
  deriving Repr, Inhabited

/-- A write to columns of a version that no rule of authoring checks. -/
structure VersionWrite where
  number : Option Int := none
  status : Option Text := none
  conditions : Option Value := none
  actions : Option Value := none
  severity : Option Text := none
  changeNote : Option (Option Text) := none
  effectiveDate : Option (Option Date) := none
  /-- Whether a column that must have a value is to lose it. -/
  clearsRequired : Bool := false
  deriving Repr, Inhabited

/-- What is to be stored in some columns of a version; the others are not touched. -/
structure VersionEdit where
  number : Option Int := none
  status : Option VersionStatus := none
  conditions : Option Value := none
  actions : Option Value := none
  severity : Option String := none
  changeNote : Option (Option String) := none
  effectiveDate : Option (Option Date) := none
  approvedBy : Option (Option Uuid) := none
  approvedAt : Option Instant := none
  deriving Repr, Inhabited

namespace VersionEdit

/-- A version with the columns of an edit. -/
def applyTo (edit : VersionEdit) (v : Version) : Version :=
  { v with
    number := edit.number.getD v.number
    status := edit.status.getD v.status
    conditions := edit.conditions.getD v.conditions
    actions := edit.actions.getD v.actions
    severity := edit.severity.getD v.severity
    changeNote := edit.changeNote.getD v.changeNote
    effectiveDate := edit.effectiveDate.getD v.effectiveDate
    approvedBy := edit.approvedBy.getD v.approvedBy
    approvedAt := edit.approvedAt.or v.approvedAt }

/-- An edit without the JSON that is loosely equal to what is stored. -/
def settle (edit : VersionEdit) (v : Version) : VersionEdit :=
  { edit with
    conditions := edit.conditions.filter fun c => !v.conditions.looseEq c
    actions := edit.actions.filter fun a => !v.actions.looseEq a }

/-- Whether an edit changes some column of a version; JSON changes unless it is loosely equal. -/
def changes (edit : VersionEdit) (v : Version) : Bool :=
  let settled := edit.settle v
  let w := edit.applyTo v
  settled.conditions.isSome || settled.actions.isSome || v.number != w.number ||
    v.status != w.status || v.severity != w.severity || v.changeNote != w.changeNote ||
    v.effectiveDate != w.effectiveDate || v.approvedBy != w.approvedBy ||
    v.approvedAt != w.approvedAt

end VersionEdit

/-- What is authored of a rule, apart from its first version. -/
structure RuleDraft where
  pack : Uuid
  name : Text
  appliesTo : Option Text := some "loan"
  regulation : Option Uuid := none
  deriving Repr, Inhabited

end Rulebook
