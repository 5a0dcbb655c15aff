import Rulebook.Condition.Reader
import Rulebook.Directive.Plan
import Rulebook.Store.Column
import Rulebook.Store.View
import Rulebook.Store.Writes

/-!
Authoring rules and versions. Conditions are checked before directives, and both before anything is
looked up, except where a draft is changed: it has to be there and still be a draft.
-/
namespace Rulebook.Authoring

/-- The note on the first version of a rule. -/
def firstChangeNote : String := "Initial version"

/-- Lets well-formed conditions through. -/
def checkConditions (conditions : Value) : Txn Unit :=
  discard <| Txn.ofExcept ((Condition.authored conditions).mapError .malformedCondition)

/-- Lets well-formed directives through. -/
def checkActions (actions : Value) : Txn Value := do
  return .list (← Txn.ofExcept ((Directive.check actions).mapError .refusedDirectives))

/-- The severity to store: an empty one is replaced. -/
def severityOf : Option Text → Text
  | some t => if t.isEmpty then defaultSeverity else t
  | none => defaultSeverity

/-- The draft with its conditions and actions checked; those that do not count as present
are none. -/
def checkDraft (draft : VersionDraft) : Txn VersionDraft := do
  let conditions := draft.conditions.orElse (.object [])
  checkConditions conditions
  let actions ← checkActions (draft.actions.orElse (.list []))
  return { draft with conditions, actions }

/-- Adds a version of a rule. -/
def addDraft (caller : Caller) (rule : Uuid) (number : Int) (draft : VersionDraft) :
    Txn Version := do
  let number ← Txn.column number
  let severity ← Txn.encoded (severityOf draft.severity)
  let changeNote ← Txn.encoded? draft.changeNote
  let row ← Txn.newRow caller.tenant
  let v : Version := { row with
    rule, number, status := .draft, conditions := draft.conditions, actions := draft.actions,
    severity, changeNote, effectiveDate := draft.effectiveDate, createdBy := caller.user,
    approvedBy := none, approvedAt := none }
  Txn.addVersion v
  return v

/-- Makes a rule with its first version. -/
def createRule (caller : Caller) (draft : RuleDraft) (first : VersionDraft) : Txn RuleView := do
  let first ← checkDraft first
  discard <| Txn.ownPack caller.tenant draft.pack
  let name ← Txn.encoded draft.name
  let appliesTo ← Txn.encoded? draft.appliesTo
  let row ← Txn.newRow caller.tenant
  let r : Rule := { row with
    pack := draft.pack, regulation := draft.regulation, name, appliesTo, currentVersion := none,
    status := .draft }
  Txn.addRule r
  discard <| addDraft caller r.id 1 { first with changeNote := some (firstChangeNote : Text) }
  Txn.showRule r

/-- The rules of a tenant, or of one of its packs, starting with the one that changed last. -/
def listRules (caller : Caller) (pack : Option Uuid) : Txn (List RuleView) := do
  let own := (ownRows (← get).rules caller.tenant).filter fun r => pack.all (· == r.pack)
  (newestFirst (·.updatedAt) own).mapM Txn.showRule

/-- Adds the next version to a rule. -/
def createVersion (caller : Caller) (rule : Uuid) (draft : VersionDraft) : Txn Version := do
  let draft ← checkDraft draft
  let r ← Txn.ownRule caller.tenant rule
  let number := (← get).nextNumber caller.tenant r.id
  Txn.showVersion (← addDraft caller r.id number draft)

/-- Changes a draft. -/
def updateVersion (caller : Caller) (id : Uuid) (change : VersionChange) : Txn Version := do
  let v ← Txn.ownVersion caller.tenant id
  if v.status ≠ .draft then throw (.versionNotDraft id v.status)
  change.conditions.forM checkConditions
  change.actions.forM fun actions => discard <| checkActions actions
  let severity ← Txn.encoded? change.severity
  let changeNote ← Txn.encoded? change.changeNote
  Txn.showVersion <| ← Txn.saveVersion v {
    conditions := change.conditions, actions := change.actions, severity
    changeNote := changeNote.map some, effectiveDate := change.effectiveDate.map some }

/-- Writes columns of a version without any check but those of the store. -/
def forceVersion (caller : Caller) (id : Uuid) (write : VersionWrite) : Txn Version := do
  let v ← Txn.ownVersion caller.tenant id
  let number ← write.number.mapM Txn.column
  let status ← Txn.encoded? write.status
  let severity ← Txn.encoded? write.severity
  let changeNote ← write.changeNote.mapM Txn.encoded?
  if write.clearsRequired then throw .versionClash
  Txn.showVersion <| ← Txn.saveVersion v {
    number, status := status.map VersionStatus.ofLabel, conditions := write.conditions
    actions := write.actions, severity, changeNote, effectiveDate := write.effectiveDate }

/-- The number for the next version of a rule; 1 where there is no such rule. -/
def nextNumber (caller : Caller) (rule : Uuid) : Txn Int := do
  return (← get).nextNumber caller.tenant rule

/-- The versions of a rule in the order of their numbers, or those with a status. -/
def listVersions (caller : Caller) (rule : Uuid) (status : Option Text) : Txn (List Version) := do
  let status ← Txn.encoded? status
  let own := ((← get).versionsOf rule).filter fun v =>
    v.tenant == caller.tenant && status.all (· == v.status.label)
  own.mapM Txn.showVersion

/-- The active versions whose rules are about a type, in the order in which they were made. -/
def listActive (caller : Caller) (entityType : Text) : Txn (List Version) := do
  let entityType ← Txn.encoded entityType
  return ((← get).activeVersions caller.tenant entityType).map Prod.fst

end Rulebook.Authoring
