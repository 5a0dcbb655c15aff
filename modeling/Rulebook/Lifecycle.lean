import Rulebook.Store.View
import Rulebook.Store.Writes

/-!
The life of a version: submitted, approved, activated, retired. At most one version of a rule is
active, and the rule points at it.
-/
namespace Rulebook.Lifecycle

/-- Sends all drafts of a rule to review. A rule that has an active version stays active. -/
def submitRule (caller : Caller) (id : Uuid) : Txn RuleView := do
  let r ← Txn.ownRule caller.tenant id
  let drafts := ((← get).versionsOf r.id).filter fun v =>
    v.tenant == caller.tenant && v.status == .draft
  if drafts.isEmpty then throw (.nothingToSubmit id)
  Txn.saveVersionStatus .inReview drafts
  let r ← if r.currentVersion.isNone then Txn.saveRule r { r with status := .inReview } else pure r
  Txn.showRule r

/-- The version, if it is ready for a step. -/
def readyVersion (caller : Caller) (id : Uuid) (step : VersionStep) : Txn Version := do
  let v ← Txn.ownVersion caller.tenant id
  if v.status ≠ step.source then throw (.versionNotReady id v.status step)
  return v

/-- Approves a version under review, with the name of the user and the time. -/
def approveVersion (caller : Caller) (id : Uuid) : Txn Version := do
  let v ← readyVersion caller id .approve
  let approvedAt ← Txn.now
  let approved ← Txn.saveVersion v
    { status := some .approved, approvedBy := some caller.user, approvedAt := some approvedAt }
  Txn.showVersion approved

/-- Makes an approved version the active one of its rule; the one that was active is retired
first. -/
def activateVersion (caller : Caller) (id : Uuid) : Txn RuleView := do
  let v ← readyVersion caller id .activate
  let r ← Txn.ownRule caller.tenant v.rule
  let active := ((← get).versionsOf r.id).filter fun w => w.tenant == caller.tenant && w.isActive
  Txn.saveVersionStatus .retired active
  discard <| Txn.saveVersion v { status := some .active }
  let r ← Txn.saveRule r { r with currentVersion := some v.id, status := .active }
  Txn.showRule r

/-- Retires an active or approved version. The rule of the active version is a draft again. -/
def retireVersion (caller : Caller) (id : Uuid) : Txn Version := do
  let v ← Txn.ownVersion caller.tenant id
  if v.status ≠ .active ∧ v.status ≠ .approved then throw (.versionNotRetirable id v.status)
  let retired ← Txn.saveVersion v { status := some .retired }
  if v.isActive then
    let r ← Txn.ownRule caller.tenant v.rule
    if r.currentVersion = some v.id then
      discard <| Txn.saveRule r { r with currentVersion := none, status := .draft }
  Txn.showVersion retired

end Rulebook.Lifecycle
