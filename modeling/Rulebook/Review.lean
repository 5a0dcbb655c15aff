import Rulebook.Store.Column
import Rulebook.Store.View
import Rulebook.Store.Writes

/-!
Reviewing findings: listing them, moving them on, and overriding them. Every override is recorded;
the finding follows it.
-/
namespace Rulebook.Review

/-- The first so many of a list; all of it for a negative number. -/
def upTo (limit : Int) (xs : List α) : List α := if limit < 0 then xs else xs.take limit.toNat

/-- What findings are listed; an empty text asks for nothing. -/
structure FindingFilter where
  status : Option Text := none
  entityType : Option Text := none
  entityId : Option Text := none
  deriving Repr, Inhabited

/-- Whether a wish is absent, empty or met. -/
def met (wish : Option Text) (actual : String) : Bool :=
  wish.all fun t => t.isEmpty || t == (actual : Text)

def FindingFilter.admits (filter : FindingFilter) (f : Finding) : Bool :=
  met filter.status f.status.label && met filter.entityType f.entityType &&
    met filter.entityId f.entityId

/-- The findings of a tenant, the newest first. -/
def listFindings (limit : Int) (caller : Caller) (filter : FindingFilter) :
    Txn (List FindingView) := do
  [filter.status, filter.entityType, filter.entityId].forM fun wish => discard <| Txn.encoded? wish
  let limit ← Txn.column limit
  let s ← get
  let admitted := (ownRows s.findings caller.tenant).filter filter.admits
  return (upTo limit (newestFirst (·.createdAt) admitted)).map s.findingView

/-- Moves a finding to another status. -/
def updateStatus (caller : Caller) (id : Uuid) (label : Text) : Txn FindingView := do
  match label.string?.bind FindingStatus.ofLabel? with
  | none => throw (.unknownFindingStatus label)
  | some status =>
    let f ← Txn.ownFinding caller.tenant id
    if f.status.successors.contains status then
      Txn.showFinding (← Txn.saveFindingStatus f status)
    else throw (.findingMove id f.status status)

/-- Records an override and moves the finding to the status that follows from it. -/
def override (caller : Caller) (id : Uuid) (draft : OverrideDraft) : Txn OverrideView := do
  let f ← Txn.ownFinding caller.tenant id
  if f.status.successors.isEmpty then throw (.findingClosed id f.status)
  let action ← Txn.encoded draft.action
  let reasonCode ← Txn.encoded? draft.reasonCode
  let reason ← Txn.encoded? draft.reason
  let approvedAt ← Txn.now
  let row ← Txn.newRow caller.tenant
  let o : Override := { row with
    finding := f.id, action, reasonCode, reason, approvedBy := caller.user, approvedAt,
    expiresAt := draft.expiresAt }
  Txn.addOverride { o with expiresAt := o.expiresAt.map fun m => { m with offset := none } }
  let moved ← Txn.saveFindingStatus f (.ofOverride action)
  return { override := o, finding := ← Txn.showFinding moved }

/-- The overrides of a finding in the order in which they were approved. -/
def listOverrides (caller : Caller) (id : Uuid) : Txn (List Override) := do
  discard <| Txn.ownFinding caller.tenant id
  let own := ownRows (← get).overrides caller.tenant
  return oldestFirst (·.approvedAt) (own.filter (·.finding == id))

end Rulebook.Review
