import Rulebook.Condition.Evaluation
import Rulebook.Condition.Fields
import Rulebook.Entity.Source
import Rulebook.Filing

/-!
Evaluating an entity: every active version that is about its type, and holds for it, files one
finding unless one is live already.
-/
namespace Rulebook.Evaluation

/-- What an evaluation depends on besides the store. -/
structure Circumstances where
  policy : FailurePolicy := .neverTrigger
  today : Date
  /-- Whether live findings are overlooked, as when another evaluation files them just after the
  look. -/
  stale : Bool := false
  deriving Repr, Inhabited

/-- An entity to be evaluated. -/
structure Target where
  tenant : Uuid
  entityType : Text
  entityId : Text
  entity : Fields
  deriving Repr, Inhabited

namespace Target

/-- The entity under the name of its type. -/
def context (t : Target) : Value := .object [(t.entityType, .object t.entity)]

/-- The entity with its identifier, which must not be null or empty. -/
def ofEntity (tenant : Uuid) (entityType : Text) (entity : Fields) : Except Failure Target :=
  let id := entity.getD "id"
  if id.isNull || id.isEmptyText then .error .entityWithoutId
  else .ok { tenant, entityType, entityId := id.plain, entity }

end Target

/-- The evidence that a finding keeps. -/
def details (v : Version) (r : Rule) (inputs : Fields) : Fields :=
  [("rule_name", .text r.name), ("inputs_snapshot", .object inputs), ("conditions", v.conditions),
    ("actions", v.actions)]

/-- What a finding of a version on an entity is about, with its evidence. -/
def subject (t : Target) (v : Version) (r : Rule) (inputs : Fields) : Filing.Subject :=
  { tenant := t.tenant, entityType := t.entityType, entityId := t.entityId, pack := some r.pack,
    rule := r.id, version := v.id, details := details v r inputs }

/-- Lets a duplicate pass without a finding. -/
def unlessDuplicate (body : Txn α) : Txn (Option α) :=
  tryCatch (do return some (← body)) fun f =>
    match f with
    | .duplicateFinding _ => pure none
    | f => throw f

/-- Evaluates one version. Malformed conditions that the policy refuses are passed over. -/
def evaluateVersion (c : Circumstances) (t : Target) (v : Version) (r : Rule) :
    Txn (Option FindingView) := do
  match Condition.ofValue c.policy v.conditionsOrNone with
  | .error _ => return none
  | .ok tree =>
    if !(← Txn.ofFault (tree.evaluate t.context)) then return none
    if !c.stale then
      let key ← Filing.key t.tenant v.id t.entityType t.entityId
      if ((← get).liveFinding? key).isSome then return none
    let inputs ← Txn.ofFault (tree.snapshot t.context t.entityType)
    let plan ← Txn.ofFault (Plan.ofValue v.actions (.text v.severity) c.today)
    unlessDuplicate (Filing.fileShown (subject t v r inputs) plan)

/-- Evaluates versions one after the other and collects the findings. -/
def evaluateVersions (c : Circumstances) (t : Target) :
    List (Version × Rule) → Txn (List FindingView)
  | [] => return []
  | (v, r) :: rest => do
    let found ← evaluateVersion c t v r
    let more ← evaluateVersions c t rest
    return found.toList ++ more

/-- Evaluates an entity and answers the findings that this makes. -/
def evaluate (c : Circumstances) (caller : Caller) (entityType : Text) (entity : Fields) :
    Txn (List FindingView) := do
  let t ← Txn.ofExcept (Target.ofEntity caller.tenant entityType entity)
  let entityType ← Txn.encoded entityType
  evaluateVersions c t ((← get).activeVersions caller.tenant entityType)

/-- Evaluates the entity with an identifier. -/
def evaluateById (c : Circumstances) (source : EntitySource) (caller : Caller)
    (entityType entityId : Text) : Txn (List FindingView) := do
  match source with
  | .absent => throw .noEntitySource
  | source =>
    match ← Txn.ofExcept (source.get? caller.tenant entityType entityId) with
    | none => throw (.entityNotFound entityType entityId)
    | some entity => evaluate c caller entityType entity

/-- Files the finding that directives ask for, on behalf of a version. -/
def apply (today : Date) (caller : Caller) (version : Uuid) (entityType entityId : Text)
    (actions severity : Value) (details : Fields) : Txn FindingView := do
  let v ← Txn.ownVersion caller.tenant version
  let r ← Txn.ruleOf v
  let plan ← Txn.ofFault (Plan.ofValue actions severity today)
  Filing.fileShown
    { tenant := caller.tenant, entityType, entityId, pack := some r.pack, rule := r.id
      version := v.id, details } plan

/-- Files a drafted finding, on behalf of a version and of no pack. -/
def createFinding (caller : Caller) (version : Uuid) (entityType entityId : Text) (plan : Plan)
    (details : Fields) : Txn FindingView := do
  let v ← Txn.ownVersion caller.tenant version
  Filing.fileShown
    { tenant := caller.tenant, entityType, entityId, pack := none, rule := v.rule, version := v.id
      details } plan

end Rulebook.Evaluation
