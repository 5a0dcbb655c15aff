import Rulebook.Impact.Scan
import Rulebook.Review

/-!
Impact runs. A run is executed once: it leaves the status running for good, and results are kept
only of a run that completes.
-/
namespace Rulebook.Impact

/-- What a run depends on besides the store. -/
structure Circumstances where
  policy : FailurePolicy := .neverTrigger
  source : EntitySource
  deriving Repr, Inhabited

/-- Starts a run of a version without executing it. -/
def createRun (caller : Caller) (version : Uuid) : Txn ImpactRun := do
  let v ← Txn.ownVersion caller.tenant version
  let r ← Txn.ruleOf v
  let row ← Txn.newRow caller.tenant
  let run : ImpactRun := { row with
    pack := some r.pack, version := v.id, status := .running, summary := none, error := none,
    createdBy := caller.user, completedAt := none }
  Txn.addRun run
  return run

/-- How a run ends. -/
inductive Outcome where
  | complete (summary : ImpactSummary)
  | failed (message : String)
  | cancelled
  deriving Repr, Inhabited

/-- The run as an outcome leaves it. -/
def Outcome.applyTo (run : ImpactRun) : Outcome → ImpactRun
  | complete summary => { run with status := .complete, summary := some summary }
  | failed message => { run with status := .failed, error := some message }
  | cancelled => { run with status := .cancelled }

/-- Ends a run that is still running, and tells whether it was. -/
def finish (tenant id : Uuid) (outcome : Outcome) : Txn Bool := do
  let completedAt ← Txn.now
  let updatedAt ← Txn.now
  match findOwn (← get).runs tenant id with
  | some run =>
    if run.status = .running then
      Txn.saveRun { outcome.applyTo run with completedAt := some completedAt, updatedAt }
      return true
    else return false
  | none => return false

/-- Adds a row for each projection of a run. -/
def addResultRows (tenant run : Uuid) : List Projection → Txn Unit
  | [] => pure ()
  | p :: rest => do
    let entityId ← Txn.encoded p.entityId
    let row ← Txn.newRow tenant
    Txn.addResult { row with
      run, entityType := p.entityType, entityId, wouldTrigger := p.wouldTrigger,
      severity := p.severity, dueDate := p.dueDate, ruleName := p.ruleName, inputs := p.inputs }
    addResultRows tenant run rest

/-- Adds the results of a run. What they quote of the entities is looked at in all of them before
any is added. -/
def addResults (tenant run : Uuid) (ps : List Projection) : Txn Unit := do
  ps.forM fun p => Txn.json (.object p.inputs)
  addResultRows tenant run ps

/-- Adds the results of a run and completes it. If it has ended in the meantime, this fails with the
results added, and is to be undone. -/
def complete (run : ImpactRun) (v : Version) (ps : List Projection) : Txn Unit := do
  addResults run.tenant run.id ps
  let completed ← finish run.tenant run.id (.complete (summary v ps))
  if !completed then throw (.runEnded run.id)

/-- Ends a run that has failed, with the message of the failure. -/
def fail (run : ImpactRun) (f : Failure) : Txn Unit := do
  discard <| finish run.tenant run.id (.failed (← Txn.encoded f.message))

/-- What becomes of a run that could not be completed: it stays as it has ended in the meantime, or
fails now. -/
def settle (run : ImpactRun) (f : Failure) : Txn Unit :=
  match f with
  | .runEnded _ => pure ()
  | f => fail run f

/-- Executes a run that is running. With `cancelDuringScan` it is cancelled as soon as its entities
are listed. -/
def executeRun (c : Circumstances) (caller : Caller) (id : Uuid) (today : Date)
    (cancelDuringScan : Bool) : Txn ImpactRun := do
  let run ← Txn.ownRun caller.tenant id
  if run.status ≠ .running then return run
  let v ← Txn.ownVersion caller.tenant run.version
  let r ← Txn.ruleOf v
  let listed := population c.policy c.source v r
  if cancelDuringScan && listed.isOk then discard <| finish run.tenant run.id .cancelled
  match listed.bind fun p => projections p v r today with
  | .ok ps => tryCatch (Txn.undoing (complete run v ps)) (settle run)
  | .error f => fail run f
  Txn.ownRun caller.tenant id

/-- Starts and executes a run. -/
def startRun (c : Circumstances) (caller : Caller) (version : Uuid) (today : Date) :
    Txn ImpactRun := do
  let run ← createRun caller version
  executeRun c caller run.id today false

/-- Whether one result is listed before another: those that trigger first, then by identifier. -/
def listedBefore (r q : ImpactResult) : Bool :=
  if r.wouldTrigger = q.wouldTrigger then r.entityId ≤ q.entityId else r.wouldTrigger

/-- The results of a run in the order of listing. -/
def resultsOf (s : Store) (tenant run : Uuid) : List ImpactResult :=
  ((ownRows s.results tenant).filter (·.run == run)).mergeSort listedBefore

/-- A run with the first page of its results. -/
def getRun (pageSize : Int) (caller : Caller) (id : Uuid) : Txn RunView := do
  let run ← Txn.ownRun caller.tenant id
  let pageSize ← Txn.column pageSize
  return { run, results := Review.upTo pageSize (resultsOf (← get) caller.tenant id) }

/-- The run, if it can still be cancelled. -/
def cancellableRun (caller : Caller) (id : Uuid) : Txn ImpactRun := do
  let run ← Txn.ownRun caller.tenant id
  if run.status ≠ .running then throw (.runFinished id run.status)
  return run

/-- Cancels a run and answers what has become of it. -/
def cancelRun (caller : Caller) (id : Uuid) : Txn ImpactRun := do
  discard <| finish caller.tenant id .cancelled
  Txn.ownRun caller.tenant id

end Rulebook.Impact
