import Rulebook.Engine.Call

/-!
The engine: the store, the source of entities and the schedule of background tasks. `Engine.perform`
takes calls one by one; what a call that fails has written is undone, unless statements are
committed one by one.

Calls do not overlap: each is through before the next begins. Two that race are calls in one order
or the other, a call whose look-up is stale, or an execution whose run is cancelled while it scans.
The store is one database, which takes writes in turn and does not follow references between tables.
Left out are how deep a nesting the host bears, the wording of what the database itself reports, log
output, and how the tables came to be.
-/
namespace Rulebook

/-- The settings of an engine. -/
structure Settings where
  policy : FailurePolicy := .neverTrigger
  /-- How many findings are listed; all of them for a negative number. -/
  listLimit : Int := 200
  /-- How many results a run is shown with; all of them for a negative number. -/
  pageSize : Int := 50
  /-- Whether each statement is committed by itself, so that a call that fails is not undone. -/
  statementwise : Bool := false
  deriving Repr, Inhabited

structure Engine where
  store : Store
  source : EntitySource
  schedule : Impact.Schedule := []
  deriving Repr, Inhabited

namespace Engine

/-- Runs a transaction on the store. -/
def transact (settings : Settings) (body : Txn α) (e : Engine) : Except Failure α × Engine :=
  let body := if settings.statementwise then body else Txn.undoing body
  let (result, store) := body e.store
  (result, { e with store })

/-- Runs a transaction and answers with its result. -/
def answer (settings : Settings) (form : α → Answer) (body : Txn α) (e : Engine) :
    Except Failure Answer × Engine :=
  e.transact settings (form <$> body)

/-- The reference date of a call. -/
def reference (today : Option Date) : Txn Date :=
  match today with
  | some d => pure d
  | none => Txn.today

/-- Cancels the background task of a run, if there is one. -/
def cancelTask (settings : Settings) (run : Uuid) (e : Engine) : Bool × Engine :=
  match e.schedule.task? run with
  | none => (false, e)
  | some t =>
    let (_, e) := e.transact settings t.cancel
    (true, { e with schedule := e.schedule.drop run })

/-- Cancels a run. -/
def cancelRun (settings : Settings) (caller : Caller) (run : Uuid) (withSchedule : Bool)
    (e : Engine) : Except Failure Answer × Engine :=
  match e.transact settings (Impact.cancellableRun caller run) with
  | (.error f, e) => (.error f, e)
  | (.ok _, e) =>
    let e := if withSchedule then (e.cancelTask settings run).2 else e
    e.answer settings .run (Impact.cancelRun caller run)

/-- Starts a run and leaves its execution to a background task. -/
def submitRun (settings : Settings) (caller : Caller) (version : Uuid) (e : Engine) :
    Except Failure Answer × Engine :=
  match e.transact settings (Impact.createRun caller version) with
  | (.error f, e) => (.error f, e)
  | (.ok run, e) => (.ok (.runStarted run), { e with schedule := e.schedule.submit caller run.id })

/-- Lets the background task of a run go on to its end; `false` if there is none. -/
def releaseRun (settings : Settings) (run : Uuid) (e : Engine) : Bool × Engine :=
  match e.schedule.task? run with
  | none => (false, e)
  | some t =>
    let (_, e) := e.transact settings (t.execute { policy := settings.policy, source := e.source })
    (true, { e with schedule := e.schedule.drop run })

/-- Lets all background tasks go on to their ends. -/
def finishTasks (settings : Settings) (e : Engine) : Engine :=
  (e.schedule.map (·.run)).foldl (fun e run => (e.releaseRun settings run).2) e

/-- Performs a call. -/
def perform (settings : Settings) (caller : Caller) (call : Call) (e : Engine) :
    Except Failure Answer × Engine :=
  let impact : Impact.Circumstances := { policy := settings.policy, source := e.source }
  match call with
  | .createPack draft => e.answer settings .pack (Catalogue.createPack caller draft)
  | .listPacks => e.answer settings .packs (Catalogue.listPacks caller)
  | .updatePack pack change => e.answer settings .pack (Catalogue.updatePack caller pack change)
  | .createRegulation draft =>
    e.answer settings .regulation (Catalogue.createRegulation caller draft)
  | .listRegulations pack =>
    e.answer settings .regulations (Catalogue.listRegulations caller pack)
  | .createRule draft first => e.answer settings .rule (Authoring.createRule caller draft first)
  | .listRules pack => e.answer settings .rules (Authoring.listRules caller pack)
  | .createVersion rule draft =>
    e.answer settings .version (Authoring.createVersion caller rule draft)
  | .updateVersion version change =>
    e.answer settings .version (Authoring.updateVersion caller version change)
  | .forceVersion version write =>
    e.answer settings .version (Authoring.forceVersion caller version write)
  | .submitRule rule => e.answer settings .rule (Lifecycle.submitRule caller rule)
  | .approveVersion version => e.answer settings .version (Lifecycle.approveVersion caller version)
  | .activateVersion version => e.answer settings .rule (Lifecycle.activateVersion caller version)
  | .retireVersion version => e.answer settings .version (Lifecycle.retireVersion caller version)
  | .nextNumber rule => e.answer settings .number (Authoring.nextNumber caller rule)
  | .listVersions rule status =>
    e.answer settings .versions (Authoring.listVersions caller rule status)
  | .listActive entityType => e.answer settings .active (Authoring.listActive caller entityType)
  | .evaluate entityType entity today stale =>
    e.answer settings .findings do
      Evaluation.evaluate { policy := settings.policy, today := ← reference today, stale } caller
        entityType entity
  | .evaluateById entityType entityId today =>
    e.answer settings .findings do
      Evaluation.evaluateById { policy := settings.policy, today := ← reference today } e.source
        caller entityType entityId
  | .apply version entityType entityId actions severity details today =>
    e.answer settings .finding do
      Evaluation.apply (← reference today) caller version entityType entityId actions severity
        details
  | .createFinding version entityType entityId plan details =>
    e.answer settings .finding
      (Evaluation.createFinding caller version entityType entityId plan details)
  | .listFindings filter =>
    e.answer settings .findings (Review.listFindings settings.listLimit caller filter)
  | .updateStatus finding status =>
    e.answer settings .finding (Review.updateStatus caller finding status)
  | .override finding draft => e.answer settings .override (Review.override caller finding draft)
  | .listOverrides finding => e.answer settings .overrides (Review.listOverrides caller finding)
  | .listEntities entityType => (Answer.entities <$> e.source.list caller.tenant entityType, e)
  | .getEntity entityType entityId =>
    (Answer.entity <$> e.source.get? caller.tenant entityType entityId, e)
  | .addEntity entityType entity =>
    (.ok .done, { e with source := e.source.add ⟨caller.tenant, entityType, entity⟩ })
  | .runInline version =>
    e.answer settings .runDetail do
      let run ← Impact.startRun impact caller version (← Txn.today)
      Impact.getRun settings.pageSize caller run.id
  | .startRun version =>
    e.answer settings .runStarted do Impact.startRun impact caller version (← Txn.today)
  | .createRun version => e.answer settings .run (Impact.createRun caller version)
  | .executeRun run today cancelDuringScan =>
    e.answer settings .run do
      Impact.executeRun impact caller run (← reference today) cancelDuringScan
  | .getRun run => e.answer settings .runDetail (Impact.getRun settings.pageSize caller run)
  | .cancelRun run withSchedule => e.cancelRun settings caller run withSchedule
  | .submitRun version => e.submitRun settings caller version
  | .beginTasks => (.ok .done, { e with schedule := e.schedule.begin })
  | .releaseRun run =>
    let (found, e) := e.releaseRun settings run
    (.ok (.flag found), e)
  | .isRunning run => (.ok (.flag (e.schedule.isRunning run)), e)
  | .cancelTask run =>
    let (found, e) := e.cancelTask settings run
    (.ok (.flag found), e)
  | .shutdown =>
    let (_, e) := e.transact settings (Impact.cancelAll e.schedule)
    (.ok .done, { e with schedule := [] })

end Engine

end Rulebook
