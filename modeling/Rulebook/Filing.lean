import Rulebook.Directive.Plan
import Rulebook.Store.Column
import Rulebook.Store.View
import Rulebook.Store.Writes
import Rulebook.Value.JsonForm

/-!
Filing findings. A finding is stored together with its tasks or not at all; while one about a key is
live, a second one is refused as a duplicate.
-/
namespace Rulebook.Filing

/-- What a finding is about, and the evidence for it. -/
structure Subject where
  tenant : Uuid
  entityType : Text
  entityId : Text
  pack : Option Uuid
  rule : Uuid
  version : Uuid
  details : Fields
  deriving Repr, Inhabited

/-- The key of findings of a version on an entity, as the store takes it. -/
def key (tenant version : Uuid) (entityType entityId : Text) : Txn FindingKey := do
  let entityType ← Txn.encoded entityType
  let entityId ← Txn.encoded entityId
  return { tenant, entityType, entityId, version }

/-- The date of a draft. -/
def dueDate (v : Value) : Except Failure (Option Date) :=
  match v.toDate? with
  | some d => .ok d
  | none => .error (.notADate "due_date" v)

/-- A task as its columns take it; the title is missing if it was left empty. -/
structure TaskRow where
  title : Option String
  dueDate : Option Date
  artifacts : List Value
  notes : Option String
  deriving Repr, Inhabited

/-- The columns of a task with its date. -/
def taskRow (draft : TaskDraft) (dueDate : Option Date) : Txn TaskRow := do
  let title ← Txn.cell draft.title
  let notes ← Txn.cell draft.notes
  return { title, dueDate, artifacts := draft.artifacts, notes }

/-- The columns of tasks, given with their dates. What a column has no place for in one of them is
found before any task is added; artifacts are looked at first. -/
def taskRows (tasks : List (TaskDraft × Option Date)) : Txn (List TaskRow) := do
  tasks.forM fun task => Txn.json (.list task.1.artifacts)
  tasks.mapM fun task => taskRow task.1 task.2

/-- Adds the tasks of a finding. -/
def addTasks (tenant finding : Uuid) : List TaskRow → Txn Unit
  | [] => pure ()
  | task :: rest => do
    let row ← Txn.newRow tenant
    match task.title with
    | some title =>
      Txn.addTask { row with
        finding, title, status := "open", dueDate := task.dueDate, artifacts := task.artifacts
        notes := task.notes }
      addTasks tenant finding rest
    | none => throw .constraint

/-- What a finding keeps as evidence: that of its subject, with what its plan asks for. -/
def evidence (subject : Subject) (draft : FindingDraft) : Fields :=
  (subject.details.put "required_artifacts" (.list draft.artifacts)).put "blocks"
    (.list draft.blocks)

/-- Adds a finding and its tasks, given with their dates. -/
def addAll (subject : Subject) (draft : FindingDraft) (dueDate : Option Date)
    (tasks : List (TaskDraft × Option Date)) : Txn Finding := do
  Txn.json (.object (evidence subject draft))
  let key ← key subject.tenant subject.version subject.entityType subject.entityId
  let severity ← Txn.cell draft.severity
  let title ← Txn.cell draft.title
  let row ← Txn.newRow key.tenant
  match severity, title with
  | some severity, some title =>
    let f : Finding := { row with
      entityType := key.entityType, entityId := key.entityId, pack := subject.pack,
      rule := subject.rule, version := key.version, status := .open, severity, title, dueDate,
      details := evidence subject draft }
    Txn.addFinding f
    addTasks key.tenant f.id (← taskRows tasks)
    return f
  | _, _ => throw .constraint

/-- What a broken constraint means for a finding: a duplicate if one is live, else a failure to
store it. -/
def explain (subject : Subject) (f : Failure) : Txn α := do
  match f with
  | .constraint =>
    let key ← key subject.tenant subject.version subject.entityType subject.entityId
    if ((← get).liveFinding? key).isSome then throw (.duplicateFinding key)
    else throw .findingNotStored
  | f => throw f

/-- Stores a finding with its tasks. -/
def file (subject : Subject) (plan : Plan) : Txn Finding := do
  let dates ← Txn.ofExcept (plan.tasks.mapM fun t => dueDate t.dueDate)
  let due ← Txn.ofExcept (dueDate plan.finding.dueDate)
  tryCatch (Txn.undoing (addAll subject plan.finding due (plan.tasks.zip dates))) (explain subject)

/-- Whether a finding can be shown right after it was filed: its texts were given as texts. -/
def isShowable (plan : Plan) : Bool :=
  plan.finding.title.isText && plan.finding.severity.isText &&
    plan.tasks.all fun t => t.title.isText && (t.notes.isText || t.notes.isNull)

/-- Stores a finding with its tasks and shows it. -/
def fileShown (subject : Subject) (plan : Plan) : Txn FindingView := do
  let f ← file subject plan
  if isShowable plan then Txn.showFinding f else throw .unpresentable

end Rulebook.Filing
