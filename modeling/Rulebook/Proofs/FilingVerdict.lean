import Rulebook.Proofs.Calls.Filing
import Rulebook.Proofs.Store.Verdict

/-!
Whether a filing goes through, apart from what it stores. The columns of a finding and of its tasks
are judged one by one, whatever the store holds (`Filing.checkRows`), and a new finding clashes
exactly if a finding about its key is live, as its identifier is new (`Filing.any_clashes`). So of
the store nothing but that decides, and the rest is up to the subject and the plan
(`Filing.verdict_file`).
-/
namespace Rulebook

open Txn

variable {s : Store}

namespace Filing

/-! ## Columns -/

/-- Whether a column of texts stays empty when a value is put into it. -/
def staysEmpty (v : Value) : Except Failure Bool := (cellOf v).map Option.isNone

/-- Whether the row of a task stays without a title. -/
def checkTask (draft : TaskDraft) : Except Failure Bool := do
  let untitled ← staysEmpty draft.title
  discard <| cellOf draft.notes
  return untitled

/-- Whether the table takes tasks. -/
def checkTasks (drafts : List TaskDraft) : Except Failure Unit := do
  drafts.forM fun d => jsonOf (.list d.artifacts)
  let untitled ← drafts.mapM checkTask
  if untitled.any id then throw .constraint

/-- The key of the findings about a subject, if its texts can be stored. -/
def keyOf (subject : Subject) : Except Failure FindingKey := do
  let entityType ← subject.entityType.encoded
  let entityId ← subject.entityId.encoded
  return { tenant := subject.tenant, entityType, entityId, version := subject.version }

/-- Whether the tables take a finding and its tasks, where `live` tells about which keys findings
are live. -/
def checkRows (live : FindingKey → Bool) (subject : Subject) (plan : Plan) :
    Except Failure Unit := do
  jsonOf (.object (evidence subject plan.finding))
  let key ← keyOf subject
  let ungraded ← staysEmpty plan.finding.severity
  let untitled ← staysEmpty plan.finding.title
  if ungraded || untitled || live key then throw .constraint
  checkTasks plan.tasks

/-- How a broken constraint is reported. -/
def reported (live : FindingKey → Bool) (subject : Subject) : Failure → Failure
  | .constraint =>
    match keyOf subject with
    | .ok key => if live key then .duplicateFinding key else .findingNotStored
    | .error e => e
  | e => e

/-- Whether a subject and a plan are filed. -/
def check (live : FindingKey → Bool) (subject : Subject) (plan : Plan) : Except Failure Unit := do
  discard <| plan.tasks.mapM fun t => dueDate t.dueDate
  discard <| dueDate plan.finding.dueDate
  (checkRows live subject plan).mapError (reported live subject)

/-! ## Verdicts -/

theorem verdict_addTasks (tenant finding : Uuid) (rows : List TaskRow) :
    verdict (addTasks tenant finding rows) s =
      if (rows.map fun row => row.title.isNone).any id then .error .constraint else .ok () := by
  induction rows generalizing s with
  | nil => rfl
  | cons row rest ih =>
    rw [addTasks, List.map_cons, List.any_cons]
    cases row.title with
    | none => rfl
    | some title => exact ih

theorem mapM_rowOf (drafts : List (TaskDraft × Option Date)) :
    ((drafts.mapM rowOf).map fun rows => rows.map fun row => row.title.isNone) =
      (drafts.map fun d => d.1).mapM checkTask := by
  induction drafts with
  | nil => rfl
  | cons draft rest ih =>
    have hrow : (rowOf draft).map (fun row => row.title.isNone) = checkTask draft.1 := by
      unfold rowOf checkTask staysEmpty
      cases cellOf draft.1.title with
      | error e => rfl
      | ok title => cases cellOf draft.1.notes <;> rfl
    rw [List.map_cons, List.mapM_cons, List.mapM_cons, ← hrow, ← ih]
    cases rowOf draft with
    | error e => rfl
    | ok row => cases rest.mapM rowOf <;> rfl

theorem verdict_storeTasks (tenant finding : Uuid) (drafts : List (TaskDraft × Option Date)) :
    verdict (taskRows drafts >>= fun rows => addTasks tenant finding rows) s =
      checkTasks (drafts.map fun d => d.1) := by
  rw [taskRows_eq, verdict_ofExcept_bind, checkTasks, List.forM_eq_forM, List.forM_map,
    ← mapM_rowOf]
  show (forM drafts (fun draft => jsonOf (.list draft.1.artifacts)) >>= fun _ =>
    drafts.mapM rowOf).bind _ = _
  simp only [verdict_addTasks]
  cases forM drafts fun draft => jsonOf (.list draft.1.artifacts) with
  | error e => rfl
  | ok _ => cases drafts.mapM rowOf <;> rfl

/-- A new finding clashes exactly if a finding about its key is live. -/
theorem any_clashes (hs : ∀ g ∈ s.findings, g.id.number < s.nextId) {f : Finding}
    (hid : f.id = ⟨s.nextId⟩) (hopen : f.status = .open) :
    s.findings.any f.clashes = (s.liveFinding? f.key).isSome := by
  rw [Bool.eq_iff_iff, List.any_eq_true, Store.liveFinding?, List.find?_isSome]
  refine exists_congr fun g => and_congr_right fun hg => ?_
  have hne : f.id ≠ g.id := by
    intro heq
    have hlt := hs g hg
    rw [← heq, hid] at hlt
    exact Nat.lt_irrefl _ hlt
  simp [Finding.clashes, hne, hopen, FindingStatus.isLive]

theorem verdict_addFinding (hs : ∀ g ∈ s.findings, g.id.number < s.nextId) {f : Finding}
    (hid : f.id = ⟨s.nextId⟩) (hopen : f.status = .open) :
    verdict (addFinding f) s.pastRow =
      if (s.liveFinding? f.key).isSome then .error .constraint else .ok () := by
  rw [← any_clashes hs hid hopen]
  show verdict (if s.findings.any f.clashes then _ else _) s.pastRow = _
  split
  · rfl
  · rfl

theorem key_eq (subject : Subject) :
    key subject.tenant subject.version subject.entityType subject.entityId =
      Txn.ofExcept (keyOf subject) := by
  show (Txn.ofExcept subject.entityType.encoded >>= fun a =>
    Txn.ofExcept subject.entityId.encoded >>= fun b => pure _) = _
  unfold keyOf
  cases subject.entityType.encoded with
  | error e => rfl
  | ok a =>
    cases subject.entityId.encoded with
    | error e => rfl
    | ok b => rfl

/-- The verdict on a finding and its tasks, once the columns of the finding are known. -/
theorem verdict_addRows (hs : ∀ g ∈ s.findings, g.id.number < s.nextId) {f : Finding}
    (hid : f.id = ⟨s.nextId⟩) (hopen : f.status = .open) (tenant : Uuid)
    (drafts : List (TaskDraft × Option Date)) :
    verdict (do
      addFinding f
      addTasks tenant f.id (← taskRows drafts)
      return f) s.pastRow = (do
      if (s.liveFinding? f.key).isSome then throw .constraint
      checkTasks (drafts.map fun d => d.1)) := by
  have hrest : ∀ u t, Yields (addFinding f) s.pastRow u t →
      verdict (do
        addTasks tenant f.id (← taskRows drafts)
        return f) t = checkTasks (drafts.map fun d => d.1) := by
    intro _ t _
    rw [← bind_assoc, verdict_bind_pure, verdict_storeTasks]
  refine (verdict_bind_const hrest).trans ?_
  rw [verdict_addFinding hs hid hopen]
  cases (s.liveFinding? f.key).isSome with
  | true => rfl
  | false => rfl

theorem verdict_addAll (hs : ∀ g ∈ s.findings, g.id.number < s.nextId) (subject : Subject)
    (plan : Plan) (due : Option Date) (dates : List (Option Date))
    (hdates : dates.length = plan.tasks.length) :
    verdict (addAll subject plan.finding due (plan.tasks.zip dates)) s =
      checkRows (fun key => (s.liveFinding? key).isSome) subject plan := by
  rw [addAll, json_eq, key_eq, cell_eq, cell_eq, verdict_ofExcept_bind, checkRows, staysEmpty,
    staysEmpty]
  cases jsonOf (.object (evidence subject plan.finding)) with
  | error e => rfl
  | ok _ =>
    show verdict (Txn.ofExcept _ >>= _) s = (keyOf subject >>= _)
    rw [verdict_ofExcept_bind]
    cases keyOf subject with
    | error e => rfl
    | ok key =>
      show verdict (Txn.ofExcept _ >>= _) s = _
      rw [verdict_ofExcept_bind]
      cases cellOf plan.finding.severity with
      | error e => rfl
      | ok severity =>
        show verdict (Txn.ofExcept _ >>= _) s = _
        rw [verdict_ofExcept_bind]
        cases cellOf plan.finding.title with
        | error e => rfl
        | ok title =>
          cases severity with
          | none => rfl
          | some severity =>
            cases title with
            | none => rfl
            | some title =>
              refine (verdict_addRows hs rfl rfl key.tenant _).trans ?_
              rw [List.map_fst_zip (Nat.le_of_eq hdates.symm)]
              show (if (s.liveFinding? key).isSome then _ else _) =
                (if (false || false || (s.liveFinding? key).isSome) then _ else _)
              rw [Bool.false_or, Bool.false_or]

theorem fails_explain {α : Type} (subject : Subject) (e : Failure) :
    Fails (explain (α := α) subject e) s
      (reported (fun key => (s.liveFinding? key).isSome) subject e) s := by
  cases e with
  | constraint =>
    rw [explain, key_eq, reported]
    cases keyOf subject with
    | error e => exact fails_bind.2 (Or.inl (fails_ofExcept.2 ⟨rfl, rfl⟩))
    | ok key =>
      refine fails_bind.2 (Or.inr ⟨key, s, yields_ofExcept.2 ⟨rfl, rfl⟩, ?_⟩)
      rw [fails_get_bind]
      dsimp only
      split
      · exact fails_throw.2 ⟨rfl, rfl⟩
      · exact fails_throw.2 ⟨rfl, rfl⟩
  | _ => exact fails_throw.2 ⟨rfl, rfl⟩

/-- What is undone is explained from the store as it was. -/
theorem verdict_explained {α : Type} (x : Txn α) (subject : Subject) :
    verdict (tryCatch (undoing x) (explain subject)) s =
      (verdict x s).mapError (reported (fun key => (s.liveFinding? key).isSome) subject) := by
  rw [← verdict_undoing x]
  rcases yields_or_fails (undoing x) s with ⟨a, s', hx⟩ | ⟨e, s', hx⟩
  · rw [hx.verdict, (yields_tryCatch.2 (Or.inl hx)).verdict]
    rfl
  · obtain rfl := (undone_undoing x).fails hx
    rw [hx.verdict, (fails_tryCatch.2 ⟨e, s', hx, fails_explain subject e⟩).verdict]
    rfl

/-- Of the store, nothing but the live findings decides on a filing. -/
theorem verdict_file (hs : ∀ g ∈ s.findings, g.id.number < s.nextId) (subject : Subject)
    (plan : Plan) :
    verdict (file subject plan) s =
      check (fun key => (s.liveFinding? key).isSome) subject plan := by
  unfold file check
  rw [verdict_ofExcept_bind]
  cases hdates : plan.tasks.mapM fun t => dueDate t.dueDate with
  | error e => rfl
  | ok dates =>
    show verdict (Txn.ofExcept _ >>= _) s = _
    rw [verdict_ofExcept_bind]
    cases dueDate plan.finding.dueDate with
    | error e => rfl
    | ok due =>
      show verdict (tryCatch _ _) s = _
      rw [verdict_explained, verdict_addAll hs]
      · rfl
      · exact (Except.mapM_ok hdates).length_eq.symm

end Filing

end Rulebook
