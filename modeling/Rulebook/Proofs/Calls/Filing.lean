import Rulebook.Evaluation
import Rulebook.Proofs.Store.Failing
import Rulebook.Proofs.Store.Saving

/-!
Filing findings. What a filing stores follows from its subject and its plan (`Filing.Files`); where
it does not go through, nothing is stored at all (`Filing.yields_file`, `Filing.undone_file`). A
duplicate is reported only where a live finding is in the way (`Filing.fails_file_duplicate`).
-/
namespace Rulebook

open Txn

variable {c : Impact.Circumstances} {s s' : Store}

namespace Filing

/-! ## What is stored -/

/-- A stored task is what was drafted, with the date that the draft spells. -/
structure Drafted (tenant finding : Uuid) (draft : TaskDraft × Option Date) (k : Task) : Prop where
  tenant_eq : k.tenant = tenant
  finding_eq : k.finding = finding
  title_eq : cellOf draft.1.title = .ok (some k.title)
  status_eq : k.status = "open"
  dueDate_eq : k.dueDate = draft.2
  artifacts_eq : k.artifacts = draft.1.artifacts
  notes_eq : cellOf draft.1.notes = .ok k.notes

/-- A stored finding and its tasks are what a subject and a plan say. -/
structure Files (subject : Subject) (plan : Plan) (f : Finding) (ts : List Task) : Prop where
  tenant_eq : f.tenant = subject.tenant
  entityType_eq : Text.ofString f.entityType = subject.entityType
  entityId_eq : Text.ofString f.entityId = subject.entityId
  pack_eq : f.pack = subject.pack
  rule_eq : f.rule = subject.rule
  version_eq : f.version = subject.version
  status_eq : f.status = .open
  severity_eq : cellOf plan.finding.severity = .ok (some f.severity)
  title_eq : cellOf plan.finding.title = .ok (some f.title)
  dueDate_eq : dueDate plan.finding.dueDate = .ok f.dueDate
  details_eq : f.details = evidence subject plan.finding
  tasks : ∃ dates, plan.tasks.mapM (fun t => dueDate t.dueDate) = .ok dates ∧
    List.Forall₂ (Drafted subject.tenant f.id) (plan.tasks.zip dates) ts

/-- The store once a finding and its tasks have been added, the finding first. -/
def Stores (s s' : Store) (f : Finding) (ts : List Task) : Prop :=
  f.id = ⟨s.nextId⟩ ∧ ts.map (fun k => k.id) = idsFrom (s.nextId + 1) ts.length ∧
    (∀ g ∈ s.findings, f.clashes g = false) ∧
    ∃ t, Ticks s.clock t (f.createdAt :: ts.map fun k => k.createdAt) ∧
      s' = { s with findings := s.findings ++ [f], tasks := s.tasks ++ ts
                    nextId := s.nextId + 1 + ts.length, clock := t }

/-! ## The columns of tasks -/

/-- The columns of a task, whatever the store. -/
def rowOf (draft : TaskDraft × Option Date) : Except Failure TaskRow := do
  let title ← cellOf draft.1.title
  let notes ← cellOf draft.1.notes
  return { title, dueDate := draft.2, artifacts := draft.1.artifacts, notes }

/-- The columns of tasks, whatever the store. -/
def rowsOf (drafts : List (TaskDraft × Option Date)) : Except Failure (List TaskRow) := do
  drafts.forM fun draft => jsonOf (.list draft.1.artifacts)
  drafts.mapM rowOf

theorem taskRow_eq (draft : TaskDraft × Option Date) :
    taskRow draft.1 draft.2 = ofExcept (rowOf draft) := by
  unfold taskRow rowOf
  rw [cell_eq, cell_eq, ← ofExcept_bind]
  refine bind_congr fun title => ?_
  rw [← ofExcept_bind]
  rfl

theorem taskRows_eq (drafts : List (TaskDraft × Option Date)) :
    taskRows drafts = ofExcept (rowsOf drafts) := by
  unfold taskRows rowsOf
  simp only [json_eq, taskRow_eq, listForM_ofExcept, listMapM_ofExcept, ofExcept_bind]

theorem reads_taskRows (drafts : List (TaskDraft × Option Date)) : Reads (taskRows drafts) := by
  rw [taskRows_eq]
  exact reads_ofExcept _

theorem rowOf_eq_ok {draft : TaskDraft × Option Date} {row : TaskRow}
    (h : rowOf draft = .ok row) : cellOf draft.1.title = .ok row.title ∧ row.dueDate = draft.2 ∧
      row.artifacts = draft.1.artifacts ∧ cellOf draft.1.notes = .ok row.notes := by
  obtain ⟨title, htitle, h⟩ := Except.bind_eq_ok.1 h
  obtain ⟨notes, hnotes, h⟩ := Except.bind_eq_ok.1 h
  cases h
  exact ⟨htitle, rfl, rfl, hnotes⟩

theorem rowsOf_eq_ok {drafts : List (TaskDraft × Option Date)} {rows : List TaskRow}
    (h : rowsOf drafts = .ok rows) :
    List.Forall₂ (fun draft row => rowOf draft = .ok row) drafts rows := by
  obtain ⟨_, -, h⟩ := Except.bind_eq_ok.1 h
  exact Except.mapM_ok h

/-! ## Adding -/

theorem reads_key (tenant version : Uuid) (entityType entityId : Text) :
    Reads (key tenant version entityType entityId) :=
  (reads_encoded _).bind fun _ => (reads_encoded _).bind fun _ => reads_pure _

theorem yields_addTasks {tenant finding : Uuid} {drafts : List (TaskDraft × Option Date)}
    {rows : List TaskRow}
    (hrows : List.Forall₂ (fun draft row => rowOf draft = .ok row) drafts rows) {u : Unit}
    (h : Yields (addTasks tenant finding rows) s u s') :
    ∃ ts t, ts.map (fun k => k.id) = idsFrom s.nextId ts.length ∧
      List.Forall₂ (Drafted tenant finding) drafts ts ∧
      Ticks s.clock t (ts.map fun k => k.createdAt) ∧
      s' = { s with tasks := s.tasks ++ ts, nextId := s.nextId + ts.length, clock := t } := by
  induction hrows generalizing s with
  | nil =>
    obtain ⟨-, rfl⟩ := yields_pure.1 h
    exact ⟨[], s'.clock, rfl, .nil, Nat.le_refl _, by simp⟩
  | @cons draft row drafts rows hrow _ ih =>
    unfold addTasks at h
    rw [yields_newRow_bind] at h
    obtain ⟨htitle, hdue, hartifacts, hnotes⟩ := rowOf_eq_ok hrow
    cases hfilled : row.title with
    | none =>
      rw [hfilled] at h
      cases h
    | some title =>
      rw [hfilled] at h htitle
      obtain ⟨_, t, hadded, h⟩ := yields_bind.1 h
      rw [yields_modify.1 hadded] at h
      obtain ⟨ts, clock, hids, hdrafted, htime, hs'⟩ := ih h
      have hfirst : Drafted tenant finding draft { s.nextRow tenant with
          finding, title, status := "open", dueDate := row.dueDate, artifacts := row.artifacts
          notes := row.notes } :=
        ⟨rfl, rfl, htitle, rfl, hdue, hartifacts, hnotes⟩
      refine ⟨_ :: ts, clock, ?_, .cons hfirst hdrafted, s.ticks_pastRow.append htime, ?_⟩
      · rw [List.map_cons, List.length_cons, idsFrom_succ]
        exact congrArg _ hids
      · rw [hs', List.length_cons, Nat.add_comm ts.length 1, ← Nat.add_assoc, ← List.append_cons]
        rfl

theorem yields_addAll {subject : Subject} {draft : FindingDraft} {due : Option Date}
    {drafts : List (TaskDraft × Option Date)} {f : Finding}
    (h : Yields (addAll subject draft due drafts) s f s') :
    ∃ k ts, Yields (key subject.tenant subject.version subject.entityType subject.entityId) s k s ∧
      Stores s s' f ts ∧ List.Forall₂ (Drafted k.tenant f.id) drafts ts ∧
      cellOf draft.severity = .ok (some f.severity) ∧ cellOf draft.title = .ok (some f.title) ∧
      ∃ row : Row, f = { row with
        tenant := k.tenant, entityType := k.entityType, entityId := k.entityId
        pack := subject.pack, rule := subject.rule, version := k.version, status := .open
        severity := f.severity, title := f.title, dueDate := due
        details := evidence subject draft } := by
  unfold addAll at h
  obtain ⟨_, -, h⟩ := (reads_json _).yields_bind.1 h
  obtain ⟨k, hk, h⟩ := (reads_key _ _ _ _).yields_bind.1 h
  obtain ⟨severity, hseverity, h⟩ := (reads_cell _).yields_bind.1 h
  obtain ⟨title, htitle, h⟩ := (reads_cell _).yields_bind.1 h
  rw [yields_newRow_bind] at h
  cases severity with
  | none => cases h
  | some severity =>
    cases title with
    | none => cases h
    | some title =>
      dsimp only at h
      obtain ⟨_, t, hadded, h⟩ := yields_bind.1 h
      obtain ⟨hunique, ht⟩ := yields_addFinding.1 hadded
      obtain ⟨rows, hrows, h⟩ := (reads_taskRows _).yields_bind.1 h
      rw [taskRows_eq] at hrows
      obtain ⟨_, t', htasks, h⟩ := yields_bind.1 h
      obtain ⟨hf, hs'⟩ := yields_pure.1 h
      rw [ht] at htasks
      obtain ⟨ts, clock, hids, hdrafted, htime, ht'⟩ :=
        yields_addTasks (rowsOf_eq_ok (yields_ofExcept.1 hrows).1) htasks
      rw [hf]
      refine ⟨k, ts, hk, ⟨rfl, hids, hunique, clock, s.ticks_pastRow.append htime, ?_⟩, hdrafted,
        (yields_cell.1 hseverity).1, (yields_cell.1 htitle).1, s.nextRow k.tenant, rfl⟩
      rw [hs', ht']
      rfl

theorem yields_key {tenant version : Uuid} {entityType entityId : Text} {k : FindingKey}
    (h : Yields (key tenant version entityType entityId) s k s') :
    k.tenant = tenant ∧ k.version = version ∧ entityType.string? = some k.entityType ∧
      entityId.string? = some k.entityId := by
  obtain ⟨t, ht, h⟩ := (reads_encoded _).yields_bind.1 h
  obtain ⟨i, hi, h⟩ := (reads_encoded _).yields_bind.1 h
  obtain ⟨hk, -⟩ := yields_pure.1 h
  rw [hk]
  exact ⟨rfl, rfl, (yields_encoded.1 ht).1, (yields_encoded.1 hi).1⟩

theorem key_goes_through {tenant version : Uuid} {a b : String} :
    Yields (key tenant version (Text.ofString a) (Text.ofString b)) s
      ⟨tenant, a, b, version⟩ s := by
  refine yields_bind.2 ⟨a, s, yields_encoded.2 ⟨Text.string?_ofString a, rfl⟩, ?_⟩
  refine yields_bind.2 ⟨b, s, yields_encoded.2 ⟨Text.string?_ofString b, rfl⟩, ?_⟩
  exact yields_pure.2 ⟨rfl, rfl⟩

/-- What is filed has the key that the subject has. -/
theorem Files.yields_key {subject : Subject} {plan : Plan} {f : Finding} {ts : List Task}
    (h : Files subject plan f ts) :
    Yields (key subject.tenant subject.version subject.entityType subject.entityId) s f.key s := by
  rw [← h.tenant_eq, ← h.version_eq, ← h.entityType_eq, ← h.entityId_eq]
  exact key_goes_through

theorem reads_explain {α : Type} (subject : Subject) (e : Failure) :
    Reads (explain (α := α) subject e) := by
  unfold explain
  split
  · refine (reads_key _ _ _ _).bind fun k => reads_get.bind fun t => ?_
    split
    · exact reads_throw _
    · exact reads_throw _
  · exact reads_throw _

theorem not_yields_explain {α : Type} {subject : Subject} {e : Failure} {a : α} :
    ¬ Yields (explain subject e) s a s' := by
  unfold explain
  split
  · intro h
    obtain ⟨k, -, h⟩ := (reads_key _ _ _ _).yields_bind.1 h
    rw [yields_get_bind] at h
    split at h
    · exact not_yields_throw h
    · exact not_yields_throw h
  · exact not_yields_throw

/-- A filing that goes through stores its finding with its tasks. -/
theorem yields_file {subject : Subject} {plan : Plan} {f : Finding}
    (h : Yields (file subject plan) s f s') :
    ∃ ts, Files subject plan f ts ∧ Stores s s' f ts := by
  unfold file at h
  obtain ⟨dates, hdates, h⟩ := (reads_ofExcept _).yields_bind.1 h
  obtain ⟨due, hdue, h⟩ := (reads_ofExcept _).yields_bind.1 h
  rcases yields_tryCatch.1 h with h | ⟨_, _, -, h⟩
  · obtain ⟨k, ts, hk, hstores, hdrafted, hseverity, htitle, row, hf⟩ :=
      yields_addAll (yields_undoing.1 h)
    obtain ⟨htenant, hversion, htype, hid⟩ := yields_key hk
    refine ⟨ts, ?_, hstores⟩
    rw [htenant] at hdrafted
    refine ⟨?_, ?_, ?_, ?_, ?_, ?_, ?_, hseverity, htitle, ?_, ?_, dates,
      (yields_ofExcept.1 hdates).1, hdrafted⟩
    · rw [hf]
      exact htenant
    · rw [hf]
      exact Text.ofString_of_string? htype
    · rw [hf]
      exact Text.ofString_of_string? hid
    · rw [hf]
    · rw [hf]
    · rw [hf]
      exact hversion
    · rw [hf]
    · rw [hf]
      exact (yields_ofExcept.1 hdue).1
    · rw [hf]
  · exact absurd h not_yields_explain

/-- A filing that fails stores nothing. -/
theorem undone_file (subject : Subject) (plan : Plan) : Undone (file subject plan) := by
  refine .read_bind (reads_ofExcept _) fun dates => .read_bind (reads_ofExcept _) fun due => ?_
  exact (undone_undoing _).tryCatch fun e => reads_explain subject e

/-! ## Duplicates -/

theorem failsAs_taskRows (drafts : List (TaskDraft × Option Date)) :
    FailsAs Failure.NoDuplicate (taskRows drafts) := by
  refine (failsAs_listForM (fun _ => failsAs_json (fun _ h => by cases h) _) _).bind fun _ => ?_
  refine failsAs_listMapM (fun draft => ?_) _
  exact (failsAs_cell _).bind fun _ => (failsAs_cell _).bind fun _ => failsAs_pure _

theorem failsAs_addTasks (tenant finding : Uuid) (rows : List TaskRow) :
    FailsAs Failure.NoDuplicate (addTasks tenant finding rows) := by
  induction rows with
  | nil => exact failsAs_pure _
  | cons row rest ih =>
    refine (failsAs_newRow _).bind fun _ => ?_
    split
    · exact (failsAs_modify _).bind fun _ => ih
    · exact failsAs_throw fun _ h => by cases h

theorem failsAs_key (tenant version : Uuid) (entityType entityId : Text) :
    FailsAs Failure.NoDuplicate (key tenant version entityType entityId) :=
  (failsAs_encoded _).bind fun _ => (failsAs_encoded _).bind fun _ => failsAs_pure _

theorem failsAs_addAll (subject : Subject) (draft : FindingDraft) (due : Option Date)
    (drafts : List (TaskDraft × Option Date)) :
    FailsAs Failure.NoDuplicate (addAll subject draft due drafts) := by
  have hconstraint : Failure.NoDuplicate .constraint := fun _ h => by cases h
  refine (failsAs_json (fun _ h => by cases h) _).bind fun _ => ?_
  refine (failsAs_key _ _ _ _).bind fun key => ?_
  refine (failsAs_cell _).bind fun severity => (failsAs_cell _).bind fun title => ?_
  refine (failsAs_newRow _).bind fun row => ?_
  split
  · refine FailsAs.bind ?_ fun _ => (failsAs_taskRows _).bind fun rows => ?_
    · exact failsAs_get.bind fun t => failsAs_guard hconstraint (failsAs_modify _)
    · exact (failsAs_addTasks _ _ _).bind fun _ => failsAs_pure _
  · exact failsAs_throw hconstraint

theorem noDuplicate_dueDate {v : Value} {e : Failure} (h : dueDate v = .error e) :
    e.NoDuplicate := by
  unfold dueDate at h
  split at h
  · cases h
  · cases h
    exact fun _ h => by cases h

/-- A duplicate is reported only where a live finding is about the key. -/
theorem fails_file_duplicate {subject : Subject} {plan : Plan} {reported : FindingKey}
    (h : Fails (file subject plan) s (.duplicateFinding reported) s') :
    ∃ k, Yields (key subject.tenant subject.version subject.entityType subject.entityId) s k s ∧
      (s.liveFinding? k).isSome := by
  have hrefl : ¬ (Failure.duplicateFinding reported).NoDuplicate := fun h => h reported rfl
  unfold file at h
  rcases (reads_ofExcept _).fails_bind.1 h with ⟨h, -⟩ | ⟨dates, -, h⟩
  · refine absurd (failsAs_ofExcept (fun e he => ?_) h) hrefl
    obtain ⟨k, -, hk⟩ := Except.mapM_error he
    exact noDuplicate_dueDate hk
  rcases (reads_ofExcept _).fails_bind.1 h with ⟨h, -⟩ | ⟨due, -, h⟩
  · exact absurd (failsAs_ofExcept (fun e => noDuplicate_dueDate) h) hrefl
  obtain ⟨d, t, hadd, hexplain⟩ := fails_tryCatch.1 h
  obtain ⟨rfl, _, hadd⟩ := fails_undoing hadd
  have hd := failsAs_addAll _ _ _ _ hadd
  unfold explain at hexplain
  split at hexplain
  · rcases (reads_key _ _ _ _).fails_bind.1 hexplain with ⟨h, -⟩ | ⟨k, hk, h⟩
    · exact absurd (failsAs_key _ _ _ _ h) hrefl
    · rw [fails_get_bind] at h
      split at h
      · next hlive => exact ⟨k, hk, hlive⟩
      · obtain ⟨heq, -⟩ := fails_throw.1 h
        cases heq
  · obtain ⟨heq, -⟩ := fails_throw.1 hexplain
    rw [← heq] at hd
    exact absurd hd hrefl

/-! ## Changes -/

theorem Files.change {subject : Subject} {plan : Plan} {f : Finding} {ts : List Task}
    (h : Files subject plan f ts) (hstores : Stores s s' f ts) : Change c .filing s s' := by
  obtain ⟨dates, -, hdrafted⟩ := h.tasks
  obtain ⟨hid, hids, hunique, t, htime, rfl⟩ := hstores
  refine .filed hid h.status_eq hunique hids ?_ htime
  exact forall_mem_of_forall₂ hdrafted fun draft k hk =>
    ⟨hk.finding_eq, hk.tenant_eq.trans h.tenant_eq.symm⟩

theorem file_changes (subject : Subject) (plan : Plan) :
    Changes c .filing s (file subject plan s).2 := by
  rcases undone_file subject plan s with ⟨f, s', h⟩ | h
  · obtain ⟨ts, hfiles, hstores⟩ := yields_file h
    rw [show file subject plan s = _ from h]
    exact .single (hfiles.change hstores)
  · rw [h]
    exact .refl s

theorem fileShown_changes (subject : Subject) (plan : Plan) :
    Changes c .filing s (fileShown subject plan s).2 := by
  unfold fileShown
  refine .bind_reads (file_changes subject plan) fun f => ?_
  split
  · exact reads_showFinding f
  · exact reads_throw _

end Filing

/-! ## The supply of identifiers -/

/-- No finding has an identifier that is still to be given, and no task is of such a finding. -/
structure Store.Supplied (s : Store) : Prop where
  findings : ∀ f ∈ s.findings, f.id.number < s.nextId
  tasks : ∀ k ∈ s.tasks, k.finding.number < s.nextId

theorem Store.Intact.supplied (hs : s.Intact) : s.Supplied where
  findings := hs.findings.below
  tasks k hk := by
    obtain ⟨f, hf, hid, -⟩ := mem_owned.1 (hs.taskFinding k hk)
    rw [← hid]
    exact hs.findings.below f hf

theorem Change.supplied (h : Change c .filing s s') (hs : s.Supplied) : s'.Supplied := by
  cases h with
  | passed later =>
    exact ⟨fun f hf => Nat.lt_of_lt_of_le (hs.findings f hf) later,
      fun k hk => Nat.lt_of_lt_of_le (hs.tasks k hk) later⟩
  | versionSaved old lawful unique => cases lawful
  | @filed _ f ts _ id status unique ids tasks =>
    have hid : f.id.number = s.nextId := congrArg Uuid.number id
    constructor
    · intro g hg
      rcases List.mem_append.1 hg with hg | hg
      · exact Nat.lt_add_right _ (Nat.lt_succ_of_lt (hs.findings g hg))
      · rw [List.mem_singleton.1 hg, hid]
        exact Nat.lt_add_right _ (Nat.lt_succ_self _)
    · intro k hk
      rcases List.mem_append.1 hk with hk | hk
      · exact Nat.lt_add_right _ (Nat.lt_succ_of_lt (hs.tasks k hk))
      · rw [(tasks k hk).1, hid]
        exact Nat.lt_add_right _ (Nat.lt_succ_self _)

theorem Changes.supplied (h : Changes c .filing s s') (hs : s.Supplied) : s'.Supplied := by
  induction h with
  | refl => exact hs
  | tail _ last ih => exact last.supplied ih

theorem Store.Supplied.of_yields {α : Type} {x : Txn α} {a : α} (hs : s.Supplied)
    (hx : Changes { source := .absent } .filing s (x s).2) (h : Yields x s a s') : s'.Supplied :=
  (Changes.of_yields hx h).supplied hs

namespace Evaluation

variable {circumstances : Circumstances} {caller : Caller}

theorem unlessDuplicate_changes {α : Type} {x : Txn α} (hx : Changes c .filing s (x s).2) :
    Changes c .filing s ((unlessDuplicate x) s).2 := by
  unfold unlessDuplicate
  refine .tryCatch (.bind_reads hx fun a => reads_pure _) fun e s' _ _ => ?_
  split
  · exact .refl s'
  · exact .refl s'

/-- An entity that is evaluated is one of the caller's tenant, as its `id` names it. -/
theorem Target.ofEntity_eq_ok {tenant : Uuid} {entityType : Text} {entity : Fields} {t : Target}
    (h : Target.ofEntity tenant entityType entity = .ok t) :
    t = { tenant, entityType, entityId := (entity.getD "id").plain, entity } := by
  unfold Target.ofEntity at h
  dsimp only at h
  split at h
  · cases h
  · exact (Except.ok.inj h).symm

/-- What is done for a version that holds: its finding is filed unless it is a duplicate. -/
def fileHit (today : Date) (t : Target) (v : Version) (r : Rule) (tree : Condition) :
    Txn (Option FindingView) := do
  let inputs ← ofFault (tree.snapshot t.context t.entityType)
  let plan ← ofFault (Plan.ofValue v.actions (.text v.severity) today)
  unlessDuplicate (Filing.fileShown (subject t v r inputs) plan)

theorem evaluateVersion_of_tree {t : Target} {v : Version} {r : Rule} {tree : Condition}
    (h : Condition.ofValue circumstances.policy v.conditionsOrNone = .ok tree) :
    evaluateVersion circumstances t v r = (do
      if !(← ofFault (tree.evaluate t.context)) then return none
      else if circumstances.stale then fileHit circumstances.today t v r tree
      else
        let key ← Filing.key t.tenant v.id t.entityType t.entityId
        if ((← get).liveFinding? key).isSome then return none
        else fileHit circumstances.today t v r tree) := by
  unfold evaluateVersion
  rw [h]
  dsimp only
  cases circumstances.stale with
  | true => rfl
  | false => rfl

theorem evaluateVersion_of_malformed {t : Target} {v : Version} {r : Rule} {e : Malformed}
    (h : Condition.ofValue circumstances.policy v.conditionsOrNone = .error e) :
    evaluateVersion circumstances t v r = pure none := by
  unfold evaluateVersion
  rw [h]

theorem fileHit_changes (today : Date) (t : Target) (v : Version) (r : Rule) (tree : Condition) :
    Changes c .filing s (fileHit today t v r tree s).2 := by
  unfold fileHit
  refine .read (reads_ofFault _) fun inputs _ => .read (reads_ofFault _) fun plan _ => ?_
  exact unlessDuplicate_changes (Filing.fileShown_changes _ plan)

theorem evaluateVersion_changes (t : Target) (v : Version) (r : Rule) :
    Changes c .filing s (evaluateVersion circumstances t v r s).2 := by
  cases h : Condition.ofValue circumstances.policy v.conditionsOrNone with
  | error e =>
    rw [evaluateVersion_of_malformed h]
    exact .refl s
  | ok tree =>
    rw [evaluateVersion_of_tree h]
    refine .read (reads_ofFault _) fun holds _ => ?_
    split
    · exact .refl s
    · split
      · exact fileHit_changes _ t v r tree
      · refine .read (Filing.reads_key _ _ _ _) fun key _ => .read reads_get fun _ _ => ?_
        split
        · exact .refl s
        · exact fileHit_changes _ t v r tree

theorem evaluateVersions_changes (t : Target) (hits : List (Version × Rule)) :
    Changes c .filing s (evaluateVersions circumstances t hits s).2 := by
  induction hits generalizing s with
  | nil => exact .refl s
  | cons hit rest ih =>
    obtain ⟨v, r⟩ := hit
    refine .bind (evaluateVersion_changes t v r) fun found s' _ _ => ?_
    exact .bind_reads ih fun more => reads_pure _

theorem evaluate_changes (entityType : Text) (entity : Fields) :
    Changes c .filing s (evaluate circumstances caller entityType entity s).2 := by
  unfold evaluate
  refine .read (reads_ofExcept _) fun t _ => .read (reads_encoded _) fun entityType _ => ?_
  exact .read reads_get fun _ _ => evaluateVersions_changes t _

theorem evaluateById_changes (source : EntitySource) (entityType entityId : Text) :
    Changes c .filing s (evaluateById circumstances source caller entityType entityId s).2 := by
  unfold evaluateById
  split
  · exact .refl s
  · refine .read (reads_ofExcept _) fun found _ => ?_
    split
    · exact .refl s
    · exact evaluate_changes _ _

theorem apply_changes (today : Date) (version : Uuid) (entityType entityId : Text)
    (actions severity : Value) (details : Fields) :
    Changes c .filing s
      (apply today caller version entityType entityId actions severity details s).2 := by
  unfold apply
  refine .own fun v _ _ _ => .read (reads_ruleOf v) fun r _ => ?_
  refine .read (reads_ofFault _) fun plan _ => ?_
  exact Filing.fileShown_changes _ plan

theorem createFinding_changes (version : Uuid) (entityType entityId : Text) (plan : Plan)
    (details : Fields) :
    Changes c .filing s (createFinding caller version entityType entityId plan details s).2 := by
  unfold createFinding
  exact .own fun v _ _ _ => Filing.fileShown_changes _ plan

end Evaluation

end Rulebook
