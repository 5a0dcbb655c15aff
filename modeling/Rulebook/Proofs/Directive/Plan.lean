import Mathlib
import Rulebook.Proofs.Directive.DueDate

/-!
A plan by kinds of directive. What one directive adds to a finding depends on its kind and its own
members (`adds_cons`); so the fold over a list ends with a summary of the directives of each kind
(`findingOf_eq_ok`), and how the kinds are interleaved does not matter (`plan_by_kind`).
-/
namespace Rulebook

namespace Directive

/-- The directives of a kind, in order. -/
def ofKind (k : DirectiveKind) (directives : List Value) : List Value :=
  directives.filter (kind? · = some k)

theorem ofKind_cons (k : DirectiveKind) (v : Value) (rest : List Value) :
    ofKind k (v :: rest) = if kind? v = some k then v :: ofKind k rest else ofKind k rest := by
  rw [ofKind, List.filter_cons]
  simp [ofKind]

theorem ofKind_own {k : DirectiveKind} {v : Value} (h : kind? v = some k) (rest : List Value) :
    ofKind k (v :: rest) = v :: ofKind k rest := by
  rw [ofKind_cons, if_pos h]

theorem ofKind_other {k : DirectiveKind} {v : Value} (h : kind? v ≠ some k) (rest : List Value) :
    ofKind k (v :: rest) = ofKind k rest := by
  rw [ofKind_cons, if_neg h]

/-- The last value that counts as present, or else the default. -/
def lastPresent (default : Value) (vs : List Value) : Value :=
  (vs.filter Value.isPresent).getLast?.getD default

theorem lastPresent_cons (default v : Value) (vs : List Value) :
    lastPresent default (v :: vs) = lastPresent (v.orElse default) vs := by
  rw [lastPresent, lastPresent, Value.orElse, List.filter_cons]
  split
  · rw [List.getLast?_cons]
    rfl
  · rfl

end Directive

namespace Plan

open Directive (ofKind ofKind_cons ofKind_own ofKind_other lastPresent lastPresent_cons)

variable {today : Date} {start f : FindingDraft} {v : Value} {rest directives dues : List Value}
  {artifacts : List (List Value)}

/-- What directives make of a finding, given the due dates and the artifacts that they name. -/
def summary (start : FindingDraft) (directives dues : List Value) (artifacts : List (List Value)) :
    FindingDraft where
  title := lastPresent start.title ((ofKind .createFinding directives).map (·.getD "title"))
  severity := lastPresent start.severity
    ((ofKind .createFinding directives).map (·.getD "severity"))
  dueDate := lastPresent start.dueDate dues
  artifacts := start.artifacts ++ artifacts.flatten
  blocks := start.blocks ++ ofKind .blockAction directives

/-- The due dates and the artifacts that directives name, one by one. -/
structure Names (today : Date) (directives dues : List Value) (artifacts : List (List Value)) :
    Prop where
  dues : List.Forall₂ (fun v due => Directive.dueDate v today = .ok due)
    (ofKind .setDueDate directives) dues
  artifacts : List.Forall₂ (fun v items => Directive.entries (v.getD "items") = .ok items)
    (ofKind .requireArtifact directives) artifacts

theorem names_iff : Names today directives dues artifacts ↔
    List.Forall₂ (fun v due => Directive.dueDate v today = .ok due)
        (ofKind .setDueDate directives) dues ∧
      List.Forall₂ (fun v items => Directive.entries (v.getD "items") = .ok items)
        (ofKind .requireArtifact directives) artifacts :=
  ⟨fun h => ⟨h.dues, h.artifacts⟩, fun h => ⟨h.1, h.2⟩⟩

/-- Only two kinds of directive name something. -/
theorem names_cons_of_other (hdue : Directive.kind? v ≠ some .setDueDate)
    (hitems : Directive.kind? v ≠ some .requireArtifact) :
    Names today (v :: rest) dues artifacts ↔ Names today rest dues artifacts := by
  rw [names_iff, names_iff, ofKind_other hdue, ofKind_other hitems]

theorem names_cons_of_dueDate (hkind : Directive.kind? v = some .setDueDate) :
    Names today (v :: rest) dues artifacts ↔ ∃ due later,
      Directive.dueDate v today = .ok due ∧ Names today rest later artifacts ∧
        dues = due :: later := by
  have hother : Directive.kind? v ≠ some .requireArtifact := by simp [hkind]
  simp only [names_iff, ofKind_own hkind, ofKind_other hother, List.forall₂_cons_left_iff]
  constructor
  · rintro ⟨⟨due, later, hdue, hlater, rfl⟩, ha⟩
    exact ⟨due, later, hdue, ⟨hlater, ha⟩, rfl⟩
  · rintro ⟨due, later, hdue, ⟨hlater, ha⟩, rfl⟩
    exact ⟨⟨due, later, hdue, hlater, rfl⟩, ha⟩

theorem names_cons_of_artifact (hkind : Directive.kind? v = some .requireArtifact) :
    Names today (v :: rest) dues artifacts ↔ ∃ items later,
      Directive.entries (v.getD "items") = .ok items ∧ Names today rest dues later ∧
        artifacts = items :: later := by
  have hother : Directive.kind? v ≠ some .setDueDate := by simp [hkind]
  simp only [names_iff, ofKind_own hkind, ofKind_other hother, List.forall₂_cons_left_iff]
  constructor
  · rintro ⟨hd, items, later, hitems, hlater, rfl⟩
    exact ⟨items, later, hitems, ⟨hd, hlater⟩, rfl⟩
  · rintro ⟨items, later, hitems, ⟨hd, hlater⟩, rfl⟩
    exact ⟨hd, items, later, hitems, hlater, rfl⟩

/-- What directives add to a finding: the due dates and the artifacts are named without a fault. -/
def Adds (today : Date) (start : FindingDraft) (directives : List Value) (f : FindingDraft) :
    Prop :=
  ∃ dues artifacts, Names today directives dues artifacts ∧
    f = summary start directives dues artifacts

/-- One directive does what the fold makes of it. -/
theorem adds_cons : Adds today start (v :: rest) f ↔
    ∃ g, absorb today start v = .ok g ∧ Adds today g rest f := by
  unfold absorb
  -- What reads no due date and no artifacts has one outcome; the other two read their own first.
  cases hkind : Directive.kind? v with
  | none =>
    simp [Adds, names_cons_of_other (v := v), hkind, summary, ofKind_cons]
  | some k =>
    cases k with
    | createTask =>
      simp [Adds, names_cons_of_other (v := v), hkind, summary, ofKind_cons]
    | blockAction =>
      simp [Adds, names_cons_of_other (v := v), hkind, summary, ofKind_cons]
    | createFinding =>
      simp [Adds, names_cons_of_other (v := v), hkind, summary, ofKind_cons, lastPresent_cons]
    | setDueDate =>
      simp only [Adds, names_cons_of_dueDate hkind, Except.bind_eq_ok]
      constructor
      · rintro ⟨dues, artifacts, ⟨due, later, hdue, hnames, rfl⟩, rfl⟩
        refine ⟨_, ⟨due, hdue, rfl⟩, later, artifacts, hnames, ?_⟩
        simp [summary, ofKind_cons, hkind, lastPresent_cons]
      · rintro ⟨g, ⟨due, hdue, hg⟩, dues, artifacts, hnames, rfl⟩
        cases hg
        refine ⟨due :: dues, artifacts, ⟨due, dues, hdue, hnames, rfl⟩, ?_⟩
        simp [summary, ofKind_cons, hkind, lastPresent_cons]
    | requireArtifact =>
      simp only [Adds, names_cons_of_artifact hkind, Except.bind_eq_ok]
      constructor
      · rintro ⟨dues, artifacts, ⟨items, later, hitems, hnames, rfl⟩, rfl⟩
        refine ⟨_, ⟨items, hitems, rfl⟩, dues, later, hnames, ?_⟩
        simp [summary, ofKind_cons, hkind]
      · rintro ⟨g, ⟨items, hitems, hg⟩, dues, artifacts, hnames, rfl⟩
        cases hg
        refine ⟨dues, items :: artifacts, ⟨items, artifacts, hitems, hnames, rfl⟩, ?_⟩
        simp [summary, ofKind_cons, hkind]

/-- The fold ends with the summary of the directives. -/
theorem findingOf_eq_ok :
    findingOf today start directives = .ok f ↔ Adds today start directives f := by
  unfold findingOf
  induction directives generalizing start with
  | nil =>
    constructor
    · intro h
      cases h
      exact ⟨[], [], ⟨.nil, .nil⟩, by simp [summary, ofKind, lastPresent]⟩
    · rintro ⟨dues, artifacts, ⟨hdues, hartifacts⟩, rfl⟩
      cases hdues
      cases hartifacts
      simp [summary, ofKind, lastPresent]
      rfl
  | cons v rest ih =>
    rw [List.foldlM_cons, Except.bind_eq_ok, adds_cons]
    simp only [ih]

/-- A task that names no artifacts has those of the finding. -/
theorem artifacts_of_taskOf {draft : TaskDraft} (h : taskOf today f v = .ok draft)
    (hnone : v.getD "required_artifacts" = .null) : draft.artifacts = f.artifacts := by
  rw [taskOf, hnone] at h
  obtain ⟨count, -, h⟩ := Except.bind_eq_ok.mp h
  dsimp only at h
  split at h
  · cases h
    rfl
  · cases h
    rfl
  · obtain ⟨due, -, h⟩ := Except.bind_eq_ok.mp h
    cases h
    rfl

theorem ofValue_list (directives : List Value) (severity : Value) (today : Date) :
    ofValue (.list directives) severity today = ofEntries directives severity today := by
  rw [ofValue, Directive.entries_list]
  rfl

theorem ofValue_eq_ok {severity : Value} {plan : Plan} :
    ofValue (.list directives) severity today = .ok plan ↔
      Adds today { severity := severity.orElse (.text defaultSeverity) } directives plan.finding ∧
        (ofKind .createTask directives).mapM (taskOf today plan.finding) = .ok plan.tasks := by
  rw [ofValue_list]
  constructor
  · intro h
    obtain ⟨f, hf, h⟩ := Except.bind_eq_ok.mp h
    obtain ⟨tasks, htasks, h⟩ := Except.bind_eq_ok.mp h
    cases h
    exact ⟨findingOf_eq_ok.mp hf, htasks⟩
  · rintro ⟨hf, htasks⟩
    refine Except.bind_eq_ok.mpr ⟨plan.finding, findingOf_eq_ok.mpr hf, ?_⟩
    exact Except.bind_eq_ok.mpr ⟨plan.tasks, htasks, rfl⟩

/-- A plan summarizes the directives of each kind: the last due date, title and severity that count
as present, all artifacts and blocks, and a task for each directive that asks for one, which has all
the artifacts unless it names its own. Any list with the same directives of each kind, in the same
order within the kind, has the same plan, whatever stands between them. -/
theorem plan_by_kind {xs : List Value} {severity : Value} {plan : Plan}
    (h : ofValue (.list xs) severity today = .ok plan) :
    (∃ dues artifacts, Names today xs dues artifacts ∧
      plan.finding =
        { title := lastPresent (.text defaultFindingTitle)
            ((ofKind .createFinding xs).map (·.getD "title"))
          severity := lastPresent (severity.orElse (.text defaultSeverity))
            ((ofKind .createFinding xs).map (·.getD "severity"))
          dueDate := lastPresent .null dues
          artifacts := artifacts.flatten
          blocks := ofKind .blockAction xs } ∧
      List.Forall₂ (fun directive draft => taskOf today plan.finding directive = .ok draft ∧
        (directive.getD "required_artifacts" = .null → draft.artifacts = artifacts.flatten))
        (ofKind .createTask xs) plan.tasks) ∧
    ∀ ys, (∀ k, ofKind k ys = ofKind k xs) → ofValue (.list ys) severity today = .ok plan := by
  obtain ⟨⟨dues, artifacts, hnames, hfinding⟩, htasks⟩ := ofValue_eq_ok.mp h
  constructor
  · refine ⟨dues, artifacts, hnames, by simpa [summary] using hfinding, ?_⟩
    have hartifacts : plan.finding.artifacts = artifacts.flatten := by
      rw [hfinding, summary, List.nil_append]
    refine (Except.mapM_ok htasks).imp fun directive draft hdraft => ⟨hdraft, fun hnone => ?_⟩
    rw [artifacts_of_taskOf hdraft hnone, hartifacts]
  · intro ys hys
    -- The summary looks at the directives of one kind at a time.
    have hsummary : plan.finding =
        summary { severity := severity.orElse (.text defaultSeverity) } ys dues artifacts := by
      rw [hfinding, summary, summary, hys, hys]
    have hnamesYs : Names today ys dues artifacts := by
      rw [names_iff, hys, hys]
      exact names_iff.mp hnames
    refine ofValue_eq_ok.mpr ⟨⟨dues, artifacts, hnamesYs, hsummary⟩, ?_⟩
    rw [hys]
    exact htasks

/-- A due date that resolves to nothing, entries of no kind, and an artifact that is required after
the task that gets it. -/
theorem plan_by_kind_interleaved :
    let due : Value := .object [("type", .text "set_due_date"), ("mode", .text "fixed"),
      ("value", .text "2025-03-01")]
    let vague : Value := .object [("type", .text "set_due_date"), ("mode", .text "someday")]
    let task : Value := .object [("type", .text "create_task"), ("title", .text "Call")]
    let artifact : Value := .object [("type", .text "require_artifact"),
      ("items", .list [.text "letter"])]
    let finding : FindingDraft := { dueDate := .text "2025-03-01", artifacts := [.text "letter"] }
    let plan : Plan := ⟨finding, [⟨.text "Call", .text "2025-03-01", [.text "letter"], .null⟩]⟩
    ofValue (.list [task, due, vague, artifact]) .null default = .ok plan ∧
      ofValue (.list [.null, due, artifact, .text "x", vague, task]) .null default = .ok plan := by
  intro due vague task artifact finding plan
  have hplan : ofValue (.list [task, due, vague, artifact]) .null default = .ok plan := by cbv
  refine ⟨hplan, (plan_by_kind hplan).2 _ fun k => ?_⟩
  cases k <;> cbv

end Plan

end Rulebook
