import Rulebook.Proofs.Directive.Execution
import Rulebook.Proofs.FilingOutcome

/-!
What becomes of a plan whose directives have passed their check. A check looks at the title and the
severity of a finding, but neither at the title nor at the notes of a task, so a plan may hold tasks
that cannot be shown once they are filed (`Plan.OddTask`). All else in it is a text or null
(`Plan.isShowable_iff`), and it is filed and shown unless it has such a task or the tables refuse it
(`Filing.checked_goes_through`).
-/
namespace Rulebook

open Txn

variable {s : Store}

theorem Directive.text_of_dueDate {today : Date} {v due : Value}
    (hkind : kind? v = some .setDueDate) (hv : WellFormed v) (h : dueDate v today = .ok due) :
    ∃ t, due = .text t := by
  cases (wellFormed_iff hkind).1 hv with
  | @fixed t s d hmode hvalue hs hd =>
    rw [dueDate, if_pos hkind, hmode, Except.ok.injEq] at h
    exact ⟨t, h.symm.trans hvalue⟩
  | daysFromNow hmode hdays =>
    obtain ⟨e, -, rfl⟩ := (dueDate_relative hkind hmode (Value.toDays?_eq_ok.2 hdays)).1 h
    exact ⟨_, rfl⟩

namespace Plan

open Directive (WellFormed ofKind lastPresent)

variable {today : Date} {v default severity : Value} {vs xs : List Value} {plan : Plan}
  {f : FindingDraft} {draft : TaskDraft}

theorem isText_lastPresent (hdefault : default.isText = true)
    (h : ∀ v ∈ vs, v = .null ∨ ∃ t, v = .text t) : (lastPresent default vs).isText = true := by
  rw [lastPresent]
  cases hlast : (vs.filter Value.isPresent).getLast? with
  | none => exact hdefault
  | some v =>
    obtain ⟨hv, hpresent⟩ := List.mem_filter.1 (List.mem_of_getLast? hlast)
    rcases h v hv with rfl | ⟨t, rfl⟩
    · cases hpresent
    · rfl

/-- The title and the severity of a finding that a checked list asks for are texts. -/
theorem isText_findingOf (hwf : ∀ v ∈ xs, WellFormed v) (hseverity : severity.isText = true)
    (h : Adds today { severity } xs f) :
    f.title.isText = true ∧ f.severity.isText = true := by
  obtain ⟨dues, artifacts, -, rfl⟩ := h
  have hsuits : ∀ v ∈ ofKind .createFinding xs, Directive.Suits v .createFinding := by
    intro v hv
    obtain ⟨hmem, hkind⟩ := mem_ofKind.1 hv
    exact (Directive.wellFormed_iff hkind).1 (hwf v hmem)
  constructor
  · exact isText_lastPresent rfl (List.forall_mem_map.2 fun v hv => (hsuits v hv).1)
  · exact isText_lastPresent hseverity (List.forall_mem_map.2 fun v hv => (hsuits v hv).2)

/-- A title that is no text, unless it counts as absent, or notes that are neither a text nor
null. -/
def OddTask (v : Value) : Prop :=
  ((v.getD "title").isPresent = true ∧ (v.getD "title").isText = false) ∨
    ((v.getD "notes").isText = false ∧ (v.getD "notes").isNull = false)

theorem isShowable_taskOf (h : taskOf today f v = .ok draft) :
    (draft.title.isText && (draft.notes.isText || draft.notes.isNull)) = true ↔ ¬ OddTask v := by
  obtain ⟨count, -, due, -, artifacts, -, rfl⟩ := taskOf_eq_ok.1 h
  have htitle : ((v.getD "title").orElse (.text defaultTaskTitle)).isText =
      (!(v.getD "title").isPresent || (v.getD "title").isText) := by
    rw [Value.orElse]
    cases (v.getD "title").isPresent <;> rfl
  dsimp only
  rw [htitle, OddTask]
  cases (v.getD "title").isPresent <;> cases (v.getD "title").isText <;>
    cases (v.getD "notes").isText <;> cases (v.getD "notes").isNull <;> decide

theorem dueDate_textual (hwf : ∀ v ∈ xs, WellFormed v) (h : Adds today { severity } xs f) :
    f.dueDate = .null ∨ ∃ t, f.dueDate = .text t := by
  obtain ⟨dues, artifacts, hnames, rfl⟩ := h
  rw [summary]
  rcases lastPresent_mem .null dues with hnull | hmem
  · exact .inl hnull
  · obtain ⟨v, hv, hdue⟩ := exists_of_forall₂ hnames.dues _ hmem
    obtain ⟨hx, hkind⟩ := mem_ofKind.1 hv
    exact .inr (Directive.text_of_dueDate hkind (hwf v hx) hdue)

theorem dueDate_textual_of_taskOf (hdefault : f.dueDate = .null ∨ ∃ t, f.dueDate = .text t)
    (h : taskOf today f v = .ok draft) : draft.dueDate = .null ∨ ∃ t, draft.dueDate = .text t := by
  obtain ⟨count, -, due, hdue, artifacts, -, rfl⟩ := taskOf_eq_ok.1 h
  by_cases hzero : ∀ days ∈ count, days = 0
  · rw [deadlineOf_of_zero hzero, Except.ok.injEq] at hdue
    exact hdue ▸ hdefault
  · push Not at hzero
    obtain ⟨days, rfl, hne⟩ := hzero
    obtain ⟨e, -, rfl⟩ := (deadlineOf_of_ne hne).1 hdue
    exact .inr ⟨_, rfl⟩

/-- The plan of a checked list holds texts or nulls, but for the titles and the notes of its tasks.
It can be shown if those are in order as well. -/
theorem isShowable_iff (hwf : ∀ v ∈ xs, WellFormed v)
    (hseverity : severity = .null ∨ ∃ t, severity = .text t)
    (h : ofValue (.list xs) severity today = .ok plan) :
    (Filing.isShowable plan = true ↔ ∀ v ∈ ofKind .createTask xs, ¬ OddTask v) ∧
      (Filing.isShowable plan = true → plan.Textual) := by
  obtain ⟨hadds, htasks⟩ := ofValue_eq_ok.1 h
  have hgrade : (severity.orElse (.text defaultSeverity)).isText = true := by
    rcases hseverity with rfl | ⟨t, rfl⟩
    · rfl
    · unfold Value.orElse
      split <;> rfl
  obtain ⟨htitle, hgraded⟩ := isText_findingOf hwf hgrade hadds
  have hdue := dueDate_textual hwf hadds
  have hdrafts := Except.mapM_ok htasks
  have htext : ∀ {v : Value}, v.isText = true → v = .null ∨ ∃ t : Text, v = .text t :=
    fun hv => Directive.isTextOrNull_iff.1 (by rw [Directive.isTextOrNull, hv, Bool.or_true])
  rw [Filing.isShowable, htitle, hgraded, Bool.true_and, Bool.true_and, List.all_eq_true]
  refine ⟨⟨fun hall v hv => ?_, fun hall draft hd => ?_⟩, fun hall => ⟨?_, fun draft hd => ?_⟩⟩
  · obtain ⟨draft, hd, hdraft⟩ := exists_of_forall₂ hdrafts.flip v hv
    exact (isShowable_taskOf hdraft).1 (hall draft hd)
  · obtain ⟨v, hv, hdraft⟩ := exists_of_forall₂ hdrafts draft hd
    exact (isShowable_taskOf hdraft).2 (hall v hv)
  · exact List.forall_mem_cons.2 ⟨htext hgraded, List.forall_mem_cons.2 ⟨htext htitle,
      List.forall_mem_singleton.2 hdue⟩⟩
  · obtain ⟨v, -, hdraft⟩ := exists_of_forall₂ hdrafts draft hd
    have htitle := (Bool.and_eq_true_iff.1 (hall draft hd)).1
    exact List.forall_mem_cons.2 ⟨htext htitle,
      List.forall_mem_singleton.2 (dueDate_textual_of_taskOf hdue hdraft)⟩

end Plan

/-- The plan of a checked list is filed and shown exactly if the tables take it and no task in it has
a title or notes of another kind than text. A check of directives looks at neither. -/
theorem Filing.checked_goes_through (hs : s.Supplied) {today : Date} {actions severity : Value}
    {directives : List Value} {plan : Plan} (hcheck : Directive.check actions = .ok directives)
    (hseverity : severity = .null ∨ ∃ t, severity = .text t)
    (hplan : Plan.ofValue actions severity today = .ok plan) (subject : Subject) :
    (∃ view s', Yields (fileShown subject plan) s view s') ↔
      (∀ v ∈ directives, Directive.kind? v = some .createTask → ¬ Plan.OddTask v) ∧
        refusal? (fun key => (s.liveFinding? key).isSome) subject plan = none := by
  obtain ⟨rfl, hwf⟩ := Directive.check_eq_ok_iff.1 hcheck
  obtain ⟨hshowable, htextual⟩ := Plan.isShowable_iff hwf hseverity hplan
  have htasks : (∀ v ∈ Directive.ofKind .createTask directives, ¬ Plan.OddTask v) ↔
      ∀ v ∈ directives, Directive.kind? v = some .createTask → ¬ Plan.OddTask v := by
    simp only [Plan.mem_ofKind, and_imp]
  rw [← htasks, ← hshowable]
  have hverdict (hshow : isShowable plan = true) : verdict (file subject plan) s =
      outcome (refusal? (fun key => (s.liveFinding? key).isSome) subject plan) () := by
    rw [verdict_file hs.findings, check_textual (htextual hshow)]
  constructor
  · rintro ⟨view, s', hview⟩
    obtain ⟨hshow, -⟩ := yields_fileShown hs hview
    obtain ⟨f, t, hfile, -⟩ := yields_bind.1 hview
    refine ⟨hshow, Option.eq_none_iff_forall_ne_some.2 fun e he => ?_⟩
    have hfiled := hfile.verdict
    rw [hverdict hshow, he] at hfiled
    cases hfiled
  · rintro ⟨hshow, hnone⟩
    have hfiled : verdict (file subject plan) s = .ok () := by rw [hverdict hshow, hnone, outcome]
    obtain ⟨f, s', hfile⟩ := verdict_eq_ok.1 hfiled
    refine ⟨s'.findingView f, s', yields_bind.2 ⟨f, s', hfile, ?_⟩⟩
    rw [if_pos hshow]
    exact yields_get_bind.2 (yields_pure.2 ⟨rfl, rfl⟩)

end Rulebook
