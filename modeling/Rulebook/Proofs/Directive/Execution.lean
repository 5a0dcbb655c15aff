import Mathlib
import Rulebook.Proofs.Directive.Deadline
import Rulebook.Proofs.Directive.WellFormed

/-!
Executing lists of directives that pass their check. A well-formed directive goes through unless one
of its counts of days leads out of the calendar (`dueDate_goes_through`, `taskOf_goes_through`), and
the due dates that come of it are dates (`dated_of_dueDate`). So a checked list has a plan exactly
if none of its counts leaves the calendar, which a check does not look at (`checked_executes`).
Whether such a plan can be filed is not looked at here, but in `Filing.checked_goes_through`.
-/
namespace Rulebook

/-- A value that stands for a date or for none at all. -/
def Value.Dated (v : Value) : Prop := ∃ d, v.toDate? = some d

theorem Value.dated_null : Value.Dated .null := ⟨none, rfl⟩

theorem Value.dated_isoText (d : Date) : Value.Dated (.text d.toIsoText) :=
  ⟨some d, Value.toDate?_isoText d⟩

/-! ## One directive -/

namespace Directive

variable {today : Date} {v count due value : Value} {directives : List Value} {n : ℤ}

/-- A directive with a count of days to a date that the calendar does not have. -/
def LeavesCalendar (today : Date) (v : Value) : Prop :=
  ∃ count n, ReadsDays v count ∧ count.GivesDays n ∧
    ¬ (1 ≤ today.day + n ∧ today.day + n ≤ lastDay)

theorem readsDays_dueDate (hkind : kind? v = some .setDueDate)
    (hmode : DueDateMode.ofValue? (v.getD "mode") = some .daysFromNow) :
    ReadsDays v count ↔ count = v.getD "value" := by
  constructor
  · rintro (⟨-, -⟩ | hother)
    · rfl
    · cases hkind.symm.trans hother
  · rintro rfl
    exact .dueDate hkind hmode

theorem readsDays_deadline (hkind : kind? v = some .createTask) :
    ReadsDays v count ↔ count = v.getD "sla_days" := by
  constructor
  · rintro (⟨hother, -⟩ | -)
    · cases hkind.symm.trans hother
    · rfl
  · rintro rfl
    exact .deadline hkind

/-- A directive that reads one count of days stays in the calendar if that does. -/
theorem not_leavesCalendar (hreads : ∀ {c}, ReadsDays v c ↔ c = count)
    (hdays : count.GivesDays n) :
    ¬ LeavesCalendar today v ↔ ∃ e : Date, (e.day : ℤ) = today.day + n := by
  rw [Date.exists_day, not_iff_comm]
  constructor
  · intro hout
    exact ⟨count, n, hreads.mpr rfl, hdays, hout⟩
  · rintro ⟨c, m, hc, hm, hout⟩
    obtain rfl := hreads.mp hc
    cases (Value.toDays?_eq_ok.mpr hm).symm.trans (Value.toDays?_eq_ok.mpr hdays)
    exact hout

theorem dueDate_goes_through (hkind : kind? v = some .setDueDate) (hv : WellFormed v) :
    (∃ due, dueDate v today = .ok due) ↔ ¬ LeavesCalendar today v := by
  cases (wellFormed_iff hkind).mp hv with
  | fixed hmode =>
    have hread : dueDate v today = .ok (v.getD "value") := by rw [dueDate, if_pos hkind, hmode]
    refine iff_of_true ⟨_, hread⟩ ?_
    rintro ⟨_, _, ⟨-, hother⟩ | hother, -⟩
    · cases hmode.symm.trans hother
    · cases hkind.symm.trans hother
  | daysFromNow hmode hdays =>
    rw [not_leavesCalendar (readsDays_dueDate hkind hmode) hdays]
    simp only [dueDate_relative hkind hmode (Value.toDays?_eq_ok.mpr hdays)]
    constructor
    · rintro ⟨due, e, he, -⟩
      exact ⟨e, he⟩
    · rintro ⟨e, he⟩
      exact ⟨_, e, he, rfl⟩

theorem dated_of_dueDate (hkind : kind? v = some .setDueDate) (hv : WellFormed v)
    (h : dueDate v today = .ok due) : due.Dated := by
  cases (wellFormed_iff hkind).mp hv with
  | @fixed t s d hmode hvalue hs hd =>
    rw [dueDate, if_pos hkind, hmode, Except.ok.injEq] at h
    rw [← h, hvalue, Value.Dated, Value.toDate?]
    split
    · exact ⟨none, rfl⟩
    · exact ⟨some d, by rw [hs, Option.bind_some, hd, Option.map_some]⟩
  | daysFromNow hmode hdays =>
    obtain ⟨e, -, rfl⟩ := (dueDate_relative hkind hmode (Value.toDays?_eq_ok.mpr hdays)).mp h
    exact Value.dated_isoText e

/-- The first due date of a list is that of its first directive that sets one. -/
theorem firstDueDateOf_eq : firstDueDateOf today directives =
    match directives.find? (kind? · = some .setDueDate) with
    | some v => dueDate v today
    | none => .ok .null := by
  induction directives with
  | nil => rfl
  | cons v rest ih =>
    rw [firstDueDateOf]
    by_cases hkind : kind? v = some .setDueDate
    · rw [if_pos hkind, List.find?_cons_of_pos (by simpa using hkind)]
    · rw [if_neg hkind, ih, List.find?_cons_of_neg (by simpa using hkind)]

end Directive

namespace Plan

open Directive (LeavesCalendar WellFormed ofKind lastPresent ReadsDays)

variable {today : Date} {start f : FindingDraft} {draft : TaskDraft} {v : Value} {xs : List Value}

theorem deadlineOf_goes_through (default : Value) {n : ℤ} :
    (∃ due, deadlineOf today default (some n) = .ok due) ↔
      ∃ e : Date, (e.day : ℤ) = today.day + n := by
  by_cases hzero : n = 0
  · subst hzero
    exact iff_of_true ⟨default, rfl⟩ ⟨today, (Int.add_zero _).symm⟩
  · simp only [deadlineOf_of_ne hzero]
    constructor
    · rintro ⟨due, e, he, -⟩
      exact ⟨e, he⟩
    · rintro ⟨e, he⟩
      exact ⟨_, e, he, rfl⟩

theorem dated_of_deadlineOf {default due : Value} {count : Option ℤ} (hdefault : default.Dated)
    (h : deadlineOf today default count = .ok due) : due.Dated := by
  by_cases hzero : ∀ days ∈ count, days = 0
  · rw [deadlineOf_of_zero hzero, Except.ok.injEq] at h
    exact h ▸ hdefault
  · push Not at hzero
    obtain ⟨days, rfl, hne⟩ := hzero
    obtain ⟨e, -, rfl⟩ := (deadlineOf_of_ne hne).mp h
    exact Value.dated_isoText e

theorem taskOf_goes_through (hkind : Directive.kind? v = some .createTask) (hv : WellFormed v) :
    (∃ draft, taskOf today f v = .ok draft) ↔ ¬ LeavesCalendar today v := by
  obtain ⟨hdeadline, hartifacts⟩ := (Directive.wellFormed_iff hkind).mp hv
  obtain ⟨n, hdays⟩ : ∃ n, (v.getD "sla_days").GivesDays n := by
    rcases hdeadline with hnull | hdays
    · rw [hnull]
      exact ⟨0, .null⟩
    · exact hdays
  obtain ⟨artifacts, hitems⟩ :
      ∃ items, artifactsOf f.artifacts (v.getD "required_artifacts") = .ok items := by
    rcases hartifacts with h | ⟨items, h⟩ <;> rw [h] <;> exact ⟨_, rfl⟩
  have hread := Value.toDays?_eq_ok.mpr hdays
  rw [Directive.not_leavesCalendar (Directive.readsDays_deadline hkind) hdays,
    ← deadlineOf_goes_through f.dueDate]
  simp only [taskOf_eq_ok, hread, Except.ok.injEq, exists_eq_left', hitems]
  constructor
  · rintro ⟨draft, due, hdue, -⟩
    exact ⟨due, hdue⟩
  · rintro ⟨due, hdue⟩
    exact ⟨_, due, hdue, rfl⟩

/-! ## Lists of directives -/

theorem mem_ofKind {k : DirectiveKind} : v ∈ ofKind k xs ↔ v ∈ xs ∧ Directive.kind? v = some k := by
  simp [ofKind]

theorem findingOf_goes_through (hwf : ∀ v ∈ xs, WellFormed v) :
    (∃ f, findingOf today start xs = .ok f) ↔
      ∀ v ∈ ofKind .setDueDate xs, ∃ due, Directive.dueDate v today = .ok due := by
  have hitems : ∀ v ∈ ofKind .requireArtifact xs,
      ∃ items, Directive.entries (v.getD "items") = .ok items := by
    intro v hv
    obtain ⟨hmem, hkind⟩ := mem_ofKind.mp hv
    obtain ⟨items, h⟩ := (Directive.wellFormed_iff hkind).mp (hwf v hmem)
    exact ⟨items, by rw [h, Directive.entries_list]⟩
  rw [← exists_forall₂] at hitems ⊢
  obtain ⟨artifacts, hartifacts⟩ := hitems
  simp only [findingOf_eq_ok, Adds, names_iff]
  constructor
  · rintro ⟨f, dues, _, ⟨hdues, -⟩, -⟩
    exact ⟨dues, hdues⟩
  · rintro ⟨dues, hdues⟩
    exact ⟨_, dues, artifacts, ⟨hdues, hartifacts⟩, rfl⟩

theorem lastPresent_mem (default : Value) (vs : List Value) :
    lastPresent default vs = default ∨ lastPresent default vs ∈ vs := by
  rw [lastPresent]
  cases h : (vs.filter Value.isPresent).getLast? with
  | none => exact .inl rfl
  | some v => exact .inr (List.mem_of_mem_filter (List.mem_of_getLast? h))

theorem dated_of_findingOf (hwf : ∀ v ∈ xs, WellFormed v) (hstart : start.dueDate = .null)
    (h : findingOf today start xs = .ok f) : f.dueDate.Dated := by
  obtain ⟨dues, artifacts, hnames, rfl⟩ := findingOf_eq_ok.mp h
  rw [summary, hstart]
  rcases lastPresent_mem .null dues with hnull | hmem
  · rw [hnull]
    exact Value.dated_null
  · obtain ⟨v, hv, hdue⟩ := exists_of_forall₂ hnames.dues _ hmem
    obtain ⟨hx, hkind⟩ := mem_ofKind.mp hv
    exact Directive.dated_of_dueDate hkind (hwf v hx) hdue

theorem ofValue_goes_through {severity : Value} (hwf : ∀ v ∈ xs, WellFormed v) :
    (∃ plan, ofValue (.list xs) severity today = .ok plan) ↔
      ∀ v ∈ xs, ¬ LeavesCalendar today v := by
  constructor
  · rintro ⟨plan, hplan⟩ v hv hleaves
    obtain ⟨hfinding, htasks⟩ := ofValue_eq_ok.mp hplan
    obtain ⟨count, n, hreads, hdays, hout⟩ := id hleaves
    cases hreads with
    | dueDate hkind hmode =>
      have hdues := (findingOf_goes_through hwf).mp ⟨_, findingOf_eq_ok.mpr hfinding⟩
      have hdue := hdues v (mem_ofKind.mpr ⟨hv, hkind⟩)
      exact (Directive.dueDate_goes_through hkind (hwf v hv)).mp hdue hleaves
    | deadline hkind =>
      have hdraft := Except.exists_mapM.mp ⟨_, htasks⟩ v (mem_ofKind.mpr ⟨hv, hkind⟩)
      exact (taskOf_goes_through hkind (hwf v hv)).mp hdraft hleaves
  · intro hstays
    obtain ⟨f, hf⟩ : ∃ f,
        findingOf today { severity := severity.orElse (.text defaultSeverity) } xs = .ok f := by
      refine (findingOf_goes_through hwf).mpr fun v hv => ?_
      obtain ⟨hx, hkind⟩ := mem_ofKind.mp hv
      exact (Directive.dueDate_goes_through hkind (hwf v hx)).mpr (hstays v hx)
    obtain ⟨tasks, htasks⟩ : ∃ tasks,
        (ofKind .createTask xs).mapM (taskOf today f) = .ok tasks := by
      refine Except.exists_mapM.mpr fun v hv => ?_
      obtain ⟨hx, hkind⟩ := mem_ofKind.mp hv
      exact (taskOf_goes_through hkind (hwf v hx)).mpr (hstays v hx)
    exact ⟨⟨f, tasks⟩, ofValue_eq_ok.mpr ⟨findingOf_eq_ok.mp hf, htasks⟩⟩

theorem kind_of_absorb {e : Fault} (hv : WellFormed v) (h : absorb today f v = .error e) :
    e.kind = .outOfRange := by
  unfold absorb at h
  split at h
  · rcases Except.bind_eq_error.mp h with hdue | ⟨due, -, h⟩
    · exact Directive.kind_of_dueDate hdue
    · cases h
  · cases h
  · next hkind =>
    obtain ⟨items, hitems⟩ := (Directive.wellFormed_iff hkind).mp hv
    rw [hitems, Directive.entries_list] at h
    cases h
  all_goals cases h

theorem kind_of_taskOf {e : Fault} (hkind : Directive.kind? v = some .createTask)
    (hv : WellFormed v) (h : taskOf today f v = .error e) : e.kind = .outOfRange := by
  rw [taskOf_eq] at h
  rcases Except.bind_eq_error.mp h with hdays | ⟨count, -, h⟩
  · exact Value.kind_of_toDays? hdays
  rcases Except.bind_eq_error.mp h with hdue | ⟨due, -, h⟩
  · unfold deadlineOf at hdue
    split at hdue
    · cases hdue
    · cases hdue
    · rcases Except.bind_eq_error.mp hdue with hshift | ⟨shifted, -, hdue⟩
      · exact Date.kind_of_shift hshift
      · cases hdue
  rcases Except.bind_eq_error.mp h with hitems | ⟨items, -, h⟩
  · obtain ⟨-, hnull | ⟨items, hlist⟩⟩ := (Directive.wellFormed_iff hkind).mp hv
    · rw [hnull] at hitems
      cases hitems
    · rw [hlist] at hitems
      cases hitems
  · cases h

theorem kind_of_ofValue {severity : Value} {e : Fault} (hwf : ∀ v ∈ xs, WellFormed v)
    (h : ofValue (.list xs) severity today = .error e) : e.kind = .outOfRange := by
  rw [ofValue_list, ofEntries] at h
  rcases Except.bind_eq_error.mp h with hfinding | ⟨f, -, h⟩
  · obtain ⟨v, hv, b, hfails⟩ := Except.foldlM_error hfinding
    exact kind_of_absorb (hwf v hv) hfails
  rcases Except.bind_eq_error.mp h with htasks | ⟨tasks, -, h⟩
  · obtain ⟨v, hv, hfails⟩ := Except.mapM_error htasks
    obtain ⟨hx, hkind⟩ := mem_ofKind.mp hv
    exact kind_of_taskOf hkind (hwf v hx) hfails
  · cases h

theorem dated_of_ofValue {severity : Value} {plan : Plan} (hwf : ∀ v ∈ xs, WellFormed v)
    (h : ofValue (.list xs) severity today = .ok plan) :
    plan.finding.dueDate.Dated ∧ ∀ task ∈ plan.tasks, task.dueDate.Dated := by
  obtain ⟨hadds, htasks⟩ := ofValue_eq_ok.mp h
  have hfinding := dated_of_findingOf hwf rfl (findingOf_eq_ok.mpr hadds)
  refine ⟨hfinding, forall_mem_of_forall₂ (Except.mapM_ok htasks) fun v draft hdraft => ?_⟩
  obtain ⟨count, -, due, hdue, items, -, rfl⟩ := taskOf_eq_ok.mp hdraft
  exact dated_of_deadlineOf hfinding hdue

end Plan

namespace Directive

variable {today : Date} {actions severity v : Value} {directives : List Value}

theorem firstDueDate_eq (directives : List Value) (today : Date) :
    firstDueDate (.list directives) today = firstDueDateOf today directives := by
  rw [firstDueDate, entries_list]
  rfl

/-- A list that passes its check has a plan exactly if none of its directives leaves the calendar,
and a first due date exactly if the first directive that sets one does not; otherwise the failure is
one of range. All the due dates that come of it are dates, or none at all. This is about plans and
due dates only: a check looks neither at the title nor at the notes of a task, so a plan may hold
some that cannot be filed, or shown once they are. -/
theorem checked_executes (h : check actions = .ok directives) (severity : Value) (today : Date) :
    ((∃ plan, Plan.ofValue actions severity today = .ok plan) ↔
        ∀ v ∈ directives, ¬ LeavesCalendar today v) ∧
      (∀ f, Plan.ofValue actions severity today = .error f → f.kind = .outOfRange) ∧
      (∀ plan, Plan.ofValue actions severity today = .ok plan →
        plan.finding.dueDate.Dated ∧ ∀ task ∈ plan.tasks, task.dueDate.Dated) ∧
      ((∃ due, firstDueDate actions today = .ok due) ↔
        ∀ v ∈ directives.find? (kind? · = some .setDueDate), ¬ LeavesCalendar today v) ∧
      (∀ f, firstDueDate actions today = .error f → f.kind = .outOfRange) ∧
      ∀ due, firstDueDate actions today = .ok due → due.Dated := by
  obtain ⟨rfl, hwf⟩ := check_eq_ok_iff.mp h
  refine ⟨Plan.ofValue_goes_through hwf, fun f => Plan.kind_of_ofValue hwf,
    fun plan => Plan.dated_of_ofValue hwf, ?_⟩
  rw [firstDueDate_eq, firstDueDateOf_eq]
  cases hfirst : directives.find? (kind? · = some .setDueDate) with
  | none =>
    refine ⟨iff_of_true ⟨_, rfl⟩ (fun v => nofun), fun f => nofun, ?_⟩
    rintro due ⟨⟩
    exact Value.dated_null
  | some v =>
    have hkind : kind? v = some .setDueDate := by simpa using List.find?_some hfirst
    have hv := hwf v (List.mem_of_find?_eq_some hfirst)
    refine ⟨?_, fun f => kind_of_dueDate, fun due => dated_of_dueDate hkind hv⟩
    rw [dueDate_goes_through hkind hv]
    simp

/-- From the first day of the calendar, a count of days to its last day. -/
theorem checked_executes_last_day :
    let days : Value := .object [("type", .text "set_due_date"),
      ("mode", .text "days_from_now"), ("value", .int 3652058)]
    let today : Date := ⟨1, by decide, by decide⟩
    check (.list [days]) = .ok [days] ∧
      ∃ plan, Plan.ofValue (.list [days]) .null today = .ok plan ∧ plan.finding.dueDate.Dated := by
  intro days today
  have hkind : kind? days = some .setDueDate := rfl
  have hmode : DueDateMode.ofValue? (days.getD "mode") = some .daysFromNow := rfl
  have hdays : (days.getD "value").GivesDays 3652058 :=
    Value.Spells.givesDays (.inl rfl) (by decide)
  have hcheck : check (.list [days]) = .ok [days] :=
    check_eq_ok_iff.mpr ⟨rfl, by simpa using (wellFormed_iff hkind).mpr (.daysFromNow hmode hdays)⟩
  have hstays : ∀ v ∈ [days], ¬ LeavesCalendar today v := by
    rw [List.forall_mem_singleton, not_leavesCalendar (readsDays_dueDate hkind hmode) hdays]
    exact ⟨⟨3652059, by decide, by decide⟩, by decide⟩
  obtain ⟨hgoes, -, hdated, -⟩ := checked_executes hcheck .null today
  obtain ⟨plan, hplan⟩ := hgoes.mpr hstays
  exact ⟨hcheck, plan, hplan, (hdated plan hplan).1⟩

/-- A count of days that passes its check leads out of the calendar, and neither a plan nor a first
due date comes of it. -/
theorem checked_leaves_calendar :
    let days : Value := .object [("type", .text "set_due_date"),
      ("mode", .text "days_from_now"), ("value", .int 4000000)]
    let today : Date := ⟨739626, by decide, by decide⟩
    today.toIsoText = "2026-01-10" ∧ check (.list [days]) = .ok [days] ∧
      Except.Fails (Plan.ofValue (.list [days]) (.text "high") today) ∧
      Except.Fails (firstDueDate (.list [days]) today) := by
  intro days today
  have hkind : kind? days = some .setDueDate := rfl
  have hmode : DueDateMode.ofValue? (days.getD "mode") = some .daysFromNow := rfl
  have hdays : (days.getD "value").GivesDays 4000000 :=
    Value.Spells.givesDays (.inl rfl) (by decide)
  have hwf : ∀ v ∈ [days], WellFormed v :=
    List.forall_mem_singleton.mpr ((wellFormed_iff hkind).mpr (.daysFromNow hmode hdays))
  have hleaves : LeavesCalendar today days :=
    ⟨_, _, .dueDate hkind hmode, hdays, by decide⟩
  refine ⟨by cbv, check_eq_ok_iff.mpr ⟨rfl, hwf⟩, ?_, ?_⟩
  · rw [← not_not (a := Except.Fails _), Except.not_fails, Plan.ofValue_goes_through hwf]
    exact fun hstays => hstays days List.mem_cons_self hleaves
  · rw [← not_not (a := Except.Fails _), Except.not_fails, firstDueDate_eq, firstDueDateOf_eq]
    exact fun hdue => (dueDate_goes_through hkind (hwf days List.mem_cons_self)).mp hdue hleaves

end Directive

end Rulebook
