import Mathlib
import Rulebook.Proofs.Directive.Plan
import Rulebook.Proofs.Directive.RelativeDate

/-!
The due dates of tasks. A task reads its own count of days first and falls back on the finding
(`deadlineOf`). Tasks are drafted from the finding that the whole list asks for, so the due date
that they fall back on is the final one, wherever the directives that set it stand
(`plan_deadlines`).
-/
namespace Rulebook.Plan

open Directive (ofKind lastPresent)

variable {today : Date} {f : FindingDraft} {draft : TaskDraft} {v default due : Value}
  {count : Option ℤ}

/-- The due date of a task, by its own count of days. -/
def deadlineOf (today : Date) (default : Value) : Option ℤ → Except Fault Value
  | none | some 0 => .ok default
  | some days => do return .text (← today.shift days).toIsoText

/-- The artifacts of a task: its own list, unless that is null. -/
def artifactsOf (default : List Value) : Value → Except Fault (List Value)
  | .null => .ok default
  | own => own.items

theorem taskOf_eq (today : Date) (f : FindingDraft) (v : Value) : taskOf today f v = do
    let due ← deadlineOf today f.dueDate (← (v.getD "sla_days").toDays?)
    let artifacts ← artifactsOf f.artifacts (v.getD "required_artifacts")
    return {
      title := (v.getD "title").orElse (.text defaultTaskTitle)
      dueDate := due, artifacts
      notes := v.getD "notes" } := by
  unfold taskOf
  congr 1
  funext count
  cases count with
  | none => cases v.getD "required_artifacts" <;> rfl
  | some days =>
    by_cases hzero : days = 0
    · subst hzero
      cases v.getD "required_artifacts" <;> rfl
    · simp only [deadlineOf]
      cases today.shift days with
      | error e => rfl
      | ok shifted => cases v.getD "required_artifacts" <;> rfl

theorem taskOf_eq_ok : taskOf today f v = .ok draft ↔
    ∃ count, (v.getD "sla_days").toDays? = .ok count ∧
      ∃ due, deadlineOf today f.dueDate count = .ok due ∧
        ∃ artifacts, artifactsOf f.artifacts (v.getD "required_artifacts") = .ok artifacts ∧
          draft = {
            title := (v.getD "title").orElse (.text defaultTaskTitle)
            dueDate := due, artifacts
            notes := v.getD "notes" } := by
  rw [taskOf_eq]
  simp only [Except.bind_eq_ok, pure, Except.pure, Except.ok.injEq, eq_comm (b := draft)]

theorem deadlineOf_of_ne {days : ℤ} (hne : days ≠ 0) :
    deadlineOf today default (some days) = .ok due ↔
      ∃ e : Date, (e.day : ℤ) = today.day + days ∧ due = .text e.toIsoText := by
  simp only [deadlineOf, Except.bind_eq_ok, Date.shift_eq_ok]
  constructor
  · rintro ⟨e, he, ⟨⟩⟩
    exact ⟨e, he, rfl⟩
  · rintro ⟨e, he, rfl⟩
    exact ⟨e, he, rfl⟩

/-- Without a count, or with a count of no days, a task is due when its finding is. -/
theorem deadlineOf_of_zero (h : ∀ days ∈ count, days = 0) :
    deadlineOf today default count = .ok default := by
  cases count with
  | none => rfl
  | some days =>
    rw [h days rfl]
    rfl

/-- A task has the due date that its own count of days gives, which is before the reference date
exactly if the count is negative. If it has no count, or one of no days, it has the due date of the
finding, the last of all that the list sets, wherever the directives that set them stand. -/
theorem plan_deadlines {xs : List Value} {severity : Value} {plan : Plan}
    (h : ofValue (.list xs) severity today = .ok plan) :
    (∃ dues, List.Forall₂ (fun v due => Directive.dueDate v today = .ok due)
        (ofKind .setDueDate xs) dues ∧ plan.finding.dueDate = lastPresent .null dues) ∧
      List.Forall₂ (fun directive draft =>
        (∀ n, (directive.getD "sla_days").GivesDays n → n ≠ 0 → ∃ e : Date,
          draft.dueDate = .text e.toIsoText ∧ draft.dueDate.toDate? = some (some e) ∧
            (e.day : ℤ) = today.day + n ∧ (e.day < today.day ↔ n < 0)) ∧
        ((∀ n, (directive.getD "sla_days").GivesDays n → n = 0) →
          draft.dueDate = plan.finding.dueDate))
        (ofKind .createTask xs) plan.tasks := by
  obtain ⟨⟨dues, artifacts, hnames, hfinding⟩, htasks⟩ := ofValue_eq_ok.mp h
  refine ⟨⟨dues, hnames.dues, by rw [hfinding, summary]⟩, ?_⟩
  refine (Except.mapM_ok htasks).imp fun directive draft hdraft => ?_
  obtain ⟨count, hcount, due, hdue, artifacts, -, rfl⟩ := taskOf_eq_ok.mp hdraft
  constructor
  · intro n hn hne
    cases hcount.symm.trans (Value.toDays?_eq_ok.mpr hn)
    obtain ⟨e, he, rfl⟩ := (deadlineOf_of_ne hne).mp hdue
    exact ⟨e, rfl, Value.toDate?_isoText e, he, by omega⟩
  · intro hzero
    have hnone : ∀ days ∈ count, days = 0 := by
      rintro days rfl
      exact hzero days (Value.toDays?_eq_ok.mp hcount)
    rw [deadlineOf_of_zero hnone] at hdue
    exact (Except.ok.inj hdue).symm

/-- A deadline of three days, and a task without one, before the due date is set. -/
theorem plan_deadlines_mixed :
    let own : Value := .object [("type", .text "create_task"), ("sla_days", .text "3")]
    let other : Value := .object [("type", .text "create_task")]
    let due : Value := .object [("type", .text "set_due_date"), ("mode", .text "fixed"),
      ("value", .text "2026-03-31")]
    let today : Date := ⟨739626, by decide, by decide⟩
    let task (due : Value) : TaskDraft := ⟨.text "Compliance task", due, [], .null⟩
    let plan : Plan := ⟨{ dueDate := .text "2026-03-31" },
      [task (.text "2026-01-13"), task (.text "2026-03-31")]⟩
    ofValue (.list [own, other, due]) .null today = .ok plan ∧
      ∃ e, (Value.text "2026-01-13").toDate? = some (some e) ∧ (e.day : ℤ) = today.day + 3 := by
  intro own other due today task plan
  have hdays : (own.getD "sla_days").GivesDays 3 := Value.Spells.givesDays (.inr rfl) (by decide)
  have hplan : ofValue (.list [own, other, due]) .null today = .ok plan := by
    refine ofValue_eq_ok.mpr ⟨⟨[.text "2026-03-31"], [], ⟨.cons rfl .nil, .nil⟩, rfl⟩, ?_⟩
    have hown : deadlineOf today (.text "2026-03-31") (some 3) = .ok (.text "2026-01-13") :=
      (deadlineOf_of_ne (by decide)).mpr ⟨⟨739629, by decide, by decide⟩, rfl, by cbv⟩
    refine Except.mapM_eq_ok.mpr (.cons (taskOf_eq_ok.mpr ?_) (.cons (taskOf_eq_ok.mpr ?_) .nil))
    · exact ⟨_, Value.toDays?_eq_ok.mpr hdays, _, hown, [], rfl, rfl⟩
    · exact ⟨some 0, rfl, _, rfl, [], rfl, rfl⟩
  cases (plan_deadlines hplan).2 with
  | cons hown hrest =>
    obtain ⟨e, hdate, hread, hday, -⟩ := hown.1 3 hdays (by decide)
    exact ⟨hplan, e, hread, hday⟩

/-- A negative count gives a task a due date before the reference date, not that of its finding. -/
theorem deadline_before_today :
    let own : Value := .object [("type", .text "create_task"), ("title", .text "Call"),
      ("sla_days", .int (-3))]
    let due : Value := .object [("type", .text "set_due_date"), ("mode", .text "fixed"),
      ("value", .text "2026-03-31")]
    let today : Date := ⟨739626, by decide, by decide⟩
    let plan : Plan := ⟨{ severity := .text "high", dueDate := .text "2026-03-31" },
      [⟨.text "Call", .text "2026-01-07", [], .null⟩]⟩
    today.toIsoText = "2026-01-10" ∧
      ofValue (.list [own, due]) (.text "high") today = .ok plan := by
  intro own due today plan
  have hdays : (own.getD "sla_days").GivesDays (-3) :=
    Value.Spells.givesDays (.inl rfl) (by decide)
  have hown : deadlineOf today (.text "2026-03-31") (some (-3)) = .ok (.text "2026-01-07") :=
    (deadlineOf_of_ne (by decide)).mpr ⟨⟨739623, by decide, by decide⟩, rfl, by cbv⟩
  refine ⟨by cbv, ofValue_eq_ok.mpr ⟨⟨[.text "2026-03-31"], [], ⟨.cons rfl .nil, .nil⟩, rfl⟩, ?_⟩⟩
  refine Except.mapM_eq_ok.mpr (.cons (taskOf_eq_ok.mpr ?_) .nil)
  exact ⟨_, Value.toDays?_eq_ok.mpr hdays, _, hown, [], rfl, rfl⟩

end Rulebook.Plan
