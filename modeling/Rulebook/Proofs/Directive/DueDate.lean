import Rulebook.Directive.Check
import Rulebook.Directive.Plan
import Rulebook.Proofs.Store.Failing

/-!
Two readings of the due date in a list of directives. A scan takes the first directive that sets one
(`Directive.firstDueDateOf`); a plan folds over the list and keeps the last date that counts as
present. In a list that passes its check and sets at most one, both read the same
(`Plan.dueDate_ofValue`).
-/
namespace Rulebook

variable {today : Date} {directive value : Value} {directives : List Value}

/-! ## Lists that pass their check -/

namespace Directive

theorem faultless_of_checkFrom {index : Nat} (h : checkFrom index directives = .ok ()) :
    ∀ v ∈ directives, entryFault? v = .ok none := by
  induction directives generalizing index with
  | nil => exact fun v hv => by cases hv
  | cons v rest ih =>
    unfold checkFrom at h
    split at h
    · cases h
    · cases h
    · next hv => exact List.forall_mem_cons.2 ⟨hv, ih h⟩

/-- What passes the check is a list of entries with nothing wrong about them. -/
theorem check_eq_ok (h : check value = .ok directives) :
    value = .list directives ∧ ∀ v ∈ directives, entryFault? v = .ok none := by
  unfold check at h
  split at h
  · next entries =>
    cases hcheck : checkFrom 0 entries with
    | error e =>
      rw [hcheck] at h
      cases h
    | ok u =>
      rw [hcheck] at h
      cases h
      exact ⟨rfl, faultless_of_checkFrom hcheck⟩
  · cases h

theorem entries_list (directives : List Value) : entries (.list directives) = .ok directives := by
  unfold entries
  cases directives with
  | nil => rfl
  | cons v rest => rfl

theorem isPresent_isoText (d : Date) : (Value.text d.toIsoText).isPresent = true := by
  simp [Value.isPresent, Text.isEmpty, Text.ofString, Text.ofChars, Date.toIsoText]

theorem isPresent_of_isDateText {v : Value} (h : isDateText v = true) : v.isPresent = true := by
  unfold isDateText at h
  split at h
  · next t =>
    rw [Value.isPresent, Bool.not_eq_true', ← Bool.not_eq_true]
    intro hempty
    have hletters : t = ⟨[]⟩ := by
      rw [← List.isEmpty_iff.1 hempty]
    rw [hletters] at h
    revert h
    decide
  · cases h

/-- The date that a well-formed directive sets counts as present, or is null. -/
theorem dueDate_orElse_null (hfault : entryFault? directive = .ok none)
    (h : dueDate directive today = .ok value) : value.orElse .null = value := by
  unfold dueDate at h
  split at h
  · next hkind =>
    have hsets : dueDateFault? directive = .ok none := by
      unfold entryFault? at hfault
      split at hfault
      · rw [hkind] at hfault
        exact hfault
      · cases hfault
    split at h
    · next hmode =>
      have hdate : isDateText (directive.getD "value") = true := by
        unfold dueDateFault? at hsets
        dsimp only at hsets
        rw [hmode] at hsets
        by_contra hno
        rw [if_neg hno] at hsets
        cases hsets
      rw [← Except.ok.inj h]
      exact if_pos (isPresent_of_isDateText hdate)
    · obtain ⟨days, -, h⟩ := Except.bind_eq_ok.1 h
      split at h
      · obtain ⟨d, -, h⟩ := Except.bind_eq_ok.1 h
        rw [← Except.ok.inj h]
        exact if_pos (isPresent_isoText d)
      · rw [← Except.ok.inj h]
        rfl
    · rw [← Except.ok.inj h]
      rfl
  · rw [← Except.ok.inj h]
    rfl

end Directive

/-! ## The fold of a plan -/

namespace Plan

variable {start f : FindingDraft}

/-- The due date is the one that the directive sets, or else it is kept. -/
theorem absorb_dueDate (h : absorb today start directive = .ok f) :
    if Directive.kind? directive = some .setDueDate then
      ∃ due, Directive.dueDate directive today = .ok due ∧ f.dueDate = due.orElse start.dueDate
    else f.dueDate = start.dueDate := by
  unfold absorb at h
  by_cases hkind : Directive.kind? directive = some .setDueDate
  · rw [hkind] at h
    obtain ⟨due, hdue, h⟩ := Except.bind_eq_ok.1 h
    rw [if_pos hkind, ← Except.ok.inj h]
    exact ⟨due, hdue, rfl⟩
  · rw [if_neg hkind]
    split at h
    · next hsets => exact absurd hsets hkind
    · rw [← Except.ok.inj h]
    · obtain ⟨items, -, h⟩ := Except.bind_eq_ok.1 h
      rw [← Except.ok.inj h]
    · rw [← Except.ok.inj h]
    · rw [← Except.ok.inj h]
    · rw [← Except.ok.inj h]

theorem findingOf_dueDate_of_none
    (hnone : ∀ v ∈ directives, Directive.kind? v ≠ some .setDueDate)
    (h : findingOf today start directives = .ok f) : f.dueDate = start.dueDate := by
  unfold findingOf at h
  induction directives generalizing start with
  | nil => rw [← Except.ok.inj h]
  | cons v rest ih =>
    rw [List.foldlM_cons] at h
    obtain ⟨g, hg, h⟩ := Except.bind_eq_ok.1 h
    obtain ⟨hv, hrest⟩ := List.forall_mem_cons.1 hnone
    have hkept := absorb_dueDate hg
    rw [if_neg hv] at hkept
    exact (ih hrest h).trans hkept

/-- Where one directive at most sets a due date, and that is well formed, the fold ends with the
date that the first one sets. -/
theorem findingOf_dueDate (hfault : ∀ v ∈ directives, Directive.entryFault? v = .ok none)
    (hcount : directives.countP (Directive.kind? · = some .setDueDate) ≤ 1)
    (hstart : start.dueDate = .null) (h : findingOf today start directives = .ok f)
    (hfirst : Directive.firstDueDateOf today directives = .ok value) : f.dueDate = value := by
  unfold findingOf at h
  induction directives generalizing start with
  | nil =>
    rw [← Except.ok.inj h, ← Except.ok.inj hfirst]
    exact hstart
  | cons v rest ih =>
    rw [List.foldlM_cons] at h
    obtain ⟨g, hg, h⟩ := Except.bind_eq_ok.1 h
    obtain ⟨hv, hrest⟩ := List.forall_mem_cons.1 hfault
    have habsorbed := absorb_dueDate hg
    unfold Directive.firstDueDateOf at hfirst
    by_cases hkind : Directive.kind? v = some .setDueDate
    · rw [if_pos hkind] at habsorbed hfirst
      obtain ⟨due, hdue, hset⟩ := habsorbed
      rw [hfirst] at hdue
      rw [List.countP_cons_of_pos (by simpa using hkind)] at hcount
      have hnone : ∀ w ∈ rest, Directive.kind? w ≠ some .setDueDate := by
        have hzero := List.countP_eq_zero.1 (Nat.le_zero.1 (Nat.le_of_succ_le_succ hcount))
        exact fun w hw => by simpa using hzero w hw
      rw [findingOf_dueDate_of_none hnone h, hset, ← Except.ok.inj hdue, hstart]
      exact Directive.dueDate_orElse_null hv hfirst
    · rw [if_neg hkind] at habsorbed hfirst
      rw [List.countP_cons_of_neg (by simpa using hkind)] at hcount
      exact ih hrest hcount (habsorbed.trans hstart) h hfirst

/-- The plan of a checked list that sets one due date at most has that of its first directive that
sets one. -/
theorem dueDate_ofValue {actions severity : Value} {plan : Plan}
    (hcheck : Directive.check actions = .ok directives)
    (hcount : directives.countP (Directive.kind? · = some .setDueDate) ≤ 1)
    (hplan : ofValue actions severity today = .ok plan)
    (hfirst : Directive.firstDueDate actions today = .ok value) :
    plan.finding.dueDate = value := by
  obtain ⟨rfl, hfault⟩ := Directive.check_eq_ok hcheck
  obtain ⟨vs, hvs, hplan⟩ := Except.bind_eq_ok.1 hplan
  obtain ⟨ws, hws, hfirst⟩ := Except.bind_eq_ok.1 hfirst
  rw [Directive.entries_list] at hvs hws
  cases hvs
  cases hws
  obtain ⟨f, hf, hplan⟩ := Except.bind_eq_ok.1 hplan
  obtain ⟨tasks, -, hplan⟩ := Except.bind_eq_ok.1 hplan
  rw [← Except.ok.inj hplan]
  exact findingOf_dueDate hfault hcount rfl hf hfirst

end Plan

end Rulebook
