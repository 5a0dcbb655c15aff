import Mathlib
import Rulebook.Failure
import Rulebook.Proofs.Directive.DueDate
import Rulebook.Proofs.Value.DayCount

/-!
Which lists of directives pass their check. `WellFormed` says what each kind of directive asks of
its members, without the order in which they are looked at. A check finds nothing wrong with the
entries that are well formed (`entryFault?_eq_none`) and has no outcome for those with a count of
days that is too wide (`entryFault?_fails`). So a list is refused at its first entry that is not
well formed (`check_outcome`).
-/
namespace Rulebook.Directive

variable {v : Value} {xs : List Value} {index : ℕ}

/-! ## Entries -/

/-- A directive that sets a due date: the text of a date, or a count of days. -/
inductive SetsDate (v : Value) : Prop
  | fixed {t : Text} {s : String} {d : Date}
      (hmode : DueDateMode.ofValue? (v.getD "mode") = some .fixed)
      (hvalue : v.getD "value" = .text t) (hs : t.string? = some s)
      (hd : Date.ofIsoText? s = some d)
  | daysFromNow {n : ℤ} (hmode : DueDateMode.ofValue? (v.getD "mode") = some .daysFromNow)
      (hdays : (v.getD "value").GivesDays n)

/-- What a kind of directive asks of its members. -/
def Suits (v : Value) : DirectiveKind → Prop
  | .setDueDate => SetsDate v
  | .createFinding =>
    (v.getD "title" = .null ∨ ∃ t, v.getD "title" = .text t) ∧
      (v.getD "severity" = .null ∨ ∃ t, v.getD "severity" = .text t)
  | .createTask =>
    (v.getD "sla_days" = .null ∨ ∃ n, (v.getD "sla_days").GivesDays n) ∧
      (v.getD "required_artifacts" = .null ∨ ∃ items, v.getD "required_artifacts" = .list items)
  | .requireArtifact => ∃ items, v.getD "items" = .list items
  | .blockAction => True

/-- An entry that names a kind of directive and has the members that the kind asks for. -/
def WellFormed (v : Value) : Prop := ∃ k, kind? v = some k ∧ Suits v k

/-- The members that are read as counts of days. -/
inductive ReadsDays (v : Value) : Value → Prop
  | dueDate (hkind : kind? v = some .setDueDate)
      (hmode : DueDateMode.ofValue? (v.getD "mode") = some .daysFromNow) :
      ReadsDays v (v.getD "value")
  | deadline (hkind : kind? v = some .createTask) : ReadsDays v (v.getD "sla_days")

/-- An entry with a count of days that is an integer without a nearest double. -/
def Unconvertible (v : Value) : Prop := ∃ count, ReadsDays v count ∧ count.TooWide

theorem wellFormed_iff {k : DirectiveKind} (h : kind? v = some k) : WellFormed v ↔ Suits v k := by
  constructor
  · rintro ⟨l, hl, hsuits⟩
    cases h.symm.trans hl
    exact hsuits
  · exact fun hsuits => ⟨k, h, hsuits⟩

/-! ## Members -/

theorem givesDays_eq_true : givesDays v = .ok true ↔ ∃ n, v.GivesDays n := by
  simp only [← Value.toDays?_eq_ok, givesDays, Except.bind_eq_ok]
  constructor
  · rintro ⟨count, hcount, h⟩
    obtain ⟨n, rfl⟩ := Option.isSome_iff_exists.mp (Except.ok.inj h)
    exact ⟨n, hcount⟩
  · rintro ⟨n, hn⟩
    exact ⟨some n, hn, rfl⟩

theorem givesDays_eq_error {f : Fault} : givesDays v = .error f ↔ v.toDays? = .error f := by
  rw [givesDays, Except.bind_eq_error]
  simp [pure, Except.pure]

theorem isDateText_iff : isDateText v = true ↔
    ∃ t s d, v = .text t ∧ t.string? = some s ∧ Date.ofIsoText? s = some d := by
  cases v with
  | text t =>
    rw [isDateText, Option.isSome_iff_exists]
    simp only [Option.bind_eq_some_iff]
    constructor
    · rintro ⟨d, s, hs, hd⟩
      exact ⟨t, s, d, rfl, hs, hd⟩
    · rintro ⟨_, s, d, ⟨⟩, hs, hd⟩
      exact ⟨d, s, hs, hd⟩
  | _ => simp [isDateText]

theorem isTextOrNull_iff : isTextOrNull v = true ↔ v = .null ∨ ∃ t, v = .text t := by
  cases v <;> simp [isTextOrNull, Value.isNull, Value.isText]

theorem isNull_iff : v.isNull = true ↔ v = .null := by cases v <;> simp [Value.isNull]

theorem isList_iff : v.isList = true ↔ ∃ items, v = .list items := by
  cases v <;> simp [Value.isList]

/-! ## The check of an entry -/

/-- What is wrong with a directive of a kind. -/
def faultOf? (v : Value) : DirectiveKind → Except Fault (Option EntryFault)
  | .setDueDate => dueDateFault? v
  | .createFinding =>
    if !isTextOrNull (v.getD "title") then .ok (some (.notAText "title"))
    else if !isTextOrNull (v.getD "severity") then .ok (some (.notAText "severity"))
    else .ok none
  | .createTask => taskFault? v
  | .requireArtifact => .ok (if (v.getD "items").isList then none else some .itemsNotAList)
  | .blockAction => .ok none

theorem entryFault?_of_kind {k : DirectiveKind} (h : kind? v = some k) :
    entryFault? v = faultOf? v k := by
  cases v with
  | object fields =>
    rw [entryFault?, h]
    cases k <;> rfl
  | _ => cases h

/-- An entry that names no kind is refused, whatever else it is. -/
theorem entryFault?_of_none (h : kind? v = none) : ∃ what, entryFault? v = .ok (some what) := by
  cases v with
  | object fields =>
    rw [entryFault?, h]
    exact ⟨_, rfl⟩
  | _ => exact ⟨.notAnObject, rfl⟩

theorem dueDateFault?_eq_none : dueDateFault? v = .ok none ↔ SetsDate v := by
  unfold dueDateFault?
  dsimp only
  constructor
  · intro h
    split at h
    · cases h
    · next hmode =>
      split at h
      · next hdate =>
        obtain ⟨t, s, d, hvalue, hs, hd⟩ := isDateText_iff.mp hdate
        exact .fixed hmode hvalue hs hd
      · cases h
    · next hmode =>
      obtain ⟨gives, hgives, h⟩ := Except.bind_eq_ok.mp h
      cases gives with
      | true =>
        obtain ⟨n, hn⟩ := givesDays_eq_true.mp hgives
        exact .daysFromNow hmode hn
      | false => cases h
  · rintro (⟨hmode, hvalue, hs, hd⟩ | ⟨hmode, hdays⟩)
    · rw [hmode]
      dsimp only
      rw [if_pos (isDateText_iff.mpr ⟨_, _, _, hvalue, hs, hd⟩)]
    · rw [hmode]
      dsimp only
      rw [givesDays_eq_true.mpr ⟨_, hdays⟩]
      rfl

theorem dueDateFault?_eq_error {f : Fault} : dueDateFault? v = .error f ↔
    DueDateMode.ofValue? (v.getD "mode") = some .daysFromNow ∧
      (v.getD "value").toDays? = .error f := by
  unfold dueDateFault?
  dsimp only
  split
  · next hmode => simp [hmode]
  · next hmode => simp [hmode]
  · next hmode =>
    rw [Except.bind_eq_error, givesDays_eq_error]
    simp [hmode, pure, Except.pure]

theorem taskFault?_eq {gives : Bool} (h : givesDays (v.getD "sla_days") = .ok gives) :
    taskFault? v = .ok
      (if !(v.getD "sla_days").isNull && !gives then some .deadlineNotANumber
      else if !(v.getD "required_artifacts").isNull && !(v.getD "required_artifacts").isList then
        some .artifactsNotAList
      else none) := by
  rw [taskFault?, h]
  dsimp only [bind, Except.bind]
  split
  · rfl
  · split <;> rfl

theorem taskFault?_eq_none : taskFault? v = .ok none ↔ Suits v .createTask := by
  simp only [Suits, ← isList_iff, ← isNull_iff, ← givesDays_eq_true]
  have hpasses : ∀ null gives absent isList : Bool,
      (if !null && !gives then some EntryFault.deadlineNotANumber
      else if !absent && !isList then some .artifactsNotAList
      else none) = none ↔ (null = true ∨ gives = true) ∧ (absent = true ∨ isList = true) := by
    intro null gives absent isList
    cases null <;> cases gives <;> cases absent <;> cases isList <;> simp
  constructor
  · intro h
    obtain ⟨gives, hgives, -⟩ := Except.bind_eq_ok.mp h
    rw [taskFault?_eq hgives, Except.ok.injEq, hpasses] at h
    rwa [hgives, Except.ok.injEq]
  · rintro ⟨hdeadline, hartifacts⟩
    have hgives : givesDays (v.getD "sla_days") = .ok true := by
      rcases hdeadline with hnull | hgives
      · rw [isNull_iff.mp hnull]
        rfl
      · exact hgives
    rw [taskFault?_eq hgives, Except.ok.injEq, hpasses]
    exact ⟨.inr rfl, hartifacts⟩

theorem taskFault?_eq_error {f : Fault} :
    taskFault? v = .error f ↔ (v.getD "sla_days").toDays? = .error f := by
  rw [← givesDays_eq_error]
  cases hgives : givesDays (v.getD "sla_days") with
  | error g =>
    rw [taskFault?, hgives]
    constructor
    · rintro ⟨⟩
      rfl
    · rintro ⟨⟩
      rfl
  | ok gives =>
    rw [taskFault?_eq hgives]
    exact iff_of_false (fun h => nomatch h) (fun h => nomatch h)

theorem faultOf?_eq_none {k : DirectiveKind} : faultOf? v k = .ok none ↔ Suits v k := by
  cases k with
  | setDueDate => exact dueDateFault?_eq_none
  | createFinding =>
    rw [faultOf?, Suits, ← isTextOrNull_iff, ← isTextOrNull_iff]
    cases isTextOrNull (v.getD "title") <;> cases isTextOrNull (v.getD "severity") <;> simp
  | createTask => exact taskFault?_eq_none
  | requireArtifact =>
    rw [faultOf?, Suits, ← isList_iff]
    cases (v.getD "items").isList <;> simp
  | blockAction => exact iff_of_true rfl trivial

theorem entryFault?_eq_none : entryFault? v = .ok none ↔ WellFormed v := by
  cases hkind : kind? v with
  | none =>
    obtain ⟨what, hwhat⟩ := entryFault?_of_none hkind
    rw [hwhat]
    refine iff_of_false (fun h => nomatch h) ?_
    rintro ⟨k, hk, -⟩
    cases hkind.symm.trans hk
  | some k => rw [entryFault?_of_kind hkind, faultOf?_eq_none, wellFormed_iff hkind]

/-- Only reading a count of days can fail. -/
theorem entryFault?_eq_error {f : Fault} : entryFault? v = .error f ↔
    ∃ count, ReadsDays v count ∧ count.toDays? = .error f := by
  constructor
  · intro h
    cases hkind : kind? v with
    | none =>
      obtain ⟨what, hwhat⟩ := entryFault?_of_none hkind
      cases hwhat.symm.trans h
    | some k =>
      rw [entryFault?_of_kind hkind] at h
      cases k with
      | setDueDate =>
        obtain ⟨hmode, hdays⟩ := dueDateFault?_eq_error.mp h
        exact ⟨_, .dueDate hkind hmode, hdays⟩
      | createTask => exact ⟨_, .deadline hkind, taskFault?_eq_error.mp h⟩
      | createFinding =>
        rw [faultOf?] at h
        split at h
        · cases h
        · split at h <;> cases h
      | requireArtifact => cases h
      | blockAction => cases h
  · rintro ⟨_, ⟨hkind, hmode⟩ | hkind, hdays⟩
    · rw [entryFault?_of_kind hkind]
      exact dueDateFault?_eq_error.mpr ⟨hmode, hdays⟩
    · rw [entryFault?_of_kind hkind]
      exact taskFault?_eq_error.mpr hdays

theorem entryFault?_fails : Except.Fails (entryFault? v) ↔ Unconvertible v := by
  simp only [Except.Fails, entryFault?_eq_error, Unconvertible, ← Value.toDays?_fails]
  rw [exists_comm]
  simp only [exists_and_left]

theorem kind_of_entryFault? {f : Fault} (h : entryFault? v = .error f) : f.kind = .outOfRange := by
  obtain ⟨count, -, hdays⟩ := entryFault?_eq_error.mp h
  exact Value.kind_of_toDays? hdays

/-! ## The check of a list -/

theorem checkFrom_eq_ok : checkFrom index xs = .ok () ↔ ∀ x ∈ xs, WellFormed x := by
  simp only [← entryFault?_eq_none]
  refine ⟨faultless_of_checkFrom, fun h => ?_⟩
  induction xs generalizing index with
  | nil => rfl
  | cons x rest ih =>
    obtain ⟨hx, hrest⟩ := List.forall_mem_cons.mp h
    rw [checkFrom, hx]
    exact ih hrest

/-- Why an entry at a position is refused. -/
inductive Refused (index : ℕ) (x : Value) : DirectiveRefusal → Prop
  | entry {what : EntryFault} (h : entryFault? x = .ok (some what)) :
      Refused index x (.entry index what)
  | unconvertible {f : Fault} (h : entryFault? x = .error f) : Refused index x (.unconvertible f)

/-- A list is refused at its first entry that is not well formed. -/
theorem refused_of_checkFrom {e : DirectiveRefusal} (h : checkFrom index xs = .error e) :
    ∃ before x after, xs = before ++ x :: after ∧ (∀ w ∈ before, WellFormed w) ∧
      Refused (index + before.length) x e := by
  induction xs generalizing index with
  | nil => cases h
  | cons x rest ih =>
    rw [checkFrom] at h
    split at h
    · next f hf =>
      cases h
      exact ⟨[], x, rest, rfl, List.forall_mem_nil _, .unconvertible hf⟩
    · next what hwhat =>
      cases h
      exact ⟨[], x, rest, rfl, List.forall_mem_nil _, .entry hwhat⟩
    · next hnone =>
      obtain ⟨before, y, after, rfl, hbefore, hy⟩ := ih h
      refine ⟨x :: before, y, after, rfl,
        List.forall_mem_cons.mpr ⟨entryFault?_eq_none.mp hnone, hbefore⟩, ?_⟩
      rw [List.length_cons, Nat.add_comm before.length, ← Nat.add_assoc]
      exact hy

theorem check_eq_ok_iff : check v = .ok xs ↔ v = .list xs ∧ ∀ x ∈ xs, WellFormed x := by
  constructor
  · intro h
    obtain ⟨hlist, hfault⟩ := check_eq_ok h
    exact ⟨hlist, fun x hx => entryFault?_eq_none.mp (hfault x hx)⟩
  · rintro ⟨rfl, h⟩
    rw [check, checkFrom_eq_ok.mpr h]
    rfl

theorem refused_of_check {e : DirectiveRefusal} (h : check v = .error e) :
    (∀ xs, v ≠ .list xs) ∧ e = .notAList ∨
      ∃ before x after, v = .list (before ++ x :: after) ∧ (∀ w ∈ before, WellFormed w) ∧
        Refused before.length x e := by
  cases v with
  | list entries =>
    rcases Except.bind_eq_error.mp h with hcheck | ⟨_, -, hreturn⟩
    · obtain ⟨before, x, after, rfl, hbefore, hx⟩ := refused_of_checkFrom hcheck
      rw [Nat.zero_add] at hx
      exact .inr ⟨before, x, after, rfl, hbefore, hx⟩
    · cases hreturn
  | _ =>
    cases h
    exact .inl ⟨fun xs => nofun, rfl⟩

/-- The place of an entry starts with its position. -/
theorem place_entry (index : ℕ) (what : EntryFault) :
    ∃ member, (DirectiveRefusal.entry index what).place =
      "actions[" ++ toString index ++ "]" ++ member := by
  cases hmember : what.member? with
  | none =>
    refine ⟨"", ?_⟩
    simp only [DirectiveRefusal.place, hmember, String.append_empty]
  | some member =>
    refine ⟨"." ++ member, ?_⟩
    simp only [DirectiveRefusal.place, hmember, String.append_assoc]

/-- A value is accepted, as it is, exactly if it is a list of well-formed entries. What is no list
is refused as a whole, and any other list at its first entry that is not well formed: by naming the
entry, except if the entry has a count of days that is too wide, which ends the check as a number
out of range. -/
theorem check_outcome (v : Value) :
    (∀ xs, check v = .ok xs ↔ v = .list xs ∧ ∀ x ∈ xs, WellFormed x) ∧
      ∀ e, check v = .error e →
        (∀ xs, v ≠ .list xs) ∧ (Failure.refusedDirectives e).kind = .invalid ∧ e.place = "actions" ∨
        ∃ before x after, v = .list (before ++ x :: after) ∧ (∀ w ∈ before, WellFormed w) ∧
          ¬ WellFormed x ∧
          (Unconvertible x ∧ (Failure.refusedDirectives e).kind = .outOfRange ∨
            ¬ Unconvertible x ∧ (Failure.refusedDirectives e).kind = .invalid ∧
              ∃ member, e.place = "actions[" ++ toString before.length ++ "]" ++ member) := by
  refine ⟨fun xs => check_eq_ok_iff, fun e h => ?_⟩
  rcases refused_of_check h with ⟨hlist, rfl⟩ | ⟨before, x, after, hsplit, hbefore, hx⟩
  · exact .inl ⟨hlist, rfl, rfl⟩
  · refine .inr ⟨before, x, after, hsplit, hbefore, ?_⟩
    rw [← entryFault?_eq_none, ← entryFault?_fails]
    cases hx with
    | @entry what hwhat =>
      rw [hwhat]
      exact ⟨(nomatch ·), .inr ⟨Except.not_fails_ok _, rfl, place_entry ..⟩⟩
    | @unconvertible f hf =>
      rw [hf]
      exact ⟨(nomatch ·), .inl ⟨Except.fails_error f, kind_of_entryFault? hf⟩⟩

/-- A deadline in words, after an entry that is well formed and before one that is not. -/
theorem check_outcome_deadline :
    let block : Value := .object [("type", .text "block_action")]
    let soon : Value := .object [("type", .text "create_task"), ("sla_days", .text "soon")]
    ∃ e, check (.list [block, soon, .null]) = .error e ∧ e.place = "actions[1].sla_days" ∧
      ∃ before x after, [block, soon, .null] = before ++ x :: after ∧
        (∀ w ∈ before, WellFormed w) ∧ ¬ WellFormed x := by
  intro block soon
  have hcheck : check (.list [block, soon, .null]) = .error (.entry 1 .deadlineNotANumber) := by cbv
  refine ⟨_, hcheck, by decide, ?_⟩
  rcases (check_outcome _).2 _ hcheck with ⟨hlist, -⟩ | ⟨before, x, after, h, hbefore, hx, -⟩
  · exact absurd rfl (hlist _)
  · exact ⟨before, x, after, Value.list.inj h, hbefore, hx⟩

/-- An integer that is too wide is no count of days, but it is not named as what is wrong. -/
theorem check_deadline_too_wide :
    let wide : Value := .object [("type", .text "create_task"), ("sla_days", .int (10 ^ 400))]
    ∃ e, check (.list [wide]) = .error e ∧ ¬ WellFormed wide ∧
      (Failure.refusedDirectives e).kind = .outOfRange ∧ e.place = "actions" := by
  intro wide
  have hkind : kind? wide = some .createTask := rfl
  have hmember : wide.getD "sla_days" = .int (10 ^ 400) := rfl
  have hlimit : Double.intLimit ≤ (10 ^ 400 : ℤ).natAbs := by decide +kernel
  obtain ⟨f, hf⟩ := Value.toDays?_fails.mpr ⟨10 ^ 400, hmember, hlimit⟩
  have hentry : entryFault? wide = .error f := entryFault?_eq_error.mpr ⟨_, .deadline hkind, hf⟩
  refine ⟨.unconvertible f, ?_, ?_, kind_of_entryFault? hentry, rfl⟩
  · rw [check, checkFrom, hentry]
    rfl
  · rw [← entryFault?_eq_none, hentry]
    nofun

end Rulebook.Directive
