import Rulebook.Proofs.Condition.Fields
import Rulebook.Proofs.Condition.Grammar

/-!
Keeping malformed nodes as true never makes less hold than keeping them as false. Groups stop at the
first condition that settles them, so the two evaluations of a tree may visit different conditions
and one may fail where the other has stopped. But a group `all` that holds has only conditions that
hold, and one that does not has one that does not (`evaluateAll_eq_true`,
`exists_of_evaluateAll_eq_false`), and a group `any` is a search for one that holds: this is enough
to compare the outcomes, if there are two (`always_trigger_of_never_trigger`).
-/
namespace Rulebook.Condition

variable {context : Value}

/-! ## Outcomes of groups -/

theorem evaluateAll_eq_true {cs : List Condition} :
    evaluateAll context cs = .ok true ↔ ∀ c ∈ cs, evaluate context c = .ok true := by
  induction cs with
  | nil => simp [evaluateAll]
  | cons c rest ih =>
    rw [evaluateAll, Except.bind_eq_ok, List.forall_mem_cons, ← ih]
    constructor
    · rintro ⟨holds, hc, h⟩
      cases holds with
      | true => exact ⟨hc, h⟩
      | false => cases h
    · rintro ⟨hc, h⟩
      exact ⟨true, hc, h⟩

theorem exists_of_evaluateAll_eq_false {cs : List Condition}
    (h : evaluateAll context cs = .ok false) : ∃ c ∈ cs, evaluate context c = .ok false := by
  induction cs with
  | nil => cases h
  | cons c rest ih =>
    rw [evaluateAll] at h
    obtain ⟨holds, hc, h⟩ := Except.bind_eq_ok.mp h
    cases holds with
    | true =>
      obtain ⟨d, hd, hfalse⟩ := ih h
      exact ⟨d, List.mem_cons_of_mem c hd, hfalse⟩
    | false => exact ⟨c, List.mem_cons_self, hc⟩

/-- A group `all` is a check of all its conditions. -/
theorem evaluateAll_eq_allM (cs : List Condition) :
    evaluateAll context cs = cs.allM (evaluate context) := by
  induction cs with
  | nil => rfl
  | cons c rest ih =>
    rw [evaluateAll, List.allM, ih]
    cases evaluate context c with
    | error e => rfl
    | ok holds => cases holds <;> rfl

/-- A group `any` searches for a condition that holds. -/
theorem evaluateAny_eq_anyM (cs : List Condition) :
    evaluateAny context cs = cs.anyM (evaluate context) := by
  induction cs with
  | nil => rfl
  | cons c rest ih =>
    rw [evaluateAny, List.anyM, ih]
    cases evaluate context c with
    | error e => rfl
    | ok holds => cases holds <;> rfl

/-! ## The outcomes of malformed nodes -/

theorem mem_withOutcomes {outcome : Bool} {cs : List Condition} {d : Condition} :
    d ∈ withOutcomes outcome cs ↔ ∃ c ∈ cs, c.withOutcome outcome = d := by
  induction cs with
  | nil => simp [withOutcomes]
  | cons c rest ih => simp [withOutcomes, ih, eq_comm]

/-- A tree that holds with its malformed nodes as false does not turn false with them as true. -/
theorem not_false_of_holds (c : Condition)
    (h : evaluate context (c.withOutcome false) = .ok true) :
    evaluate context (c.withOutcome true) ≠ .ok false := by
  intro hfalse
  induction c using tree_induction with
  | all children ih =>
    rw [withOutcome, evaluate, evaluateAll_eq_true] at h
    rw [withOutcome, evaluate] at hfalse
    obtain ⟨d, hd, hfalse⟩ := exists_of_evaluateAll_eq_false hfalse
    obtain ⟨c, hc, rfl⟩ := mem_withOutcomes.mp hd
    exact ih c hc (h _ (mem_withOutcomes.mpr ⟨c, hc, rfl⟩)) hfalse
  | any children ih =>
    rw [withOutcome, evaluate, evaluateAny_eq_anyM] at h
    rw [withOutcome, evaluate, evaluateAny_eq_anyM, Except.anyM_eq_false] at hfalse
    obtain ⟨d, hd, h⟩ := Except.exists_of_anyM h
    obtain ⟨c, hc, rfl⟩ := mem_withOutcomes.mp hd
    exact ih c hc h (hfalse _ (mem_withOutcomes.mpr ⟨c, hc, rfl⟩))
  | leaf field op value =>
    -- The leaf is read alike by both.
    cases h.symm.trans hfalse
  | malformed node outcome => cases h

/-- Where a value has an outcome under both policies, it holds with malformed nodes as true if it
holds with them as false; and if the two differ, then something in its tree is malformed. -/
theorem always_trigger_of_never_trigger (context v : Value) (never always : Bool)
    (hnever : outcome .neverTrigger context v = .ok never)
    (halways : outcome .alwaysTrigger context v = .ok always) :
    (never = true → always = true) ∧
      (never ≠ always → ∃ tree, ofValue .neverTrigger v = .ok tree ∧
        ofValue .alwaysTrigger v = .ok (tree.withOutcome true) ∧ tree.faults ≠ []) := by
  obtain ⟨tree, hkept, htree⟩ := ofValue_settles v
  have hread : ofValue .neverTrigger v = .ok tree :=
    (htree .neverTrigger).trans (congrArg Except.ok hkept)
  have hreadTrue : ofValue .alwaysTrigger v = .ok (tree.withOutcome true) := htree .alwaysTrigger
  rw [outcome, hread] at hnever
  rw [outcome, hreadTrue] at halways
  have hfalse : evaluate context tree = .ok never := Except.mapError_eq_ok.mp hnever
  have htrue : evaluate context (tree.withOutcome true) = .ok always :=
    Except.mapError_eq_ok.mp halways
  refine ⟨?_, fun hne => ⟨tree, hread, hreadTrue, fun hnone => hne ?_⟩⟩
  · rintro rfl
    cases always with
    | true => rfl
    | false => exact absurd htrue (not_false_of_holds tree (hkept.symm ▸ hfalse))
  · rw [withOutcome_of_faults_eq_nil true hnone] at htrue
    exact Except.ok.inj (hfalse.symm.trans htrue)

/-- With a misspelt operator inside a group, the two policies come to different outcomes: kept as
true, the malformed node settles its group before the leaf beside it is looked at. -/
theorem always_trigger_of_never_trigger_misspelt :
    let loan : Value := .object [("loan", .object [("state", .text "TX")])]
    let raw : Value := .object [("all", .list [
      .object [("any", .list [.object [("field", .text "loan.state"), ("op", .text "~")],
        .object [("field", .text "loan.state"), ("op", .text "="), ("value", .text "NY")]])],
      .object [("field", .text "loan.state"), ("op", .text "exists")]])]
    outcome .neverTrigger loan raw = .ok false ∧ outcome .alwaysTrigger loan raw = .ok true ∧
      ∃ tree, ofValue .neverTrigger raw = .ok tree ∧
        ofValue .alwaysTrigger raw = .ok (tree.withOutcome true) ∧ tree.faults ≠ [] := by
  intro loan raw
  have hnever : outcome .neverTrigger loan raw = .ok false := rfl
  have halways : outcome .alwaysTrigger loan raw = .ok true := rfl
  obtain ⟨-, hdiffer⟩ := always_trigger_of_never_trigger loan raw false true hnever halways
  exact ⟨hnever, halways, hdiffer Bool.false_ne_true⟩

end Rulebook.Condition
