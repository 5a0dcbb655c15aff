import Mathlib
import Rulebook.Proofs.Condition.Comparison
import Rulebook.Proofs.Condition.Fields
import Rulebook.Proofs.Condition.Monotone
import Rulebook.Proofs.Condition.Operators
import Rulebook.Proofs.Condition.Reading
import Rulebook.Proofs.Value.Width

/-!
Where evaluation ends without an outcome. A leaf fails for one of two reasons: a step of its field
asks a list for an item by an index that is none (`Value.Stumbles`), or an operator converts an
integer that has no nearest double (`Operator.Overflows`). A group fails at the first condition that
fails unless it is settled before (`Aborts`). A snapshot reads every field, whatever the groups, and
fails if one of them stumbles (`evaluation_fails_where`).
-/
namespace Rulebook

/-! ## Operators -/

namespace Operator

/-- An operator converts an integer that has no nearest double. -/
def Overflows : Operator → Option Value → Value → Prop
  | present, _, _ => False
  | equal, actual, value | notEqual, actual, value => ∃ v ∈ actual, v.Clash value
  | above, actual, value | atLeast, actual, value | below, actual, value | atMost, actual, value =>
    (∃ v ∈ actual, v.TooWide) ∨ value.TooWide
  | oneOf, actual, .list items => ∃ before item after, items = before ++ item :: after ∧
    (∀ r ∈ before, equal.holds actual r = .ok false) ∧ ∃ v ∈ actual, v.Clash item
  | oneOf, _, _ => False
  | contains, some (.list items), value => ∃ before item after, items = before ++ item :: after ∧
    (∀ l ∈ before, equal.holds (some l) value = .ok false) ∧ item.Clash value
  | contains, _, _ => False

variable {actual : Option Value} {value : Value}

theorem toNumber_fails :
    Except.Fails (Value.toNumber actual) ↔ ∃ v ∈ actual, v.TooWide := by
  cases actual with
  | none => simp [Value.toNumber, Except.not_fails_ok]
  | some v =>
    cases hv : v.toDouble? with
    | some r =>
      rw [toNumber_of_toDouble? hv, Value.toDouble?_fails hv]
      simp
    | none =>
      have hreturns : ∃ x, Value.toNumber (some v) = .ok x := by
        cases v with
        | int | float | decimal => cases hv
        | _ => exact ⟨_, rfl⟩
      have hnarrow : ¬ v.TooWide := by
        rintro ⟨i, rfl, -⟩
        cases hv
      simp [Except.not_fails.mpr hreturns, hnarrow]

theorem compareNumbers_fails (relates : Double → Double → Bool) :
    Except.Fails (compareNumbers relates actual (some value)) ↔
      (∃ v ∈ actual, v.TooWide) ∨ value.TooWide := by
  rw [compareNumbers, Except.pair_fails, toNumber_fails, toNumber_fails]
  simp

/-- An operator has no outcome exactly where it overflows. -/
theorem holds_fails {op : Operator} :
    Except.Fails (op.holds actual value) ↔ op.Overflows actual value := by
  cases op with
  | present => exact iff_of_false (Except.not_fails_ok _) id
  | equal => exact Value.strictEq_fails
  | notEqual =>
    rw [holds_notEqual, Except.map_fails]
    exact Value.strictEq_fails
  | above => exact compareNumbers_fails _
  | atLeast => exact compareNumbers_fails _
  | below => exact compareNumbers_fails _
  | atMost => exact compareNumbers_fails _
  | oneOf =>
    cases value with
    | list items =>
      rw [holds, anyEqual_eq_anyM, Except.anyM_fails]
      simp only [Value.strictEq_fails]
      rfl
    | _ => exact iff_of_false (Except.not_fails_ok _) id
  | contains =>
    cases actual with
    | none => exact iff_of_false (Except.not_fails_ok _) id
    | some v =>
      cases v with
      | list items =>
        rw [holds, anyItem_eq_anyM, Except.anyM_fails]
        simp only [Value.strictEq_fails, Option.mem_some_iff, exists_eq_left']
        rfl
      | _ => exact iff_of_false (Except.not_fails_ok _) id

/-- What fits does not overflow. -/
theorem not_overflows {op : Operator} (hactual : ∀ v ∈ actual, v.fits = true)
    (hvalue : value.fits = true) : ¬ op.Overflows actual value := by
  have hclash : ∀ v w : Value, v.fits = true → w.fits = true → ¬ v.Clash w := by
    intro v w hv hw hvw
    exact hvw.2.2.elim (Value.not_tooWide hv) (Value.not_tooWide hw)
  cases op with
  | present => exact id
  | equal | notEqual =>
    rintro ⟨v, hv, h⟩
    exact hclash v value (hactual v hv) hvalue h
  | above | atLeast | below | atMost =>
    rintro (⟨v, hv, h⟩ | h)
    · exact Value.not_tooWide (hactual v hv) h
    · exact Value.not_tooWide hvalue h
  | oneOf =>
    cases value with
    | list items =>
      rintro ⟨before, item, after, rfl, -, v, hv, h⟩
      exact hclash v item (hactual v hv) (Value.fitAll_iff.mp hvalue item (by simp)) h
    | _ => exact id
  | contains =>
    cases actual with
    | none => exact id
    | some v =>
      cases v with
      | list items =>
        rintro ⟨before, item, after, rfl, -, h⟩
        have hitem : item.fits = true := Value.fitAll_iff.mp (hactual _ rfl) item (by simp)
        exact hclash item value hitem hvalue h
      | _ => exact id

end Operator

/-! ## Trees -/

namespace Condition

variable {context : Value}

/-- Evaluation of a tree comes to a leaf that fails before the groups above it are settled. -/
inductive Aborts (context : Value) : Condition → Prop
  | stumbles {field : Text} {op : Operator} {value : Value}
      (h : Value.Stumbles (some context) field) : Aborts context (.leaf field op value)
  | overflows {field : Text} {op : Operator} {value : Value} {actual : Option Value}
      (hactual : Value.resolve (some context) field = .ok actual)
      (h : op.Overflows actual value) : Aborts context (.leaf field op value)
  | all {before after : List Condition} {c : Condition}
      (hbefore : ∀ d ∈ before, evaluate context d = .ok true) (h : Aborts context c) :
      Aborts context (.all (before ++ c :: after))
  | any {before after : List Condition} {c : Condition}
      (hbefore : ∀ d ∈ before, evaluate context d = .ok false) (h : Aborts context c) :
      Aborts context (.any (before ++ c :: after))

theorem evaluate_leaf_fails {field : Text} {op : Operator} {value : Value} :
    Except.Fails (evaluate context (.leaf field op value)) ↔
      Value.Stumbles (some context) field ∨
        ∃ actual, Value.resolve (some context) field = .ok actual ∧ op.Overflows actual value := by
  rw [evaluate, Except.bind_fails, Value.resolve_fails]
  simp only [Operator.holds_fails]

/-- Evaluation has no outcome exactly where it comes to a leaf that fails. -/
theorem evaluate_fails {c : Condition} :
    Except.Fails (evaluate context c) ↔ Aborts context c := by
  -- A group that fails has a first condition that fails, and all before it leave it open.
  constructor
  · intro h
    induction c using tree_induction with
    | all children ih =>
      rw [evaluate, evaluateAll_eq_allM, Except.allM_fails] at h
      obtain ⟨before, c, after, rfl, hbefore, hc⟩ := h
      exact .all hbefore (ih c (by simp) hc)
    | any children ih =>
      rw [evaluate, evaluateAny_eq_anyM, Except.anyM_fails] at h
      obtain ⟨before, c, after, rfl, hbefore, hc⟩ := h
      exact .any hbefore (ih c (by simp) hc)
    | leaf field op value =>
      rcases evaluate_leaf_fails.mp h with hfield | ⟨actual, hactual, hop⟩
      · exact .stumbles hfield
      · exact .overflows hactual hop
    | malformed node outcome => exact absurd h (Except.not_fails_ok outcome)
  · intro h
    induction h with
    | stumbles h => exact evaluate_leaf_fails.mpr (.inl h)
    | overflows hactual h => exact evaluate_leaf_fails.mpr (.inr ⟨_, hactual, h⟩)
    | all hbefore _ ih =>
      rw [evaluate, evaluateAll_eq_allM, Except.allM_fails]
      exact ⟨_, _, _, rfl, hbefore, ih⟩
    | any hbefore _ ih =>
      rw [evaluate, evaluateAny_eq_anyM, Except.anyM_fails]
      exact ⟨_, _, _, rfl, hbefore, ih⟩

theorem snapshotFields_fails {entityType : Text} {names : List Text} (start : Fields) :
    Except.Fails (snapshotFields entityType context start names) ↔
      ∃ field ∈ names, Value.Stumbles (some context) field := by
  induction names generalizing start with
  | nil => simp [snapshotFields, Except.not_fails_ok]
  | cons name rest ih =>
    rw [snapshotFields, Except.bind_fails, Value.resolve_fails, List.exists_mem_cons_iff]
    constructor
    · rintro (hname | ⟨v, -, h⟩)
      · exact .inl hname
      · exact .inr ((ih _).mp h)
    · rintro (hname | hrest)
      · exact .inl hname
      · by_cases hname : Value.Stumbles (some context) name
        · exact .inl hname
        · obtain ⟨v, hv⟩ := Except.not_fails.mp (mt Value.resolve_fails.mp hname)
          exact .inr ⟨v, hv, (ih _).mpr hrest⟩

/-- The values of all leaves fit. -/
inductive Fitting : Condition → Prop
  | all {children : List Condition} (hchildren : ∀ c ∈ children, Fitting c) :
      Fitting (.all children)
  | any {children : List Condition} (hchildren : ∀ c ∈ children, Fitting c) :
      Fitting (.any children)
  | leaf {field : Text} {op : Operator} {value : Value} (hvalue : value.fits = true) :
      Fitting (.leaf field op value)

theorem fitting_of_read (v : Value) :
    v.fits = true → ∀ place tree, read .reject place v = .ok tree → Fitting tree := by
  induction v using reading_induction with
  | nothing =>
    intro _ place tree h
    cases h
    exact .any (List.forall_mem_nil _)
  | group fields group items hgroup ih =>
    intro hfits place tree h
    have hitems := Value.fitAll_iff.mp (Value.fits_of_get? hfits (groupOf?_eq_some.mp hgroup).1)
    rw [read_group .reject place hgroup] at h
    obtain ⟨children, hchildren, rfl⟩ := Except.map_eq_ok.mp h
    have hfitting : ∀ c ∈ children, Fitting c := by
      intro c hc
      obtain ⟨u, hu, p, hread⟩ := exists_of_forall₂ (forall₂_of_readItems hchildren) c hc
      exact ih u hu (hitems u hu) p c hread
    cases group with
    | all => exact .all hfitting
    | any => exact .any hfitting
  | leaf fields field op value hnone hleaf =>
    intro hfits place tree h
    cases (read_leaf .reject place hnone hleaf).symm.trans h
    apply Fitting.leaf
    rw [← hleaf.value_eq, Fields.getD]
    cases hvalue : fields.get? "value" with
    | none => rfl
    | some w => exact Value.fits_of_get? hfits hvalue
  | refused v fault hfault =>
    intro _ place tree h
    cases (hfault .reject place).symm.trans h

/-- Without bad indices in the fields nothing stumbles, and what fits does not overflow. -/
theorem not_aborts {tree : Condition} (hcontext : context.fits = true) (htree : Fitting tree)
    (hsteps : ∀ field ∈ tree.leafFields, ∀ s ∈ Value.steps field, ¬ Value.BadIndex s) :
    ¬ Aborts context tree := by
  intro h
  -- Down the path from the root to the leaf that fails.
  induction h with
  | stumbles h =>
    obtain ⟨front, s, rest, w, hsplit, -, -, hbad⟩ := h
    exact hsteps _ List.mem_cons_self s (by simp [hsplit]) hbad
  | @overflows field op value actual hactual h =>
    cases htree with
    | leaf hvalue =>
      refine Operator.not_overflows ?_ hvalue h
      rintro v rfl
      exact Value.fits_of_follow hcontext hactual
  | @all before after c _ _ ih =>
    cases htree with
    | all hchildren =>
      exact ih (hchildren c (by simp)) fun field hfield =>
        hsteps field (mem_leafFieldsAmong.mpr ⟨c, by simp, hfield⟩)
  | @any before after c _ _ ih =>
    cases htree with
    | any hchildren =>
      exact ih (hchildren c (by simp)) fun field hfield =>
        hsteps field (mem_leafFieldsAmong.mpr ⟨c, by simp, hfield⟩)

theorem evaluate_returns {tree : Condition} :
    (∃ b, tree.evaluate context = .ok b) ↔ ¬ tree.Aborts context := by
  rw [← Except.not_fails, evaluate_fails]

theorem snapshot_returns {tree : Condition} {entityType : Text} :
    (∃ snap, tree.snapshot context entityType = .ok snap) ↔
      ∀ field ∈ tree.fields, ¬ Value.Stumbles (some context) field := by
  rw [← Except.not_fails, snapshot, snapshotFields_fails]
  simp

/-- What is authored has an outcome on an entity unless its evaluation comes to a leaf that fails,
and a snapshot unless one of its fields stumbles. So it has both on every entity, as long as no
integer is too wide and no step of a field is a bad index. -/
theorem evaluation_fails_where (raw : Value) (tree : Condition) (entityType : Text)
    (entity : Value) (h : authored raw = .ok tree) :
    let context : Value := .object [(entityType, entity)]
    ((∃ b, tree.evaluate context = .ok b) ↔ ¬ tree.Aborts context) ∧
      ((∃ snap, tree.snapshot context entityType = .ok snap) ↔
        ∀ field ∈ tree.fields, ¬ Value.Stumbles (some context) field) ∧
      (raw.fits = true → entity.fits = true →
        (∀ field ∈ tree.fields, ∀ s ∈ Value.steps field, ¬ Value.BadIndex s) →
        (∃ b, tree.evaluate context = .ok b) ∧
          ∃ snap, tree.snapshot context entityType = .ok snap) := by
  intro context
  refine ⟨evaluate_returns, snapshot_returns, fun hraw hentity hsteps => ⟨?_, ?_⟩⟩
  · have hcontext : context.fits = true :=
      Value.fitMembers_iff.mpr (List.forall_mem_singleton.mpr hentity)
    have htree : Fitting tree := fitting_of_read raw hraw [] tree h
    refine evaluate_returns.mpr (not_aborts hcontext htree fun field hfield => ?_)
    exact hsteps field (mem_fields.mpr hfield)
  · refine snapshot_returns.mpr fun field hfield hstumbles => ?_
    obtain ⟨front, s, rest, w, hsplit, -, -, hbad⟩ := hstumbles
    exact hsteps field hfield s (by simp [hsplit]) hbad

/-- A group that is settled before its failing leaf, and what is authored without one. -/
theorem evaluation_fails_where_settled :
    let loan : Value := .object [("state", .text "NY"), ("tags", .list [.int 9007199254740993])]
    let squared : Value := .object [("any", .list [
      .object [("field", .text "loan.state"), ("op", .text "="), ("value", .text "NY")],
      .object [("field", .text "loan.tags.²"), ("op", .text "exists")]])]
    let plain : Value := .object [("field", .text "loan.tags.0"), ("op", .text "="),
      ("value", .int 9007199254740992)]
    (authored squared = .ok squareTag ∧ ¬ squareTag.Aborts (.object [("loan", loan)]) ∧
      ¬ ∃ snap, squareTag.snapshot (.object [("loan", loan)]) "loan" = .ok snap) ∧
      ∃ tree, authored plain = .ok tree ∧
        (∃ b, tree.evaluate (.object [("loan", loan)]) = .ok b) ∧
        ∃ snap, tree.snapshot (.object [("loan", loan)]) "loan" = .ok snap := by
  intro loan squared plain
  have hsquared : authored squared = .ok squareTag := rfl
  have hplain : authored plain = .ok (.leaf "loan.tags.0" .equal (.int 9007199254740992)) := rfl
  have hsquare : (Value.list []).step "²" = .error (.badIndex "²") := by cbv
  have hbad : Value.BadIndex "²" := Value.step_list_fails.mp ⟨_, hsquare⟩
  have hgood : ∀ s ∈ [Text.ofString "loan", "tags", "0"], ¬ Value.BadIndex s := by
    intro s hs hbad
    have hstep : (Value.list []).step s = .ok none := by
      simp only [List.mem_cons, List.not_mem_nil, or_false] at hs
      rcases hs with rfl | rfl | rfl <;> cbv
    have hfailed : Except.Fails ((Value.list []).step s) := Value.step_list_fails.mpr hbad
    rw [hstep] at hfailed
    exact Except.not_fails_ok _ hfailed
  obtain ⟨hevaluate, hsnapshot, -⟩ := evaluation_fails_where squared _ "loan" loan hsquared
  obtain ⟨-, -, hreturns⟩ := evaluation_fails_where plain _ "loan" loan hplain
  refine ⟨⟨hsquared, hevaluate.mp ⟨true, by cbv⟩, fun h => ?_⟩, _, hplain, ?_⟩
  · have hfield : Text.ofString "loan.tags.²" ∈ squareTag.fields :=
      mem_fields.mpr (by simp [squareTag, leafFields, leafFieldsAmong])
    have hstumbles : Value.Stumbles (some (.object [("loan", loan)])) "loan.tags.²" :=
      ⟨["loan", "tags"], "²", [], .list [.int 9007199254740993], by cbv, by cbv, ⟨_, .inl rfl⟩,
        hbad⟩
    exact hsnapshot.mp h _ hfield hstumbles
  · refine hreturns (by decide +kernel) (by decide +kernel) ?_
    intro field hfield
    obtain rfl := List.mem_singleton.mp (mem_fields.mp hfield)
    exact hgood

/-- Two conditions that are authored and fail on loans: an integer of 401 digits has no nearest
double, and `²` is no index. -/
theorem authored_conditions_fail :
    let wide : Value := .object [("field", .text "loan.balance"), ("op", .text "="),
      ("value", .int 1)]
    let square : Value := .object [("field", .text "loan.tags.²"), ("op", .text "exists")]
    let rich : Value := .object [("balance", .int (10 ^ 400))]
    let tagged : Value := .object [("tags", .list [])]
    rich.IsJson ∧ tagged.IsJson ∧
      (∃ tree, authored wide = .ok tree ∧
        tree.evaluate (.object [("loan", rich)]) = .error .beyondDouble) ∧
      ∃ tree, authored square = .ok tree ∧
        tree.evaluate (.object [("loan", tagged)]) = .error (.badIndex "²") ∧
        tree.snapshot (.object [("loan", tagged)]) "loan" = .error (.badIndex "²") := by
  intro wide square rich tagged
  have hfails : ∀ i : ℤ, Double.intLimit ≤ i.natAbs →
      evaluate (.object [("loan", .object [("balance", .int i)])])
        (.leaf "loan.balance" .equal (.int 1)) = .error .beyondDouble := by
    intro i hlimit
    have hwide : (Value.int i).toDouble? = some (.error .beyondDouble) := by
      rw [Value.toDouble?, Double.ofInt?_eq_none.mpr hlimit]
    have hbalance : Value.resolve (some (.object [("loan", .object [("balance", .int i)])]))
        "loan.balance" = .ok (some (.int i)) := rfl
    have hone : (Value.int 1).toDouble?.isSome = true := by
      rw [← Value.isSome_number?]
      rfl
    obtain ⟨x, hx⟩ := Option.isSome_iff_exists.mp hone
    have hequal : Operator.equal.holds (some (.int i)) (.int 1) = .error .beyondDouble := by
      rw [Operator.holds, Value.strictEq_doubles hwide hx]
      exact Except.bind_eq_error.mpr (.inl rfl)
    rw [evaluate, hbalance]
    exact Except.bind_eq_error.mpr (.inr ⟨_, rfl, hequal⟩)
  have hlimit : Double.intLimit ≤ (10 ^ 400 : ℤ).natAbs := by decide +kernel
  refine ⟨?_, ?_, ⟨.leaf "loan.balance" .equal (.int 1), rfl, hfails _ hlimit⟩,
    ⟨.leaf "loan.tags.²" .present .null, rfl, by cbv, by cbv⟩⟩
  · exact .object (by decide) (List.forall_mem_singleton.mpr (.int _))
  · exact .object (by decide) (List.forall_mem_singleton.mpr (.list (List.forall_mem_nil _)))

end Condition

end Rulebook
