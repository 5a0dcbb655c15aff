import Mathlib
import Rulebook.Condition.Evaluation
import Rulebook.Proofs.Value.Equality

/-!
What the operators treat as equal. Membership, in either direction, is a search by strict equality
(`anyEqual_eq_anyM`, `anyItem_eq_anyM`), so all three operators find equal only what is alike
(`equal_values_alike`).
-/
namespace Rulebook.Operator

theorem holds_notEqual (actual : Option Value) (value : Value) :
    notEqual.holds actual value = not <$> equal.holds actual value := by
  rw [holds, holds]
  cases Value.strictEq actual (some value) <;> rfl

theorem anyEqual_eq_anyM (actual : Option Value) (items : List Value) :
    anyEqual actual items = items.anyM fun v => Value.strictEq actual (some v) := by
  induction items with
  | nil => rfl
  | cons v rest ih =>
    rw [anyEqual, List.anyM, ih]
    cases Value.strictEq actual (some v) with
    | error e => rfl
    | ok equal => cases equal <;> rfl

theorem anyItem_eq_anyM (value : Value) (items : List Value) :
    anyItem value items = items.anyM fun v => Value.strictEq (some v) (some value) := by
  induction items with
  | nil => rfl
  | cons v rest ih =>
    rw [anyItem, List.anyM, ih]
    cases Value.strictEq (some v) (some value) with
    | error e => rfl
    | ok equal => cases equal <;> rfl

/-- What equality and membership in either direction treat as equal is alike, in strict terms; and
doubles and integers of at most 53 bits are among the numbers that are compared by exact value. -/
theorem equal_values_alike :
    (∀ l r : Value, l.IsJson → r.IsJson → equal.holds (some l) r = .ok true →
      l.StrictlyAlike r) ∧
    (∀ (l : Value) (items : List Value), l.IsJson → (∀ r ∈ items, r.IsJson) →
      oneOf.holds (some l) (.list items) = .ok true → ∃ r ∈ items, l.StrictlyAlike r) ∧
    (∀ (items : List Value) (r : Value), (∀ l ∈ items, l.IsJson) → r.IsJson →
      contains.holds (some (.list items)) r = .ok true → ∃ l ∈ items, l.StrictlyAlike r) ∧
    (∀ x, (Value.float x).IsDouble) ∧
    ∀ i : Int, i.natAbs ≤ 2 ^ 53 → (Value.int i).IsDouble := by
  refine ⟨fun l r hl hr h => Value.strictEq_alike hl hr h, fun l items hl hitems h => ?_,
    fun items r hitems hr h => ?_, Value.isDouble_float, fun i hi => Value.isDouble_int hi⟩
  · obtain ⟨r, hr, hequal⟩ := Except.exists_of_anyM ((anyEqual_eq_anyM (some l) items).symm.trans h)
    exact ⟨r, hr, Value.strictEq_alike hl (hitems r hr) hequal⟩
  · obtain ⟨l, hl, hequal⟩ := Except.exists_of_anyM ((anyItem_eq_anyM r items).symm.trans h)
    exact ⟨l, hl, Value.strictEq_alike (hitems l hl) hr hequal⟩

/-- Two objects with their members in different orders: integers below the outermost level are
compared exactly, however large. -/
theorem equal_values_alike_reordered :
    let l : Value := .object [("ids", .list [.int 9007199254740993, .text "x"]), ("note", .null)]
    let r : Value := .object [("note", .null), ("ids", .list [.int 9007199254740993, .text "x"])]
    equal.holds (some l) r = .ok true ∧ l.StrictlyAlike r ∧
      ∃ v ∈ [.bool true, r], l.StrictlyAlike v := by
  intro l r
  have hids : ∀ v ∈ [Value.int 9007199254740993, .text "x"], v.IsJson :=
    List.forall_mem_cons.mpr ⟨.int _, List.forall_mem_singleton.mpr (.text _)⟩
  have hl : l.IsJson := .object (by decide)
    (List.forall_mem_cons.mpr ⟨.list hids, List.forall_mem_singleton.mpr .null⟩)
  have hr : r.IsJson := .object (by decide)
    (List.forall_mem_cons.mpr ⟨.null, List.forall_mem_singleton.mpr (.list hids)⟩)
  have hitems : ∀ v ∈ [Value.bool true, r], v.IsJson :=
    List.forall_mem_cons.mpr ⟨.bool true, List.forall_mem_singleton.mpr hr⟩
  have hequal : equal.holds (some l) r = .ok true := by decide +kernel
  have hmember : oneOf.holds (some l) (.list [.bool true, r]) = .ok true := by decide +kernel
  exact ⟨hequal, equal_values_alike.1 l r hl hr hequal,
    equal_values_alike.2.1 l _ hl hitems hmember⟩

/-- Two integers that share their nearest double are treated as equal. -/
theorem equal_values_unlike :
    equal.holds (some (.int 9007199254740993)) (.int 9007199254740992) = .ok true ∧
      Value.IsJson (.int 9007199254740993) ∧ Value.IsJson (.int 9007199254740992) ∧
      ¬ Value.Same (.int 9007199254740993) (.int 9007199254740992) := by
  refine ⟨by decide +kernel, .int _, .int _, fun h => ?_⟩
  cases h with
  | free h => exact h
  | number hv hw =>
    have hvalues : Value.Exact.finite (9007199254740993 : Int) = .finite (9007199254740992 : Int) :=
      Option.some.inj (hv.trans hw.symm)
    have hnumbers := Rat.intCast_inj.mp (Value.Exact.finite.inj hvalues)
    revert hnumbers
    decide

end Rulebook.Operator
