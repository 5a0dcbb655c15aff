import Mathlib
import Rulebook.Proofs.Condition.Comparison
import Rulebook.Proofs.Condition.Operators
import Rulebook.Proofs.Value.EqualityLaws

/-!
How the operators fit together. Equality, its negation and both memberships come from one strict
equality, the four comparisons from one order of doubles, and between two numbers the two agree
(`operators_cohere`).
-/
namespace Rulebook.Operator

/-- Membership in a list is equality with one of its items. -/
theorem holds_oneOf {actual : Option Value} {items : List Value} {b : Bool}
    (h : oneOf.holds actual (.list items) = .ok b) :
    b = true ↔ ∃ r ∈ items, equal.holds actual r = .ok true :=
  Except.anyM_found ((anyEqual_eq_anyM actual items).symm.trans h)

/-- A list contains what one of its items equals. -/
theorem holds_contains {items : List Value} {value : Value} {b : Bool}
    (h : contains.holds (some (.list items)) value = .ok b) :
    b = true ↔ ∃ item ∈ items, equal.holds (some item) value = .ok true :=
  Except.anyM_found ((anyItem_eq_anyM value items).symm.trans h)

/-- Two numbers are equal if each is at most the other; and the comparisons have outcomes if the
equality has one. -/
theorem holds_equal_numbers {l r : Value} (hl : l.number?.isSome = true)
    (hr : r.number?.isSome = true) :
    equal.holds (some l) r =
      (do return (← atMost.holds (some l) r) && (← atLeast.holds (some l) r)) := by
  rw [Value.isSome_number?] at hl hr
  obtain ⟨x, hx⟩ := Option.isSome_iff_exists.mp hl
  obtain ⟨y, hy⟩ := Option.isSome_iff_exists.mp hr
  rw [holds, holds, holds, compareNumbers, compareNumbers, toNumber_of_toDouble? hx,
    toNumber_of_toDouble? hy, Value.strictEq_doubles hx hy]
  cases x with
  | error f => rfl
  | ok a =>
    cases y with
    | error g => rfl
    | ok b => exact congrArg Except.ok (Double.eq_eq_le_and_le a b)

/-- How the operators fit together, on every field value that may be missing and every value that it
is compared with, wherever they have outcomes. -/
theorem operators_cohere :
    -- Inequality is the negation of equality, and both memberships are equality with some item.
    (∀ actual value, notEqual.holds actual value = not <$> equal.holds actual value) ∧
    (∀ actual items b, oneOf.holds actual (.list items) = .ok b →
      (b = true ↔ ∃ r ∈ items, equal.holds actual r = .ok true)) ∧
    (∀ items value b, contains.holds (some (.list items)) value = .ok b →
      (b = true ↔ ∃ item ∈ items, equal.holds (some item) value = .ok true)) ∧
    -- Equality is an equivalence; on JSON values it is so without exceptions in range.
    (∀ l r : Option Value, (∀ v ∈ l, v.WellKeyed) → (∀ w ∈ r, w.WellKeyed) →
      Value.strictEq l r = Value.strictEq r l) ∧
    (∀ l m r : Option Value, (∀ v ∈ l, v.WellKeyed) → Value.strictEq l m = .ok true →
      Value.strictEq m r = .ok true → Value.strictEq l r = .ok true) ∧
    (∀ v : Value, v.IsJson → v.InRange → equal.holds (some v) v = .ok true) ∧
    -- The comparisons are those of a linear order, unless a side is NaN.
    (∀ actual value x y, Value.toNumber actual = .ok x → Value.toNumber (some value) = .ok y →
      x ≠ .nan → y ≠ .nan → ∃ lt gt le ge, Outcomes actual value lt gt le ge ∧
        [lt, gt, le && ge].count true = 1 ∧ (le = !gt) ∧ (ge = !lt)) ∧
    (∀ actual middle value, atMost.holds actual middle = .ok true →
      atMost.holds (some middle) value = .ok true → atMost.holds actual value = .ok true) ∧
    (∀ actual value x y, Value.toNumber actual = .ok x → Value.toNumber (some value) = .ok y →
      x = .nan ∨ y = .nan → Outcomes actual value false false false false) ∧
    -- Equality and the order agree on numbers.
    ∀ l r : Value, l.number?.isSome = true → r.number?.isSome = true →
      equal.holds (some l) r =
        (do return (← atMost.holds (some l) r) && (← atLeast.holds (some l) r)) := by
  refine ⟨holds_notEqual, fun actual items b => holds_oneOf, fun items value b => holds_contains,
    fun l r => Value.strictEq_comm, fun l m r => Value.strictEq_trans,
    fun v => Value.strictEq_refl, ?_, ?_, ?_, ?_⟩
  · exact fun actual value x y => outcomes_of_ne_nan
  · exact fun actual middle value => atMost_trans
  · exact fun actual value x y => outcomes_of_nan
  · exact fun l r => holds_equal_numbers

/-- Two integers that share their nearest double, a text beyond the doubles, null and a text that is
no numeral. -/
theorem operators_cohere_mixed :
    let big : Value := .int 9007199254740993
    let near : Value := .int 9007199254740992
    (∃ item ∈ [.text "a", big], equal.holds (some item) near = .ok true) ∧
      Value.strictEq (some big) (some near) = Value.strictEq (some near) (some big) ∧
      equal.holds (some big) big = .ok true ∧
      (∃ lt gt le ge, Outcomes (some (.text "1e400")) .null lt gt le ge ∧
        [lt, gt, le && ge].count true = 1 ∧ (le = !gt) ∧ (ge = !lt)) ∧
      Outcomes (some (.text "n/a")) .null false false false false := by
  intro big near
  obtain ⟨-, -, hcontains, hcomm, -, hrefl, horder, -, hnan, -⟩ := operators_cohere
  have hfound : contains.holds (some (.list [.text "a", big])) near = .ok true := by decide +kernel
  have hwide : Value.toNumber (some (.text "1e400")) = .ok (.infinite false) := by decide +kernel
  have hname : Value.toNumber (some (.text "n/a")) = .ok .nan := by decide +kernel
  have hrange : big.InRange := by
    show (9007199254740993 : ℤ).natAbs < Double.intLimit
    decide +kernel
  refine ⟨(hcontains _ _ _ hfound).mp rfl, hcomm _ _ ?_ ?_, hrefl big (.int _) hrange,
    horder _ _ _ _ hwide rfl (by decide) (by decide), hnan _ _ _ _ hname rfl (.inl rfl)⟩
  · intro v hv
    cases hv
    exact (Value.IsJson.int _).wellKeyed
  · intro v hv
    cases hv
    exact (Value.IsJson.int _).wellKeyed

end Rulebook.Operator
