import Mathlib
import Rulebook.Condition.Evaluation
import Rulebook.Proofs.Number.Order
import Rulebook.Proofs.Results

/-!
The four comparisons of numbers. Both sides are converted to doubles, and the values of these are
compared. Hence values whose doubles have one value compare alike with everything
(`Value.compareAlike_of_value?_eq`), and the comparisons are those of a linear order unless a side
is NaN, where none of them holds (`outcomes_of_ne_nan`, `outcomes_of_nan`).
-/
namespace Rulebook.Operator

/-- The operators that compare numbers. -/
def comparisons : List Operator := [above, atLeast, below, atMost]

/-- What a comparison says of two doubles. -/
def relates : Operator → Double → Double → Bool
  | above => fun x y => y.lt x
  | atLeast => fun x y => y.le x
  | below => Double.lt
  | atMost => Double.le
  | _ => fun _ _ => false

variable {op : Operator} {actual left right : Option Value} {value : Value} {x y : Double}

theorem holds_comparison (hop : op ∈ comparisons) (actual : Option Value) (value : Value) :
    op.holds actual value = compareNumbers op.relates actual (some value) := by
  simp only [comparisons, List.mem_cons, List.not_mem_nil, or_false] at hop
  rcases hop with rfl | rfl | rfl | rfl <;> rfl

theorem compareNumbers_eq (hx : Value.toNumber left = .ok x) (hy : Value.toNumber right = .ok y)
    (relates : Double → Double → Bool) :
    compareNumbers relates left right = .ok (relates x y) := by
  rw [compareNumbers, hx, hy]
  rfl

/-- A comparison that has an outcome has converted both sides. -/
theorem compareNumbers_eq_ok {relates : Double → Double → Bool} {b : Bool} :
    compareNumbers relates left right = .ok b ↔
      ∃ x y, Value.toNumber left = .ok x ∧ Value.toNumber right = .ok y ∧ relates x y = b := by
  constructor
  · intro h
    obtain ⟨x, hx, h⟩ := Except.bind_eq_ok.mp h
    obtain ⟨y, hy, h⟩ := Except.bind_eq_ok.mp h
    exact ⟨x, y, hx, hy, Except.ok.inj h⟩
  · rintro ⟨x, y, hx, hy, rfl⟩
    exact compareNumbers_eq hx hy relates

/-! ## The order -/

/-- The outcomes of the four comparisons of a field value with another value. -/
structure Outcomes (actual : Option Value) (value : Value) (lt gt le ge : Bool) : Prop where
  below : below.holds actual value = .ok lt
  above : above.holds actual value = .ok gt
  atMost : atMost.holds actual value = .ok le
  atLeast : atLeast.holds actual value = .ok ge

theorem outcomes_of_numbers (hx : Value.toNumber actual = .ok x)
    (hy : Value.toNumber (some value) = .ok y) :
    Outcomes actual value (x.lt y) (y.lt x) (x.le y) (y.le x) :=
  ⟨compareNumbers_eq hx hy Double.lt, compareNumbers_eq hx hy fun x y => y.lt x,
    compareNumbers_eq hx hy Double.le, compareNumbers_eq hx hy fun x y => y.le x⟩

/-- Of two numbers, one is below the other, or each is at most the other. -/
theorem outcomes_of_ne_nan (hx : Value.toNumber actual = .ok x)
    (hy : Value.toNumber (some value) = .ok y) (hxn : x ≠ .nan) (hyn : y ≠ .nan) :
    ∃ lt gt le ge, Outcomes actual value lt gt le ge ∧ [lt, gt, le && ge].count true = 1 ∧
      (le = !gt) ∧ (ge = !lt) := by
  refine ⟨_, _, _, _, outcomes_of_numbers hx hy, ?_⟩
  simp only [Double.le, Double.eq_comm y x]
  rcases Double.order_cases hxn hyn with ⟨hlt, hgt, heq⟩ | ⟨hlt, hgt, heq⟩ | ⟨hlt, hgt, heq⟩ <;>
    rw [hlt, hgt, heq] <;> decide

/-- No comparison with NaN holds. -/
theorem outcomes_of_nan (hx : Value.toNumber actual = .ok x)
    (hy : Value.toNumber (some value) = .ok y) (hnan : x = .nan ∨ y = .nan) :
    Outcomes actual value false false false false := by
  have h := outcomes_of_numbers hx hy
  rcases hnan with rfl | rfl
  · rwa [Double.nan_lt, Double.lt_nan, Double.nan_le, Double.le_nan] at h
  · rwa [Double.nan_lt, Double.lt_nan, Double.nan_le, Double.le_nan] at h

theorem atMost_trans {middle : Value} (hleft : atMost.holds actual middle = .ok true)
    (hright : atMost.holds (some middle) value = .ok true) :
    atMost.holds actual value = .ok true := by
  obtain ⟨x, y, hx, hy, hxy⟩ := compareNumbers_eq_ok.mp hleft
  obtain ⟨w, z, hw, hz, hwz⟩ := compareNumbers_eq_ok.mp hright
  rw [hy] at hw
  cases hw
  exact compareNumbers_eq_ok.mpr ⟨x, z, hx, hz, Double.le_trans hxy hwz⟩

theorem toNumber_of_toDouble? {v : Value} {r : Except Fault Double} (h : v.toDouble? = some r) :
    Value.toNumber (some v) = r := by
  cases v with
  | int i => simp only [Value.toNumber, h, Option.getD_some]
  | float x => simp only [Value.toNumber, h, Option.getD_some]
  | decimal d => simp only [Value.toNumber, h, Option.getD_some]
  | _ => cases h

/-! ## Values that compare alike -/

/-- Doubles with one value are related alike to every other. -/
theorem relates_congr (h : x.value? = y.value?) (op : Operator) (z : Double) :
    op.relates x z = op.relates y z ∧ op.relates z x = op.relates z y := by
  obtain ⟨hlt, hle, htl, hel⟩ := Double.compare_congr h z
  cases op
  case above => exact ⟨htl, hlt⟩
  case atLeast => exact ⟨hel, hle⟩
  case below => exact ⟨hlt, htl⟩
  case atMost => exact ⟨hle, hel⟩
  all_goals exact ⟨rfl, rfl⟩

end Rulebook.Operator

namespace Rulebook

/-- Two values that no comparison of numbers tells apart, on either side. -/
def Value.CompareAlike (v w : Value) : Prop :=
  ∀ op ∈ Operator.comparisons, (∀ r, op.holds (some v) r = op.holds (some w) r) ∧
    ∀ l, op.holds l v = op.holds l w

theorem Value.compareAlike_of_value?_eq {v w : Value} {x y : Double}
    (hv : Value.toNumber (some v) = .ok x) (hw : Value.toNumber (some w) = .ok y)
    (h : x.value? = y.value?) : v.CompareAlike w := by
  intro op hop
  constructor
  · intro r
    rw [Operator.holds_comparison hop, Operator.holds_comparison hop, Operator.compareNumbers,
      Operator.compareNumbers, hv, hw]
    cases hr : Value.toNumber (some r) with
    | error f => rfl
    | ok z => exact congrArg Except.ok (Operator.relates_congr h op z).1
  · intro l
    rw [Operator.holds_comparison hop, Operator.holds_comparison hop, Operator.compareNumbers,
      Operator.compareNumbers, hv, hw]
    cases hl : Value.toNumber l with
    | error f => rfl
    | ok z => exact congrArg Except.ok (Operator.relates_congr h op z).2

end Rulebook
