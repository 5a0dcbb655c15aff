import Mathlib
import Rulebook.Number.Double

/-!
The order of doubles. Each double but NaN denotes a value: a whole number of units, or an infinity
above or below them all. The comparisons are those of values (`lt_eq`, `le_eq`, `eq_eq`), hence the
laws of a linear order hold of them; every comparison with NaN is false.
-/
namespace Rulebook.Double

/-- What doubles denote: a count of units, or one of the two infinities. -/
abbrev Extended := WithBot (WithTop ℤ)

/-- The value of a double; NaN has none, and the two zeros have the same. -/
def value? : Double → Option Extended
  | finite negative units => some ((signed negative units : WithTop ℤ) : Extended)
  | infinite true => some ⊥
  | infinite false => some ⊤
  | nan => none

variable {x y z : Double} {a b : Extended}

theorem value?_eq_none : x.value? = none ↔ x = nan := by
  cases x with
  | finite negative units => simp [value?]
  | infinite negative => cases negative <;> simp [value?]
  | nan => simp [value?]

theorem exists_value (h : x ≠ nan) : ∃ a, x.value? = some a :=
  Option.ne_none_iff_exists'.mp (mt value?_eq_none.mp h)

theorem coe_lt_top (i : ℤ) : ((i : WithTop ℤ) : Extended) < ⊤ :=
  WithBot.coe_lt_coe.mpr (WithTop.coe_lt_top i)

/-- The first double is below the second if its value is. -/
theorem lt_eq (hx : x.value? = some a) (hy : y.value? = some b) : x.lt y = decide (a < b) := by
  cases x with
  | nan => cases hx
  | finite m u =>
    cases hx
    cases y with
    | nan => cases hy
    | finite n v =>
      cases hy
      simp [lt]
    | infinite n => cases n <;> cases hy <;> simp [lt, coe_lt_top]
  | infinite m =>
    cases y with
    | nan => cases hy
    | finite n v =>
      cases hy
      cases m <;> cases hx <;> simp [lt]
    | infinite n => cases m <;> cases n <;> cases hx <;> cases hy <;> simp [lt]

/-- Two doubles are equal if they have the same value. -/
theorem eq_eq (hx : x.value? = some a) (hy : y.value? = some b) : x.eq y = decide (a = b) := by
  cases x with
  | nan => cases hx
  | finite m u =>
    cases hx
    cases y with
    | nan => cases hy
    | finite n v =>
      cases hy
      simp [eq, Bool.beq_eq_decide_eq]
    | infinite n => cases n <;> cases hy <;> simp [eq]
  | infinite m =>
    cases y with
    | nan => cases hy
    | finite n v =>
      cases hy
      cases m <;> cases hx <;> simp [eq]
    | infinite n => cases m <;> cases n <;> cases hx <;> cases hy <;> simp [eq]

/-- The first double is at most the second if its value is. -/
theorem le_eq (hx : x.value? = some a) (hy : y.value? = some b) : x.le y = decide (a ≤ b) := by
  rw [le, lt_eq hx hy, eq_eq hx hy, ← Bool.decide_or]
  exact decide_eq_decide.mpr le_iff_lt_or_eq.symm

theorem nan_lt : nan.lt y = false := rfl

theorem lt_nan : x.lt nan = false := by cases x <;> rfl

theorem nan_eq : nan.eq y = false := rfl

theorem eq_nan : x.eq nan = false := by cases x <;> rfl

theorem nan_le : nan.le y = false := rfl

theorem le_nan : x.le nan = false := by rw [le, lt_nan, eq_nan, Bool.false_or]

/-- Only doubles with a value are equal to another, and to those with the same value. -/
theorem eq_iff : x.eq y = true ↔ x.value? = y.value? ∧ x ≠ nan := by
  by_cases hx : x = nan
  · subst hx
    simp [nan_eq]
  · by_cases hy : y = nan
    · subst hy
      have hvalue : x.value? ≠ nan.value? := mt value?_eq_none.mp hx
      simp [eq_nan, hvalue]
    · obtain ⟨a, ha⟩ := exists_value hx
      obtain ⟨b, hb⟩ := exists_value hy
      rw [eq_eq ha hb, ha, hb]
      simp [hx]

theorem eq_comm (x y : Double) : x.eq y = y.eq x := by
  have hsymm : ∀ x y : Double, x.eq y = true → y.eq x = true := by
    intro x y h
    obtain ⟨hvalue, hx⟩ := eq_iff.mp h
    refine eq_iff.mpr ⟨hvalue.symm, fun hy => hx ?_⟩
    exact value?_eq_none.mp (hvalue.trans (value?_eq_none.mpr hy))
  exact Bool.eq_iff_iff.mpr ⟨hsymm x y, hsymm y x⟩

theorem eq_trans (hxy : x.eq y = true) (hyz : y.eq z = true) : x.eq z = true := by
  rw [eq_iff] at hxy hyz ⊢
  exact ⟨hxy.1.trans hyz.1, hxy.2⟩

theorem eq_self (h : x ≠ nan) : x.eq x = true := eq_iff.mpr ⟨rfl, h⟩

/-- Doubles with one value compare alike with every other. -/
theorem compare_congr (h : x.value? = y.value?) (z : Double) :
    x.lt z = y.lt z ∧ x.le z = y.le z ∧ z.lt x = z.lt y ∧ z.le x = z.le y := by
  by_cases hx : x = nan
  · subst hx
    have hy : y = nan := value?_eq_none.mp h.symm
    rw [hy]
    exact ⟨rfl, rfl, rfl, rfl⟩
  · obtain ⟨a, ha⟩ := exists_value hx
    have hb := h.symm.trans ha
    by_cases hz : z = nan
    · subst hz
      simp [lt_nan, le_nan, nan_lt, nan_le]
    · obtain ⟨c, hc⟩ := exists_value hz
      rw [lt_eq ha hc, lt_eq hb hc, le_eq ha hc, le_eq hb hc, lt_eq hc ha, lt_eq hc hb,
        le_eq hc ha, le_eq hc hb]
      exact ⟨rfl, rfl, rfl, rfl⟩

/-- At most one of below, above and equal, unless one is NaN; and at most is not above. -/
theorem order_cases (hx : x ≠ nan) (hy : y ≠ nan) :
    (x.lt y = true ∧ y.lt x = false ∧ x.eq y = false) ∨
      (x.lt y = false ∧ y.lt x = true ∧ x.eq y = false) ∨
      (x.lt y = false ∧ y.lt x = false ∧ x.eq y = true) := by
  obtain ⟨a, ha⟩ := exists_value hx
  obtain ⟨b, hb⟩ := exists_value hy
  rw [lt_eq ha hb, lt_eq hb ha, eq_eq ha hb]
  rcases lt_trichotomy a b with h | h | h
  · exact .inl ⟨decide_eq_true h, decide_eq_false h.asymm, decide_eq_false h.ne⟩
  · subst h
    exact .inr (.inr ⟨decide_eq_false (lt_irrefl a), decide_eq_false (lt_irrefl a),
      decide_eq_true rfl⟩)
  · exact .inr (.inl ⟨decide_eq_false h.asymm, decide_eq_true h, decide_eq_false h.ne'⟩)

/-- Two doubles are equal if each is at most the other. -/
theorem eq_eq_le_and_le (x y : Double) : x.eq y = (x.le y && y.le x) := by
  by_cases hx : x = nan
  · rw [hx, nan_eq, nan_le, Bool.false_and]
  by_cases hy : y = nan
  · rw [hy, eq_nan, le_nan, Bool.false_and]
  obtain ⟨a, ha⟩ := exists_value hx
  obtain ⟨b, hb⟩ := exists_value hy
  rw [eq_eq ha hb, le_eq ha hb, le_eq hb ha, ← Bool.decide_and]
  exact decide_eq_decide.mpr le_antisymm_iff

theorem le_trans (hxy : x.le y = true) (hyz : y.le z = true) : x.le z = true := by
  have hx : x ≠ nan := by
    rintro rfl
    cases hxy
  have hy : y ≠ nan := by
    rintro rfl
    cases hyz
  have hz : z ≠ nan := by
    rintro rfl
    rw [le_nan] at hyz
    cases hyz
  obtain ⟨a, ha⟩ := exists_value hx
  obtain ⟨b, hb⟩ := exists_value hy
  obtain ⟨c, hc⟩ := exists_value hz
  rw [le_eq ha hb, decide_eq_true_eq] at hxy
  rw [le_eq hb hc, decide_eq_true_eq] at hyz
  rw [le_eq ha hc, decide_eq_true_eq]
  exact hxy.trans hyz

end Rulebook.Double
