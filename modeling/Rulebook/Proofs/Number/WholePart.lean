import Mathlib
import Rulebook.Proofs.Number.Conversion
import Rulebook.Proofs.Number.Double

/-!
Whole parts of doubles. A double without its fraction is determined by what it denotes
(`truncate?_congr`). The double nearest to an integer of at most 53 bits has that integer as its
whole part (`truncate?_of_natAbs_le`); the whole part of one nearest to a larger integer may be
another, but has more than 53 bits as well (`le_natAbs_of_truncate?`).
-/
namespace Rulebook.Double

variable {x y : Double} {q : ℚ} {n k : ℤ}

/-- The whole part of a double is that of its count of units. -/
theorem truncate?_finite (negative : Bool) (units : ℕ) :
    truncate? (finite negative units) = some ((signed negative units).tdiv unitsPerOne) := by
  cases negative <;> simp [truncate?, signed]

theorem truncate?_congr (h : x.value? = y.value?) : x.truncate? = y.truncate? := by
  cases x with
  | nan =>
    rw [value?_eq_none.mp h.symm]
  | infinite m =>
    cases y with
    | finite n v => cases m <;> simp [value?] at h
    | infinite n => rfl
    | nan => rfl
  | finite m u =>
    cases y with
    | finite n v =>
      have hsigned : signed m u = signed n v := by simpa [value?] using h
      rw [truncate?_finite, truncate?_finite, hsigned]
    | infinite n => cases n <;> simp [value?] at h
    | nan => cases h

/-- The doubles nearest to one number have one whole part. -/
theorem Nearest.truncate?_eq (hx : Nearest q x) (hy : Nearest q y) :
    x.truncate? = y.truncate? :=
  truncate?_congr (hx.value?_eq hy)

/-- What an integer is converted to is in range and has a whole part. -/
theorem exists_truncate? (h : ofInt? n = some x) : ∃ k, x.truncate? = some k := by
  rw [ofInt?] at h
  cases hx : ofQuotient (n < 0) n.natAbs 1 with
  | finite negative units =>
    rw [hx] at h
    cases h
    exact ⟨_, rfl⟩
  | infinite negative =>
    rw [hx] at h
    cases h
  | nan =>
    rw [hx] at h
    cases h

theorem truncate?_of_natAbs_le (hx : Nearest n x) (hn : n.natAbs ≤ 2 ^ precision) :
    x.truncate? = some n := by
  have hexact := ofInt?_of_natAbs_le hn
  have hone : 0 < unitsPerOne := by decide +kernel
  rw [hx.truncate?_eq (ofInt?_nearest hexact), truncate?, Nat.mul_div_cancel _ hone, signed,
    Option.some.injEq]
  split
  · next hneg =>
    have hlt := of_decide_eq_true hneg
    omega
  · next hneg =>
    have hle := of_decide_eq_false (Bool.eq_false_of_not_eq_true hneg)
    omega

theorem short_precision : Short (2 ^ precision * unitsPerOne) := by
  refine ⟨1, precision + 1074, by decide, ?_⟩
  rw [Nat.one_mul, Nat.pow_add, unitsPerOne, Nat.one_shiftLeft]

/-- An integer of more than 53 bits stays one when it is rounded. -/
theorem le_natAbs_of_truncate? (hx : Nearest n x) (hn : 2 ^ precision ≤ n.natAbs)
    (hk : x.truncate? = some k) : 2 ^ precision ≤ k.natAbs := by
  cases hx with
  | infinite hsign hunits hge => cases hk
  | @finite negative units hsign hunits hlt =>
    have hwide : ((2 ^ precision * unitsPerOne : ℕ) : ℚ) ≤ |(n : ℚ)| * unitsPerOne := by
      have hcast : ((2 ^ precision : ℕ) : ℚ) ≤ |(n : ℚ)| := by
        rw [← Int.cast_abs, ← Nat.cast_natAbs]
        exact_mod_cast hn
      rw [Nat.cast_mul]
      exact mul_le_mul_of_nonneg_right hcast unitsPerOne_pos.le
    have hunitsWide := hunits.le_of_le short_precision hwide
    have hwhole : 2 ^ precision ≤ units / unitsPerOne :=
      (Nat.le_div_iff_mul_le (by decide +kernel)).mpr hunitsWide
    rw [truncate?, Option.some.injEq] at hk
    rw [← hk, signed]
    split <;> omega

end Rulebook.Double
