import Mathlib
import Rulebook.Number.Double

/-!
Conversions to doubles that lose nothing. A whole number of at most 53 bits is a multiple of the gap
that it is rounded to (`gap_dvd`), hence `ofInt?_of_natAbs_le`.
-/
namespace Rulebook.Double

/-- What is a multiple of its gap is not changed by rounding. -/
theorem roundUnits_of_dvd {n : Nat}
    (h : 2 ^ ((n * unitsPerOne).log2 + 1 - precision) ∣ n * unitsPerOne) :
    roundUnits n 1 = n * unitsPerOne := by
  obtain ⟨q, hq⟩ := h
  have hpos := Nat.two_pow_pos ((n * unitsPerOne).log2 + 1 - precision)
  simp only [roundUnits, Nat.div_one, Nat.one_mul, Nat.one_shiftLeft]
  generalize 2 ^ ((n * unitsPerOne).log2 + 1 - precision) = gap at hq hpos ⊢
  rw [hq, Nat.mul_comm gap q, roundHalfEven_mul q hpos]

/-- The gap of a whole number of at most 53 bits divides it, whatever the power of two that units
are counted in. -/
theorem gap_dvd {n k : Nat} (h : n ≤ 2 ^ precision) :
    2 ^ ((n * 2 ^ k).log2 + 1 - precision) ∣ n * 2 ^ k := by
  rcases Nat.lt_or_eq_of_le h with hlt | rfl
  · by_cases hzero : n = 0
    · rw [hzero, Nat.zero_mul]
      exact Nat.dvd_zero _
    · have hscaled : n * 2 ^ k < 2 ^ (precision + k) := by
        rw [Nat.pow_add]
        exact Nat.mul_lt_mul_of_pos_right hlt (Nat.two_pow_pos k)
      have hne : n * 2 ^ k ≠ 0 := Nat.mul_ne_zero hzero (Nat.ne_of_gt (Nat.two_pow_pos k))
      have hlog := (Nat.log2_lt hne).mpr hscaled
      have hgap : (n * 2 ^ k).log2 + 1 - precision ≤ k := by omega
      exact Nat.dvd_trans (Nat.pow_dvd_pow 2 hgap) (Nat.dvd_mul_left _ n)
  · rw [← Nat.pow_add, Nat.log2_two_pow]
    have hgap : precision + k + 1 - precision ≤ precision + k := by
      rw [precision]
      omega
    exact Nat.pow_dvd_pow 2 hgap

theorem lt_limit {n : Nat} (h : n ≤ 2 ^ precision) : n * unitsPerOne < limit := by
  have hbound : 2 ^ precision * unitsPerOne < limit := by decide +kernel
  exact Nat.lt_of_le_of_lt (Nat.mul_le_mul_right unitsPerOne h) hbound

theorem ofQuotient_of_lt {negative : Bool} {num den units : Nat}
    (hround : roundUnits num den = units) (h : units < limit) :
    ofQuotient negative num den = finite negative units := by
  subst hround
  exact if_pos h

/-- An integer of at most 53 bits is converted to the double that denotes it. -/
theorem ofInt?_of_natAbs_le {i : Int} (h : i.natAbs ≤ 2 ^ precision) :
    ofInt? i = some (finite (i < 0) (i.natAbs * unitsPerOne)) := by
  obtain ⟨k, hunits⟩ : ∃ k, unitsPerOne = 1 <<< k := ⟨_, rfl⟩
  have hround : roundUnits i.natAbs 1 = i.natAbs * unitsPerOne := by
    apply roundUnits_of_dvd
    rw [hunits, Nat.one_shiftLeft]
    exact gap_dvd h
  rw [ofInt?, ofQuotient_of_lt hround (lt_limit h)]
  rfl

end Rulebook.Double
