import Mathlib
import Rulebook.Proofs.Number.Nearest
import Rulebook.Proofs.Number.Order

/-!
The double nearest to a rational number (`Nearest`): the nearest number of at most 53 significant
bits, or an infinity where that is out of range. Quotients, numerals and integers are converted to
it (`ofQuotient_nearest`, `ofNumeral_nearest`, `ofInt?_nearest`), and it has one value
(`Nearest.value?_eq`); so numbers that are equal as rational numbers compare alike, however they are
written. An integer is too wide to be converted from `intLimit` on (`ofInt?_eq_none`).
-/
namespace Rulebook

namespace Double

/-- The double nearest to a rational number. Zero may have either sign. -/
inductive Nearest (q : ℚ) : Double → Prop
  | finite {negative : Bool} {units : ℕ} (hsign : |q| = if negative then -q else q)
      (hunits : NearestUnits (|q| * unitsPerOne) units) (hlt : units < limit) :
      Nearest q (.finite negative units)
  | infinite {negative : Bool} {units : ℕ} (hsign : |q| = if negative then -q else q)
      (hunits : NearestUnits (|q| * unitsPerOne) units) (hge : limit ≤ units) :
      Nearest q (.infinite negative)

theorem unitsPerOne_pos : (0 : ℚ) < unitsPerOne := by
  rw [unitsPerOne, Nat.one_shiftLeft]
  positivity

variable {q : ℚ} {x y : Double}

theorem Nearest.ne_nan (h : Nearest q x) : x ≠ nan := by
  rintro rfl
  cases h

theorem units_eq_zero {units : ℕ} (h : NearestUnits (|(0 : ℚ)| * unitsPerOne) units) :
    units = 0 := by
  apply h.unique
  apply nearestUnits_zero <;> norm_num

/-- The two signs that a rational number can have agree unless it is zero. -/
theorem sign_eq_or_zero {m n : Bool} (hm : |q| = if m then -q else q)
    (hn : |q| = if n then -q else q) : m = n ∨ q = 0 := by
  cases m <;> cases n
  · exact .inl rfl
  · have hneg : q = -q := hm.symm.trans hn
    exact .inr (self_eq_neg.mp hneg)
  · have hneg : q = -q := hn.symm.trans hm
    exact .inr (self_eq_neg.mp hneg)
  · exact .inl rfl

/-- A rational number has one nearest double, but for the sign of zero. -/
theorem Nearest.value?_eq (hx : Nearest q x) (hy : Nearest q y) : x.value? = y.value? := by
  cases hx with
  | @finite m u hm hu hlt =>
    cases hy with
    | @finite n v hn hv _ =>
      rcases sign_eq_or_zero hm hn with rfl | rfl
      · rw [hu.unique hv]
      · rw [units_eq_zero hu, units_eq_zero hv]
        cases m <;> cases n <;> rfl
    | @infinite n v _ hv hge =>
      have huv := hu.unique hv
      omega
  | @infinite m u hm hu hge =>
    cases hy with
    | @finite n v _ hv hlt =>
      have huv := hu.unique hv
      omega
    | @infinite n v hn _ _ =>
      rcases sign_eq_or_zero hm hn with rfl | rfl
      · rfl
      · have hzero := units_eq_zero hu
        have hlimit : 0 < limit := by decide +kernel
        omega

/-! ## Quotients -/

theorem ofQuotient_nearest {negative : Bool} {num den : ℕ} (hden : 0 < den)
    (hsign : |q| = if negative then -q else q) (habs : |q| = num / den) :
    Nearest q (ofQuotient negative num den) := by
  have hunits : NearestUnits (|q| * unitsPerOne) (roundUnits num den) := by
    rw [habs]
    exact roundUnits_nearest num hden
  rw [ofQuotient]
  split
  · next hlt => exact .finite hsign hunits hlt
  · next hge => exact .infinite hsign hunits (Nat.le_of_not_lt hge)

/-- Every number from zero on has a nearest one of at most 53 bits. -/
theorem exists_nearestUnits (hq : 0 ≤ q) : ∃ u, NearestUnits (q * unitsPerOne) u := by
  refine ⟨roundUnits q.num.natAbs q.den, ?_⟩
  have hnum : ((q.num.natAbs : ℕ) : ℚ) = q.num := by
    rw [Nat.cast_natAbs, abs_of_nonneg (Rat.num_nonneg.mpr hq)]
  have h := roundUnits_nearest q.num.natAbs q.den_pos
  rwa [hnum, Rat.num_div_den] at h

/-! ## Numerals -/

theorem natPow_eq (b n : ℕ) : Nat.pow b n = b ^ n := rfl

/-- A numeral is its coefficient, with its sign, times a power of ten. -/
theorem toRat_eq (n : Numeral) :
    n.toRat = (if n.negative then -(n.coefficient : ℚ) else n.coefficient) * 10 ^ n.exponent := by
  have hcast : ((if n.negative then -(n.coefficient : ℤ) else n.coefficient : ℤ) : ℚ) =
      if n.negative then -(n.coefficient : ℚ) else n.coefficient := by
    split <;> simp
  rw [← hcast, Numeral.toRat]
  split
  · next hexp =>
    have hzpow : (10 : ℚ) ^ n.exponent = 10 ^ n.exponent.toNat := by
      rw [← zpow_natCast, Int.toNat_of_nonneg hexp]
    rw [hzpow, natPow_eq]
    push_cast
    rfl
  · next hexp =>
    have hneg : 0 ≤ -n.exponent := by omega
    have hzpow : (10 : ℚ) ^ n.exponent = (10 ^ (-n.exponent).toNat)⁻¹ := by
      rw [← zpow_natCast, Int.toNat_of_nonneg hneg, zpow_neg, inv_inv]
    rw [hzpow, natPow_eq, Rat.mkRat_eq_div]
    push_cast
    rw [div_eq_mul_inv]

theorem abs_toRat (n : Numeral) : |n.toRat| = n.coefficient * 10 ^ n.exponent := by
  have hpow : (0 : ℚ) < 10 ^ n.exponent := by positivity
  rw [toRat_eq, abs_mul, abs_of_pos hpow]
  split <;> simp

theorem sign_toRat (n : Numeral) : |n.toRat| = if n.negative then -n.toRat else n.toRat := by
  rw [abs_toRat, toRat_eq]
  split <;> simp

/-- The number of digits before the point, or less the zeros after it, bounds a numeral. -/
theorem abs_toRat_bounds {n : Numeral} (hn : n.coefficient ≠ 0) :
    (10 : ℚ) ^ ((Nat.toDigits 10 n.coefficient).length + n.exponent - 1) ≤ |n.toRat| ∧
      |n.toRat| < 10 ^ ((Nat.toDigits 10 n.coefficient).length + n.exponent) := by
  have hpow : (0 : ℚ) < 10 ^ n.exponent := by positivity
  have hten : (10 : ℚ) ≠ 0 := by norm_num
  obtain ⟨k, hk⟩ : ∃ k, (Nat.toDigits 10 n.coefficient).length = k + 1 :=
    Nat.exists_eq_succ_of_ne_zero (by simp [Nat.toDigits_ne_nil])
  have hupper : n.coefficient < 10 ^ (k + 1) :=
    (Nat.length_toDigits_le_iff (by decide) (Nat.succ_pos k)).mp (Nat.le_of_eq hk)
  have hlower : 10 ^ k ≤ n.coefficient := by
    by_cases hzero : k = 0
    · rw [hzero, Nat.pow_zero]
      exact Nat.one_le_iff_ne_zero.mpr hn
    · apply Nat.le_of_not_lt
      intro hlt
      have hle := (Nat.length_toDigits_le_iff (by decide) (Nat.pos_of_ne_zero hzero)).mpr hlt
      omega
  rw [abs_toRat, hk]
  constructor
  · have hplaces : ((k + 1 : ℕ) : ℤ) + n.exponent - 1 = k + n.exponent := by
      push_cast
      ring
    rw [hplaces, zpow_add₀ hten, zpow_natCast]
    exact mul_le_mul_of_nonneg_right (by exact_mod_cast hlower) hpow.le
  · rw [zpow_add₀ hten, zpow_natCast]
    exact mul_lt_mul_of_pos_right (by exact_mod_cast hupper) hpow

/-- From `10 ^ 310` on everything is out of range. -/
theorem nearest_infinite {negative : Bool} (hsign : |q| = if negative then -q else q)
    (hwide : 10 ^ maxWholeDigits ≤ |q|) : Nearest q (.infinite negative) := by
  obtain ⟨u, hu⟩ := exists_nearestUnits (abs_nonneg q)
  have hbound : limit ≤ 10 ^ maxWholeDigits.toNat * unitsPerOne := by decide +kernel
  have hpow : (10 : ℚ) ^ maxWholeDigits = 10 ^ maxWholeDigits.toNat := zpow_natCast 10 _
  refine .infinite hsign hu (hu.le_of_le short_limit ?_)
  calc
    (limit : ℚ) ≤ 10 ^ maxWholeDigits.toNat * unitsPerOne := by exact_mod_cast hbound
    _ ≤ |q| * unitsPerOne := by
      rw [← hpow]
      exact mul_le_mul_of_nonneg_right hwide unitsPerOne_pos.le

/-- What is less than half a unit is converted to zero. -/
theorem nearest_zero {negative : Bool} (hsign : |q| = if negative then -q else q)
    (hsmall : |q| < 10 ^ (-maxLeadingZeros)) : Nearest q (.finite negative 0) := by
  have hbound : 2 * unitsPerOne < 10 ^ maxLeadingZeros.toNat := by decide +kernel
  have hcast : (2 * unitsPerOne : ℚ) < 10 ^ maxLeadingZeros := by
    rw [show maxLeadingZeros = (maxLeadingZeros.toNat : ℤ) from rfl, zpow_natCast]
    exact_mod_cast hbound
  have hpos : (0 : ℚ) < 10 ^ maxLeadingZeros := by positivity
  have hone : |q| * 10 ^ maxLeadingZeros < 1 := by
    rwa [zpow_neg, ← one_div, lt_div_iff₀ hpos] at hsmall
  have hhalf : |q| * (2 * unitsPerOne) < 1 :=
    (mul_le_mul_of_nonneg_left hcast.le (abs_nonneg q)).trans_lt hone
  refine .finite hsign (nearestUnits_zero ?_ ?_) (by decide +kernel)
  · exact mul_nonneg (abs_nonneg q) unitsPerOne_pos.le
  · linarith

/-- A numeral is converted to the nearest double. -/
theorem ofNumeral_nearest (n : Numeral) : Nearest n.toRat (ofNumeral n) := by
  have hsign := sign_toRat n
  have hbase : (1 : ℚ) ≤ 10 := by norm_num
  rw [ofNumeral]
  split
  · next hzero =>
    apply nearest_zero hsign
    rw [abs_toRat, hzero, Nat.cast_zero, zero_mul]
    positivity
  · next hne =>
    obtain ⟨hlower, hupper⟩ := abs_toRat_bounds hne
    dsimp only
    split
    -- The two tests of the number of digits are decided by the bounds alone.
    · next hwide =>
      apply nearest_infinite hsign
      exact (zpow_le_zpow_right₀ hbase (Int.le_sub_one_of_lt hwide)).trans hlower
    · split
      · next hsmall =>
        apply nearest_zero hsign
        exact hupper.trans_le (zpow_le_zpow_right₀ hbase hsmall.le)
      · split
        · next hexp =>
          refine ofQuotient_nearest Nat.one_pos hsign ?_
          rw [abs_toRat, natPow_eq, Nat.cast_one, div_one]
          push_cast
          rw [← zpow_natCast, Int.toNat_of_nonneg hexp]
        · next hexp =>
          have hneg : 0 ≤ -n.exponent := by omega
          refine ofQuotient_nearest (Nat.pow_pos (by decide)) hsign ?_
          rw [abs_toRat, natPow_eq]
          push_cast
          rw [← zpow_natCast, Int.toNat_of_nonneg hneg, zpow_neg, div_inv_eq_mul]

/-! ## Integers -/

/-- The least natural number that is rounded out of range. -/
def intLimit : ℕ := 2 ^ 1024 - 2 ^ 970

theorem sign_intCast (i : ℤ) : |(i : ℚ)| = if decide (i < 0) then -(i : ℚ) else i := by
  by_cases hneg : i < 0
  · have hle : (i : ℚ) ≤ 0 := by exact_mod_cast hneg.le
    rw [decide_eq_true hneg, if_pos rfl, abs_of_nonpos hle]
  · have hle : (0 : ℚ) ≤ i := by exact_mod_cast Int.not_lt.mp hneg
    rw [decide_eq_false hneg, if_neg Bool.false_ne_true, abs_of_nonneg hle]

theorem ofQuotient_int (i : ℤ) : Nearest i (ofQuotient (i < 0) i.natAbs 1) := by
  refine ofQuotient_nearest Nat.one_pos (sign_intCast i) ?_
  rw [Nat.cast_natAbs, Nat.cast_one, div_one]
  push_cast
  rfl

/-- An integer is converted to the nearest double. -/
theorem ofInt?_nearest {i : ℤ} (h : ofInt? i = some x) : Nearest i x := by
  have hnear := ofQuotient_int i
  rw [ofInt?] at h
  cases hx : ofQuotient (i < 0) i.natAbs 1 with
  | finite negative units =>
    rw [hx] at h hnear
    cases h
    exact hnear
  | infinite negative =>
    rw [hx] at h
    cases h
  | nan =>
    rw [hx] at h
    cases h

/-- The integers that are too wide to be converted. -/
theorem ofInt?_eq_none {i : ℤ} : ofInt? i = none ↔ intLimit ≤ i.natAbs := by
  have hunits := roundUnits_nearest i.natAbs Nat.one_pos
  rw [Nat.cast_one, div_one] at hunits
  have hnone : ofInt? i = none ↔ limit ≤ roundUnits i.natAbs 1 := by
    rw [ofInt?, ofQuotient]
    split
    · next hlt => simp [finite?, hlt]
    · next hge => simp [finite?, Nat.le_of_not_lt hge]
  -- The limit is the middle between the last double in range and the first beyond it.
  have hmiddle : 2 * (intLimit * unitsPerOne) + lastGap = 2 * limit := by decide +kernel
  have hcast : (limit - lastGap / 2 : ℚ) = intLimit * unitsPerOne := by
    have h : (2 * (intLimit * unitsPerOne) + lastGap : ℚ) = 2 * limit := by exact_mod_cast hmiddle
    linarith
  rw [hnone, hunits.limit_le_iff, hcast, mul_le_mul_iff_left₀ unitsPerOne_pos, Nat.cast_le]

end Double

end Rulebook
