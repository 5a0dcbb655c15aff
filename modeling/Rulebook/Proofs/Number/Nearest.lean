import Mathlib
import Rulebook.Number.Double

/-!
Conversion to doubles is rounding to nearest. `NearestUnits` says what the rounded value of a
rational number is, without saying how it is found: a number of at most 53 significant bits, no such
number being nearer, and of two equally near ones the one with the even significand. There is one
such number (`NearestUnits.unique`), `roundUnits` finds it (`roundUnits_nearest`), and it is out of
range exactly from `2 ^ 1024 - 2 ^ 970` on (`NearestUnits.limit_le_iff`).
-/
namespace Rulebook

/-! ## Whole numbers -/

/-- What is left of a quotient beyond its whole part. -/
theorem div_eq_div_add_mod (n : ℕ) {d : ℕ} (hd : 0 < d) :
    (n / d : ℚ) = (n / d : ℕ) + (n % d : ℕ) / d := by
  have hdQ : (d : ℚ) ≠ 0 := Nat.cast_ne_zero.mpr (Nat.ne_of_gt hd)
  have hsplit : (n : ℚ) = d * (n / d : ℕ) + (n % d : ℕ) := by
    exact_mod_cast (Nat.div_add_mod n d).symm
  rw [div_eq_iff hdQ, add_mul, div_mul_cancel₀ _ hdQ, hsplit]
  ring

/-- The rounded quotient is at most one half away, and even if it is just as far. -/
theorem roundHalfEven_near (n : ℕ) {d : ℕ} (hd : 0 < d) :
    |(n / d : ℚ) - roundHalfEven n d| ≤ 1 / 2 ∧
      (|(n / d : ℚ) - roundHalfEven n d| = 1 / 2 → Even (roundHalfEven n d)) := by
  have hdQ : (0 : ℚ) < d := Nat.cast_pos.mpr hd
  have hrest : (n % d : ℕ) < d := Nat.mod_lt n hd
  rw [div_eq_div_add_mod n hd]
  simp only [roundHalfEven]
  generalize n / d = below at *
  generalize n % d = rest at *
  have hnonneg : (0 : ℚ) ≤ rest / d := by positivity
  split
  · next hlow =>
    have hhalf : (rest / d : ℚ) < 1 / 2 := by
      rw [div_lt_iff₀ hdQ]
      have hcast : (2 * rest : ℚ) < d := by exact_mod_cast hlow
      linarith
    have hdist : |(below + rest / d : ℚ) - below| = rest / d := by
      rw [add_sub_cancel_left, abs_of_nonneg hnonneg]
    rw [hdist]
    exact ⟨hhalf.le, fun h => absurd h hhalf.ne⟩
  · split
    · next hhigh =>
      have hhalf : (1 / 2 : ℚ) < rest / d := by
        rw [lt_div_iff₀ hdQ]
        have hcast : (d : ℚ) < 2 * rest := by exact_mod_cast hhigh
        linarith
      have hone : (rest / d : ℚ) < 1 := by
        rw [div_lt_one hdQ]
        exact_mod_cast hrest
      have hdist : |(below + rest / d : ℚ) - (below + 1 : ℕ)| = 1 - rest / d := by
        rw [abs_of_nonpos] <;> push_cast <;> linarith
      rw [hdist]
      exact ⟨by linarith, fun h => absurd h (by linarith)⟩
    · next hlow hhigh =>
      have htwice : 2 * rest = d := by omega
      have hhalf : (rest / d : ℚ) = 1 / 2 := by
        rw [div_eq_iff hdQ.ne']
        have hcast : (2 * rest : ℚ) = d := by exact_mod_cast htwice
        linarith
      rw [hhalf]
      rcases Nat.mod_two_eq_zero_or_one below with heven | hodd
      · rw [heven, Nat.add_zero, add_sub_cancel_left]
        exact ⟨by norm_num, fun _ => Nat.even_iff.mpr heven⟩
      · have hnext : Even (below + below % 2) := by
          rw [hodd, Nat.even_iff]
          omega
        rw [hodd] at hnext ⊢
        refine ⟨?_, fun _ => hnext⟩
        push_cast
        rw [add_sub_add_left_eq_sub]
        norm_num

/-- Every other whole number is at least one half away. -/
theorem half_le_abs_sub {t : ℚ} {r k : ℕ} (h : |t - r| ≤ 1 / 2) (hne : k ≠ r) :
    1 / 2 ≤ |t - k| := by
  have hapart : (1 : ℚ) ≤ |(k : ℚ) - r| := by
    have hint : (1 : ℤ) ≤ |(k : ℤ) - r| := Int.one_le_abs (by omega)
    exact_mod_cast hint
  have htriangle : |(k : ℚ) - r| ≤ |t - k| + |t - r| := by
    rw [abs_sub_comm t k]
    exact abs_sub_le _ _ _
  linarith

namespace Double

/-! ## Significands -/

/-- At most 53 significant bits: a significand and the power of two that it is scaled by. -/
def Short (u : ℕ) : Prop := ∃ m e, m < 2 ^ precision ∧ u = m * 2 ^ e

/-- The significand and the exponent of a number: all 53 bits are used, unless the exponent is the
least. -/
structure Normal (u m e : ℕ) : Prop where
  lt : m < 2 ^ precision
  full : e = 0 ∨ 2 ^ (precision - 1) ≤ m
  eq : u = m * 2 ^ e

theorem Normal.short {u m e : ℕ} (h : Normal u m e) : Short u := ⟨m, e, h.lt, h.eq⟩

/-- With a smaller exponent, a number stays below all that have the full bits. -/
theorem lt_of_exponent_lt {m e f : ℕ} (hm : m < 2 ^ precision) (h : f < e) :
    m * 2 ^ f < 2 ^ (precision - 1) * 2 ^ e := by
  have hexponents : precision + f ≤ precision - 1 + e := by
    rw [precision]
    omega
  calc
    m * 2 ^ f < 2 ^ precision * 2 ^ f := Nat.mul_lt_mul_of_pos_right hm (Nat.two_pow_pos f)
    _ = 2 ^ (precision + f) := (Nat.pow_add 2 precision f).symm
    _ ≤ 2 ^ (precision - 1 + e) := Nat.pow_le_pow_right (by decide) hexponents
    _ = 2 ^ (precision - 1) * 2 ^ e := Nat.pow_add 2 (precision - 1) e

theorem Normal.exponent_le {u m n e f : ℕ} (hm : Normal u m e) (hn : Normal u n f) : e ≤ f := by
  by_contra hlt
  have hexp : f < e := Nat.lt_of_not_le hlt
  have hfull : 2 ^ (precision - 1) ≤ m := hm.full.resolve_left (by omega)
  have hbelow := lt_of_exponent_lt hn.lt hexp
  have habove : 2 ^ (precision - 1) * 2 ^ e ≤ m * 2 ^ e := Nat.mul_le_mul_right _ hfull
  have heq : m * 2 ^ e = n * 2 ^ f := hm.eq.symm.trans hn.eq
  omega

theorem Normal.unique {u m n e f : ℕ} (hm : Normal u m e) (hn : Normal u n f) :
    m = n ∧ e = f := by
  have hexp : e = f := Nat.le_antisymm (hm.exponent_le hn) (hn.exponent_le hm)
  subst hexp
  have heq : m * 2 ^ e = n * 2 ^ e := hm.eq.symm.trans hn.eq
  exact ⟨Nat.eq_of_mul_eq_mul_right (Nat.two_pow_pos e) heq, rfl⟩

/-- A number of at most 53 bits is a multiple of a power of two, or below all those that have all
their bits there. -/
theorem Short.on_grid {v : ℕ} (h : Short v) (e : ℕ) :
    (∃ k, v = k * 2 ^ e) ∨ (0 < e ∧ v < 2 ^ (precision - 1) * 2 ^ e) := by
  obtain ⟨m, f, hm, rfl⟩ := h
  by_cases hle : e ≤ f
  · have hpow : 2 ^ f = 2 ^ (f - e) * 2 ^ e := by
      rw [← Nat.pow_add, Nat.sub_add_cancel hle]
    exact .inl ⟨m * 2 ^ (f - e), by rw [hpow, Nat.mul_assoc]⟩
  · have hlt : f < e := Nat.lt_of_not_le hle
    exact .inr ⟨by omega, lt_of_exponent_lt hm hlt⟩

/-- The next number of at most 53 bits is one step of the exponent away. -/
theorem Normal.next_le {u v m e : ℕ} (h : Normal u m e) (hv : Short v) (hlt : u < v) :
    (m + 1) * 2 ^ e ≤ v := by
  have heq := h.eq
  rcases hv.on_grid e with ⟨k, rfl⟩ | ⟨hpos, hbelow⟩
  · have hmk : m < k := by
      rw [heq] at hlt
      exact Nat.lt_of_mul_lt_mul_right hlt
    exact Nat.mul_le_mul_right _ hmk
  · have hfull : 2 ^ (precision - 1) ≤ m := h.full.resolve_left (by omega)
    have habove : 2 ^ (precision - 1) * 2 ^ e ≤ m * 2 ^ e := Nat.mul_le_mul_right _ hfull
    omega

theorem Normal.short_next {u m e : ℕ} (h : Normal u m e) : Short ((m + 1) * 2 ^ e) := by
  by_cases hlt : m + 1 < 2 ^ precision
  · exact ⟨m + 1, e, hlt, rfl⟩
  · have hcarry : m + 1 = 2 ^ precision := by
      have hm := h.lt
      omega
    refine ⟨1, precision + e, Nat.one_lt_two_pow (by decide), ?_⟩
    rw [hcarry, Nat.pow_add, Nat.one_mul]

/-! ## Nearest numbers -/

/-- The number of at most 53 bits that is nearest to `q`; of two equally near ones, the one with the
even significand. -/
structure NearestUnits (q : ℚ) (u : ℕ) : Prop where
  short : Short u
  closest : ∀ v, Short v → |q - u| ≤ |q - v|
  even : ∀ v, Short v → v ≠ u → |q - v| = |q - u| → ∃ m e, Normal u m e ∧ Even m

section Grid

variable {t : ℚ} {r e : ℕ}

theorem abs_sub_scaled (t : ℚ) (k e : ℕ) :
    |t * 2 ^ e - (k * 2 ^ e : ℕ)| = |t - k| * 2 ^ e := by
  have hstep : (0 : ℚ) < 2 ^ e := by positivity
  push_cast
  rw [← sub_mul, abs_mul, abs_of_pos hstep]

/-- A number of at most 53 bits is no nearer than the nearest multiple, and as near only if that is
one half of a step away. -/
theorem grid_closest (hnear : |t - r| ≤ 1 / 2) (hfull : e = 0 ∨ (2 ^ (precision - 1) : ℕ) ≤ t)
    {v : ℕ} (hv : Short v) (hne : v ≠ r * 2 ^ e) :
    |t * 2 ^ e - (r * 2 ^ e : ℕ)| ≤ |t * 2 ^ e - v| ∧
      (|t * 2 ^ e - v| = |t * 2 ^ e - (r * 2 ^ e : ℕ)| → |t - r| = 1 / 2) := by
  have hstep : (0 : ℚ) < 2 ^ e := by positivity
  rw [abs_sub_scaled]
  rcases hv.on_grid e with ⟨k, rfl⟩ | ⟨hpos, hbelow⟩
  · have hk : k ≠ r := by
      rintro rfl
      exact hne rfl
    have hapart := half_le_abs_sub hnear hk
    rw [abs_sub_scaled]
    refine ⟨mul_le_mul_of_nonneg_right (hnear.trans hapart) hstep.le, fun htie => ?_⟩
    have hsame : |t - k| = |t - r| := mul_right_cancel₀ hstep.ne' htie
    linarith
  · -- Then `2 ^ 52` steps are nearer than `v`, and no nearer than the nearest multiple.
    have hlow : ((2 ^ (precision - 1) : ℕ) : ℚ) ≤ t := hfull.resolve_left (by omega)
    have hvt : (v : ℚ) < (2 ^ (precision - 1) : ℕ) * 2 ^ e := by exact_mod_cast hbelow
    have hbound : |t - r| ≤ t - (2 ^ (precision - 1) : ℕ) := by
      by_cases hr : 2 ^ (precision - 1) = r
      · rw [← hr, abs_of_nonneg (sub_nonneg.mpr hlow)]
      · have hapart := half_le_abs_sub hnear hr
        rw [abs_of_nonneg (sub_nonneg.mpr hlow)] at hapart
        exact hnear.trans hapart
    have hscaled := mul_le_mul_of_nonneg_right hbound hstep.le
    have hfar : t * 2 ^ e - v ≤ |t * 2 ^ e - v| := le_abs_self _
    rw [sub_mul] at hscaled
    exact ⟨by linarith, fun htie => absurd htie (by linarith)⟩

theorem normal_of_near (hnear : |t - r| ≤ 1 / 2) (hlt : r < 2 ^ precision)
    (hfull : e = 0 ∨ (2 ^ (precision - 1) : ℕ) ≤ t) : Normal (r * 2 ^ e) r e := by
  refine ⟨hlt, hfull.imp_right fun hlow => ?_, rfl⟩
  by_contra hshort
  have hgap : (r : ℚ) + 1 ≤ (2 ^ (precision - 1) : ℕ) := by
    exact_mod_cast Nat.lt_of_not_le hshort
  have hupper := (abs_le.mp hnear).2
  linarith

/-- A significand that is rounded up to one more bit goes on with the next exponent. -/
theorem normal_carry (e : ℕ) : Normal (2 ^ precision * 2 ^ e) (2 ^ (precision - 1)) (e + 1) := by
  refine ⟨by decide, .inr (Nat.le_refl _), ?_⟩
  rw [Nat.pow_succ 2 e, Nat.mul_comm (2 ^ e) 2, ← Nat.mul_assoc]
  rfl

/-- Rounding on the grid of multiples of a power of two is rounding to nearest, where the grid has
room for 53 bits. -/
theorem nearestUnits_of_near (hnear : |t - r| ≤ 1 / 2) (hhalf : |t - r| = 1 / 2 → Even r)
    (hle : r ≤ 2 ^ precision) (hfull : e = 0 ∨ (2 ^ (precision - 1) : ℕ) ≤ t) :
    NearestUnits (t * 2 ^ e) (r * 2 ^ e) := by
  have hnormal : ∃ m f, Normal (r * 2 ^ e) m f ∧ (Even r → Even m) := by
    rcases Nat.lt_or_eq_of_le hle with hlt | rfl
    · exact ⟨r, e, normal_of_near hnear hlt hfull, id⟩
    · exact ⟨_, _, normal_carry e, fun _ => by decide⟩
  obtain ⟨m, f, hnormal, heven⟩ := hnormal
  refine ⟨hnormal.short, fun v hv => ?_, fun v hv hne htie => ?_⟩
  · by_cases hne : v = r * 2 ^ e
    · rw [hne]
    · exact (grid_closest hnear hfull hv hne).1
  · exact ⟨m, f, hnormal, heven (hhalf ((grid_closest hnear hfull hv hne).2 htie))⟩

end Grid

/-- Conversion of a quotient finds the nearest number. -/
theorem roundUnits_nearest (num : ℕ) {den : ℕ} (hden : 0 < den) :
    NearestUnits (num / den * unitsPerOne) (roundUnits num den) := by
  have hvalue : (num / den * unitsPerOne : ℚ) = (num * unitsPerOne : ℕ) / den := by
    push_cast
    ring
  rw [hvalue, roundUnits]
  simp only [Nat.one_shiftLeft]
  generalize num * unitsPerOne = scaled
  generalize hexp : (scaled / den).log2 + 1 - precision = e
  have hgap : 0 < den * 2 ^ e := Nat.mul_pos hden (Nat.two_pow_pos e)
  have hdenQ : (den : ℚ) ≠ 0 := Nat.cast_ne_zero.mpr (Nat.ne_of_gt hden)
  obtain ⟨hnear, hhalf⟩ := roundHalfEven_near scaled hgap
  have hsplit : (scaled / den : ℚ) = scaled / (den * 2 ^ e : ℕ) * 2 ^ e := by
    have hpow : (2 ^ e : ℚ) ≠ 0 := by positivity
    push_cast
    field_simp
  rw [hsplit]
  refine nearestUnits_of_near hnear hhalf ?_ ?_
  · have hwhole : scaled / (den * 2 ^ e) < 2 ^ precision := by
      rw [← Nat.div_div_eq_div_mul, Nat.div_lt_iff_lt_mul (Nat.two_pow_pos e), ← Nat.pow_add]
      have hlog : scaled / den < 2 ^ ((scaled / den).log2 + 1) := Nat.lt_log2_self
      have hmono : 2 ^ ((scaled / den).log2 + 1) ≤ 2 ^ (precision + e) :=
        Nat.pow_le_pow_right (by decide) (by omega)
      omega
    have hbound := (roundHalfEven_bounds scaled (den * 2 ^ e)).2
    omega
  · by_cases hzero : e = 0
    · exact .inl hzero
    · right
      have hlog : (scaled / den).log2 = precision - 1 + e := by
        rw [precision] at hexp ⊢
        omega
      have hne : scaled / den ≠ 0 := by
        intro h
        rw [h, Nat.log2_zero, precision] at hlog
        omega
      have hlow : 2 ^ (precision - 1) * 2 ^ e ≤ scaled / den := by
        rw [← Nat.pow_add, ← hlog]
        exact Nat.log2_self_le hne
      have hmul : 2 ^ (precision - 1) * (den * 2 ^ e) ≤ scaled := by
        rw [Nat.le_div_iff_mul_le hden] at hlow
        rwa [Nat.mul_comm den, ← Nat.mul_assoc]
      rw [le_div_iff₀ (Nat.cast_pos.mpr hgap)]
      exact_mod_cast hmul

variable {q : ℚ} {u v w : ℕ}

/-- No number of at most 53 bits lies between a number and its nearest one. -/
theorem NearestUnits.le_of_le (h : NearestUnits q u) (hw : Short w) (hle : (w : ℚ) ≤ q) :
    w ≤ u := by
  by_contra hlt
  have hcast : (u : ℚ) < w := Nat.cast_lt.mpr (Nat.lt_of_not_le hlt)
  have hclosest := h.closest w hw
  rw [abs_of_nonneg (by linarith), abs_of_nonneg (by linarith)] at hclosest
  linarith

/-- Of two nearest numbers neither is the smaller one. -/
theorem NearestUnits.not_lt (hu : NearestUnits q u) (hv : NearestUnits q v) : ¬ u < v := by
  intro hlt
  have hcast : (u : ℚ) < v := Nat.cast_lt.mpr hlt
  have htie : |q - v| = |q - u| := le_antisymm (hv.closest u hu.short) (hu.closest v hv.short)
  obtain ⟨m, e, hm, hmEven⟩ := hu.even v hv.short hlt.ne' htie
  obtain ⟨n, f, hn, hnEven⟩ := hv.even u hu.short hlt.ne htie.symm
  -- The two are neighbours, since all between them would be nearer.
  have hneighbour : v = (m + 1) * 2 ^ e := by
    have hle := hm.next_le hv.short hlt
    have hmiddle : q - u = v - q := by
      rcases abs_eq_abs.mp htie with h | h <;> linarith
    have hnext : (u : ℚ) < ((m + 1) * 2 ^ e : ℕ) := by
      rw [Nat.cast_lt, hm.eq]
      exact Nat.mul_lt_mul_of_pos_right (Nat.lt_succ_self m) (Nat.two_pow_pos e)
    have hleQ : (((m + 1) * 2 ^ e : ℕ) : ℚ) ≤ v := Nat.cast_le.mpr hle
    have hclosest := hu.closest _ hm.short_next
    rw [abs_of_nonneg (by linarith : 0 ≤ q - (u : ℚ))] at hclosest
    rcases le_abs.mp hclosest with h | h
    · linarith
    · have hge : (v : ℚ) ≤ ((m + 1) * 2 ^ e : ℕ) := by linarith
      exact Nat.le_antisymm (Nat.cast_le.mp hge) hle
  have hodd : ¬ Even (m + 1) := by
    rw [Nat.even_add_one]
    exact not_not.mpr hmEven
  have hroom : m + 1 < 2 ^ precision := by
    have hlast : m + 1 ≠ 2 ^ precision := by
      intro h
      rw [h] at hodd
      exact hodd (by decide)
    have hlt := hm.lt
    omega
  have hnormal : Normal v (m + 1) e :=
    ⟨hroom, hm.full.imp_right fun hfull => Nat.le_succ_of_le hfull, hneighbour⟩
  rw [(hn.unique hnormal).1] at hnEven
  exact hodd hnEven

/-- There is one nearest number. -/
theorem NearestUnits.unique (hu : NearestUnits q u) (hv : NearestUnits q v) : u = v :=
  Nat.le_antisymm (Nat.le_of_not_lt (hv.not_lt hu)) (Nat.le_of_not_lt (hu.not_lt hv))

theorem nearestUnits_zero (hnonneg : 0 ≤ q) (hlt : q < 1 / 2) : NearestUnits q 0 := by
  have hother : ∀ v : ℕ, v ≠ 0 → |q - (0 : ℕ)| < |q - v| := by
    intro v hv
    have hone : (1 : ℚ) ≤ v := by exact_mod_cast Nat.one_le_iff_ne_zero.mpr hv
    rw [Nat.cast_zero, sub_zero, abs_of_nonneg hnonneg, abs_of_nonpos (by linarith)]
    linarith
  refine ⟨⟨0, 0, by decide, rfl⟩, fun v _ => ?_, fun v _ hne htie => ?_⟩
  · by_cases hv : v = 0
    · rw [hv]
    · exact (hother v hv).le
  · exact absurd htie (hother v hne).ne'

/-! ## The end of the range -/

/-- The exponent of the numbers below the limit. -/
def lastExponent : ℕ := 2045

/-- The gap below the limit. -/
def lastGap : ℕ := 2 ^ lastExponent

theorem limit_eq : limit = 2 ^ precision * lastGap := by
  rw [limit, show 2098 = precision + lastExponent from rfl, Nat.one_shiftLeft, Nat.pow_add, lastGap]

/-- The largest number in range has an odd significand. -/
theorem normal_last : Normal (limit - lastGap) (2 ^ precision - 1) lastExponent := by
  refine ⟨by decide, .inr (by decide), ?_⟩
  rw [limit_eq, Nat.sub_mul, Nat.one_mul, lastGap]

theorem short_limit : Short limit := by
  refine ⟨1, precision + lastExponent, Nat.one_lt_two_pow (by decide), ?_⟩
  rw [limit_eq, lastGap, Nat.pow_add, Nat.one_mul]

/-- Below the limit the largest number in range is the last one. -/
theorem Short.le_last (hv : Short v) (hlt : v < limit) : v ≤ limit - lastGap := by
  by_contra hgt
  have hnext := normal_last.next_le hv (Nat.lt_of_not_le hgt)
  have hcarry : (2 ^ precision - 1 + 1) * 2 ^ lastExponent = limit := by
    rw [Nat.sub_add_cancel Nat.one_le_two_pow, limit_eq, lastGap]
  omega

/-- A number is rounded out of range exactly from the middle between the last number in range and
the limit on. -/
theorem NearestUnits.limit_le_iff (h : NearestUnits q u) :
    limit ≤ u ↔ (limit - lastGap / 2 : ℚ) ≤ q := by
  have hgap : (0 : ℚ) < lastGap := by
    rw [lastGap]
    positivity
  have hlast : ((limit - lastGap : ℕ) : ℚ) = limit - lastGap := by
    have hle : lastGap ≤ limit := by
      rw [limit_eq]
      exact Nat.le_mul_of_pos_left _ (by decide)
    rw [Nat.cast_sub hle]
  constructor
  · intro hge
    by_contra hlt
    have hcast : (limit : ℚ) ≤ u := Nat.cast_le.mpr hge
    have hclosest := h.closest _ normal_last.short
    rw [hlast, abs_of_nonpos (by linarith)] at hclosest
    rcases le_abs.mp hclosest with hbelow | habove <;> linarith
  · intro hge
    by_contra hlt
    have hle := h.short.le_last (Nat.lt_of_not_le hlt)
    have hcast : (u : ℚ) ≤ limit - lastGap := by
      rw [← hlast]
      exact Nat.cast_le.mpr hle
    have hclosest := h.closest _ short_limit
    rw [abs_of_nonneg (by linarith)] at hclosest
    rcases le_abs.mp hclosest with hbelow | habove
    · linarith
    · -- The last number in range is as near as the limit, and its significand is odd.
      have hu : u = limit - lastGap := by
        have heq : (u : ℚ) = (limit - lastGap : ℕ) := by linarith
        exact_mod_cast heq
      have hne : limit ≠ u := by omega
      have htie : |q - limit| = |q - u| := by
        rw [abs_of_nonpos (by linarith), abs_of_nonneg (by linarith)]
        linarith
      obtain ⟨m, e, hm, heven⟩ := h.even limit short_limit hne htie
      rw [hu] at hm
      rw [(hm.unique normal_last).1] at heven
      revert heven
      decide

end Double

end Rulebook
