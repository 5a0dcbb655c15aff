import Mathlib
import Rulebook.Calendar.Date

/-!
Day numbers and civil dates. The days before a year add up the lengths of all months before it
(`daysBefore_succ`), so each day number falls in one year (`yearOfDay_eq`) and, within the year, in
one month (`splitMonths_eq`). Hence a date has one year, month and day of the month, and each such
day has one date (`ofCivil?_eq_some`); and dates are ordered as their years, months and days are
(`civil_lt_of_day_lt`).
-/
namespace Rulebook.Date

/-! ## Years -/

theorem isLeap_iff {year : Nat} :
    isLeap year = true ↔ 4 ∣ year ∧ (¬ 100 ∣ year ∨ 400 ∣ year) := by
  simp [isLeap, Nat.dvd_iff_mod_eq_zero]

theorem sum_monthLengths (year : Nat) :
    (monthLengths year).sum = if isLeap year then 366 else 365 := by
  unfold monthLengths
  split <;> rfl

/-- A year starts when all months of the year before are over. -/
theorem daysBefore_succ {year : Nat} (h : 1 ≤ year) :
    daysBefore (year + 1) = daysBefore year + (monthLengths year).sum := by
  obtain ⟨past, rfl⟩ := Nat.exists_eq_add_of_le' h
  have hfour := Nat.succ_div (a := past) (b := 4)
  have hhundred := Nat.succ_div (a := past) (b := 100)
  have hfourHundred := Nat.succ_div (a := past) (b := 400)
  simp only [sum_monthLengths, isLeap_iff, daysBefore, Nat.add_sub_cancel]
  -- Each of the three quotients goes up by one exactly where its leap rule applies.
  split at hfour <;> split at hhundred <;> split at hfourHundred <;> split <;> omega

theorem daysBefore_le {y z : Nat} (h : y ≤ z) : daysBefore y ≤ daysBefore z := by
  induction h with
  | refl => exact Nat.le_refl _
  | @step z hle ih =>
    have hstep : daysBefore z ≤ daysBefore (z + 1) := by
      simp only [daysBefore]
      omega
    exact Nat.le_trans ih hstep

/-- A day falls in the year that has begun before it and has not ended. -/
theorem daysBefore_yearOfDay {day : Nat} (h : 1 ≤ day) :
    1 ≤ yearOfDay day ∧ daysBefore (yearOfDay day) < day ∧
      day ≤ daysBefore (yearOfDay day + 1) := by
  simp only [yearOfDay]
  split
  · next hle =>
    simp only [daysBefore] at hle ⊢
    omega
  · split
    · next hnot hlt =>
      simp only [daysBefore] at hnot hlt ⊢
      omega
    · next hnot hnotLt => omega

/-- There is one such year. -/
theorem yearOfDay_eq {year day : Nat} (hlt : daysBefore year < day)
    (hle : day ≤ daysBefore (year + 1)) : yearOfDay day = year := by
  obtain ⟨-, hbegun, hends⟩ := daysBefore_yearOfDay (Nat.lt_of_le_of_lt (Nat.zero_le _) hlt)
  rcases Nat.lt_trichotomy (yearOfDay day) year with h | h | h
  · have hmono := daysBefore_le (Nat.add_one_le_of_lt h)
    omega
  · exact h
  · have hmono := daysBefore_le (Nat.add_one_le_of_lt h)
    omega

/-! ## Months -/

/-- A day falls on the `k`-th of the month at position `i` among months of some lengths. -/
structure Falls (lengths : List Nat) (day i k : Nat) : Prop where
  exists_length : ∃ length, lengths[i]? = some length ∧ 1 ≤ k ∧ k ≤ length
  day_eq : (lengths.take i).sum + k = day

variable {lengths : List Nat} {day i k : Nat}

theorem Falls.zero {length : Nat} {rest : List Nat} (hpos : 1 ≤ day) (hle : day ≤ length) :
    Falls (length :: rest) day 0 day :=
  ⟨⟨length, rfl, hpos, hle⟩, by simp⟩

theorem falls_succ {length : Nat} {rest : List Nat} :
    Falls (length :: rest) day (i + 1) k ↔ length < day ∧ Falls rest (day - length) i k := by
  constructor
  · rintro ⟨⟨l, hl, hpos, hle⟩, hday⟩
    rw [List.getElem?_cons_succ] at hl
    rw [List.take_succ_cons, List.sum_cons] at hday
    exact ⟨by omega, ⟨l, hl, hpos, hle⟩, by omega⟩
  · rintro ⟨hlt, ⟨l, hl, hpos, hle⟩, hday⟩
    refine ⟨⟨l, by rwa [List.getElem?_cons_succ], hpos, hle⟩, ?_⟩
    rw [List.take_succ_cons, List.sum_cons]
    omega

theorem exists_falls (hpos : 1 ≤ day) (hle : day ≤ lengths.sum) : ∃ i k, Falls lengths day i k := by
  induction lengths generalizing day with
  | nil =>
    rw [List.sum_nil] at hle
    omega
  | cons length rest ih =>
    rw [List.sum_cons] at hle
    by_cases hfirst : day ≤ length
    · exact ⟨0, day, .zero hpos hfirst⟩
    · obtain ⟨i, k, hfalls⟩ : ∃ i k, Falls rest (day - length) i k := ih (by omega) (by omega)
      exact ⟨i + 1, k, falls_succ.mpr ⟨Nat.lt_of_not_le hfirst, hfalls⟩⟩

/-- Counting a day off finds where it falls. -/
theorem splitMonths_eq (h : Falls lengths day i k) : splitMonths lengths day = (i + 1, k) := by
  induction lengths generalizing day i with
  | nil =>
    obtain ⟨length, hlength, -⟩ := h.exists_length
    cases hlength
  | cons length rest ih =>
    rw [splitMonths]
    cases i with
    | zero =>
      obtain ⟨⟨l, hl, -, hle⟩, hday⟩ := h
      cases hl
      rw [List.take_zero, List.sum_nil, Nat.zero_add] at hday
      rw [← hday, if_pos hle]
    | succ i =>
      obtain ⟨hlt, hrest⟩ := falls_succ.mp h
      rw [if_neg (Nat.not_le_of_lt hlt), ih hrest]

theorem Falls.le_sum (h : Falls lengths day i k) : day ≤ (lengths.take (i + 1)).sum := by
  obtain ⟨⟨length, hlength, -, hle⟩, hday⟩ := h
  rw [List.take_add_one, hlength, List.sum_append]
  simp only [Option.toList_some, List.sum_singleton]
  omega

theorem sum_take_le (lengths : List Nat) {i j : Nat} (h : i ≤ j) :
    (lengths.take i).sum ≤ (lengths.take j).sum := by
  obtain ⟨n, rfl⟩ := Nat.exists_eq_add_of_le h
  rw [List.take_add, List.sum_append]
  omega

/-- What falls in an earlier month is earlier. -/
theorem Falls.lt_of_lt {later j l : Nat} (h : Falls lengths day i k) (hl : Falls lengths later j l)
    (hij : i < j) : day < later := by
  have hbefore := h.le_sum
  have hmono := sum_take_le lengths (Nat.add_one_le_of_lt hij)
  obtain ⟨⟨-, -, hpos, -⟩, hlater⟩ := hl
  omega

/-! ## Dates -/

theorem year_bounds (d : Date) : 1 ≤ d.year ∧ d.year ≤ 9999 := by
  obtain ⟨hpos, hbegun, -⟩ := daysBefore_yearOfDay d.one_le
  refine ⟨hpos, Nat.le_of_not_lt fun hlt => ?_⟩
  have hmono : daysBefore 10000 ≤ daysBefore d.year := daysBefore_le hlt
  have hlast : daysBefore 10000 = lastDay := by decide
  have hle := d.le_last
  rw [← year] at hbegun
  omega

/-- A date falls on its day of the month. -/
theorem falls_civil (d : Date) :
    1 ≤ d.month ∧
      Falls (monthLengths d.year) (d.day - daysBefore d.year) (d.month - 1) d.dayOfMonth := by
  obtain ⟨hpos, hbegun, hends⟩ := daysBefore_yearOfDay d.one_le
  have hsucc := daysBefore_succ hpos
  rw [← year] at hbegun hends hsucc
  obtain ⟨i, k, hfalls⟩ : ∃ i k, Falls (monthLengths d.year) (d.day - daysBefore d.year) i k :=
    exists_falls (by omega) (by omega)
  have hsplit := splitMonths_eq hfalls
  rw [month, dayOfMonth, monthDay, hsplit]
  exact ⟨Nat.le_add_left 1 i, hfalls⟩

theorem month_bounds (d : Date) : 1 ≤ d.month ∧ d.month ≤ 12 := by
  obtain ⟨hpos, ⟨length, hlength, -⟩, -⟩ := d.falls_civil
  have hlt : d.month - 1 < (monthLengths d.year).length := (List.getElem?_eq_some_iff.mp hlength).1
  have htwelve : (monthLengths d.year).length = 12 := rfl
  omega

theorem dayOfMonth_bounds (d : Date) : 1 ≤ d.dayOfMonth ∧ d.dayOfMonth ≤ 31 := by
  obtain ⟨-, ⟨length, hlength, hpos, hle⟩, -⟩ := d.falls_civil
  have hlong : ∀ l ∈ monthLengths d.year, l ≤ 31 := by
    unfold monthLengths
    split <;> decide
  have hlast := hlong length (List.mem_of_getElem? hlength)
  omega

theorem ofDay?_eq_some {n : Int} {d : Date} : ofDay? n = some d ↔ (d.day : Int) = n := by
  unfold ofDay?
  have hone := d.one_le
  have hlast := d.le_last
  split
  · next h =>
    rw [Option.some.injEq]
    constructor
    · rintro rfl
      exact Int.toNat_of_nonneg (by omega)
    · intro hday
      obtain ⟨day, _, _⟩ := d
      simp only [Date.mk.injEq]
      dsimp only at hday
      omega
  · next h =>
    constructor
    · intro hnone
      cases hnone
    · intro hday
      omega

/-- A day of a year and month is the date that falls on it, and no date falls on any other. -/
theorem ofCivil?_eq_some {y m : Nat} {d : Date} :
    ofCivil? y m k = some d ↔ d.year = y ∧ d.month = m ∧ d.dayOfMonth = k := by
  have hsum : ∀ ls : List Nat, ls.foldl Nat.add 0 = ls.sum := fun ls => List.sum_eq_foldl.symm
  unfold ofCivil?
  simp only [hsum]
  constructor
  · intro h
    split at h
    · next length hlength =>
      split at h
      · next hvalid =>
        simp only [Bool.and_eq_true, decide_eq_true_eq] at hvalid
        obtain ⟨⟨⟨⟨hy, -⟩, hm⟩, hk⟩, hle⟩ := hvalid
        have hday := ofDay?_eq_some.mp h
        have hfalls : Falls (monthLengths y) (d.day - daysBefore y) (m - 1) k :=
          ⟨⟨length, hlength, hk, hle⟩, by omega⟩
        have hyear : d.year = y := by
          have hsucc := daysBefore_succ hy
          have hmonths := hfalls.le_sum
          have htotal := sum_take_le (monthLengths y) (Nat.le_max_left (m - 1 + 1) 12)
          rw [List.take_of_length_le (i := max (m - 1 + 1) 12) (Nat.le_max_right _ _)] at htotal
          exact yearOfDay_eq (by omega) (by omega)
        have hsplit := splitMonths_eq hfalls
        rw [month, dayOfMonth, monthDay, hyear, hsplit]
        exact ⟨rfl, by dsimp only; omega, rfl⟩
      · cases h
    · cases h
  · rintro ⟨rfl, rfl, rfl⟩
    obtain ⟨hm, ⟨length, hlength, hk, hle⟩, hday⟩ := d.falls_civil
    obtain ⟨hy, hyLast⟩ := d.year_bounds
    obtain ⟨-, hbegun, -⟩ := daysBefore_yearOfDay d.one_le
    rw [hlength]
    simp only [hy, hyLast, hm, hk, hle, decide_true, Bool.and_self, if_true]
    rw [ofDay?_eq_some]
    rw [← year] at hbegun
    omega

/-- Dates are ordered by year, month and day of the month. -/
theorem civil_lt_of_day_lt {d e : Date} (h : d.day < e.day) :
    d.year < e.year ∨ d.year = e.year ∧
      (d.month < e.month ∨ d.month = e.month ∧ d.dayOfMonth < e.dayOfMonth) := by
  obtain ⟨-, hbegun, -⟩ := daysBefore_yearOfDay d.one_le
  obtain ⟨-, -, hends⟩ := daysBefore_yearOfDay e.one_le
  rw [← year] at hbegun hends
  rcases Nat.lt_trichotomy d.year e.year with hyear | hyear | hyear
  · exact .inl hyear
  · right
    refine ⟨hyear, ?_⟩
    obtain ⟨hdm, hd⟩ := d.falls_civil
    obtain ⟨hem, he⟩ := e.falls_civil
    rw [hyear] at hd hbegun
    rcases Nat.lt_trichotomy d.month e.month with hmonth | hmonth | hmonth
    · exact .inl hmonth
    · right
      have hdDay := hd.day_eq
      have heDay := he.day_eq
      rw [hmonth] at hdDay
      exact ⟨hmonth, by omega⟩
    · have hlt := he.lt_of_lt hd (by omega)
      omega
  · have hmono := daysBefore_le (Nat.add_one_le_of_lt hyear)
    omega

end Rulebook.Date
