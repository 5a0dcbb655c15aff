import Mathlib
import Rulebook.Failure
import Rulebook.Proofs.Calendar.IsoText
import Rulebook.Proofs.Directive.DueDate
import Rulebook.Proofs.Value.DayCount
import Rulebook.Value.JsonForm

/-!
Relative due dates. A date is shifted to the day so many days away, if the calendar has it
(`Date.shift_eq_ok`), and every failure on the way is one of range (`Directive.kind_of_dueDate`).
An integer, or its decimal text, is a count of days that is exact as long as the result is in the
calendar (`CountsDays.dueDate_eq_ok`), so the dates add up as integers do (`dueDate_exact`).
-/
namespace Rulebook

/-! ## Shifting dates -/

namespace Date

variable {d e : Date} {n : ℤ}

/-- The calendar has the days from the first to the last. -/
theorem exists_day : (∃ e : Date, (e.day : ℤ) = n) ↔ 1 ≤ n ∧ n ≤ lastDay := by
  constructor
  · rintro ⟨e, rfl⟩
    exact ⟨Int.ofNat_le.mpr e.one_le, Int.ofNat_le.mpr e.le_last⟩
  · rintro ⟨hone, hlast⟩
    exact ⟨⟨n.toNat, by omega, by omega⟩, Int.toNat_of_nonneg (by omega)⟩

theorem shift_eq_ok : d.shift n = .ok e ↔ (e.day : ℤ) = d.day + n := by
  have hd := d.le_last
  have he := e.le_last
  unfold shift
  simp only [lastDay] at hd he
  -- The calendar is shorter than the two limits that a count of days has of its own.
  split
  · next hwide => exact iff_of_false (fun h => nomatch h) (by omega)
  · split
    · next hmany =>
      simp only [Fault.maxDays] at hmany
      exact iff_of_false (fun h => nomatch h) (by omega)
    · rw [← ofDay?_eq_some, ← addDays?]
      cases d.addDays? n with
      | none => exact iff_of_false (fun h => nomatch h) (fun h => nomatch h)
      | some shifted => rw [Except.ok.injEq, Option.some.injEq]

theorem kind_of_shift {f : Fault} (h : d.shift n = .error f) : f.kind = .outOfRange := by
  unfold shift at h
  split at h
  · cases h
    rfl
  · split at h
    · cases h
      rfl
    · split at h
      · cases h
      · cases h
        rfl

end Date

namespace Value

theorem toDate?_isoText (d : Date) : (text d.toIsoText).toDate? = some (some d) := by
  have hpresent := Directive.isPresent_isoText d
  rw [isPresent, Bool.not_eq_true'] at hpresent
  rw [toDate?, hpresent, if_neg Bool.false_ne_true, Text.string?_ofString, Option.bind_some,
    Date.ofIsoText?_toIsoText, Option.map_some]

end Value

/-! ## Directives -/

namespace Directive

variable {today d e : Date} {directive value v w : Value} {m n : ℤ}

/-- A directive that sets the date so many days from the reference date, the count being an integer
that has a nearest double, or the decimal text of one. -/
structure CountsDays (directive : Value) (n : ℤ) : Prop where
  kind : kind? directive = some .setDueDate
  mode : DueDateMode.ofValue? (directive.getD "mode") = some .daysFromNow
  spells : (directive.getD "value").Spells n
  narrow : ∃ x, Double.ofInt? n = some x

theorem dueDate_relative (hkind : kind? directive = some .setDueDate)
    (hmode : DueDateMode.ofValue? (directive.getD "mode") = some .daysFromNow)
    (hdays : (directive.getD "value").toDays? = .ok (some n)) :
    dueDate directive today = .ok value ↔
      ∃ e : Date, (e.day : ℤ) = today.day + n ∧ value = .text e.toIsoText := by
  have hread : dueDate directive today = do return .text (← today.shift n).toIsoText := by
    rw [dueDate, if_pos hkind, hmode]
    dsimp only
    rw [hdays]
    rfl
  rw [hread, Except.bind_eq_ok]
  simp only [Date.shift_eq_ok]
  constructor
  · rintro ⟨e, he, h⟩
    cases h
    exact ⟨e, he, rfl⟩
  · rintro ⟨e, he, rfl⟩
    exact ⟨e, he, rfl⟩

/-- A due date that has no outcome is out of range. -/
theorem kind_of_dueDate {f : Fault} (h : dueDate directive today = .error f) :
    f.kind = .outOfRange := by
  unfold dueDate at h
  split at h
  · split at h
    · cases h
    · rcases Except.bind_eq_error.mp h with hdays | ⟨days, -, h⟩
      · exact Value.kind_of_toDays? hdays
      · split at h
        · rcases Except.bind_eq_error.mp h with hshift | ⟨shifted, -, h⟩
          · exact Date.kind_of_shift hshift
          · cases h
        · cases h
    · cases h
  · cases h

/-- Counts of days are exact: where a wide integer is not, the calendar has neither the date that it
gives nor the one that it is read as. -/
theorem CountsDays.dueDate_eq_ok (h : CountsDays directive n) :
    dueDate directive today = .ok value ↔
      ∃ e : Date, (e.day : ℤ) = today.day + n ∧ value = .text e.toIsoText := by
  obtain ⟨x, hx⟩ := h.narrow
  obtain ⟨k, hk, rfl | ⟨hn, hwide⟩⟩ := h.spells.toDays? hx
  · exact dueDate_relative h.kind h.mode hk
  · rw [dueDate_relative h.kind h.mode hk]
    have hfar : ∀ {i : ℤ}, 2 ^ Double.precision ≤ i.natAbs →
        ¬ ∃ e : Date, (e.day : ℤ) = today.day + i ∧ value = .text e.toIsoText := by
      rintro i hi ⟨e, he, -⟩
      have htoday := today.le_last
      have hlast := e.le_last
      simp only [lastDay, Double.precision] at htoday hlast hi
      omega
    exact iff_of_false (hfar hwide) (hfar hn)

/-- A count of days is exact over the whole calendar. It fails exactly if the date so far away is
out of the calendar, and gives the text of that date otherwise. So counting on from the date that is
given is counting both at once, and a larger count gives a text that comes later. -/
theorem dueDate_exact (h : CountsDays directive n) :
    (Except.Fails (dueDate directive d) ↔ d.day + n < 1 ∨ lastDay < d.day + n) ∧
      (∀ f, dueDate directive d = .error f → f.kind = .outOfRange) ∧
      ∀ result, dueDate directive d = .ok result → ∃ s e, result = .text s ∧
        (Value.text s).toDate? = some (some e) ∧ (e.day : ℤ) = d.day + n ∧
        (∀ m v w, CountsDays v m → CountsDays w (n + m) →
          ∀ later, dueDate v e = .ok later ↔ dueDate w d = .ok later) ∧
        ∀ m v, CountsDays v m → n < m → ∀ t, dueDate v d = .ok (.text t) → s < t := by
  refine ⟨?_, fun f hf => kind_of_dueDate hf, fun result hresult => ?_⟩
  · have hgives : (∃ value, dueDate directive d = .ok value) ↔
        1 ≤ d.day + n ∧ d.day + n ≤ lastDay := by
      rw [← Date.exists_day]
      constructor
      · rintro ⟨value, hvalue⟩
        obtain ⟨e, he, -⟩ := h.dueDate_eq_ok.mp hvalue
        exact ⟨e, he⟩
      · rintro ⟨e, he⟩
        exact ⟨_, h.dueDate_eq_ok.mpr ⟨e, he, rfl⟩⟩
    rw [← not_iff_not, Except.not_fails, hgives]
    omega
  · obtain ⟨e, he, rfl⟩ := h.dueDate_eq_ok.mp hresult
    refine ⟨_, e, rfl, Value.toDate?_isoText e, he, ?_, ?_⟩
    · intro m v w hv hw later
      rw [hv.dueDate_eq_ok, hw.dueDate_eq_ok, he, Int.add_assoc]
    · intro m v hv hlt t ht
      obtain ⟨e', he', hiso⟩ := hv.dueDate_eq_ok.mp ht
      cases hiso
      exact Date.toIsoText_lt (by omega)

/-- Ten days from the last day of February in a leap year, given as a text, and back again. -/
theorem dueDate_exact_leap :
    let days (value : Value) : Value := .object [("type", .text "set_due_date"),
      ("mode", .text "days_from_now"), ("value", value)]
    let d : Date := ⟨738945, by decide, by decide⟩
    CountsDays (days (.text "10")) 10 ∧ CountsDays (days (.int (-10))) (-10) ∧
      dueDate (days (.text "10")) d = .ok (.text "2024-03-10") ∧
      ∃ e, (Value.text "2024-03-10").toDate? = some (some e) ∧
        dueDate (days (.int (-10))) e = .ok (.text "2024-02-29") := by
  intro days d
  have hnarrow : ∀ n : ℤ, n.natAbs ≤ 10 → ∃ x, Double.ofInt? n = some x := fun n hn =>
    ⟨_, Double.ofInt?_of_natAbs_le (hn.trans (by decide))⟩
  have hten : CountsDays (days (.text "10")) 10 := ⟨rfl, rfl, .inr rfl, hnarrow _ (by omega)⟩
  have hback : CountsDays (days (.int (-10))) (-10) := ⟨rfl, rfl, .inl rfl, hnarrow _ (by omega)⟩
  have hstay : CountsDays (days (.int 0)) 0 := ⟨rfl, rfl, .inl rfl, hnarrow _ (by omega)⟩
  have hforward : dueDate (days (.text "10")) d = .ok (.text "2024-03-10") :=
    hten.dueDate_eq_ok.mpr ⟨⟨738955, by decide, by decide⟩, rfl, by cbv⟩
  obtain ⟨s, e, hs, hdate, -, hadd, -⟩ := (dueDate_exact hten).2.2 _ hforward
  cases hs
  refine ⟨hten, hback, hforward, e, hdate, ?_⟩
  exact (hadd (-10) _ _ hback hstay _).mpr (hstay.dueDate_eq_ok.mpr ⟨d, rfl, by cbv⟩)

end Directive

end Rulebook
