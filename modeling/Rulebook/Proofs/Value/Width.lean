import Mathlib
import Rulebook.Proofs.Results
import Rulebook.Proofs.Value.EqualityLaws
import Rulebook.Proofs.Value.Path

/-!
Integers that are too wide. Some integers have no nearest double, and converting one is the only way
in which a conversion fails (`toDouble?_fails`); so strict equality fails exactly where one of two
numbers is such an integer (`strictEq_fails`). In a value that `fits` there is none at any depth,
and so there is none in what a path leads to (`fits_of_follow`).
-/
namespace Rulebook.Value

/-! ## Conversion -/

/-- An integer that has no nearest double. -/
def TooWide (v : Value) : Prop := ∃ i, v = int i ∧ Double.intLimit ≤ i.natAbs

theorem toDouble?_fails {v : Value} {r : Except Fault Double} (h : v.toDouble? = some r) :
    Except.Fails r ↔ v.TooWide := by
  cases v with
  | int i =>
    have hwide : (int i).TooWide ↔ Double.ofInt? i = none := by
      simp [TooWide, Double.ofInt?_eq_none]
    rw [toDouble?, Option.some.injEq] at h
    rw [hwide, ← h]
    cases Double.ofInt? i <;> simp [Except.fails_error, Except.not_fails_ok]
  | float x =>
    cases h
    simp [TooWide, Except.not_fails_ok]
  | decimal d =>
    cases h
    simp [TooWide, Except.not_fails_ok]
  | _ => cases h

/-- Two numbers, one of which has no nearest double. -/
def Clash (v w : Value) : Prop :=
  v.number?.isSome = true ∧ w.number?.isSome = true ∧ (v.TooWide ∨ w.TooWide)

theorem strictEq_fails {actual : Option Value} {w : Value} :
    Except.Fails (strictEq actual (some w)) ↔ ∃ v ∈ actual, v.Clash w := by
  cases actual with
  | none => simp [strictEq, Except.not_fails_ok]
  | some v =>
    cases hv : v.toDouble? with
    | some x =>
      cases hw : w.toDouble? with
      | some y =>
        rw [strictEq_doubles hv hw, Except.pair_fails, toDouble?_fails hv, toDouble?_fails hw]
        simp [Clash, isSome_number?, hv, hw]
      | none =>
        rw [strictEq_mixed (by simp [hv, hw])]
        simp [Clash, isSome_number?, hw, Except.not_fails_ok]
    | none =>
      have hreturns : ∃ b, strictEq (some v) (some w) = .ok b := by
        cases hw : w.toDouble? with
        | some y => exact ⟨false, strictEq_mixed (by simp [hv, hw])⟩
        | none => exact ⟨_, strictEq_others hv hw⟩
      simp [Except.not_fails.mpr hreturns, Clash, isSome_number?, hv]

/-! ## Values without them -/

mutual

/-- Every integer in a value, at every depth, has a nearest double. -/
def fits : Value → Bool
  | int i => i.natAbs < Double.intLimit
  | list items | tuple items => fitAll items
  | object fields => fitMembers fields
  | _ => true

def fitAll : List Value → Bool
  | [] => true
  | v :: rest => fits v && fitAll rest

def fitMembers : List (Text × Value) → Bool
  | [] => true
  | (_, v) :: rest => fits v && fitMembers rest

end

theorem fitAll_iff {items : List Value} : fitAll items = true ↔ ∀ v ∈ items, v.fits = true := by
  induction items with
  | nil => simp [fitAll]
  | cons v rest ih => simp [fitAll, ih]

theorem fitMembers_iff {fields : Fields} :
    fitMembers fields = true ↔ ∀ member ∈ fields, member.2.fits = true := by
  induction fields with
  | nil => simp [fitMembers]
  | cons member rest ih => simp [fitMembers, ih]

theorem not_tooWide {v : Value} (h : v.fits = true) : ¬ v.TooWide := by
  rintro ⟨i, rfl, hwide⟩
  rw [fits, decide_eq_true_eq] at h
  omega

theorem fits_of_get? {fields : Fields} {key : Text} {v : Value} (h : (object fields).fits = true)
    (hv : fields.get? key = some v) : v.fits = true :=
  fitMembers_iff.mp h (key, v) (Fields.mem_of_get? hv)

/-- What a step leads to is a part of the value. -/
theorem fits_of_step {v w : Value} {s : Text} (h : v.fits = true)
    (hw : v.step s = .ok (some w)) : w.fits = true := by
  have hitems : ∀ items : List Value, fitAll items = true →
      (list items).step s = .ok (some w) → w.fits = true := by
    intro items hfit hstep
    rw [step] at hstep
    split at hstep
    · obtain ⟨i, -, hi⟩ := Except.bind_eq_ok.mp hstep
      exact fitAll_iff.mp hfit w (List.mem_of_getElem? (Except.ok.inj hi))
    · cases hstep
  cases v with
  | list items => exact hitems items h hw
  | tuple items => exact hitems items h hw
  | object fields => exact fits_of_get? h (Except.ok.inj hw)
  | _ => cases hw

theorem fits_of_follow {v w : Value} {steps : List Text} (h : v.fits = true)
    (hw : follow (some v) steps = .ok (some w)) : w.fits = true := by
  induction steps generalizing v with
  | nil =>
    cases hw
    exact h
  | cons s rest ih =>
    obtain ⟨u, hu, hrest⟩ := Except.bind_eq_ok.mp hw
    cases u with
    | none => cases (follow_none rest).symm.trans hrest
    | some u => exact ih (fits_of_step h hu) hrest

end Rulebook.Value
