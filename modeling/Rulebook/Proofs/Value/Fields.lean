import Rulebook.Value.Basic

/-!
Looking up the members of an object.
-/
namespace Rulebook.Fields

theorem get?_cons (name : Text) (w : Value) (rest : Fields) (key : Text) :
    get? ((name, w) :: rest) key = if key = name then some w else get? rest key := by
  rw [get?, List.lookup_cons]
  by_cases h : key = name
  · rw [if_pos h, beq_iff_eq.mpr h]
  · rw [if_neg h, beq_eq_false_iff_ne.mpr h]
    rfl

/-- A put member is found under its key, and all others are as they were. -/
theorem get?_put (fields : Fields) (key : Text) (v : Value) (k : Text) :
    (fields.put key v).get? k = if k = key then some v else fields.get? k := by
  induction fields with
  | nil => exact get?_cons key v [] k
  | cons member rest ih =>
    obtain ⟨name, w⟩ := member
    rw [put]
    split
    · next hname =>
      simp only [get?_cons, hname]
      split <;> rfl
    · next hname =>
      simp only [get?_cons, ih]
      by_cases hk : k = name
      · rw [if_pos hk, if_neg (hk ▸ hname), if_pos hk]
      · rw [if_neg hk, if_neg hk]

/-- Changing all values changes what is found under a key, and nothing else. -/
theorem get?_map (f : Value → Value) (fields : Fields) (key : Text) :
    get? (fields.map fun member => (member.1, f member.2)) key = (fields.get? key).map f := by
  induction fields with
  | nil => rfl
  | cons member rest ih =>
    rw [List.map_cons, get?_cons, get?_cons, ih]
    split <;> rfl

theorem mem_of_get? {fields : Fields} {key : Text} {v : Value} (h : fields.get? key = some v) :
    (key, v) ∈ fields := by
  obtain ⟨before, after, rfl, -⟩ := List.lookup_eq_some_iff.mp h
  exact List.mem_append_right before List.mem_cons_self

/-- An object has a member under each of its keys and no other. -/
theorem isSome_get? {fields : Fields} {key : Text} :
    (fields.get? key).isSome = true ↔ key ∈ fields.map Prod.fst := by
  rw [get?, List.lookup_isSome_iff, List.mem_map]
  constructor
  · rintro ⟨member, hmember, heq⟩
    exact ⟨member, hmember, (eq_of_beq heq).symm⟩
  · rintro ⟨member, hmember, rfl⟩
    exact ⟨member, hmember, beq_self_eq_true _⟩

end Rulebook.Fields
