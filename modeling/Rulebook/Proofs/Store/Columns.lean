import Rulebook.Proofs.Store.Chain

/-!
What columns take: the texts that are strings and the values that have a JSON text. What a value
leaves in a column of texts does not depend on the store (`Txn.cell_eq`).
-/
namespace Rulebook

open Txn

variable {s s' : Store}

/-! ## Texts -/

namespace Txn

theorem yields_encoded {t : Text} {a : String} :
    Yields (encoded t) s a s' ↔ t.string? = some a ∧ s' = s := by
  rw [encoded, yields_ofExcept, Text.encoded]
  cases t.string? with
  | none => simp
  | some b => simp

theorem encoded?_goes_through {t : Option Text} (h : ∀ u ∈ t, u.string?.isSome = true) :
    Yields (encoded? t) s (t.bind Text.string?) s := by
  cases t with
  | none => exact yields_pure.2 ⟨rfl, rfl⟩
  | some u =>
    obtain ⟨b, hb⟩ := Option.isSome_iff_exists.1 (h u rfl)
    refine yields_map.2 ⟨b, yields_encoded.2 ⟨hb, rfl⟩, ?_⟩
    exact hb

theorem fails_encoded {t : Text} {e : Failure} (h : Fails (encoded t) s e s') :
    e = .unencodable t ∧ s' = s := by
  unfold encoded Text.encoded at h
  cases ht : t.string? with
  | none =>
    rw [ht] at h
    exact fails_throw.1 h
  | some b =>
    rw [ht] at h
    exact absurd h not_fails_pure

theorem fails_encoded? {t : Option Text} {e : Failure} (h : Fails (encoded? t) s e s') :
    (∃ u, e = .unencodable u) ∧ s' = s := by
  cases t with
  | none => exact absurd h not_fails_pure
  | some u =>
    rcases fails_bind.1 (show Fails (encoded u >>= fun b => pure (some b)) s e s' from h) with
      h | ⟨_, _, -, h⟩
    · obtain ⟨he, hs⟩ := fails_encoded h
      exact ⟨⟨u, he⟩, hs⟩
    · exact absurd h not_fails_pure

theorem yields_column {i j : Int} : Yields (column i) s j s' ↔
    (-0x8000000000000000 ≤ i ∧ i < 0x8000000000000000) ∧ j = i ∧ s' = s := by
  unfold column
  split
  · next h =>
    rw [yields_pure]
    simpa using fun _ _ => by simpa using h
  · next h =>
    refine iff_of_false not_yields_throw fun hfits => h ?_
    simpa using hfits.1

theorem column_goes_through {i : Int} (h : -0x8000000000000000 ≤ i ∧ i < 0x8000000000000000) :
    Yields (column i) s i s :=
  yields_column.2 ⟨h, rfl, rfl⟩

theorem fails_column {i : Int} {e : Failure} (h : Fails (column i) s e s') :
    e = .integerTooWide ∧ s' = s := by
  unfold column at h
  split at h
  · exact absurd h not_fails_pure
  · exact fails_throw.1 h

theorem optionMapM_goes_through {α β : Type} {f : α → Txn β} {g : α → β} {x : Option α}
    (h : ∀ a ∈ x, Yields (f a) s (g a) s) : Yields (x.mapM f) s (x.map g) s := by
  cases x with
  | none => exact yields_pure.2 ⟨rfl, rfl⟩
  | some a => exact yields_map.2 ⟨g a, h a rfl, rfl⟩

/-! ## Outcomes that do not depend on the store -/

theorem ofExcept_bind {α β : Type} (r : Except Failure α) (f : α → Except Failure β) :
    (ofExcept r >>= fun a => ofExcept (f a)) = ofExcept (r >>= f) := by
  cases r <;> rfl

theorem listMapM_ofExcept {α β : Type} (f : α → Except Failure β) (xs : List α) :
    (xs.mapM fun x => ofExcept (f x)) = ofExcept (xs.mapM f) := by
  induction xs with
  | nil => rfl
  | cons x rest ih =>
    rw [List.mapM_cons, List.mapM_cons, ih, ← ofExcept_bind]
    refine bind_congr fun y => ?_
    rw [← ofExcept_bind]
    rfl

theorem listForM_ofExcept {α : Type} (f : α → Except Failure PUnit) (xs : List α) :
    (xs.forM fun x => ofExcept (f x)) = ofExcept (xs.forM f) := by
  induction xs with
  | nil => rfl
  | cons x rest ih =>
    show (ofExcept (f x) >>= fun _ => rest.forM fun x => ofExcept (f x)) = _
    rw [ih, ofExcept_bind]
    rfl

/-- Whether a column of JSON takes a value, whatever the store. -/
def jsonOf (v : Value) : Except Failure Unit :=
  if v.hasJson then .ok () else .error (.storage "value has no JSON")

theorem json_eq (v : Value) : json v = ofExcept (jsonOf v) := by
  unfold json jsonOf
  split
  · rfl
  · rfl

/-! ## Cells -/

/-- What a column of texts holds after a value has been put into it, whatever the store. -/
def cellOf : Value → Except Failure (Option String)
  | .null => .ok none
  | .text t => some <$> t.encoded
  | .bool b => .ok (some (if b then "1" else "0"))
  | .int i =>
    if -0x8000000000000000 ≤ i && i < 0x8000000000000000 then .ok (some (toString i))
    else .error .integerTooWide
  | .float x => .ok x.toRoundedText?
  | .date d => .ok (some d.toIsoText)
  | .moment m => .ok (some (m.toText ' '))
  | _ => .error (.storage "unsupported type")

theorem cell_eq (v : Value) : cell v = ofExcept (cellOf v) := by
  cases v with
  | text t =>
    show some <$> ofExcept t.encoded = ofExcept (some <$> t.encoded)
    cases t.encoded with
    | ok b => rfl
    | error e => rfl
  | int i =>
    show (column i >>= fun j => pure (some (toString j))) =
      ofExcept (if _ then _ else .error .integerTooWide)
    unfold column
    split
    · rfl
    · rfl
  | _ => rfl

theorem yields_cell {v : Value} {a : Option String} :
    Yields (cell v) s a s' ↔ cellOf v = .ok a ∧ s' = s := by
  rw [cell_eq, yields_ofExcept]

/-- A text that is put into a column is found there again. -/
theorem cellOf_text {t : Text} {a : Option String} (h : cellOf (.text t) = .ok a) :
    ∃ b, a = some b ∧ Text.ofString b = t := by
  change some <$> t.encoded = .ok a at h
  unfold Text.encoded at h
  cases ht : t.string? with
  | none => rw [ht] at h; cases h
  | some b =>
    rw [ht] at h
    cases h
    exact ⟨b, rfl, Text.ofString_of_string? ht⟩

end Txn

end Rulebook
