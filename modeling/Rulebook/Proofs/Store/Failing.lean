import Rulebook.Proofs.Results
import Rulebook.Proofs.Store.Columns

/-!
What transactions fail with. `FailsAs p x` says that `x` fails only with failures that `p` admits;
like `Reads` it is carried through binds, so the failures of a transaction are those of its parts.
-/
namespace Rulebook

variable {α β : Type} {s s' : Store} {p : Failure → Prop} {e : Failure}

namespace Txn

/-! ## Kinds of failure -/

/-- Whatever `x` fails with is admitted. -/
def FailsAs (p : Failure → Prop) (x : Txn α) : Prop := ∀ ⦃s e s'⦄, Fails x s e s' → p e

theorem failsAs_pure (a : α) : FailsAs p (pure a : Txn α) := fun _ _ _ h => absurd h not_fails_pure

theorem failsAs_throw (h : p e) : FailsAs p (throw e : Txn α) := by
  intro s d s' hfails
  obtain ⟨rfl, -⟩ := fails_throw.1 hfails
  exact h

theorem FailsAs.bind {x : Txn α} {f : α → Txn β} (hx : FailsAs p x) (hf : ∀ a, FailsAs p (f a)) :
    FailsAs p (x >>= f) := by
  intro s e s' h
  rcases fails_bind.1 h with h | ⟨a, t, -, h⟩
  · exact hx h
  · exact hf a h

theorem failsAs_get : FailsAs p (get : Txn Store) := by
  intro s e s' h
  cases h

theorem failsAs_modify (f : Store → Store) : FailsAs p (modify f : Txn PUnit) := by
  intro s e s' h
  cases h

theorem failsAs_newRow (tenant : Uuid) : FailsAs p (newRow tenant) := by
  intro s e s' h
  cases h

theorem failsAs_ofExcept {r : Except Failure α} (h : ∀ e, r = .error e → p e) :
    FailsAs p (ofExcept r) := by
  cases r with
  | ok a => exact failsAs_pure a
  | error e => exact failsAs_throw (h e rfl)

theorem failsAs_guard {q : Prop} [Decidable q] {f : PUnit → Txn α} {rest : Txn α} (he : p e)
    (hrest : FailsAs p rest) :
    FailsAs p (if q then (throw e : Txn PUnit) >>= f else rest) := by
  intro s d s' h
  rcases fails_guard.1 h with ⟨-, rfl, -⟩ | ⟨-, h⟩
  · exact he
  · exact hrest h

theorem failsAs_listForM {f : α → Txn PUnit} (hf : ∀ a, FailsAs p (f a)) (xs : List α) :
    FailsAs p (xs.forM f) := by
  induction xs with
  | nil => exact failsAs_pure _
  | cons x xs ih => exact (hf x).bind fun _ => ih

theorem failsAs_listMapM {f : α → Txn β} (hf : ∀ a, FailsAs p (f a)) (xs : List α) :
    FailsAs p (xs.mapM f) := by
  induction xs with
  | nil => exact failsAs_pure _
  | cons x xs ih =>
    rw [List.mapM_cons]
    exact (hf x).bind fun _ => ih.bind fun _ => failsAs_pure _

theorem fails_undoing {x : Txn α} (h : Fails (undoing x) s e s') :
    s' = s ∧ ∃ t, Fails x s e t := by
  unfold Fails at h
  rw [run_undoing] at h
  rcases hx : x s with ⟨d | a, t⟩ <;> rw [hx] at h
  · cases h
    exact ⟨rfl, t, hx⟩
  · cases h

theorem fails_tryCatch {x : Txn α} {f : Failure → Txn α} :
    Fails (tryCatch x f) s e s' ↔ ∃ d t, Fails x s d t ∧ Fails (f d) t e s' := by
  unfold Fails
  rw [run_tryCatch]
  constructor
  · intro h
    rcases hx : x s with ⟨d | a, t⟩ <;> rw [hx] at h
    · exact ⟨d, t, rfl, h⟩
    · cases h
  · rintro ⟨d, t, hx, h⟩
    rw [hx]
    exact h

end Txn

/-! ## Reports of duplicates -/

/-- A failure that is not the report of a duplicate. -/
def Failure.NoDuplicate (e : Failure) : Prop := ∀ key, e ≠ .duplicateFinding key

namespace Txn

theorem noDuplicate_cellOf {v : Value} (h : cellOf v = .error e) : e.NoDuplicate := by
  intro key he
  rw [he] at h
  cases v with
  | text t =>
    change some <$> t.encoded = _ at h
    unfold Text.encoded at h
    cases ht : t.string? with
    | none => rw [ht] at h; cases h
    | some b => rw [ht] at h; cases h
  | int i =>
    change (if _ then _ else _ : Except Failure (Option String)) = _ at h
    split at h <;> cases h
  | _ => cases h

theorem failsAs_encoded (t : Text) : FailsAs Failure.NoDuplicate (encoded t) := by
  intro s e s' h key he
  rw [(fails_encoded h).1] at he
  cases he

theorem failsAs_json (h : p (.storage "value has no JSON")) (v : Value) : FailsAs p (json v) := by
  unfold json
  split
  · exact failsAs_pure ()
  · exact failsAs_throw h

theorem failsAs_cell (v : Value) : FailsAs Failure.NoDuplicate (cell v) := by
  rw [cell_eq]
  exact failsAs_ofExcept fun _ => noDuplicate_cellOf

end Txn

end Rulebook
