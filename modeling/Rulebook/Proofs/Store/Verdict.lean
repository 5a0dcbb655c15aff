import Rulebook.Proofs.Store.Columns
import Rulebook.Proofs.Store.Failing

/-!
Whether a transaction goes through. The verdict on a transaction is its outcome without the answer;
what is read off a verdict does not depend on identifiers and times, so transactions that only a
part of the store can stop have a verdict that is computed from that part.
-/
namespace Rulebook.Txn

variable {α β : Type} {s s' : Store} {x : Txn α}

/-- Whether a transaction goes through, and what it fails with if it does not. -/
def verdict (x : Txn α) (s : Store) : Except Failure Unit :=
  (x s : Except Failure α × Store).1.map fun _ => ()

theorem Yields.verdict {a : α} (h : Yields x s a s') : verdict x s = .ok () := by
  rw [Txn.verdict, show x s = _ from h]
  rfl

theorem Fails.verdict {e : Failure} (h : Fails x s e s') : verdict x s = .error e := by
  rw [Txn.verdict, show x s = _ from h]
  rfl

theorem verdict_eq_ok : verdict x s = .ok () ↔ ∃ a s', Yields x s a s' := by
  constructor
  · intro h
    rcases yields_or_fails x s with hyields | ⟨e, s', hfails⟩
    · exact hyields
    · rw [hfails.verdict] at h
      cases h
  · rintro ⟨a, s', h⟩
    exact h.verdict

theorem verdict_eq_error {e : Failure} : verdict x s = .error e ↔ ∃ s', Fails x s e s' := by
  constructor
  · intro h
    rcases yields_or_fails x s with ⟨a, s', hyields⟩ | ⟨d, s', hfails⟩
    · rw [hyields.verdict] at h
      cases h
    · rw [hfails.verdict] at h
      rw [← Except.error.inj h]
      exact ⟨s', hfails⟩
  · rintro ⟨s', h⟩
    exact h.verdict

/-- A transaction that leaves no trace of a failure fails on the spot. -/
theorem Undone.fails_of_verdict {e : Failure} (hx : Undone x) (h : verdict x s = .error e) :
    Fails x s e s := by
  obtain ⟨s', hfails⟩ := verdict_eq_error.1 h
  obtain rfl := hx.fails hfails
  exact hfails

/-! ## Binds -/

theorem verdict_ofExcept_bind (r : Except Failure α) (f : α → Txn β) :
    verdict (ofExcept r >>= f) s = r.bind fun a => verdict (f a) s := by
  cases r <;> rfl

/-- What goes through leaves the verdict to the rest. -/
theorem Yields.verdict_bind {a : α} {f : α → Txn β} (h : Yields x s a s') :
    Txn.verdict (x >>= f) s = Txn.verdict (f a) s' := by
  rw [Txn.verdict, h.run_bind, Txn.verdict]

theorem Fails.verdict_bind {e : Failure} {f : α → Txn β} (h : Fails x s e s') :
    Txn.verdict (x >>= f) s = .error e :=
  Fails.verdict (fails_bind.2 (Or.inl h))

/-- Where the rest has a verdict of its own, whatever is handed over to it. -/
theorem verdict_bind_const {f : α → Txn β} {v : Except Failure Unit}
    (h : ∀ a s', Yields x s a s' → verdict (f a) s' = v) :
    verdict (x >>= f) s = (verdict x s).bind fun _ => v := by
  rcases yields_or_fails x s with ⟨a, s', hx⟩ | ⟨e, s', hx⟩
  · rw [hx.verdict_bind, hx.verdict, h a s' hx]
    rfl
  · rw [hx.verdict_bind, hx.verdict]
    rfl

/-- Answering in other words does not change the verdict. -/
theorem verdict_bind_pure (f : α → β) : verdict (x >>= fun a => pure (f a)) s = verdict x s := by
  rcases yields_or_fails x s with ⟨a, s', hx⟩ | ⟨e, s', hx⟩
  · rw [hx.verdict_bind, hx.verdict]
    rfl
  · rw [hx.verdict_bind, hx.verdict]

theorem verdict_undoing (x : Txn α) : verdict (undoing x) s = verdict x s := by
  rw [verdict, run_undoing, verdict]
  rcases (x s : Except Failure α × Store) with ⟨_ | _, _⟩ <;> rfl

end Rulebook.Txn
