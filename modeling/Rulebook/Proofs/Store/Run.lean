import Rulebook.Proofs.Store.Rows
import Rulebook.Store.Column
import Rulebook.Store.View
import Rulebook.Store.Writes

/-!
Running transactions. `Yields body s a s'` says that `body` goes through on `s`, answers `a` and
leaves `s'`; a bind goes through exactly if both parts do (`yields_bind`), so what a transaction
does is read off by taking its binds apart. What it leaves when it may also fail on the way is
taken apart by `run_bind`.
-/
namespace Rulebook

/-- What the next new row of a tenant starts with. -/
def Store.nextRow (s : Store) (tenant : Uuid) : Row :=
  { id := ⟨s.nextId⟩, tenant, createdAt := s.clock, updatedAt := s.clock.next }

/-- The store once that row has its identifier and its times. -/
def Store.pastRow (s : Store) : Store :=
  { s with nextId := s.nextId + 1, clock := s.clock.next.next }

namespace Txn

variable {α β : Type} {s s' s'' : Store} {a : α} {b : β}

/-- `body` goes through on `s`, answers `a` and leaves `s'`. -/
def Yields (body : Txn α) (s : Store) (a : α) (s' : Store) : Prop :=
  (body s : Except Failure α × Store) = (.ok a, s')

/-! ## The steps of a transaction -/

theorem run_bind (x : Txn α) (f : α → Txn β) (s : Store) :
    (x >>= f) s = match x s with
      | (.ok a, s') => f a s'
      | (.error e, s') => (.error e, s') := by
  show (match x s with
    | (r, s') => ExceptT.bindCont f r s') = _
  rcases x s with ⟨_ | _, _⟩ <;> rfl

/-- What goes through hands over to the rest. -/
theorem Yields.run_bind {x : Txn α} {f : α → Txn β} (h : Yields x s a s') :
    (x >>= f) s = f a s' := by
  rw [Txn.run_bind, show x s = _ from h]

/-- A transaction goes through in one way only. -/
theorem Yields.unique {x : Txn α} {b : α} (h : Yields x s a s') (h' : Yields x s b s'') :
    b = a ∧ s'' = s' := by
  have hrun : ((.ok a, s') : Except Failure α × Store) = (.ok b, s'') := h.symm.trans h'
  obtain ⟨hanswer, hstore⟩ := Prod.mk.inj hrun
  exact ⟨(Except.ok.inj hanswer).symm, hstore.symm⟩

/-- Two ways to go on that agree where the first part goes through are one. -/
theorem run_bind_congr {x : Txn α} {f g : α → Txn β}
    (h : ∀ a s', Yields x s a s' → (f a s' : Except Failure β × Store) = g a s') :
    ((x >>= f) s : Except Failure β × Store) = (x >>= g) s := by
  rw [run_bind, run_bind]
  rcases hx : (x s : Except Failure α × Store) with ⟨e | a, s'⟩
  · rfl
  · exact h a s' hx

/-- Two first parts that do the same may stand for each other. -/
theorem run_bind_congr_left {x y : Txn α} {f : α → Txn β}
    (h : (x s : Except Failure α × Store) = y s) :
    ((x >>= f) s : Except Failure β × Store) = (y >>= f) s := by
  rw [run_bind, run_bind, h]

theorem run_map_congr {x y : Txn α} (f : α → β) (h : (x s : Except Failure α × Store) = y s) :
    ((f <$> x) s : Except Failure β × Store) = (f <$> y) s :=
  run_bind_congr_left (f := fun a => pure (f a)) h

/-- A computed answer shows that a transaction goes through. -/
theorem yields_of_answer {x : Txn α} {f : α → β}
    (h : (x s : Except Failure α × Store).1.toOption.map f = some b) :
    ∃ a s', Yields x s a s' ∧ f a = b := by
  rcases hx : (x s : Except Failure α × Store) with ⟨e | a, s'⟩ <;> rw [hx] at h
  · cases h
  · exact ⟨a, s', hx, Option.some.inj h⟩

theorem yields_bind {x : Txn α} {f : α → Txn β} :
    Yields (x >>= f) s b s'' ↔ ∃ a s', Yields x s a s' ∧ Yields (f a) s' b s'' := by
  simp only [Yields, run_bind]
  constructor
  · intro h
    rcases hx : x s with ⟨e | a, s'⟩ <;> rw [hx] at h
    · cases h
    · exact ⟨a, s', rfl, h⟩
  · rintro ⟨a, s', hx, hf⟩
    rw [hx]
    exact hf

theorem yields_pure {c : α} : Yields (pure c) s a s' ↔ a = c ∧ s' = s := by
  constructor
  · intro h
    cases h
    exact ⟨rfl, rfl⟩
  · rintro ⟨rfl, rfl⟩
    rfl

theorem not_yields_throw {e : Failure} : ¬ Yields (throw e : Txn α) s a s' := by
  intro h
  cases h

theorem yields_get {t : Store} : Yields get s t s' ↔ t = s ∧ s' = s := by
  constructor
  · intro h
    cases h
    exact ⟨rfl, rfl⟩
  · rintro ⟨rfl, rfl⟩
    rfl

theorem yields_modify {f : Store → Store} {u : Unit} : Yields (modify f) s u s' ↔ s' = f s := by
  constructor
  · intro h
    cases h
    rfl
  · rintro rfl
    rfl

theorem yields_map {f : α → β} {x : Txn α} :
    Yields (f <$> x) s b s' ↔ ∃ a, Yields x s a s' ∧ b = f a := by
  show Yields (x >>= fun a => pure (f a)) s b s' ↔ _
  simp only [yields_bind, yields_pure]
  constructor
  · rintro ⟨a, _, hx, rfl, rfl⟩
    exact ⟨a, hx, rfl⟩
  · rintro ⟨a, hx, rfl⟩
    exact ⟨a, _, hx, rfl, rfl⟩

theorem yields_discard {x : Txn α} {u : Unit} :
    Yields (discard x) s u s' ↔ ∃ a, Yields x s a s' := by
  show Yields ((fun _ => ()) <$> x) s u s' ↔ _
  simp [yields_map]

theorem yields_ofExcept {r : Except Failure α} :
    Yields (ofExcept r) s a s' ↔ r = .ok a ∧ s' = s := by
  cases r with
  | ok c =>
    rw [ofExcept, yields_pure]
    constructor
    · rintro ⟨rfl, rfl⟩
      exact ⟨rfl, rfl⟩
    · rintro ⟨h, rfl⟩
      cases h
      exact ⟨rfl, rfl⟩
  | error e =>
    simp only [ofExcept, not_yields_throw, false_iff]
    rintro ⟨h, _⟩
    cases h

theorem yields_ofFault {r : Except Fault α} :
    Yields (ofFault r) s a s' ↔ r = .ok a ∧ s' = s := by
  rw [ofFault, yields_ofExcept]
  cases r <;> simp [Except.mapError]

theorem run_undoing (body : Txn α) (s : Store) :
    undoing body s = match body s with
      | (.ok a, s') => (.ok a, s')
      | (.error e, _) => (.error e, s) := rfl

/-- What would be taken back on failure goes through as the body does. -/
theorem yields_undoing {body : Txn α} : Yields (undoing body) s a s' ↔ Yields body s a s' := by
  rw [Yields, Yields, run_undoing]
  rcases body s with ⟨_ | _, _⟩
  · constructor <;> rintro ⟨⟩
  · exact Iff.rfl

theorem run_tryCatch (x : Txn α) (f : Failure → Txn α) (s : Store) :
    (tryCatch x f : Txn α) s = match x s with
      | (.ok a, s') => (.ok a, s')
      | (.error e, s') => f e s' := by
  simp only [tryCatch, tryCatchThe, MonadExceptOf.tryCatch, ExceptT.tryCatch, ExceptT.mk, bind,
    StateT.bind]
  rcases x s with ⟨_ | _, _⟩ <;> rfl

theorem yields_tryCatch {x : Txn α} {f : Failure → Txn α} :
    Yields (tryCatch x f) s a s' ↔
      Yields x s a s' ∨ ∃ e t, x s = (.error e, t) ∧ Yields (f e) t a s' := by
  rw [Yields, run_tryCatch]
  constructor
  · intro h
    rcases hx : x s with ⟨e | c, t⟩ <;> rw [hx] at h
    · exact Or.inr ⟨e, t, rfl, h⟩
    · exact Or.inl (hx.trans h)
  · rintro (h | ⟨e, t, hx, h⟩)
    · rw [show x s = (.ok a, s') from h]
    · rw [hx]
      exact h

/-- A condition that is refused by failing holds not where the transaction goes through. -/
theorem yields_guard {p : Prop} [Decidable p] {e : Failure} {f : PUnit → Txn α} {rest : Txn α} :
    Yields (if p then (throw e : Txn PUnit) >>= f else rest) s a s' ↔
      ¬ p ∧ Yields rest s a s' := by
  split
  · next hp =>
    simp only [yields_bind, not_yields_throw, false_and, exists_false, hp, not_true_eq_false]
  · next hp => simp only [hp, not_false_eq_true, true_and]

/-! ## Clock, identifiers and look-ups -/

theorem yields_now {t : Instant} :
    Yields now s t s' ↔ t = s.clock ∧ s' = { s with clock := s.clock.next } := by
  constructor
  · intro h
    cases h
    exact ⟨rfl, rfl⟩
  · rintro ⟨rfl, rfl⟩
    rfl

theorem yields_own [Stored α] {kind : RowKind} {rows : Store → List α} {tenant id : Uuid} :
    Yields (own kind rows tenant id) s a s' ↔ findOwn (rows s) tenant id = some a ∧ s' = s := by
  rw [own, yields_bind]
  simp only [yields_get]
  constructor
  · rintro ⟨_, _, ⟨rfl, rfl⟩, h⟩
    split at h
    · next r hr =>
      obtain ⟨rfl, rfl⟩ := yields_pure.1 h
      exact ⟨hr, rfl⟩
    · exact absurd h not_yields_throw
  · rintro ⟨h, rfl⟩
    refine ⟨_, _, ⟨rfl, rfl⟩, ?_⟩
    rw [h]
    exact yields_pure.2 ⟨rfl, rfl⟩

/-! ## Binds that start with reading -/

theorem yields_get_bind {f : Store → Txn β} :
    Yields (get >>= f) s b s'' ↔ Yields (f s) s b s'' := by
  rw [yields_bind]
  constructor
  · rintro ⟨_, _, hget, h⟩
    obtain ⟨rfl, rfl⟩ := yields_get.1 hget
    exact h
  · intro h
    exact ⟨s, s, yields_get.2 ⟨rfl, rfl⟩, h⟩

theorem yields_own_bind [Stored α] {kind : RowKind} {rows : Store → List α} {tenant id : Uuid}
    {f : α → Txn β} :
    Yields (own kind rows tenant id >>= f) s b s'' ↔
      ∃ r, findOwn (rows s) tenant id = some r ∧ Yields (f r) s b s'' := by
  rw [yields_bind]
  constructor
  · rintro ⟨r, _, hown, h⟩
    obtain ⟨hfound, rfl⟩ := yields_own.1 hown
    exact ⟨r, hfound, h⟩
  · rintro ⟨r, hfound, h⟩
    exact ⟨r, s, yields_own.2 ⟨hfound, rfl⟩, h⟩

theorem yields_now_bind {f : Instant → Txn β} :
    Yields (now >>= f) s b s'' ↔
      Yields (f s.clock) { s with clock := s.clock.next } b s'' := Iff.rfl

theorem yields_newRow_bind {tenant : Uuid} {f : Row → Txn β} :
    Yields (newRow tenant >>= f) s b s'' ↔ Yields (f (s.nextRow tenant)) s.pastRow b s'' := Iff.rfl

/-! ## Failing -/

/-- `body` fails on `s` with `e` and leaves `s'`. -/
def Fails (body : Txn α) (s : Store) (e : Failure) (s' : Store) : Prop :=
  (body s : Except Failure α × Store) = (.error e, s')

variable {e d : Failure}

theorem yields_or_fails (x : Txn α) (s : Store) :
    (∃ a s', Yields x s a s') ∨ ∃ e s', Fails x s e s' := by
  rcases h : (x s : Except Failure α × Store) with ⟨e | a, s'⟩
  · exact Or.inr ⟨e, s', h⟩
  · exact Or.inl ⟨a, s', h⟩

theorem fails_bind {x : Txn α} {f : α → Txn β} :
    Fails (x >>= f) s e s'' ↔ Fails x s e s'' ∨ ∃ a s', Yields x s a s' ∧ Fails (f a) s' e s'' := by
  simp only [Fails, Yields, run_bind]
  constructor
  · intro h
    rcases hx : x s with ⟨d | a, s'⟩ <;> rw [hx] at h
    · cases h
      exact Or.inl rfl
    · exact Or.inr ⟨a, s', rfl, h⟩
  · rintro (hx | ⟨a, s', hx, hf⟩)
    · rw [hx]
    · rw [hx]
      exact hf

theorem not_fails_pure {c : α} : ¬ Fails (pure c) s e s' := by
  intro h
  cases h

theorem fails_throw : Fails (throw d : Txn α) s e s' ↔ e = d ∧ s' = s := by
  constructor
  · intro h
    cases h
    exact ⟨rfl, rfl⟩
  · rintro ⟨rfl, rfl⟩
    rfl

theorem not_fails_yields {x : Txn α} (h : Yields x s a s') : ¬ Fails x s e s'' := by
  intro hfails
  have hboth := (show x s = _ from h).symm.trans hfails
  cases hboth

theorem fails_guard {p : Prop} [Decidable p] {f : PUnit → Txn α} {rest : Txn α} :
    Fails (if p then (throw d : Txn PUnit) >>= f else rest) s e s' ↔
      (p ∧ e = d ∧ s' = s) ∨ (¬ p ∧ Fails rest s e s') := by
  split
  · next hp =>
    have hthrow : Fails ((throw d : Txn PUnit) >>= f) s e s' ↔ e = d ∧ s' = s := by
      rw [fails_bind, fails_throw]
      simp only [not_yields_throw, false_and, exists_false, or_false]
    rw [hthrow]
    simp only [hp, true_and, not_true_eq_false, false_and, or_false]
  · next hp => simp only [hp, false_and, not_false_eq_true, true_and, false_or]

theorem fails_own [Stored α] {kind : RowKind} {rows : Store → List α} {tenant id : Uuid} :
    Fails (own kind rows tenant id) s e s' ↔
      findOwn (rows s) tenant id = none ∧ e = .notFound kind id ∧ s' = s := by
  rw [own, fails_bind]
  constructor
  · rintro (h | ⟨t, u, hget, h⟩)
    · cases h
    · obtain ⟨rfl, rfl⟩ := yields_get.1 hget
      split at h
      · exact absurd h not_fails_pure
      · next hnone =>
        obtain ⟨rfl, rfl⟩ := fails_throw.1 h
        exact ⟨hnone, rfl, rfl⟩
  · rintro ⟨hnone, rfl, rfl⟩
    refine Or.inr ⟨_, _, yields_get.2 ⟨rfl, rfl⟩, ?_⟩
    rw [hnone]
    exact fails_throw.2 ⟨rfl, rfl⟩

theorem fails_own_bind [Stored α] {kind : RowKind} {rows : Store → List α} {tenant id : Uuid}
    {f : α → Txn β} :
    Fails (own kind rows tenant id >>= f) s e s' ↔
      (findOwn (rows s) tenant id = none ∧ e = .notFound kind id ∧ s' = s) ∨
        ∃ r, findOwn (rows s) tenant id = some r ∧ Fails (f r) s e s' := by
  rw [fails_bind, fails_own]
  refine or_congr_right ?_
  constructor
  · rintro ⟨r, t, hown, h⟩
    obtain ⟨hfound, rfl⟩ := yields_own.1 hown
    exact ⟨r, hfound, h⟩
  · rintro ⟨r, hfound, h⟩
    exact ⟨r, s, yields_own.2 ⟨hfound, rfl⟩, h⟩

theorem fails_ofExcept {r : Except Failure α} :
    Fails (ofExcept r) s e s' ↔ r = .error e ∧ s' = s := by
  cases r with
  | ok a => exact iff_of_false not_fails_pure fun h => by cases h.1
  | error d =>
    rw [ofExcept, fails_throw, Except.error.injEq, eq_comm]

theorem fails_discard {x : Txn α} : Fails (discard x) s e s' ↔ Fails x s e s' := by
  show Fails (x >>= fun _ => pure ()) s e s' ↔ _
  rw [fails_bind]
  simp only [not_fails_pure, and_false, exists_false, or_false]

theorem fails_get_bind {f : Store → Txn α} :
    Fails (get >>= f) s e s' ↔ Fails (f s) s e s' := Iff.rfl

theorem fails_newRow_bind {tenant : Uuid} {f : Row → Txn α} :
    Fails (newRow tenant >>= f) s e s' ↔ Fails (f (s.nextRow tenant)) s.pastRow e s' := Iff.rfl

end Txn

end Rulebook
