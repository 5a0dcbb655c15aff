import Rulebook.Proofs.Store.Columns
import Rulebook.Proofs.Tenancy.Twins

/-!
Two runs side by side. `Mirrors rename x y s t` says that `y` on `t` does what `x` on `s` does, as
one tenant sees it: it fails alike or gives the renamed answer, the stores are twins again, and of
what the other tenants hold nothing has changed. Transactions of a tenant are mirrored by themselves
on every twin, and this follows them bind by bind, failures and what is undone included.
-/
namespace Rulebook.Txn

variable {α β : Type} {ρ : Uuid → Uuid} {A : Uuid} {F : α → α} {G : β → β} {s t : Store}

/-! ## Transactions that do not look -/

/-- The outcome does not depend on the store, which stays as it is. -/
def Blind (x : Txn α) : Prop := ∃ r, x = ofExcept r

theorem blind_ofExcept (r : Except Failure α) : Blind (ofExcept r) := ⟨r, rfl⟩

theorem blind_ofFault (r : Except Fault α) : Blind (ofFault r) := blind_ofExcept _

theorem blind_pure (a : α) : Blind (pure a) := ⟨.ok a, rfl⟩

theorem blind_throw (e : Failure) : Blind (throw e : Txn α) := ⟨.error e, rfl⟩

theorem Blind.bind {x : Txn α} {f : α → Txn β} (hx : Blind x) (hf : ∀ a, Blind (f a)) :
    Blind (x >>= f) := by
  obtain ⟨r, rfl⟩ := hx
  cases r with
  | ok a =>
    rw [ofExcept, pure_bind]
    exact hf a
  | error e => exact ⟨.error e, rfl⟩

theorem Blind.map {x : Txn α} (hx : Blind x) (f : α → β) : Blind (f <$> x) := by
  rw [← bind_pure_comp]
  exact hx.bind fun a => blind_pure (f a)

theorem Blind.discard {x : Txn α} (hx : Blind x) : Blind (discard x) := hx.map _

theorem blind_encoded (u : Text) : Blind (encoded u) := blind_ofExcept _

theorem blind_encoded? (u : Option Text) : Blind (encoded? u) := by
  cases u with
  | none => exact blind_pure none
  | some u => exact (blind_encoded u).map some

theorem blind_column (i : Int) : Blind (column i) := by
  unfold column
  split
  · exact blind_pure i
  · exact blind_throw _

theorem blind_cell (v : Value) : Blind (cell v) := ⟨cellOf v, cell_eq v⟩

theorem blind_json (v : Value) : Blind (json v) := ⟨jsonOf v, json_eq v⟩

theorem blind_optionForM {f : α → Txn PUnit} (hf : ∀ a, Blind (f a)) (x : Option α) :
    Blind (x.forM f) := by
  cases x with
  | none => exact blind_pure _
  | some a => exact hf a

theorem blind_optionMapM {f : α → Txn β} (hf : ∀ a, Blind (f a)) (x : Option α) :
    Blind (x.mapM f) := by
  cases x with
  | none => exact blind_pure none
  | some a => exact (hf a).map some

theorem blind_listForM {f : α → Txn PUnit} (hf : ∀ a, Blind (f a)) (xs : List α) :
    Blind (xs.forM f) := by
  induction xs with
  | nil => exact blind_pure _
  | cons x xs ih => exact (hf x).bind fun _ => ih

/-! ## Mirrored transactions -/

/-- To a tenant, `y` does to `t` what `x` does to `s`, and no other tenant is touched. -/
structure Mirrors (ρ : Uuid → Uuid) (A : Uuid) (rename : α → α) (x y : Txn α) (s t : Store) :
    Prop where
  answer : (y t : Except Failure α × Store).1 = (x s).1.map rename
  twins : (x s).2.Twins ρ A (y t).2
  spares : ∀ B, B ≠ A → (x s).2.holdings B = s.holdings B

namespace Mirrors

variable {x y : Txn α}

/-! ## Outcomes -/

/-- Both go through, or both fail with the same failure. -/
theorem outcomes (h : Mirrors ρ A F x y s t) :
    (∃ a s' t', Yields x s a s' ∧ Yields y t (F a) t' ∧ s'.Twins ρ A t' ∧
        ∀ B, B ≠ A → s'.holdings B = s.holdings B) ∨
      ∃ e s' t', Fails x s e s' ∧ Fails y t e t' ∧ s'.Twins ρ A t' ∧
        ∀ B, B ≠ A → s'.holdings B = s.holdings B := by
  obtain ⟨hanswer, htwins, hspares⟩ := h
  rcases hx : (x s : Except Failure α × Store) with ⟨r, s'⟩
  rcases hy : (y t : Except Failure α × Store) with ⟨q, t'⟩
  rw [hx, hy] at hanswer htwins
  rw [hx] at hspares
  obtain rfl : q = r.map F := hanswer
  cases r with
  | ok a => exact Or.inl ⟨a, s', t', hx, hy, htwins, hspares⟩
  | error e => exact Or.inr ⟨e, s', t', hx, hy, htwins, hspares⟩

theorem of_runs {r : Except Failure α} {s' t' : Store}
    (hx : x s = ((r, s') : Except Failure α × Store))
    (hy : y t = ((r.map F, t') : Except Failure α × Store)) (htwins : s'.Twins ρ A t')
    (hspares : ∀ B, B ≠ A → s'.holdings B = s.holdings B) : Mirrors ρ A F x y s t := by
  refine ⟨?_, ?_, ?_⟩
  · rw [hx, hy]
  · rw [hx, hy]
    exact htwins
  · rw [hx]
    exact hspares

/-- What the rest does, from where it sets in. -/
theorem of_rest {x' y' : Txn α} {s' t' : Store} (h : Mirrors ρ A F x' y' s' t')
    (hx : (x s : Except Failure α × Store) = x' s') (hy : (y t : Except Failure α × Store) = y' t')
    (hspares : ∀ B, B ≠ A → s'.holdings B = s.holdings B) : Mirrors ρ A F x y s t := by
  refine ⟨?_, ?_, fun B hB => ?_⟩
  · rw [hx, hy]
    exact h.answer
  · rw [hx, hy]
    exact h.twins
  · rw [hx]
    exact (h.spares B hB).trans (hspares B hB)

theorem pure {a b : α} (h : s.Twins ρ A t) (hb : b = F a) :
    Mirrors ρ A F (pure a) (pure b) s t := by
  rw [hb]
  exact of_runs (r := .ok a) rfl rfl h fun _ _ => rfl

theorem throw {e : Failure} (h : s.Twins ρ A t) : Mirrors ρ A F (throw e) (throw e) s t :=
  of_runs (r := .error e) rfl rfl h fun _ _ => rfl

theorem ofExcept {r q : Except Failure α} (h : s.Twins ρ A t) (hq : q = r.map F) :
    Mirrors ρ A F (ofExcept r) (ofExcept q) s t := by
  rw [hq]
  cases r with
  | ok a => exact pure h rfl
  | error e => exact throw h

/-! ## Binds -/

theorem bind {f g : α → Txn β} (hxy : Mirrors ρ A F x y s t)
    (hf : ∀ a s' t', Yields x s a s' → s'.Twins ρ A t' →
      Mirrors ρ A G (f a) (g (F a)) s' t') :
    Mirrors ρ A G (x >>= f) (y >>= g) s t := by
  rcases hxy.outcomes with ⟨a, s', t', hx, hy, h, hspares⟩ | ⟨e, s', t', hx, hy, h, hspares⟩
  · exact (hf a s' t' hx h).of_rest hx.run_bind hy.run_bind hspares
  · exact of_runs (r := .error e) (fails_bind.2 (Or.inl hx)) (fails_bind.2 (Or.inl hy)) h hspares

theorem map {f : α → β} (hx : Mirrors ρ A F x y s t) (hf : ∀ a, f (F a) = G (f a)) :
    Mirrors ρ A G (f <$> x) (f <$> y) s t :=
  show Mirrors ρ A G (x >>= fun a => Pure.pure (f a)) (y >>= fun a => Pure.pure (f a)) s t from
    hx.bind fun a _ _ _ h => pure h (hf a)

theorem discard (hx : Mirrors ρ A F x y s t) : Mirrors ρ A id (discard x) (discard y) s t :=
  hx.map fun _ => rfl

theorem get_bind {f g : Store → Txn β} (h : Mirrors ρ A G (f s) (g t) s t) :
    Mirrors ρ A G (get >>= f) (get >>= g) s t :=
  h.of_rest rfl rfl fun _ _ => rfl

/-- Clocks are read alike. -/
theorem now_bind {f g : Instant → Txn β} (h : s.Twins ρ A t)
    (hf : Mirrors ρ A G (f s.clock) (g s.clock) { s with clock := s.clock.next }
      { t with clock := t.clock.next }) :
    Mirrors ρ A G (now >>= f) (now >>= g) s t :=
  hf.of_rest rfl (congrArg (fun c => g c { t with clock := t.clock.next }) h.clock) fun _ _ => rfl

/-- New rows get the same times, and identifiers that belong together. -/
theorem newRow_bind {f g : Row → Txn β} (h : s.Twins ρ A t)
    (hf : Mirrors ρ A G (f (s.nextRow A)) (g { s.nextRow A with id := ρ (s.nextRow A).id })
      s.pastRow t.pastRow) :
    Mirrors ρ A G (newRow A >>= f) (newRow A >>= g) s t :=
  hf.of_rest rfl (congrArg (fun row => g row t.pastRow) h.nextRow) fun _ _ => rfl

theorem today_bind {f g : Date → Txn β} (h : s.Twins ρ A t)
    (hf : Mirrors ρ A G (f s.clock.date) (g s.clock.date) s t) :
    Mirrors ρ A G (today >>= f) (today >>= g) s t :=
  hf.of_rest rfl (congrArg (fun c : Instant => g c.date t) h.clock) fun _ _ => rfl

/-- What does not depend on the store is left to what follows. -/
theorem blind_bind {f g : α → Txn β} (h : s.Twins ρ A t) (hx : Blind x)
    (hf : ∀ a, Yields x s a s → Mirrors ρ A G (f a) (g a) s t) :
    Mirrors ρ A G (x >>= f) (x >>= g) s t := by
  obtain ⟨r, rfl⟩ := hx
  cases r with
  | ok a => exact (hf a (yields_pure.2 ⟨rfl, rfl⟩)).of_rest rfl rfl fun _ _ => rfl
  | error e => exact of_runs (r := .error e) rfl rfl h fun _ _ => rfl

/-- Rows that are found alike, or missed under one name. -/
theorem own_bind [Stored α] {kind : RowKind} {rows : Store → List α} {id id' : Uuid}
    {f g : α → Txn β} (h : s.Twins ρ A t)
    (hfind : findOwn (rows t) A id' = (findOwn (rows s) A id).map F)
    (hname : findOwn (rows s) A id = none → id' = id)
    (hf : ∀ r, findOwn (rows s) A id = some r → Mirrors ρ A G (f r) (g (F r)) s t) :
    Mirrors ρ A G (own kind rows A id >>= f) (own kind rows A id' >>= g) s t := by
  cases hfound : findOwn (rows s) A id with
  | none =>
    rw [hfound] at hfind
    rw [hname hfound] at hfind ⊢
    refine of_runs (r := .error (.notFound kind id)) ?_ ?_ h fun _ _ => rfl
    · exact fails_own_bind.2 (Or.inl ⟨hfound, rfl, rfl⟩)
    · exact fails_own_bind.2 (Or.inl ⟨hfind, rfl, rfl⟩)
  | some r =>
    rw [hfound] at hfind
    have hx : Yields (own kind rows A id) s r s := yields_own.2 ⟨hfound, rfl⟩
    have hy : Yields (own kind rows A id') t (F r) t := yields_own.2 ⟨hfind, rfl⟩
    exact (hf r hfound).of_rest hx.run_bind hy.run_bind fun _ _ => rfl

/-! ## Choices -/

theorem ite {p q : Prop} [Decidable p] [Decidable q] {x' y' : Txn α} (hpq : q ↔ p)
    (hthen : p → Mirrors ρ A F x y s t) (helse : ¬ p → Mirrors ρ A F x' y' s t) :
    Mirrors ρ A F (if p then x else x') (if q then y else y') s t := by
  by_cases hp : p
  · rw [if_pos hp, if_pos (hpq.2 hp)]
    exact hthen hp
  · rw [if_neg hp, if_neg fun hq => hp (hpq.1 hq)]
    exact helse hp

theorem guard {p q : Prop} [Decidable p] [Decidable q] {e : Failure} {f g : PUnit → Txn α}
    (h : s.Twins ρ A t) (hpq : q ↔ p) (hrest : ¬ p → Mirrors ρ A F x y s t) :
    Mirrors ρ A F (if p then (MonadExcept.throw e : Txn PUnit) >>= f else x)
      (if q then (MonadExcept.throw e : Txn PUnit) >>= g else y) s t :=
  ite hpq (fun _ => of_runs (r := .error e) rfl rfl h fun _ _ => rfl) hrest

/-! ## Failures taken back and caught -/

theorem undoing (h : s.Twins ρ A t) (hxy : Mirrors ρ A F x y s t) :
    Mirrors ρ A F (undoing x) (undoing y) s t := by
  rcases hxy.outcomes with ⟨a, s', t', hx, hy, h', hspares⟩ | ⟨e, s', t', hx, hy, -, -⟩
  · exact of_runs (r := .ok a) (yields_undoing.2 hx) (yields_undoing.2 hy) h' hspares
  · refine of_runs (r := .error e) ?_ ?_ h fun _ _ => rfl
    · rw [run_undoing, show x s = _ from hx]
    · rw [run_undoing, show y t = _ from hy]
      rfl

theorem tryCatch {f g : Failure → Txn α} (hxy : Mirrors ρ A F x y s t)
    (hf : ∀ e s' t', Fails x s e s' → s'.Twins ρ A t' → Mirrors ρ A F (f e) (g e) s' t') :
    Mirrors ρ A F (tryCatch x f) (tryCatch y g) s t := by
  rcases hxy.outcomes with ⟨a, s', t', hx, hy, h, hspares⟩ | ⟨e, s', t', hx, hy, h, hspares⟩
  · exact of_runs (r := .ok a) (yields_tryCatch.2 (Or.inl hx)) (yields_tryCatch.2 (Or.inl hy)) h
      hspares
  · refine (hf e s' t' hx h).of_rest ?_ ?_ hspares
    · rw [run_tryCatch, show x s = _ from hx]
    · rw [run_tryCatch, show y t = _ from hy]

end Mirrors

end Rulebook.Txn
