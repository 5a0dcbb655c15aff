import Mathlib.Order.Defs.Unbundled
import Rulebook.Proofs.Store.Chain

/-!
What holds whatever the outcome. `Within R body` says that `R` relates every store to what `body`
leaves of it, where it fails as well as where it goes through. For a preorder this follows a
transaction bind by bind, without a look at what the parts answer, so a relation on stores needs one
lemma for each write and next to none for each call.
-/
namespace Rulebook

/-- What is read off a store is as it was. -/
def Store.Keeps {α : Type} (read : Store → α) (s s' : Store) : Prop := read s' = read s

instance {α : Type} (read : Store → α) : IsPreorder Store (Store.Keeps read) where
  refl _ := rfl
  trans _ _ _ h h' := h'.trans h

namespace Txn

variable {α β : Type} {R : Store → Store → Prop} {P : Store → Prop} {s : Store}

/-! ## Properties of what is left -/

theorem Yields.left {x : Txn α} {a : α} {s' : Store} (h : Yields x s a s') : (x s).2 = s' := by
  rw [show x s = _ from h]

theorem Fails.left {x : Txn α} {e : Failure} {s' : Store} (h : Fails x s e s') : (x s).2 = s' := by
  rw [show x s = _ from h]

theorem left_map (f : α → β) (x : Txn α) (s : Store) : ((f <$> x) s).2 = (x s).2 := by
  show ((x >>= fun a => pure (f a)) s).2 = _
  rw [run_bind]
  rcases (x s : Except Failure α × Store) with ⟨_ | _, _⟩ <;> rfl

theorem left_discard (x : Txn α) (s : Store) : (discard x s).2 = (x s).2 := left_map _ x s

theorem undoing_ends {x : Txn α} (hs : P s) (h : P (x s).2) : P (undoing x s).2 := by
  rw [run_undoing]
  rcases hx : (x s : Except Failure α × Store) with ⟨e | a, s'⟩ <;> rw [hx] at h
  · exact hs
  · exact h

theorem ends_bind {x : Txn α} {f : α → Txn β} (hfails : ∀ e s', Fails x s e s' → P s')
    (hyields : ∀ a s', Yields x s a s' → P (f a s').2) : P ((x >>= f) s).2 := by
  rw [run_bind]
  rcases h : (x s : Except Failure α × Store) with ⟨e | a, s'⟩
  · exact hfails e s' h
  · exact hyields a s' h

theorem Reads.ends_bind {x : Txn α} {f : α → Txn β} (hx : Reads x) (hs : P s)
    (hf : ∀ a, Yields x s a s → P (f a s).2) : P ((x >>= f) s).2 := by
  refine Txn.ends_bind (fun e s' h => ?_) fun a s' h => ?_
  · have hsame := hx s
    rw [show x s = (.error e, s') from h] at hsame
    rw [show s' = s from hsame]
    exact hs
  · obtain rfl := hx.yields h
    exact hf a h

theorem ends_own_bind [Stored α] {kind : RowKind} {rows : Store → List α} {tenant id : Uuid}
    {f : α → Txn β} (hs : P s)
    (hf : ∀ r ∈ rows s, (Stored.row r).id = id → (Stored.row r).tenant = tenant → P (f r s).2) :
    P ((own kind rows tenant id >>= f) s).2 := by
  refine (reads_own kind rows tenant id).ends_bind hs fun r h => ?_
  obtain ⟨hr, hid, htenant⟩ := findOwn_eq_some (yields_own.1 h).1
  exact hf r hr hid htenant

theorem ends_guard {p : Prop} [Decidable p] {e : Failure} {f : PUnit → Txn α} {rest : Txn α}
    (hs : P s) (h : ¬ p → P (rest s).2) :
    P ((if p then (throw e : Txn PUnit) >>= f else rest) s).2 := by
  split
  · exact hs
  · next hp => exact h hp

/-! ## Relations of before and after -/

/-- `R` relates each store to what a transaction leaves of it. -/
def Within (R : Store → Store → Prop) (x : Txn α) : Prop := ∀ s, R s (x s).2

theorem Reads.within [Std.Refl R] {x : Txn α} (hx : Reads x) : Within R x := by
  intro s
  rw [hx s]
  exact refl s

/-- What follows on a transaction relates what it leaves to what is left in the end. -/
theorem Within.from_bind [Std.Refl R] {x : Txn α} {f : α → Txn β} (hf : ∀ a, Within R (f a))
    (s : Store) : R (x s).2 ((x >>= f) s).2 := by
  rw [run_bind]
  rcases (x s : Except Failure α × Store) with ⟨e | a, s'⟩
  · exact refl s'
  · exact hf a s'

theorem Within.bind [IsPreorder Store R] {x : Txn α} {f : α → Txn β} (hx : Within R x)
    (hf : ∀ a s s', Yields x s a s' → Within R (f a)) : Within R (x >>= f) := by
  intro s
  refine ends_bind (fun e s' h => ?_) fun a s' h => ?_
  · have hs := hx s
    rw [show x s = (.error e, s') from h] at hs
    exact hs
  · have hs := hx s
    rw [show x s = (.ok a, s') from h] at hs
    exact IsTrans.trans _ _ _ hs (hf a s s' h s')

theorem Within.map [IsPreorder Store R] {x : Txn α} (hx : Within R x) (f : α → β) :
    Within R (f <$> x) :=
  show Within R (x >>= fun a => pure (f a)) from hx.bind fun a _ _ _ => (reads_pure (f a)).within

theorem Within.discard [IsPreorder Store R] {x : Txn α} (hx : Within R x) :
    Within R (discard x) := hx.map _

theorem Within.newRow_bind [IsTrans Store R] {tenant : Uuid} {f : Row → Txn β}
    (hrow : ∀ s : Store, R s s.pastRow)
    (hf : ∀ row, row.tenant = tenant → Within R (f row)) : Within R (newRow tenant >>= f) := by
  intro s
  rw [run_newRow_bind]
  exact IsTrans.trans _ _ _ (hrow s) (hf _ rfl _)

theorem Within.tryCatch [IsTrans Store R] {x : Txn α} {f : Failure → Txn α} (hx : Within R x)
    (hf : ∀ e, Within R (f e)) : Within R (tryCatch x f) := by
  intro s
  have hs := hx s
  rw [run_tryCatch]
  rcases h : (x s : Except Failure α × Store) with ⟨e | a, t⟩ <;> rw [h] at hs
  · exact IsTrans.trans _ _ _ hs (hf e t)
  · exact hs

theorem Within.ite {p : Prop} [Decidable p] {x y : Txn α} (hx : Within R x) (hy : Within R y) :
    Within R (if p then x else y) := by
  split
  · exact hx
  · exact hy

theorem Within.undoing [Std.Refl R] {x : Txn α} (hx : Within R x) : Within R (undoing x) :=
  fun s => undoing_ends (refl s) (hx s)

end Txn

end Rulebook
