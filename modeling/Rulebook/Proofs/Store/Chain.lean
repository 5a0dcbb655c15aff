import Rulebook.Proofs.Store.Intact
import Rulebook.Proofs.Store.Run

/-!
Changes along a transaction. What a bind does to the store is what its first part does and, where
that goes through, what the second part does from there (`Changes.bind`). `Reads` marks the
transactions that never write; a bind that starts with one does what its second part does
(`Changes.read`). Failing at any point is thus covered by taking binds apart: the changes made so
far remain.
-/
namespace Rulebook

variable {α β : Type} {c : Impact.Circumstances} {w : Work} {s s' : Store}

/-! ## Transactions that only read -/

namespace Txn

/-- Whatever the outcome, the store stays as it is. -/
def Reads (x : Txn α) : Prop := ∀ s, (x s).2 = s

theorem Reads.yields {x : Txn α} {a : α} (hx : Reads x) (h : Yields x s a s') : s' = s := by
  have hs := hx s
  rw [show x s = (.ok a, s') from h] at hs
  exact hs

theorem Reads.yields_bind {x : Txn α} {f : α → Txn β} {b : β} (hx : Reads x) :
    Yields (x >>= f) s b s' ↔ ∃ a, Yields x s a s ∧ Yields (f a) s b s' := by
  rw [Txn.yields_bind]
  constructor
  · rintro ⟨a, t, ha, h⟩
    obtain rfl := hx.yields ha
    exact ⟨a, ha, h⟩
  · rintro ⟨a, ha, h⟩
    exact ⟨a, s, ha, h⟩

theorem Reads.run_bind_congr {x : Txn α} {f g : α → Txn β} (hx : Reads x)
    (h : ∀ a, Yields x s a s → (f a s : Except Failure β × Store) = g a s) :
    ((x >>= f) s : Except Failure β × Store) = (x >>= g) s := by
  refine Txn.run_bind_congr fun a s' ha => ?_
  obtain rfl := hx.yields ha
  exact h a ha

theorem Reads.fails_bind {x : Txn α} {f : α → Txn β} {e : Failure} (hx : Reads x) :
    Fails (x >>= f) s e s' ↔
      (Fails x s e s ∧ s' = s) ∨ ∃ a, Yields x s a s ∧ Fails (f a) s e s' := by
  rw [Txn.fails_bind]
  constructor
  · rintro (h | ⟨a, t, ha, h⟩)
    · have hs := hx s
      rw [show x s = (.error e, s') from h] at hs
      obtain rfl : s' = s := hs
      exact Or.inl ⟨h, rfl⟩
    · obtain rfl := hx.yields ha
      exact Or.inr ⟨a, ha, h⟩
  · rintro (⟨h, hs⟩ | ⟨a, ha, h⟩)
    · rw [hs]
      exact Or.inl h
    · exact Or.inr ⟨a, s, ha, h⟩

theorem reads_pure (a : α) : Reads (pure a) := fun _ => rfl

theorem reads_throw (e : Failure) : Reads (throw e : Txn α) := fun _ => rfl

theorem reads_get : Reads get := fun _ => rfl

theorem Reads.bind {x : Txn α} {f : α → Txn β} (hx : Reads x) (hf : ∀ a, Reads (f a)) :
    Reads (x >>= f) := by
  intro s
  have hs := hx s
  rw [run_bind]
  rcases h : x s with ⟨_ | a, s'⟩ <;> rw [h] at hs
  · exact hs
  · rw [show s' = s from hs]
    exact hf a s

theorem Reads.map {x : Txn α} (hx : Reads x) (f : α → β) : Reads (f <$> x) :=
  show Reads (x >>= fun a => pure (f a)) from hx.bind fun a => reads_pure (f a)

theorem Reads.discard {x : Txn α} (hx : Reads x) : Reads (discard x) := hx.map _

theorem reads_ofExcept (r : Except Failure α) : Reads (ofExcept r) := by
  cases r with
  | ok a => exact reads_pure a
  | error e => exact reads_throw e

theorem reads_ofFault (r : Except Fault α) : Reads (ofFault r) := reads_ofExcept _

theorem reads_own [Stored α] (kind : RowKind) (rows : Store → List α) (tenant id : Uuid) :
    Reads (own kind rows tenant id) := by
  refine reads_get.bind fun t => ?_
  split
  · exact reads_pure _
  · exact reads_throw _

theorem reads_ruleOf (v : Version) : Reads (ruleOf v) := by
  refine reads_get.bind fun t => ?_
  split
  · exact reads_pure _
  · exact reads_throw _

theorem reads_encoded (t : Text) : Reads (encoded t) := reads_ofExcept _

theorem reads_encoded? (t : Option Text) : Reads (encoded? t) := by
  cases t with
  | none => exact reads_pure none
  | some t => exact (reads_encoded t).map some

theorem reads_column (i : Int) : Reads (column i) := by
  unfold column
  split
  · exact reads_pure i
  · exact reads_throw _

theorem reads_cell (v : Value) : Reads (cell v) := by
  cases v with
  | text t => exact (reads_encoded t).map some
  | int i => exact (reads_column i).bind fun j => reads_pure _
  | null | bool | float | date | moment => exact reads_pure _
  | _ => exact reads_throw _

theorem reads_json (v : Value) : Reads (json v) := by
  unfold json
  split
  · exact reads_pure ()
  · exact reads_throw _

theorem reads_optionForM {f : α → Txn PUnit} (hf : ∀ a, Reads (f a)) (x : Option α) :
    Reads (x.forM f) := by
  cases x with
  | none => exact reads_pure _
  | some a => exact hf a

theorem reads_optionMapM {f : α → Txn β} (hf : ∀ a, Reads (f a)) (x : Option α) :
    Reads (x.mapM f) := by
  cases x with
  | none => exact reads_pure none
  | some a => exact (hf a).map some

theorem reads_listForM {f : α → Txn PUnit} (hf : ∀ a, Reads (f a)) (xs : List α) :
    Reads (xs.forM f) := by
  induction xs with
  | nil => exact reads_pure _
  | cons x xs ih => exact (hf x).bind fun _ => ih

theorem reads_listMapM {f : α → Txn β} (hf : ∀ a, Reads (f a)) (xs : List α) :
    Reads (xs.mapM f) := by
  induction xs with
  | nil => exact reads_pure []
  | cons x xs ih =>
    rw [List.mapM_cons]
    exact (hf x).bind fun y => ih.bind fun ys => reads_pure (y :: ys)

theorem reads_showVersion (v : Version) : Reads (showVersion v) := reads_ofExcept _

theorem reads_showRule (r : Rule) : Reads (showRule r) :=
  reads_get.bind fun _ => reads_ofExcept _

theorem reads_showFinding (f : Finding) : Reads (showFinding f) :=
  reads_get.bind fun _ => reads_pure _

theorem reads_today : Reads today := reads_get.bind fun _ => reads_pure _

/-- Looking up what is owned does not fail. -/
theorem fails_owned_bind [Stored α] {kind : RowKind} {rows : Store → List α} {tenant id : Uuid}
    {n : Nat} {f : α → Txn β} {e : Failure} (hrows : Keyed (rows s) n)
    (hown : (id, tenant) ∈ owned (rows s))
    (h : Fails (own kind rows tenant id >>= f) s e s') :
    ∃ r ∈ rows s, (Stored.row r).tenant = tenant ∧ Fails (f r) s e s' := by
  obtain ⟨r, hr, -, htenant, hfound⟩ := findOwn_of_owned hrows hown
  rcases fails_own_bind.1 h with ⟨hnone, -, -⟩ | ⟨q, hq, h⟩
  · rw [hfound] at hnone
    cases hnone
  · rw [hfound] at hq
    rw [← Option.some.inj hq] at h
    exact ⟨r, hr, htenant, h⟩

/-- The rule of a version is one of its tenant. -/
theorem run_ruleOf (hs : s.Intact) {v : Version} (hv : v ∈ s.versions) :
    (ruleOf v s : Except Failure Rule × Store) = ownRule v.tenant v.rule s := by
  obtain ⟨r, hr, hid, -, hown⟩ := findOwn_of_owned hs.rules (hs.versionRule v hv)
  have hyields : Yields (ruleOf v) s r s := by
    refine yields_get_bind.2 ?_
    rw [hs.rule?_eq_some.2 ⟨hr, hid⟩]
    exact yields_pure.2 ⟨rfl, rfl⟩
  exact hyields.trans (yields_own.2 ⟨hown, rfl⟩).symm

theorem yields_ruleOf (hs : s.Intact) {v : Version} (hv : v ∈ s.versions) {r : Rule} :
    Yields (ruleOf v) s r s' ↔ findOwn s.rules v.tenant v.rule = some r ∧ s' = s := by
  rw [Yields, run_ruleOf hs hv]
  exact yields_own

theorem not_fails_ruleOf (hs : s.Intact) {v : Version} (hv : v ∈ s.versions) {e : Failure} :
    ¬ Fails (ruleOf v) s e s' := by
  obtain ⟨r, -, -, -, hown⟩ := findOwn_of_owned hs.rules (hs.versionRule v hv)
  exact not_fails_yields ((yields_ruleOf hs hv).2 ⟨hown, rfl⟩)

/-! ## Transactions that leave no trace of a failure -/

/-- Where it does not go through, the store stays as it is. -/
def Undone (x : Txn α) : Prop := ∀ s, (∃ a s', Yields x s a s') ∨ (x s).2 = s

theorem Undone.fails {x : Txn α} {e : Failure} (hx : Undone x) (h : Fails x s e s') : s' = s := by
  rcases hx s with ⟨a, t, hyields⟩ | hsame
  · exact absurd h (not_fails_yields hyields)
  · exact (congrArg Prod.snd (show x s = _ from h)).symm.trans hsame

theorem undone_undoing (x : Txn α) : Undone (undoing x) := by
  intro s
  rcases h : x s with ⟨e | a, s'⟩
  · right
    rw [run_undoing, h]
  · exact Or.inl ⟨a, s', yields_undoing.2 h⟩

theorem Undone.read_bind {x : Txn α} {f : α → Txn β} (hx : Reads x) (hf : ∀ a, Undone (f a)) :
    Undone (x >>= f) := by
  intro s
  have hs := hx s
  rcases h : x s with ⟨e | a, s'⟩ <;> rw [h] at hs
  · right
    rw [run_bind, h]
    exact hs
  · obtain rfl : s' = s := hs
    rcases hf a s' with ⟨b, s'', hb⟩ | hb
    · exact Or.inl ⟨b, s'', Txn.yields_bind.2 ⟨a, s', h, hb⟩⟩
    · right
      rw [run_bind, h]
      exact hb

theorem Undone.tryCatch {x : Txn α} {f : Failure → Txn α} (hx : Undone x)
    (hf : ∀ e, Reads (f e)) : Undone (tryCatch x f) := by
  intro s
  rcases hx s with ⟨a, s', h⟩ | h
  · exact Or.inl ⟨a, s', yields_tryCatch.2 (Or.inl h)⟩
  · right
    rw [run_tryCatch]
    rcases hrun : x s with ⟨e | a, s'⟩ <;> rw [hrun] at h
    · rw [show s' = s from h]
      exact hf e s
    · exact h

/-! ## New rows -/

theorem run_newRow_bind (tenant : Uuid) (f : Row → Txn β) (s : Store) :
    (newRow tenant >>= f) s = f (s.nextRow tenant) s.pastRow := rfl

theorem run_now_bind (f : Instant → Txn β) (s : Store) :
    (now >>= f) s = f s.clock { s with clock := s.clock.next } := rfl

end Txn

theorem Store.ticks_next (s : Store) : Ticks s.clock s.clock.next [] := Nat.le_succ _

/-- The clock is read for a new row, and moves on. -/
theorem Store.ticks_pastRow (s : Store) : Ticks s.clock s.pastRow.clock [s.clock] :=
  ⟨Nat.le_refl _, Nat.le_succ _⟩

/-! ## Changes of binds -/

open Txn

namespace Changes

theorem refl (s : Store) : Changes c w s s := Relation.ReflTransGen.refl

theorem single (h : Change c w s s') : Changes c w s s' := Relation.ReflTransGen.single h

theorem trans {s'' : Store} (h : Changes c w s s') (h' : Changes c w s' s'') : Changes c w s s'' :=
  Relation.ReflTransGen.trans h h'

/-- Identifiers used up and time passed are no change worth mentioning. -/
theorem passed {n : Nat} {t : Instant} (h : s.nextId ≤ n) (time : Ticks s.clock t []) :
    Changes c w s { s with nextId := n, clock := t } :=
  single (.passed h time)

theorem pastRow (s : Store) : Changes c w s s.pastRow :=
  passed (Nat.le_succ _) s.ticks_pastRow.later

/-- Where a transaction goes through, its changes lead to what it leaves. -/
theorem of_yields {x : Txn α} {a : α} (hx : Changes c w s (x s).2) (h : Yields x s a s') :
    Changes c w s s' := by
  rw [show x s = _ from h] at hx
  exact hx

theorem of_fails {x : Txn α} {e : Failure} (hx : Changes c w s (x s).2) (h : Fails x s e s') :
    Changes c w s s' := by
  rw [show x s = _ from h] at hx
  exact hx

theorem reads {x : Txn α} (hx : Reads x) (s : Store) : Changes c w s (x s).2 := by
  rw [hx s]
  exact refl s

theorem bind {t : Store} {x : Txn α} {f : α → Txn β} (hx : Changes c w s (x t).2)
    (hf : ∀ a s', Yields x t a s' → Changes c w s s' → Changes c w s' (f a s').2) :
    Changes c w s ((x >>= f) t).2 := by
  rw [run_bind]
  rcases h : x t with ⟨_ | a, s'⟩ <;> rw [h] at hx
  · exact hx
  · exact hx.trans (hf a s' h hx)

theorem read {x : Txn α} {f : α → Txn β} (hx : Reads x)
    (hf : ∀ a, Yields x s a s → Changes c w s (f a s).2) : Changes c w s ((x >>= f) s).2 := by
  refine bind (reads hx s) fun a s' h _ => ?_
  obtain rfl := hx.yields h
  exact hf a h

/-- What answers without writing more leaves the changes made. -/
theorem bind_reads {t : Store} {x : Txn α} {f : α → Txn β} (hx : Changes c w s (x t).2)
    (hf : ∀ a, Reads (f a)) : Changes c w s ((x >>= f) t).2 :=
  bind hx fun a s' _ _ => reads (hf a) s'

theorem map {x : Txn α} (hx : Changes c w s (x s).2) (f : α → β) :
    Changes c w s ((f <$> x) s).2 :=
  show Changes c w s ((x >>= fun a => pure (f a)) s).2 from bind_reads hx fun a => reads_pure (f a)

theorem discard {x : Txn α} (hx : Changes c w s (x s).2) : Changes c w s ((discard x) s).2 :=
  map hx _

theorem own [Stored α] {kind : RowKind} {rows : Store → List α} {tenant id : Uuid}
    {f : α → Txn β}
    (hf : ∀ r ∈ rows s, (Stored.row r).id = id → (Stored.row r).tenant = tenant →
      Changes c w s (f r s).2) :
    Changes c w s ((Txn.own kind rows tenant id >>= f) s).2 := by
  refine read (reads_own kind rows tenant id) fun r h => ?_
  obtain ⟨hr, hid, htenant⟩ := findOwn_eq_some (yields_own.1 h).1
  exact hf r hr hid htenant

theorem guard {p : Prop} [Decidable p] {e : Failure} {f : PUnit → Txn α} {rest : Txn α}
    (h : ¬ p → Changes c w s (rest s).2) :
    Changes c w s ((if p then (throw e : Txn PUnit) >>= f else rest) s).2 := by
  split
  · exact refl s
  · next hp => exact h hp

/-- What is undone on failure leaves no changes or those of success. -/
theorem undoing {x : Txn α} (hx : Changes c w s (x s).2) : Changes c w s ((Txn.undoing x) s).2 := by
  rw [run_undoing]
  rcases h : x s with ⟨_ | a, s'⟩ <;> rw [h] at hx
  · exact refl s
  · exact hx

theorem tryCatch {x : Txn α} {f : Failure → Txn α} (hx : Changes c w s (x s).2)
    (hf : ∀ e s', x s = (.error e, s') → Changes c w s s' → Changes c w s' (f e s').2) :
    Changes c w s ((tryCatch x f : Txn α) s).2 := by
  rw [run_tryCatch]
  rcases h : x s with ⟨e | a, s'⟩ <;> rw [h] at hx
  · exact hx.trans (hf e s' h hx)
  · exact hx

end Changes

end Rulebook
