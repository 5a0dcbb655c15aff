import Mathlib.Data.List.Forall2

/-!
Results of computations that may fail: where a result of parts has come from, and the first failure
of a list of computations. A list of computations that all succeed is paired with the list of what
they yield.
-/
namespace Rulebook

/-! ## Pairings of lists -/

theorem exists_of_forall₂ {α β : Type} {R : α → β → Prop} {xs : List α} {ys : List β}
    (h : List.Forall₂ R xs ys) : ∀ y ∈ ys, ∃ x ∈ xs, R x y := by
  induction h with
  | nil => exact fun y hy => by cases hy
  | cons hfirst _ ih =>
    intro y hy
    rcases List.mem_cons.1 hy with rfl | hy
    · exact ⟨_, List.mem_cons_self .., hfirst⟩
    · obtain ⟨x, hx, hR⟩ := ih y hy
      exact ⟨x, List.mem_cons_of_mem _ hx, hR⟩

theorem exists_right_of_forall₂ {α β : Type} {R : α → β → Prop} {xs : List α} {ys : List β}
    (h : List.Forall₂ R xs ys) : ∀ x ∈ xs, ∃ y ∈ ys, R x y :=
  exists_of_forall₂ h.flip

/-- What the second list of a pairing satisfies for what it is paired with. -/
theorem forall_mem_of_forall₂ {α β : Type} {R : α → β → Prop} {p : β → Prop} {xs : List α}
    {ys : List β} (h : List.Forall₂ R xs ys) (hp : ∀ x y, R x y → p y) : ∀ y ∈ ys, p y := by
  intro y hy
  obtain ⟨x, -, hR⟩ := exists_of_forall₂ h y hy
  exact hp x y hR

/-- A list has a partner if each of its items has one. -/
theorem exists_forall₂ {α β : Type} {R : α → β → Prop} {xs : List α} :
    (∃ ys, List.Forall₂ R xs ys) ↔ ∀ x ∈ xs, ∃ y, R x y := by
  constructor
  · rintro ⟨ys, h⟩ x hx
    obtain ⟨y, -, hR⟩ := exists_right_of_forall₂ h x hx
    exact ⟨y, hR⟩
  · intro h
    induction xs with
    | nil => exact ⟨[], .nil⟩
    | cons x xs ih =>
      obtain ⟨hx, hxs⟩ := List.forall_mem_cons.mp h
      obtain ⟨y, hy⟩ := hx
      obtain ⟨ys, hys⟩ := ih hxs
      exact ⟨y :: ys, .cons hy hys⟩

theorem forall₂_comp {α β γ : Type} {R : α → β → Prop} {S : β → γ → Prop} {T : α → γ → Prop}
    {xs : List α} {ys : List β} {zs : List γ} (hR : List.Forall₂ R xs ys)
    (hS : List.Forall₂ S ys zs) (h : ∀ x y z, R x y → S y z → T x z) : List.Forall₂ T xs zs := by
  induction hR generalizing zs with
  | nil =>
    cases hS
    exact .nil
  | cons hfirst _ ih =>
    cases hS with
    | cons hsecond hrest => exact .cons (h _ _ _ hfirst hsecond) (ih hrest)

/-- What is read off the only item of a list. -/
theorem exists_of_map_eq_singleton {α β : Type} {f : α → β} {xs : List α} {y : β}
    (h : xs.map f = [y]) : ∃ x ∈ xs, f x = y := by
  obtain ⟨x, rfl, hx⟩ := List.map_eq_singleton_iff.1 h
  exact ⟨x, List.mem_singleton_self x, hx⟩

theorem eq_of_map_eq_singleton {α β : Type} {f : α → β} {xs : List α} {x : α} {y : β}
    (h : xs.map f = [y]) (hx : x ∈ xs) : f x = y := by
  have hy : f x ∈ xs.map f := List.mem_map_of_mem hx
  rw [h] at hy
  exact List.mem_singleton.1 hy

/-! ## Results -/

namespace Except

variable {ε δ α β : Type}

theorem bind_eq_ok {x : Except ε α} {f : α → Except ε β} {b : β} :
    x >>= f = .ok b ↔ ∃ a, x = .ok a ∧ f a = .ok b := by
  cases x <;> simp [bind, Except.bind]

theorem bind_eq_error {x : Except ε α} {f : α → Except ε β} {e : ε} :
    x >>= f = .error e ↔ x = .error e ∨ ∃ a, x = .ok a ∧ f a = .error e := by
  cases x <;> simp [bind, Except.bind]

theorem map_eq_ok {x : Except ε α} {f : α → β} {b : β} :
    x.map f = .ok b ↔ ∃ a, x = .ok a ∧ f a = b := by
  cases x <;> simp [Except.map]

theorem mapError_eq_ok {x : Except ε α} {f : ε → δ} {a : α} :
    x.mapError f = .ok a ↔ x = .ok a := by
  cases x <;> simp [Except.mapError]

theorem mapError_eq_error {x : Except ε α} {f : ε → δ} {d : δ} :
    x.mapError f = .error d ↔ ∃ e, x = .error e ∧ f e = d := by
  cases x <;> simp [Except.mapError]

theorem mapM_error {f : α → Except ε β} {xs : List α} {e : ε}
    (h : xs.mapM f = .error e) : ∃ x ∈ xs, f x = .error e := by
  induction xs with
  | nil => cases h
  | cons x xs ih =>
    rw [List.mapM_cons] at h
    rcases bind_eq_error.1 h with hx | ⟨y, -, h⟩
    · exact ⟨x, List.mem_cons_self, hx⟩
    rcases bind_eq_error.1 h with hxs | ⟨ys, -, h⟩
    · obtain ⟨z, hz, hfails⟩ := ih hxs
      exact ⟨z, List.mem_cons_of_mem x hz, hfails⟩
    · cases h

theorem mapM_ok {f : α → Except ε β} {xs : List α} {ys : List β}
    (h : xs.mapM f = .ok ys) : List.Forall₂ (fun x y => f x = .ok y) xs ys := by
  induction xs generalizing ys with
  | nil =>
    cases h
    exact .nil
  | cons x xs ih =>
    rw [List.mapM_cons] at h
    obtain ⟨y, hy, h⟩ := bind_eq_ok.1 h
    obtain ⟨zs, hzs, h⟩ := bind_eq_ok.1 h
    cases h
    exact .cons hy (ih hzs)

theorem mapM_eq_ok {f : α → Except ε β} {xs : List α} {ys : List β} :
    xs.mapM f = .ok ys ↔ List.Forall₂ (fun x y => f x = .ok y) xs ys := by
  refine ⟨mapM_ok, fun h => ?_⟩
  induction h with
  | nil => rfl
  | cons hy _ ih =>
    rw [List.mapM_cons, hy, ih]
    rfl

theorem exists_mapM {f : α → Except ε β} {xs : List α} :
    (∃ ys, xs.mapM f = .ok ys) ↔ ∀ x ∈ xs, ∃ y, f x = .ok y := by
  simp only [mapM_eq_ok, exists_forall₂]

theorem foldlM_error {f : β → α → Except ε β} {start : β} {xs : List α} {e : ε}
    (h : xs.foldlM f start = .error e) : ∃ x ∈ xs, ∃ b, f b x = .error e := by
  induction xs generalizing start with
  | nil => cases h
  | cons x xs ih =>
    rw [List.foldlM_cons] at h
    rcases bind_eq_error.1 h with hx | ⟨b, -, h⟩
    · exact ⟨x, List.mem_cons_self, start, hx⟩
    · obtain ⟨y, hy, hfails⟩ := ih h
      exact ⟨y, List.mem_cons_of_mem x hy, hfails⟩

/-- What a search finds is in the list. -/
theorem exists_of_anyM {f : α → Except ε Bool} {xs : List α} (h : xs.anyM f = .ok true) :
    ∃ x ∈ xs, f x = .ok true := by
  induction xs with
  | nil => cases h
  | cons x xs ih =>
    rw [List.anyM] at h
    obtain ⟨found, hx, h⟩ := bind_eq_ok.1 h
    cases found with
    | true => exact ⟨x, List.mem_cons_self, hx⟩
    | false =>
      obtain ⟨y, hy, hfound⟩ := ih h
      exact ⟨y, List.mem_cons_of_mem x hy, hfound⟩

/-- A search that finds nothing has looked at the whole list. -/
theorem anyM_eq_false {f : α → Except ε Bool} {xs : List α} :
    xs.anyM f = .ok false ↔ ∀ x ∈ xs, f x = .ok false := by
  induction xs with
  | nil => simp [List.anyM, pure, Except.pure]
  | cons x xs ih =>
    rw [List.anyM, bind_eq_ok, List.forall_mem_cons, ← ih]
    constructor
    · rintro ⟨found, hx, h⟩
      cases found with
      | true => cases h
      | false => exact ⟨hx, h⟩
    · rintro ⟨hx, h⟩
      exact ⟨false, hx, h⟩

/-- A search that has an outcome finds something exactly if there is something to find. -/
theorem anyM_found {f : α → Except ε Bool} {xs : List α} {b : Bool} (h : xs.anyM f = .ok b) :
    b = true ↔ ∃ x ∈ xs, f x = .ok true := by
  cases b with
  | true => exact ⟨fun _ => exists_of_anyM h, fun _ => rfl⟩
  | false =>
    constructor
    · intro hfalse
      cases hfalse
    · rintro ⟨x, hx, hfound⟩
      cases hfound.symm.trans (anyM_eq_false.mp h x hx)

/-! ### Failing -/

/-- A computation without a result. -/
def Fails (x : Except ε α) : Prop := ∃ e, x = .error e

theorem fails_error (e : ε) : Fails (.error e : Except ε α) := ⟨e, rfl⟩

theorem not_fails_ok (a : α) : ¬ Fails (.ok a : Except ε α) := by
  rintro ⟨e, h⟩
  cases h

theorem not_fails {x : Except ε α} : ¬ Fails x ↔ ∃ a, x = .ok a := by
  cases x <;> simp [Fails]

theorem bind_fails {x : Except ε α} {f : α → Except ε β} :
    Fails (x >>= f) ↔ Fails x ∨ ∃ a, x = .ok a ∧ Fails (f a) := by
  cases x <;> simp [Fails, bind, Except.bind]

/-- Two computations of which neither needs the result of the other. -/
theorem pair_fails {γ : Type} {x : Except ε α} {y : Except ε β} {f : α → β → γ} :
    Fails (do return f (← x) (← y)) ↔ Fails x ∨ Fails y := by
  cases x <;> cases y <;> simp [Fails, bind, Except.bind, pure, Except.pure]

/-- A search fails at the first item that it cannot decide, if it has found nothing before. -/
theorem anyM_fails {f : α → Except ε Bool} {xs : List α} : Fails (xs.anyM f) ↔
    ∃ before x after, xs = before ++ x :: after ∧ (∀ y ∈ before, f y = .ok false) ∧
      Fails (f x) := by
  induction xs with
  | nil => simp [List.anyM, pure, Except.pure, Fails]
  | cons x xs ih =>
    rw [List.anyM, bind_fails]
    constructor
    · rintro (hx | ⟨found, hx, h⟩)
      · exact ⟨[], x, xs, rfl, List.forall_mem_nil _, hx⟩
      · cases found with
        | true => exact absurd h (not_fails_ok true)
        | false =>
          obtain ⟨before, y, after, rfl, hbefore, hy⟩ := ih.mp h
          exact ⟨x :: before, y, after, rfl, List.forall_mem_cons.mpr ⟨hx, hbefore⟩, hy⟩
    · rintro ⟨before, y, after, hsplit, hbefore, hy⟩
      cases before with
      | nil =>
        obtain ⟨rfl, -⟩ := List.cons.inj hsplit
        exact .inl hy
      | cons z before =>
        obtain ⟨rfl, rfl⟩ := List.cons.inj hsplit
        obtain ⟨hz, hbefore⟩ := List.forall_mem_cons.mp hbefore
        exact .inr ⟨false, hz, ih.mpr ⟨before, y, after, rfl, hbefore, hy⟩⟩

theorem map_fails {x : Except ε α} {f : α → β} : Fails (f <$> x) ↔ Fails x := by
  cases x <;> simp [Fails, Functor.map, Except.map]

theorem not_map_eq_ok {x : Except ε Bool} {b : Bool} : not <$> x = .ok b ↔ x = .ok (!b) := by
  cases x <;> simp [Functor.map, Except.map, Bool.not_eq_eq_eq_not]

/-- A check of all items fails at the first one that it cannot decide, if all before it pass. -/
theorem allM_fails {f : α → Except ε Bool} {xs : List α} : Fails (xs.allM f) ↔
    ∃ before x after, xs = before ++ x :: after ∧ (∀ y ∈ before, f y = .ok true) ∧
      Fails (f x) := by
  rw [List.allM_eq_not_anyM_not, map_fails, anyM_fails]
  simp only [not_map_eq_ok, map_fails, Bool.not_false]

end Except

end Rulebook
