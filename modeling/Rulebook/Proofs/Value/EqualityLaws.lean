import Mathlib
import Rulebook.Proofs.Number.Conversion
import Rulebook.Proofs.Value.Equality

/-!
The laws of the two equalities. Loose equality is an equivalence on values whose objects have no key
twice, apart from decimal NaN, which is not even equal to itself (`looseEq_comm`, `looseEq_trans`,
`looseEq_refl`). Strict equality compares two numbers by their doubles, never holds between a number
and anything else, and is the loose one on what is left (`strictEq_numbers_eq`, `strictEq_mixed`,
`strictEq_others`), so the laws carry over to it (`strictEq_comm`, `strictEq_trans`,
`strictEq_refl`).
-/
namespace Rulebook

theorem Moment.same_iff {m n : Moment} : m.same n = true ↔
    m.offset.isSome = n.offset.isSome ∧ m.seconds = n.seconds ∧ m.microsecond = n.microsecond := by
  rw [same, Bool.and_eq_true, Bool.and_eq_true, beq_iff_eq, beq_iff_eq, beq_iff_eq, and_assoc]

theorem Fields.get?_of_mem {fields : Fields} {key : Text} {v : Value}
    (hkeys : (fields.map Prod.fst).Nodup) (h : (key, v) ∈ fields) : fields.get? key = some v := by
  have hfound : (fields.get? key).isSome = true := isSome_get?.mpr (List.mem_map_of_mem h)
  obtain ⟨w, hw⟩ := Option.isSome_iff_exists.mp hfound
  have hsame := List.inj_on_of_nodup_map hkeys (mem_of_get? hw) h rfl
  rw [hw, (Prod.mk.inj hsame).2]

namespace Value

/-- No object has a key twice, at any depth. -/
inductive WellKeyed : Value → Prop
  | null : WellKeyed null
  | bool (b : Bool) : WellKeyed (bool b)
  | int (i : Int) : WellKeyed (int i)
  | float (x : Double) : WellKeyed (float x)
  | decimal (d : Decimal) : WellKeyed (decimal d)
  | text (t : Text) : WellKeyed (text t)
  | date (d : Date) : WellKeyed (date d)
  | moment (m : Moment) : WellKeyed (moment m)
  | uuid (u : Uuid) : WellKeyed (uuid u)
  | list {items : List Value} (hitems : ∀ v ∈ items, WellKeyed v) : WellKeyed (list items)
  | tuple {items : List Value} (hitems : ∀ v ∈ items, WellKeyed v) : WellKeyed (tuple items)
  | object {fields : Fields} (hkeys : (fields.map Prod.fst).Nodup)
      (hmembers : ∀ member ∈ fields, WellKeyed member.2) : WellKeyed (object fields)

theorem IsJson.wellKeyed {v : Value} (h : v.IsJson) : v.WellKeyed := by
  induction h with
  | null => exact .null
  | bool b => exact .bool b
  | int i => exact .int i
  | float x => exact .float x
  | text t => exact .text t
  | list _ ih => exact .list ih
  | object hkeys _ ih => exact .object hkeys ih

variable {u v w : Value}

/-! ## What is loosely equal -/

/-- The values that are loosely equal to nothing but themselves. -/
def isAtom : Value → Bool
  | null | text _ | date _ | uuid _ => true
  | _ => false

theorem looseEq_atom (h : v.isAtom = true) : looseEq v w = true ↔ v = w := by
  cases v with
  | null => cases w <;> simp [looseEq, toExact?]
  | text t => cases w <;> simp [looseEq, toExact?]
  | date d => cases w <;> simp [looseEq, toExact?]
  | uuid u => cases w <;> simp [looseEq, toExact?]
  | _ => cases h

theorem looseEq_moment {m : Moment} :
    looseEq (moment m) w = true ↔ ∃ n, w = moment n ∧ m.same n = true := by
  cases w <;> simp [looseEq, toExact?]

theorem looseEq_list {xs : List Value} : looseEq (list xs) w = true ↔
    ∃ ys, w = list ys ∧ List.Forall₂ (fun v w => looseEq v w = true) xs ys := by
  cases w <;> simp [looseEq, toExact?, looseEqItems_iff]

theorem looseEq_tuple {xs : List Value} : looseEq (tuple xs) w = true ↔
    ∃ ys, w = tuple ys ∧ List.Forall₂ (fun v w => looseEq v w = true) xs ys := by
  cases w <;> simp [looseEq, toExact?, looseEqItems_iff]

theorem looseEq_object {fs : Fields} : looseEq (object fs) w = true ↔
    ∃ gs : Fields, w = object gs ∧ fs.length = gs.length ∧
      ∀ member ∈ fs, ∃ u, gs.get? member.1 = some u ∧ looseEq member.2 u = true := by
  cases w <;> simp [looseEq, toExact?, looseEqMembers_iff]

/-- Numbers and truth values are loosely equal if they have one exact value, or both are the double
NaN. -/
theorem looseEq_exact {x : Exact} (hx : v.toExact? = some x) : looseEq v w = true ↔
    (v = float .nan ∧ w = float .nan) ∨ ∃ y, w.toExact? = some y ∧ x.eq y = true := by
  by_cases hv : v = float .nan
  · subst hv
    cases hx
    cases w with
    | float y => cases y <;> simp [looseEq, toExact?, Exact.ofDouble, Exact.eq]
    | _ => simp [looseEq, toExact?, Exact.ofDouble, Exact.eq]
  · have hloose : looseEq v w = w.toExact?.any x.eq := by
      unfold looseEq
      split
      case h_2 => exact absurd rfl hv
      case h_10 =>
        rw [hx]
        cases w.toExact? <;> rfl
      all_goals cases hx
    rw [hloose]
    cases w.toExact? <;> simp [hv]

/-! ## Loose equality is an equivalence -/

theorem Exact.eq_symm {x y : Exact} (h : x.eq y = true) : y.eq x = true := by
  have hxy := eq_of_eq h
  rwa [hxy] at h ⊢

theorem Exact.eq_trans {x y z : Exact} (hxy : x.eq y = true) (hyz : y.eq z = true) :
    x.eq z = true := by
  rwa [eq_of_eq hxy]

theorem looseEq_exact_symm {x : Exact} (hx : v.toExact? = some x) (h : looseEq v w = true) :
    looseEq w v = true := by
  rcases (looseEq_exact hx).mp h with ⟨rfl, rfl⟩ | ⟨y, hy, hxy⟩
  · exact h
  · exact (looseEq_exact hy).mpr (.inr ⟨x, hx, Exact.eq_symm hxy⟩)

theorem looseEq_exact_trans {x : Exact} (hx : v.toExact? = some x) (hvw : looseEq v w = true)
    (hwu : looseEq w u = true) : looseEq v u = true := by
  rcases (looseEq_exact hx).mp hvw with ⟨rfl, rfl⟩ | ⟨y, hy, hxy⟩
  · exact hwu
  · rcases (looseEq_exact hy).mp hwu with ⟨rfl, rfl⟩ | ⟨z, hz, hyz⟩
    · exact hvw
    · exact (looseEq_exact hx).mpr (.inr ⟨z, hz, Exact.eq_trans hxy hyz⟩)

theorem forall₂_symm {R : Value → Value → Prop} {xs ys : List Value}
    (hsymm : ∀ x ∈ xs, ∀ y ∈ ys, R x y → R y x) (h : List.Forall₂ R xs ys) :
    List.Forall₂ R ys xs := by
  obtain ⟨hlength, hzip⟩ := List.forall₂_iff_zip.mp h.flip
  refine List.forall₂_iff_zip.mpr ⟨hlength, fun hpair => ?_⟩
  obtain ⟨hy, hx⟩ := List.of_mem_zip hpair
  exact hsymm _ hx _ hy (hzip hpair)

theorem forall₂_trans {R : Value → Value → Prop} {xs ys zs : List Value}
    (htrans : ∀ x ∈ xs, ∀ y z, R x y → R y z → R x z) (hxy : List.Forall₂ R xs ys)
    (hyz : List.Forall₂ R ys zs) : List.Forall₂ R xs zs := by
  have hleft : List.Forall₂ (fun x y => (∀ y z, R x y → R y z → R x z) ∧ R x y) xs ys :=
    (List.forall₂_and_left xs ys).mpr ⟨htrans, hxy⟩
  exact forall₂_comp hleft hyz fun x y z hx hyz => hx.1 y z hx.2 hyz

theorem looseEq_symm (hv : v.WellKeyed) (hw : w.WellKeyed) (h : looseEq v w = true) :
    looseEq w v = true := by
  induction hv generalizing w with
  | null | text | date | uuid =>
    obtain rfl := (looseEq_atom rfl).mp h
    exact h
  | bool | int | float | decimal => exact looseEq_exact_symm rfl h
  | moment m =>
    obtain ⟨n, rfl, hsame⟩ := looseEq_moment.mp h
    obtain ⟨hoffset, hseconds, hmicros⟩ := Moment.same_iff.mp hsame
    have hback : n.same m = true := Moment.same_iff.mpr ⟨hoffset.symm, hseconds.symm, hmicros.symm⟩
    exact looseEq_moment.mpr ⟨m, rfl, hback⟩
  | @list xs _ ih =>
    obtain ⟨ys, rfl, hitems⟩ := looseEq_list.mp h
    cases hw with
    | list hys =>
      refine looseEq_list.mpr ⟨xs, rfl, forall₂_symm ?_ hitems⟩
      exact fun x hx y hy => ih x hx (hys y hy)
  | @tuple xs _ ih =>
    obtain ⟨ys, rfl, hitems⟩ := looseEq_tuple.mp h
    cases hw with
    | tuple hys =>
      refine looseEq_tuple.mpr ⟨xs, rfl, forall₂_symm ?_ hitems⟩
      exact fun x hx y hy => ih x hx (hys y hy)
  | @object fs hfs _ ih =>
    obtain ⟨gs, rfl, hlength, hmembers⟩ := looseEq_object.mp h
    cases hw with
    | object hgs hws =>
      refine looseEq_object.mpr ⟨fs, rfl, hlength.symm, ?_⟩
      rintro ⟨key, w⟩ hmember
      -- As many members, all of which are found: the keys agree, so this one has a partner too.
      have hget := Fields.get?_of_mem hgs hmember
      have hfound : ∀ member ∈ fs, (gs.get? member.1).isSome = true := by
        intro member hm
        obtain ⟨u, hu, -⟩ := hmembers member hm
        rw [hu, Option.isSome_some]
      have hkeys := keys_eq hfs hlength hfound key
      rw [hget, Option.isSome_some] at hkeys
      obtain ⟨v, hv⟩ := Option.isSome_iff_exists.mp hkeys
      obtain ⟨u, hu, heq⟩ := hmembers _ (Fields.mem_of_get? hv)
      cases hget.symm.trans hu
      exact ⟨v, hv, ih _ (Fields.mem_of_get? hv) (hws _ hmember) heq⟩

theorem looseEq_comm (hv : v.WellKeyed) (hw : w.WellKeyed) : looseEq v w = looseEq w v :=
  Bool.eq_iff_iff.mpr ⟨looseEq_symm hv hw, looseEq_symm hw hv⟩

theorem looseEq_trans (hv : v.WellKeyed) (hvw : looseEq v w = true) (hwu : looseEq w u = true) :
    looseEq v u = true := by
  -- The first value is taken apart; the second and the third have its shape.
  induction hv generalizing w u with
  | null | text | date | uuid =>
    obtain rfl := (looseEq_atom rfl).mp hvw
    exact hwu
  | bool | int | float | decimal => exact looseEq_exact_trans rfl hvw hwu
  | moment m =>
    obtain ⟨n, rfl, hmn⟩ := looseEq_moment.mp hvw
    obtain ⟨o, rfl, hno⟩ := looseEq_moment.mp hwu
    obtain ⟨hoffset, hseconds, hmicros⟩ := Moment.same_iff.mp hmn
    rw [looseEq_moment]
    refine ⟨o, rfl, Moment.same_iff.mpr ?_⟩
    rw [hoffset, hseconds, hmicros]
    exact Moment.same_iff.mp hno
  | list _ ih =>
    obtain ⟨ys, rfl, hxy⟩ := looseEq_list.mp hvw
    obtain ⟨zs, rfl, hyz⟩ := looseEq_list.mp hwu
    exact looseEq_list.mpr ⟨zs, rfl, forall₂_trans (fun x hx y z => ih x hx) hxy hyz⟩
  | tuple _ ih =>
    obtain ⟨ys, rfl, hxy⟩ := looseEq_tuple.mp hvw
    obtain ⟨zs, rfl, hyz⟩ := looseEq_tuple.mp hwu
    exact looseEq_tuple.mpr ⟨zs, rfl, forall₂_trans (fun x hx y z => ih x hx) hxy hyz⟩
  | object _ _ ih =>
    obtain ⟨gs, rfl, hlength, hfound⟩ := looseEq_object.mp hvw
    obtain ⟨hs, rfl, hlength', hfound'⟩ := looseEq_object.mp hwu
    refine looseEq_object.mpr ⟨hs, rfl, hlength.trans hlength', fun member hmember => ?_⟩
    obtain ⟨w, hw, hmw⟩ := hfound member hmember
    obtain ⟨u, hu, hwu⟩ := hfound' _ (Fields.mem_of_get? hw)
    exact ⟨u, hu, ih member hmember hmw hwu⟩

theorem looseEq_refl (hv : v.IsJson) : looseEq v v = true := by
  induction hv with
  | null | text => exact (looseEq_atom rfl).mpr rfl
  | bool b => cases b <;> decide
  | int i => exact (looseEq_exact rfl).mpr (.inr ⟨_, rfl, beq_self_eq_true _⟩)
  | float x =>
    cases x with
    -- No exact value equals that of NaN, but the double itself does.
    | nan => rfl
    | finite m u => exact (looseEq_exact rfl).mpr (.inr ⟨_, rfl, beq_self_eq_true _⟩)
    | infinite m => exact (looseEq_exact rfl).mpr (.inr ⟨_, rfl, beq_self_eq_true _⟩)
  | list _ ih => exact looseEq_list.mpr ⟨_, rfl, List.forall₂_same.mpr ih⟩
  | object hkeys _ ih =>
    refine looseEq_object.mpr ⟨_, rfl, rfl, fun member hmember => ?_⟩
    exact ⟨member.2, Fields.get?_of_mem hkeys hmember, ih member hmember⟩

/-! ## Strict equality -/

/-- Two numbers are compared by the doubles that they convert to. -/
theorem strictEq_doubles {x y : Except Fault Double} (hv : v.toDouble? = some x)
    (hw : w.toDouble? = some y) :
    strictEq (some v) (some w) = (do return (← x).eq (← y)) := by
  have hv' : ∀ b, v ≠ bool b := by
    rintro b rfl
    cases hv
  have hw' : ∀ b, w ≠ bool b := by
    rintro b rfl
    cases hw
  unfold strictEq
  dsimp only
  split
  · next b _ => exact absurd rfl (hv' b)
  · next b _ => exact absurd rfl (hv' b)
  · next b _ => exact absurd rfl (hw' b)
  · rw [hv, hw]

/-- No number equals anything but a number. -/
theorem strictEq_mixed (h : v.toDouble?.isSome ≠ w.toDouble?.isSome) :
    strictEq (some v) (some w) = .ok false := by
  unfold strictEq
  dsimp only
  split
  · exact absurd rfl h
  · rfl
  · rfl
  · split
    · next hv hw => exact absurd (by rw [hv, hw]; rfl) h
    · next hv hw => exact absurd (by rw [hv, hw]) h
    · rfl

/-- What is no number is compared loosely. -/
theorem strictEq_others (hv : v.toDouble? = none) (hw : w.toDouble? = none) :
    strictEq (some v) (some w) = .ok (looseEq v w) := by
  unfold strictEq
  dsimp only
  -- Truth values are compared first; loose equality tells them from all that is no number as well.
  split
  · next a b => cases a <;> cases b <;> decide
  · next b _ hw' =>
    cases w with
    | bool c => exact absurd rfl (hw' c)
    | int | float | decimal => cases hw
    | _ => rfl
  · next b hv' =>
    cases v with
    | bool c => exact absurd rfl (hv' c)
    | int | float | decimal => cases hv
    | _ => rfl
  · rw [hv, hw]

/-- Strict equality holds of numbers with equal doubles, and of other values if they are loosely
equal. -/
theorem strictEq_eq_true : strictEq (some v) (some w) = .ok true ↔
    (∃ x y, v.toDouble? = some (.ok x) ∧ w.toDouble? = some (.ok y) ∧ x.eq y = true) ∨
      (v.toDouble? = none ∧ w.toDouble? = none ∧ looseEq v w = true) := by
  cases hv : v.toDouble? with
  | none =>
    cases hw : w.toDouble? with
    | none => simp [strictEq_others hv hw]
    | some y => simp [strictEq_mixed (v := v) (w := w) (by simp [hv, hw])]
  | some x =>
    cases hw : w.toDouble? with
    | none => simp [strictEq_mixed (v := v) (w := w) (by simp [hv, hw])]
    | some y =>
      rw [strictEq_doubles hv hw, Except.bind_eq_ok]
      constructor
      · rintro ⟨a, rfl, h⟩
        obtain ⟨b, rfl, h⟩ := Except.bind_eq_ok.mp h
        exact .inl ⟨a, b, rfl, rfl, Except.ok.inj h⟩
      · rintro (⟨a, b, ha, hb, hab⟩ | ⟨h, -⟩)
        · cases ha
          cases hb
          exact ⟨a, rfl, congrArg Except.ok hab⟩
        · cases h

/-- The one way in which a number has no double. -/
theorem fault_of_toDouble? {f : Fault} (h : v.toDouble? = some (.error f)) : f = .beyondDouble := by
  cases v with
  | int i =>
    rw [toDouble?, Option.some.injEq] at h
    split at h
    · cases h
    · cases h
      rfl
  | float x => cases h
  | decimal d => cases h
  | _ => cases h

theorem strictEq_comm {l r : Option Value} (hl : ∀ v ∈ l, v.WellKeyed)
    (hr : ∀ w ∈ r, w.WellKeyed) : strictEq l r = strictEq r l := by
  cases l with
  | none => cases r <;> rfl
  | some v =>
    cases r with
    | none => rfl
    | some w =>
      cases hv : v.toDouble? with
      | none =>
        cases hw : w.toDouble? with
        | none =>
          rw [strictEq_others hv hw, strictEq_others hw hv, looseEq_comm (hl v rfl) (hr w rfl)]
        | some y => rw [strictEq_mixed (by simp [hv, hw]), strictEq_mixed (by simp [hv, hw])]
      | some x =>
        cases hw : w.toDouble? with
        | none => rw [strictEq_mixed (by simp [hv, hw]), strictEq_mixed (by simp [hv, hw])]
        | some y =>
          rw [strictEq_doubles hv hw, strictEq_doubles hw hv]
          cases x with
          | error f =>
            cases y with
            | error g => rw [fault_of_toDouble? hv, fault_of_toDouble? hw]
            | ok b => rfl
          | ok a =>
            cases y with
            | error g => rfl
            | ok b => exact congrArg Except.ok (Double.eq_comm a b)

theorem strictEq_trans {l m r : Option Value} (hl : ∀ v ∈ l, v.WellKeyed)
    (hlm : strictEq l m = .ok true) (hmr : strictEq m r = .ok true) : strictEq l r = .ok true := by
  cases l with
  | none =>
    cases m with
    | none => exact hmr
    | some w => cases hlm
  | some v =>
    cases m with
    | none => cases hlm
    | some w =>
      cases r with
      | none => cases hmr
      | some u =>
        rw [strictEq_eq_true] at hlm hmr ⊢
        rcases hlm with ⟨x, y, hx, hy, hxy⟩ | ⟨hv, hw, hvw⟩
        · rcases hmr with ⟨y', z, hy', hz, hyz⟩ | ⟨hw, -⟩
          · cases hy.symm.trans hy'
            exact .inl ⟨x, z, hx, hz, Double.eq_trans hxy hyz⟩
          · cases hy.symm.trans hw
        · rcases hmr with ⟨y, z, hy, -⟩ | ⟨-, hu, hwu⟩
          · cases hw.symm.trans hy
          · exact .inr ⟨hv, hu, looseEq_trans (hl v rfl) hvw hwu⟩

/-- A value is no integer beyond the doubles, and not the double NaN. -/
def InRange : Value → Prop
  | int i => i.natAbs < Double.intLimit
  | float x => x ≠ .nan
  | _ => True

theorem strictEq_refl (hv : v.IsJson) (hrange : v.InRange) :
    strictEq (some v) (some v) = .ok true := by
  rw [strictEq_eq_true]
  have hloose := looseEq_refl hv
  cases hv with
  | int i =>
    have hfits : Double.ofInt? i ≠ none := mt Double.ofInt?_eq_none.mp (Nat.not_le.mpr hrange)
    obtain ⟨x, hx⟩ := Option.ne_none_iff_exists'.mp hfits
    have hdouble : (int i).toDouble? = some (.ok x) := by simp only [toDouble?, hx]
    exact .inl ⟨x, x, hdouble, hdouble, Double.eq_self (Double.ofInt?_nearest hx).ne_nan⟩
  | float x => exact .inl ⟨x, x, rfl, rfl, Double.eq_self hrange⟩
  | _ => exact .inr ⟨rfl, rfl, hloose⟩

end Value

end Rulebook
