import Mathlib
import Rulebook.Condition.Evaluation
import Rulebook.Proofs.Number.Double
import Rulebook.Proofs.Results
import Rulebook.Proofs.Value.Fields

/-!
How strict strict equality is. Two values that it takes as equal are numbers with one nearest
double, or no numbers and alike at every depth: of one kind, with numbers of one exact value, with
as many items, and with members under the same keys (`strictEq_alike`). Only a truth value and a
number of its value below the outermost level are not held apart. The exact values of two numbers at
the outermost level agree if both are doubles or integers of at most 53 bits, beyond which integers
share their nearest doubles.
-/
namespace Rulebook.Value

namespace Exact

theorem eq_of_eq {x y : Exact} (h : x.eq y = true) : x = y := by
  unfold Exact.eq at h
  split at h
  · next x y => rw [eq_of_beq h]
  · next m n => rw [eq_of_beq h]
  · cases h

/-- Doubles that denote the same number have one exact value. -/
theorem ofDouble_eq {x y : Double} (h : x.eq y = true) : ofDouble x = ofDouble y := by
  unfold Double.eq at h
  split at h
  · next m u n v => rw [ofDouble, ofDouble, eq_of_beq h]
  · next m n => rw [eq_of_beq h]
  · cases h

end Exact

/-! ## Values that are alike -/

/-- The exact value of a number. Truth values are no numbers. -/
def number? : Value → Option Exact
  | bool _ => none
  | v => v.toExact?

/-- The values that JSON spells. The keys of an object differ. -/
inductive IsJson : Value → Prop
  | null : IsJson null
  | bool (b : Bool) : IsJson (bool b)
  | int (i : Int) : IsJson (int i)
  | float (x : Double) : IsJson (float x)
  | text (t : Text) : IsJson (text t)
  | list {items : List Value} (hitems : ∀ v ∈ items, IsJson v) : IsJson (list items)
  | object {fields : Fields} (hkeys : (fields.map Prod.fst).Nodup)
      (hmembers : ∀ member ∈ fields, IsJson member.2) : IsJson (object fields)

/-- Two values are of one kind at every depth: numbers have one exact value, lists are as long as
each other and alike item by item, and objects have alike members under the same keys. What is to be
said of the pairs in `free` is left open. -/
inductive Alike (free : Value → Value → Prop) : Value → Value → Prop
  | free {v w : Value} (h : free v w) : Alike free v w
  | null : Alike free null null
  | bool (b : Bool) : Alike free (bool b) (bool b)
  | number {v w : Value} {x : Exact} (hv : v.number? = some x) (hw : w.number? = some x) :
      Alike free v w
  | text (t : Text) : Alike free (text t) (text t)
  | list {xs ys : List Value} (hitems : List.Forall₂ (Alike free) xs ys) :
      Alike free (list xs) (list ys)
  | object {fs gs : Fields} (hkeys : ∀ key, (fs.get? key).isSome = (gs.get? key).isSome)
      (hmembers : ∀ key v w, fs.get? key = some v → gs.get? key = some w → Alike free v w) :
      Alike free (object fs) (object gs)

/-- The same JSON value. -/
abbrev Same : Value → Value → Prop := Alike fun _ _ => False

/-- One is a truth value and the other the number that it counts as: 1 for true, 0 for false. -/
def TruthAndNumber (v w : Value) : Prop :=
  ((∃ b, v = bool b) ∧ w.number? = v.toExact?) ∨ ((∃ b, w = bool b) ∧ v.number? = w.toExact?)

/-! ## Loose equality -/

theorem exact_of_looseEq {v w : Value} {x : Exact} (hx : v.toExact? = some x)
    (h : looseEq v w = true) : w.toExact? = some x := by
  unfold looseEq at h
  split at h
  case h_2 => exact hx
  case h_10 =>
    split at h
    · next a b hv hw => rw [hw, ← hx, hv, Exact.eq_of_eq h]
    · cases h
  all_goals cases hx

theorem looseEqItems_iff {xs ys : List Value} :
    looseEqItems xs ys = true ↔ List.Forall₂ (fun v w => looseEq v w = true) xs ys := by
  induction xs generalizing ys with
  | nil => cases ys <;> simp [looseEqItems]
  | cons x xs ih => cases ys <;> simp [looseEqItems, ih]

theorem looseEqMembers_iff {fs gs : Fields} :
    looseEqMembers fs gs = true ↔
      ∀ member ∈ fs, ∃ w, gs.get? member.1 = some w ∧ looseEq member.2 w = true := by
  induction fs with
  | nil => simp [looseEqMembers]
  | cons member rest ih =>
    obtain ⟨key, v⟩ := member
    rw [looseEqMembers, Bool.and_eq_true, List.forall_mem_cons, ih]
    cases hw : gs.lookup key <;> simp [Fields.get?, hw]

/-- Objects with as many members, all of which are found in the second, have the same keys. -/
theorem keys_eq {fs gs : Fields} (hfs : (fs.map Prod.fst).Nodup)
    (hlength : fs.length = gs.length) (h : ∀ member ∈ fs, (gs.get? member.1).isSome = true)
    (key : Text) : (fs.get? key).isSome = (gs.get? key).isSome := by
  have hsubset : fs.map Prod.fst ⊆ gs.map Prod.fst := by
    intro k hk
    obtain ⟨member, hmember, rfl⟩ := List.mem_map.mp hk
    exact Fields.isSome_get?.mp (h member hmember)
  have hperm : (fs.map Prod.fst).Perm (gs.map Prod.fst) := by
    apply (hfs.subperm hsubset).perm_of_length_le
    rw [List.length_map, List.length_map]
    exact Nat.le_of_eq hlength.symm
  rw [Bool.eq_iff_iff, Fields.isSome_get?, Fields.isSome_get?]
  exact hperm.mem_iff

/-- A number or truth value is loosely equal only to one with its exact value. -/
theorem alike_of_exact {v w : Value} {x : Exact} (hv : IsJson v) (hw : IsJson w)
    (hx : v.toExact? = some x) (hy : w.toExact? = some x) : Alike TruthAndNumber v w := by
  cases hv with
  | bool a =>
    cases hw with
    | bool b =>
      have hab : a = b := by
        cases hx
        cases a <;> cases b <;> first | rfl | (exfalso; revert hy; decide)
      rw [hab]
      exact .bool b
    | int i => exact .free (.inl ⟨⟨a, rfl⟩, hy.trans hx.symm⟩)
    | float y => exact .free (.inl ⟨⟨a, rfl⟩, hy.trans hx.symm⟩)
    | _ => cases hy
  | int i =>
    cases hw with
    | bool b => exact .free (.inr ⟨⟨b, rfl⟩, hx.trans hy.symm⟩)
    | int j => exact .number hx hy
    | float y => exact .number hx hy
    | _ => cases hy
  | float z =>
    cases hw with
    | bool b => exact .free (.inr ⟨⟨b, rfl⟩, hx.trans hy.symm⟩)
    | int j => exact .number hx hy
    | float y => exact .number hx hy
    | _ => cases hy
  | _ => cases hx

/-- Loosely equal values are alike, but for truth values and the numbers that they count as. -/
theorem alike_of_looseEq {v w : Value} (hv : IsJson v) (hw : IsJson w)
    (h : looseEq v w = true) : Alike TruthAndNumber v w := by
  induction hv generalizing w with
  | null =>
    cases hw with
    | null => exact .null
    | _ => cases h
  | bool b => exact alike_of_exact (.bool b) hw rfl (exact_of_looseEq rfl h)
  | int i => exact alike_of_exact (.int i) hw rfl (exact_of_looseEq rfl h)
  | float x => exact alike_of_exact (.float x) hw rfl (exact_of_looseEq rfl h)
  | text t =>
    cases hw with
    | text u =>
      rw [eq_of_beq (show (t == u) = true from h)]
      exact .text u
    | _ => cases h
  | list _ ih =>
    cases hw with
    | list hys =>
      obtain ⟨hlength, hzip⟩ := List.forall₂_iff_zip.mp (looseEqItems_iff.mp h)
      refine .list (List.forall₂_iff_zip.mpr ⟨hlength, fun hpair => ?_⟩)
      obtain ⟨hx, hy⟩ := List.of_mem_zip hpair
      exact ih _ hx (hys _ hy) (hzip hpair)
    | _ => cases h
  | @object fs hfs _ ih =>
    cases hw with
    | @object gs _ hgs =>
      obtain ⟨hlength, hfound⟩ := Bool.and_eq_true_iff.mp
        (show (fs.length == gs.length && looseEqMembers fs gs) = true from h)
      have hmembers := looseEqMembers_iff.mp hfound
      refine .object (keys_eq hfs (eq_of_beq hlength) fun member hmember => ?_) ?_
      · obtain ⟨w, hw, -⟩ := hmembers member hmember
        rw [hw, Option.isSome_some]
      · intro key v w hv hw
        have hmember := Fields.mem_of_get? hv
        obtain ⟨u, hu, heq⟩ := hmembers (key, v) hmember
        rw [hw] at hu
        cases hu
        exact ih (key, v) hmember (hgs (key, w) (Fields.mem_of_get? hw)) heq
    | _ => cases h

/-! ## Strict equality -/

/-- A number that is a double: it has the exact value of the one it is converted to. -/
def IsDouble (v : Value) : Prop :=
  ∃ x, v.toDouble? = some (.ok x) ∧ v.number? = some (.ofDouble x)

/-- What strict equality says of two values. -/
structure StrictlyAlike (v w : Value) : Prop where
  kinds : v.number?.isSome = w.number?.isSome
  /-- Numbers have one nearest double. -/
  numbers : v.number?.isSome = true →
    ∃ x y, v.toDouble? = some (.ok x) ∧ w.toDouble? = some (.ok y) ∧ x.eq y = true
  doubles : v.IsDouble → w.IsDouble → Same v w
  others : v.number? = none → Alike TruthAndNumber v w

theorem isSome_number? (v : Value) : v.number?.isSome = v.toDouble?.isSome := by
  cases v <;> rfl

theorem Exact.ofDouble_int (i : Int) :
    ofDouble (.finite (i < 0) (i.natAbs * Double.unitsPerOne)) = finite i := by
  have hunits : Double.unitsPerOne ≠ 0 := by decide +kernel
  rw [ofDouble]
  generalize Double.unitsPerOne = units at hunits
  have hsigned : Double.signed (i < 0) (i.natAbs * units) = i * units := by
    rw [Double.signed]
    by_cases hneg : i < 0
    · have habs : (i.natAbs : Int) = -i := by omega
      rw [if_pos (decide_eq_true hneg), Int.natCast_mul, habs, Int.neg_mul, Int.neg_neg]
    · have habs : (i.natAbs : Int) = i := by omega
      rw [decide_eq_false hneg, if_neg Bool.false_ne_true, Int.natCast_mul, habs]
  have hvalue : mkRat (i * units) units = mkRat i 1 := by
    have h := Rat.mkRat_mul_right (n := i) (d := 1) hunits
    rwa [Nat.one_mul] at h
  rw [hsigned, hvalue, Rat.mkRat_one]

theorem isDouble_float (x : Double) : (float x).IsDouble := ⟨x, rfl, rfl⟩

/-- The integers of at most 53 bits are doubles. -/
theorem isDouble_int {i : Int} (h : i.natAbs ≤ 2 ^ Double.precision) : (int i).IsDouble := by
  refine ⟨.finite (i < 0) (i.natAbs * Double.unitsPerOne), ?_, ?_⟩
  · simp only [toDouble?, Double.ofInt?_of_natAbs_le h]
  · rw [Exact.ofDouble_int]
    rfl

theorem strictEq_numbers {v w : Value} {x y : Except Fault Double} (hx : v.toDouble? = some x)
    (hy : w.toDouble? = some y) (h : (do return (← x).eq (← y) : Except Fault Bool) = .ok true) :
    StrictlyAlike v w := by
  obtain ⟨a, ha, hrest⟩ := Except.bind_eq_ok.mp h
  obtain ⟨b, hb, hends⟩ := Except.bind_eq_ok.mp hrest
  rw [ha] at hx
  rw [hb] at hy
  have hab : a.eq b = true := Except.ok.inj hends
  have hv : v.number?.isSome = true := by rw [isSome_number?, hx, Option.isSome_some]
  have hw : w.number?.isSome = true := by rw [isSome_number?, hy, Option.isSome_some]
  refine ⟨hv.trans hw.symm, fun _ => ⟨a, b, hx, hy, hab⟩, ?_, fun hnone => ?_⟩
  · rintro ⟨c, hc, hvalue⟩ ⟨d, hd, hother⟩
    cases hx.symm.trans hc
    cases hy.symm.trans hd
    rw [← Exact.ofDouble_eq hab] at hother
    exact .number hvalue hother
  · rw [hnone] at hv
    cases hv

theorem strictlyAlike_of_alike {v w : Value} (hv : v.number?.isSome = false)
    (hw : w.number?.isSome = false) (h : Alike TruthAndNumber v w) : StrictlyAlike v w := by
  refine ⟨hv.trans hw.symm, fun hnumber => ?_, ?_, fun _ => h⟩
  · cases hv.symm.trans hnumber
  · rintro ⟨x, -, hvalue⟩ -
    rw [hvalue] at hv
    cases hv

/-- Strictly equal values are alike. -/
theorem strictEq_alike {v w : Value} (hv : IsJson v) (hw : IsJson w)
    (h : strictEq (some v) (some w) = .ok true) : StrictlyAlike v w := by
  unfold strictEq at h
  dsimp only at h
  split at h
  · next a b =>
    rw [eq_of_beq (Except.ok.inj h)]
    exact strictlyAlike_of_alike rfl rfl (.bool b)
  · cases h
  · cases h
  · split at h
    · next x y hx hy => exact strictEq_numbers hx hy h
    · next hx hy =>
      have hnumber : v.number?.isSome = false := by rw [isSome_number?, hx, Option.isSome_none]
      have hother : w.number?.isSome = false := by rw [isSome_number?, hy, Option.isSome_none]
      exact strictlyAlike_of_alike hnumber hother (alike_of_looseEq hv hw (Except.ok.inj h))
    · cases h

end Rulebook.Value
