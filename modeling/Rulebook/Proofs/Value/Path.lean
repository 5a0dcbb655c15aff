import Mathlib
import Rulebook.Proofs.Number.Numeral
import Rulebook.Proofs.Results
import Rulebook.Value.Path

/-!
Where a path fails to be followed. Members of objects are looked up by any step, and what is missing
stays missing; but a list or tuple is asked for an item by every step that has the form of an index,
and such a step need not denote a number: digit-like characters are no decimal digits, and a number
may have too many of them (`BadIndex`). These steps are the only ones that fail
(`resolve_fails`).
-/
namespace Rulebook.Value

/-- A step that has the form of an index and is none: some character is a digit and no decimal one,
or there are too many of them. -/
def BadIndex (s : Text) : Prop :=
  ∃ cs, s.chars? = some cs ∧ cs ≠ [] ∧ (∀ c ∈ cs, Text.isDigit c = true) ∧
    ((∃ c ∈ cs, Text.decimalDigit? c = none) ∨ Fault.maxIndexDigits < cs.length)

theorem indexChars?_eq_some {s : Text} {cs : List Char} : indexChars? s = some cs ↔
    s.chars? = some cs ∧ cs ≠ [] ∧ ∀ c ∈ cs, Text.isDigit c = true := by
  rw [indexChars?, Option.filter_eq_some_iff]
  simp

/-- Digits denote an index if all of them are decimal and they are not too many. -/
theorem index_fails {cs : List Char} : Except.Fails (index cs) ↔
    (∃ c ∈ cs, Text.decimalDigit? c = none) ∨ Fault.maxIndexDigits < cs.length := by
  obtain ⟨front, hsplit, hdigits, hstop⟩ := Numeral.takeDigits_spec cs
  rw [index]
  generalize Numeral.takeDigits cs = taken at hsplit hdigits hstop
  obtain ⟨ds, rest⟩ := taken
  dsimp only at hsplit hdigits hstop ⊢
  have hlength : front.length = ds.length := hdigits.length_eq
  have hdecimal : ∀ c ∈ front, Text.decimalDigit? c ≠ none := by
    intro c hc hnone
    obtain ⟨d, -, hd⟩ := exists_right_of_forall₂ hdigits c hc
    cases hnone.symm.trans hd
  subst hsplit
  cases rest with
  | nil =>
    rw [List.append_nil, hlength]
    split
    · next hlong => exact ⟨fun _ => .inr hlong, fun _ => Except.fails_error _⟩
    · next hshort =>
      refine ⟨fun h => absurd h (Except.not_fails_ok _), ?_⟩
      rintro (⟨c, hc, hnone⟩ | hlong)
      · exact absurd hnone (hdecimal c hc)
      · exact absurd hlong hshort
  | cons c tail =>
    -- The run of decimal digits ends before the step does.
    have hc : Text.decimalDigit? c = none := hstop c rfl
    refine ⟨fun _ => .inl ⟨c, by simp, hc⟩, fun _ => ?_⟩
    split
    · exact Except.fails_error _
    · exact Except.fails_error _

/-- A list or tuple. -/
def IsSequence (v : Value) : Prop := ∃ items, v = list items ∨ v = tuple items

theorem step_list_fails {items : List Value} {s : Text} :
    Except.Fails ((list items).step s) ↔ BadIndex s := by
  rw [step]
  cases hs : indexChars? s with
  | none =>
    refine ⟨fun h => absurd h (Except.not_fails_ok _), ?_⟩
    rintro ⟨cs, hcs, hne, hall, -⟩
    cases hs.symm.trans (indexChars?_eq_some.mpr ⟨hcs, hne, hall⟩)
  | some cs =>
    obtain ⟨hcs, hne, hall⟩ := indexChars?_eq_some.mp hs
    dsimp only
    rw [Except.bind_fails, index_fails]
    constructor
    · rintro (hbad | ⟨i, -, h⟩)
      · exact ⟨cs, hcs, hne, hall, hbad⟩
      · exact absurd h (Except.not_fails_ok _)
    · rintro ⟨ds, hds, -, -, hbad⟩
      cases hcs.symm.trans hds
      exact .inl hbad

/-- Of all steps only those fail that ask a list or tuple for an item by an index that is none. -/
theorem step_fails {v : Value} {s : Text} :
    Except.Fails (v.step s) ↔ v.IsSequence ∧ BadIndex s := by
  cases v with
  | list items => exact step_list_fails.trans ⟨fun h => ⟨⟨items, .inl rfl⟩, h⟩, fun h => h.2⟩
  | tuple items =>
    have hlist : (tuple items).step s = (list items).step s := rfl
    rw [hlist, step_list_fails]
    exact ⟨fun h => ⟨⟨items, .inr rfl⟩, h⟩, fun h => h.2⟩
  | _ => simp [step, IsSequence, Except.not_fails_ok]

/-- Once something is missing, all that it leads to is missing. -/
theorem follow_none (steps : List Text) : follow none steps = .ok none := by
  cases steps <;> rfl

theorem follow_cons {v : Value} {s : Text} {rest : List Text} :
    follow (some v) (s :: rest) = v.step s >>= fun w => follow w rest := rfl

theorem follow_fails {v : Option Value} {steps : List Text} : Except.Fails (follow v steps) ↔
    ∃ front s rest w, steps = front ++ s :: rest ∧ follow v front = .ok (some w) ∧
      w.IsSequence ∧ BadIndex s := by
  induction steps generalizing v with
  | nil => simp [follow, Except.not_fails_ok]
  | cons s rest ih =>
    cases v with
    | none =>
      refine ⟨fun h => absurd h (by rw [follow_none]; exact Except.not_fails_ok _), ?_⟩
      rintro ⟨front, t, tail, w, -, hw, -⟩
      cases (follow_none front).symm.trans hw
    | some v =>
      rw [follow_cons, Except.bind_fails, step_fails]
      constructor
      · rintro (⟨hv, hs⟩ | ⟨w, hw, h⟩)
        · exact ⟨[], s, rest, v, rfl, rfl, hv, hs⟩
        · obtain ⟨front, t, tail, u, rfl, hu, hbad⟩ := ih.mp h
          refine ⟨s :: front, t, tail, u, rfl, ?_, hbad⟩
          rw [follow_cons, hw]
          exact hu
      · rintro ⟨front, t, tail, u, hsplit, hu, hbad⟩
        cases front with
        | nil =>
          obtain ⟨rfl, -⟩ := List.cons.inj hsplit
          cases hu
          exact .inl hbad
        | cons r front =>
          obtain ⟨rfl, rfl⟩ := List.cons.inj hsplit
          rw [follow_cons] at hu
          obtain ⟨w, hw, hu⟩ := Except.bind_eq_ok.mp hu
          exact .inr ⟨w, hw, ih.mpr ⟨front, t, tail, u, rfl, hu, hbad⟩⟩

/-- Some step of a path asks a list or tuple for an item by an index that is none. -/
def Stumbles (v : Option Value) (path : Text) : Prop :=
  ∃ front s rest w, steps path = front ++ s :: rest ∧ follow v front = .ok (some w) ∧
    w.IsSequence ∧ BadIndex s

theorem resolve_fails {v : Option Value} {path : Text} :
    Except.Fails (resolve v path) ↔ Stumbles v path :=
  follow_fails

end Rulebook.Value
