import Mathlib
import Rulebook.Proofs.Value.Path

/-!
Paths that go on from each other. Where a path is a text, a dot and another text, its steps are
those of the first and then those of the second (`steps_append`). What is missing stays missing, and
a fault ends the walk. So the whole path leads from a value to what the second text leads to from
where the first one ends (`resolution_composes`); below the name of an entity type it is a path into
the entity.
-/
namespace Rulebook.Value

variable {v : Option Value} {p : Text}

/-! ## Steps -/

/-- A path is split at its dots, and nowhere else. -/
theorem stepLetters_eq_splitOnP (ls : List Letter) :
    stepLetters ls = ls.splitOnP (· == .char '.') := by
  induction ls with
  | nil => rfl
  | cons l rest ih =>
    rw [List.splitOnP_cons_eq_if_modifyHead, stepLetters, ih]
    simp only [beq_iff_eq]
    split
    · rfl
    · obtain ⟨step, more, hrest⟩ := List.exists_cons_of_ne_nil (List.splitOnP_ne_nil _ rest)
      rw [hrest]
      rfl

theorem steps_append (p q : Text) : steps (p ++ ("." : Text) ++ q) = steps p ++ steps q := by
  have hletters : (p ++ ("." : Text) ++ q).letters = p.letters ++ .char '.' :: q.letters :=
    List.append_assoc p.letters [.char '.'] q.letters
  have hsplit : stepLetters (p.letters ++ .char '.' :: q.letters) =
      stepLetters p.letters ++ stepLetters q.letters := by
    simp only [stepLetters_eq_splitOnP]
    exact List.splitOnP_append_cons _ _ (beq_self_eq_true _)
  rw [steps, hletters, hsplit, List.map_append]
  rfl

/-- A path without dots is its only step. -/
theorem steps_of_no_dot (h : .char '.' ∉ p.letters) : steps p = [p] := by
  have hdots : ∀ l ∈ p.letters, (l == Letter.char '.') = false := fun l hl =>
    beq_false_of_ne fun hdot => h (hdot ▸ hl)
  rw [steps, stepLetters_eq_splitOnP, List.splitOnP_eq_singleton hdots]
  rfl

/-! ## Walks -/

theorem follow_append (v : Option Value) (front rest : List Text) :
    follow v (front ++ rest) = follow v front >>= fun w => follow w rest := by
  induction front generalizing v with
  | nil => rfl
  | cons s front ih =>
    cases v with
    | none =>
      rw [follow_none, follow_none]
      exact (follow_none rest).symm
    | some v =>
      rw [List.cons_append, follow_cons, follow_cons, bind_assoc]
      exact congrArg _ (funext ih)

/-- Paths compose: where a text, a dot and another text lead to is where the second text leads to
from what the first one leads to, be it null or missing; a fault on the way of the first is that of
the whole. So below an object with one member, under a name without dots, the path goes on in the
member as it would from there. -/
theorem resolution_composes (context : Option Value) (p q : Text) :
    resolve context (p ++ ("." : Text) ++ q) = resolve context p >>= (resolve · q) ∧
    ∀ (entityType : Text) (entity : Value), .char '.' ∉ entityType.letters →
      resolve (some (.object [(entityType, entity)])) (entityType ++ ("." : Text) ++ q) =
        resolve (some entity) q := by
  have hcomposes : ∀ (v : Option Value) (p : Text),
      resolve v (p ++ ("." : Text) ++ q) = resolve v p >>= (resolve · q) := by
    intro v p
    rw [resolve, steps_append, follow_append]
    rfl
  refine ⟨hcomposes context p, fun entityType entity hname => ?_⟩
  have hentity : resolve (some (.object [(entityType, entity)])) entityType =
      .ok (some entity) := by
    rw [resolve, steps_of_no_dot hname, follow_cons, step, Fields.get?, List.lookup_cons_self]
    rfl
  rw [hcomposes, hentity]
  rfl

/-- Into the second borrower of a loan. -/
theorem resolution_composes_borrower :
    let loan : Value := .object [("borrowers", .tuple [.null, .object [("state", .text "TX")]])]
    let context : Value := .object [("loan", loan)]
    let path : Text := "borrowers.1.state"
    .char '.' ∉ (Text.ofString "loan").letters ∧
      resolve (some context) (("loan" : Text) ++ ("." : Text) ++ path) =
        .ok (some (.text "TX")) := by
  intro loan context path
  have hname : .char '.' ∉ (Text.ofString "loan").letters := by decide
  refine ⟨hname, ?_⟩
  rw [(resolution_composes none "" path).2 "loan" loan hname]
  rfl

end Rulebook.Value
