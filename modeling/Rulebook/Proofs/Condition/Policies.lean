import Rulebook.Failure
import Rulebook.Proofs.Condition.Places

/-!
The three policies for malformed conditions read one tree (`policies_agree`). Two of them keep the
malformed nodes and differ in their outcome only; the third one, under which rules are authored,
lets the tree through if nothing in it is malformed, and else reports the first malformed node by
its reason and its place.
-/
namespace Rulebook.Condition

/-- What is reported of a malformed node tells its place. -/
theorem details_malformedCondition (node : Malformed) (p : Place) :
    (Failure.malformedCondition node).details.get? "path" = some (.text p.text) ↔
      p = node.place := by
  have hpath : (Failure.malformedCondition node).details.get? "path" =
      some (.text node.place.text) := rfl
  rw [hpath, Option.some.injEq, Value.text.injEq, eq_comm]
  constructor
  · intro h
    have hstring := congrArg Text.string? h
    rw [Text.string?_ofString, Text.string?_ofString] at hstring
    exact Place.text_inj.mp (Option.some.inj hstring)
  · rintro rfl
    rfl

/-- The policies read one tree from a value. Malformed nodes are kept in it with one outcome or the
other. Where they are refused, the tree is read only if it has none; else the first one is reported,
under the reason that the tree keeps for it, at the path that leads to the value it was read
from. -/
theorem policies_agree (v : Value) :
    ∃ tree : Condition,
      ofValue .neverTrigger v = .ok tree ∧ tree.withOutcome false = tree ∧
      ofValue .alwaysTrigger v = .ok (tree.withOutcome true) ∧
      (∀ other, ofValue .reject v = .ok other ↔ tree.faults = [] ∧ other = tree) ∧
      ∀ node rest, tree.faults = node :: rest →
        ofValue .reject v = .error node ∧
        (Failure.malformedCondition node).kind = .invalidCondition ∧
        (Failure.malformedCondition node).message =
          Text.ofString ("Invalid condition at " ++ node.reason) ∧
        (∀ p : Place, (Failure.malformedCondition node).details.get? "path" =
          some (.text p.text) ↔ p = node.place) ∧
        tree.at? node.place = some (.malformed node false) ∧
        ∃ w, v.at? node.place = some w ∧
          read .neverTrigger node.place w = .ok (.malformed node false) := by
  obtain ⟨tree, hfalse, htree⟩ := ofValue_settles v
  have hnever : ofValue .neverTrigger v = .ok tree :=
    (htree .neverTrigger).trans (congrArg Except.ok hfalse)
  refine ⟨tree, hnever, hfalse, htree .alwaysTrigger, fun other => ?_, fun node rest hfaults => ?_⟩
  · constructor
    · intro h
      obtain ⟨hnone, rfl⟩ := FailurePolicy.settle_eq_ok_of_reject ((htree .reject).symm.trans h)
      exact ⟨hnone, hfalse⟩
    · rintro ⟨hnone, rfl⟩
      rw [htree .reject, hnone]
      exact congrArg Except.ok hfalse
  · have hreject : ofValue .reject v = .error node := by
      rw [htree .reject, hfaults]
      rfl
    have hnode : node ∈ tree.faults := hfaults ▸ List.mem_cons_self
    obtain ⟨hat, hvalue⟩ := at?_place_of_mem_faults hnever hnode
    exact ⟨hreject, rfl, rfl, details_malformedCondition node, hat, hvalue⟩

/-- Of two malformed conditions the first is reported, at `$.any[0]`. -/
theorem policies_agree_on_two_malformed :
    authored (.object [("any", .list [.object [("all", .null), ("field", .text "a")],
      .object [("field", .text "a"), ("op", .int 1)]])]) =
      .error ⟨[⟨.any, 0⟩], .groupNotAList .all⟩ := by
  obtain ⟨tree, hnever, -, -, -, hfirst⟩ := policies_agree (.object [("any",
    .list [.object [("all", .null), ("field", .text "a")],
      .object [("field", .text "a"), ("op", .int 1)]])])
  cases hnever
  exact (hfirst _ [⟨[⟨.any, 1⟩], .unknownOperator (.int 1)⟩] rfl).1

end Rulebook.Condition
