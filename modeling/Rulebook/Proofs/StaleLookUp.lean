import Mathlib
import Rulebook.Proofs.Evaluation

/-!
Losing a race. An evaluation that looks for live findings before another one has filed them goes on
to file its own; the store refuses the duplicate, the attempt is undone and the version passed over.
That is what a look in time would have led to as well: visit by visit
(`Evaluation.evaluateVersion_stale`) the stale evaluation ends where the ordinary one does, whatever
the visits before have stored. The converse fails, as what is passed over in time is not planned
first, and a plan may fail.
-/
namespace Rulebook

open Txn

namespace Evaluation

variable {s s' : Store} {c : Circumstances} {t : Target} {caller : Caller}

/-- A visit that overlooks live findings ends as one that does not. -/
theorem evaluateVersion_stale (hs : s.Supplied) {v : Version} {r : Rule}
    {found : Option FindingView}
    (h : Yields (evaluateVersion { c with stale := true } t v r) s found s') :
    Yields (evaluateVersion { c with stale := false } t v r) s found s' ∧
      s.Gains s' found.toList := by
  cases htree : Condition.ofValue c.policy v.conditionsOrNone with
  | error e =>
    have hnone : ∀ stale, evaluateVersion { c with stale } t v r = pure none := fun _ =>
      evaluateVersion_of_malformed htree
    rw [hnone] at h
    rw [hnone]
    obtain ⟨rfl, rfl⟩ := yields_pure.1 h
    exact ⟨h, .nil s'⟩
  | ok tree =>
    rw [show evaluateVersion { c with stale := true } t v r = _ from
      evaluateVersion_of_tree htree] at h
    rw [show evaluateVersion { c with stale := false } t v r = _ from
      evaluateVersion_of_tree htree]
    obtain ⟨holds, hholds, h⟩ := (reads_ofFault _).yields_bind.1 h
    rw [(reads_ofFault _).yields_bind]
    cases holds with
    | false =>
      obtain ⟨rfl, rfl⟩ := yields_pure.1 h
      exact ⟨⟨false, hholds, h⟩, .nil s'⟩
    | true =>
      have hhit : Yields (fileHit c.today t v r tree) s found s' := h
      obtain ⟨key, hkey, hcases⟩ := yields_fileHit hs htree hhit
      have hlook : Yields (if (s.liveFinding? key).isSome then pure none
          else fileHit c.today t v r tree) s found s' := by
        rcases hcases with ⟨rfl, rfl, hpending⟩ | ⟨view, -, hpending, -, -⟩
        · rw [if_pos ((liveFinding?_isSome_iff hkey).2 hpending)]
          exact yields_pure.2 ⟨rfl, rfl⟩
        · rw [if_neg fun hlive => hpending ((liveFinding?_isSome_iff hkey).1 hlive)]
          exact hhit
      refine ⟨⟨true, hholds, (Filing.reads_key _ _ _ _).yields_bind.2
        ⟨key, hkey, yields_get_bind.2 hlook⟩⟩, ?_⟩
      rcases hcases with ⟨rfl, rfl, -⟩ | ⟨view, rfl, -, -, hgains⟩
      · exact .nil s'
      · exact hgains

theorem evaluateVersions_stale (hs : s.Supplied) {listed : List (Version × Rule)}
    {found : List FindingView}
    (h : Yields (evaluateVersions { c with stale := true } t listed) s found s') :
    Yields (evaluateVersions { c with stale := false } t listed) s found s' ∧
      s.Gains s' found := by
  induction listed generalizing s found with
  | nil =>
    obtain ⟨rfl, rfl⟩ := yields_pure.1 h
    exact ⟨h, .nil s'⟩
  | cons hit rest ih =>
    obtain ⟨v, r⟩ := hit
    unfold evaluateVersions at h ⊢
    obtain ⟨first, u, hfirst, h⟩ := yields_bind.1 h
    obtain ⟨more, _, hmore, h⟩ := yields_bind.1 h
    obtain ⟨rfl, rfl⟩ := yields_pure.1 h
    obtain ⟨hlook, hgain⟩ := evaluateVersion_stale hs hfirst
    obtain ⟨hlooks, hgains⟩ := ih (hs.of_yields (evaluateVersion_changes t v r) hfirst) hmore
    exact ⟨yields_bind.2 ⟨first, u, hlook, yields_bind.2 ⟨more, _, hlooks, h⟩⟩,
      hgain.append hgains⟩

/-- Both evaluations visit the same versions: the listing is read before the first visit. -/
theorem evaluate_stale (hs : s.Supplied) {entityType : Text} {entity : Fields}
    {found : List FindingView}
    (h : Yields (evaluate { c with stale := true } caller entityType entity) s found s') :
    Yields (evaluate { c with stale := false } caller entityType entity) s found s' ∧
      s.Gains s' found := by
  obtain ⟨t, name, ht, hname, hvisits⟩ := yields_evaluate_iff.1 h
  obtain ⟨hlooks, hgains⟩ := evaluateVersions_stale hs hvisits
  exact ⟨yields_evaluate_iff.2 ⟨t, name, ht, hname, hlooks⟩, hgains⟩

end Evaluation

/-- On every store whose next identifiers are new, as they are in all histories: where an evaluation
that overlooks all live findings goes through, the ordinary evaluation goes through as well, answers
the same findings and leaves the same store. That store has all the findings answered, those from
before a refused duplicate too, with their tasks and nothing else that is new; a filing that fails,
for a duplicate or for anything else, leaves no row behind. -/
theorem stale_look_ups_cost_nothing (s : Store) (hs : s.Supplied) (policy : FailurePolicy)
    (today : Date) (caller : Caller) (entityType : Text) (entity : Fields)
    (found : List FindingView) (s' : Store)
    (h : Yields (Evaluation.evaluate { policy, today, stale := true } caller entityType entity)
      s found s') :
    Yields (Evaluation.evaluate { policy, today, stale := false } caller entityType entity)
      s found s' ∧
    s.Gains s' found ∧
    ∀ subject plan e u u', Fails (Filing.file subject plan) u e u' → u' = u := by
  obtain ⟨hlooks, hgains⟩ := Evaluation.evaluate_stale (c := { policy, today }) hs h
  exact ⟨hlooks, hgains, fun subject plan _ _ _ hfails =>
    (Filing.undone_file subject plan).fails hfails⟩

/-- After a loan has been reported by one rule, a second rule about loans is activated. -/
def secondRule : List Move :=
  let caller : Caller := { tenant := ⟨100⟩ }
  [.call {} caller (.evaluate "loan" [("id", .text "7")] none false),
    .call {} caller (.createRule { pack := ⟨0⟩, name := "Rate" }
      { conditions := .object [("all", .list [])] }),
    .call {} caller (.submitRule ⟨4⟩), .call {} caller (.approveVersion ⟨5⟩),
    .call {} caller (.activateVersion ⟨5⟩)]

/-- Whether the report is overlooked or not, only the second rule reports the loan now. -/
theorem stale_look_ups_cost_nothing_loan :
    let s := ((Engine.fresh .absent default 0).after (blanketRule ++ secondRule)).store
    s.findings.map (fun f => f.rule) = [⟨1⟩] ∧
    ∃ found s', found.map (fun view => view.finding.rule) = [⟨4⟩] ∧
      Yields (Evaluation.evaluate { today := default, stale := true } { tenant := ⟨100⟩ } "loan"
        [("id", .text "7")]) s found s' ∧
      Yields (Evaluation.evaluate { today := default } { tenant := ⟨100⟩ } "loan"
        [("id", .text "7")]) s found s' := by
  have hanswer : ((Evaluation.evaluate { today := default, stale := true } { tenant := ⟨100⟩ } "loan"
      [("id", .text "7")]
      ((Engine.fresh .absent default 0).after (blanketRule ++ secondRule)).store :
        Except Failure (List FindingView) × Store).1.toOption.map fun found =>
          found.map fun view => view.finding.rule) = some [⟨4⟩] := by cbv
  obtain ⟨found, s', hrun, hrules⟩ := yields_of_answer hanswer
  have hs := Engine.after_intact (Engine.fresh_intact .absent default 0)
    (blanketRule ++ secondRule)
  exact ⟨by cbv, found, s', hrules, hrun, (stale_look_ups_cost_nothing _ hs.supplied .neverTrigger
    default { tenant := ⟨100⟩ } "loan" [("id", .text "7")] found s' hrun).1⟩

end Rulebook
