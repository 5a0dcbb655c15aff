import Rulebook.Proofs.Directive.DueDate
import Rulebook.Proofs.Store.Saving
import Rulebook.Catalogue

/-!
What the calls of the catalogue and of authoring do to the store, whatever their outcome. The
versions that authoring writes have conditions and actions that it has checked.
-/
namespace Rulebook

open Txn

variable {c : Impact.Circumstances} {s s' : Store} {caller : Caller}

/-! ## Packs and regulations -/

namespace Catalogue

theorem createPack_changes (draft : PackDraft) :
    Changes c .catalogue s (createPack caller draft s).2 := by
  unfold createPack
  refine .read (reads_encoded _) fun name _ => .read (reads_encoded _) fun authority _ => ?_
  refine .read (reads_encoded? _) fun description _ => .read (reads_encoded _) fun status _ => ?_
  exact .single (.packAdded rfl s.ticks_pastRow)

theorem updatePack_changes (id : Uuid) (change : PackChange) :
    Changes c .catalogue s (updatePack caller id change s).2 := by
  unfold updatePack
  refine .own fun p hp _ _ => ?_
  refine .read (reads_encoded? _) fun name _ => .read (reads_encoded? _) fun authority _ => ?_
  refine .read (reads_encoded? _) fun description _ => .read (reads_encoded? _) fun status _ => ?_
  exact .savePack hp ⟨rfl, rfl⟩ rfl

theorem createRegulation_changes (draft : RegulationDraft) :
    Changes c .catalogue s (createRegulation caller draft s).2 := by
  unfold createRegulation
  dsimp only
  cases hdraft : draft.pack
  case' some p => refine .read (reads_own _ _ _ _).discard fun _ hfound => ?_
  all_goals
    refine .read (reads_encoded _) fun authority _ => .read (reads_encoded _) fun title _ => ?_
    refine .read (reads_encoded? _) fun citation _ => .read (reads_encoded? _) fun url _ => ?_
    refine .read (reads_encoded? _) fun rawText _ => .read (reads_encoded? _) fun summary _ => ?_
    refine .read (reads_encoded _) fun status _ => ?_
    refine .single (.regulationAdded rfl (fun q hq => ?_) s.ticks_pastRow)
  -- The pack that is named has been found by then.
  case some =>
    cases hq
    obtain ⟨q, hq⟩ := yields_discard.1 hfound
    obtain ⟨hq, hid, htenant⟩ := findOwn_eq_some (yields_own.1 hq).1
    exact mem_owned.2 ⟨q, hq, hid, htenant⟩
  case none => cases hq

end Catalogue

/-! ## Checks -/

namespace Authoring

theorem reads_checkConditions (conditions : Value) : Reads (checkConditions conditions) :=
  (reads_ofExcept _).discard

theorem yields_checkConditions {conditions : Value} {u : Unit}
    (h : Yields (checkConditions conditions) s u s') :
    ∃ tree, Condition.authored conditions = .ok tree := by
  obtain ⟨tree, htree⟩ := yields_discard.1 h
  exact ⟨tree, Except.mapError_eq_ok.1 (yields_ofExcept.1 htree).1⟩

theorem reads_checkActions (actions : Value) : Reads (checkActions actions) :=
  (reads_ofExcept _).bind fun _ => reads_pure _

/-- Checked actions are the list that was authored. -/
theorem yields_checkActions {actions a : Value} (h : Yields (checkActions actions) s a s') :
    a = actions ∧ ∃ entries, Directive.check actions = .ok entries := by
  obtain ⟨entries, _, hread, hpure⟩ := yields_bind.1 h
  obtain ⟨rfl, rfl⟩ := yields_pure.1 hpure
  have hchecked := Except.mapError_eq_ok.1 (yields_ofExcept.1 hread).1
  exact ⟨(Directive.check_eq_ok hchecked).1.symm, entries, hchecked⟩

theorem reads_checkDraft (draft : VersionDraft) : Reads (checkDraft draft) :=
  (reads_checkConditions _).bind fun _ => (reads_checkActions _).bind fun _ => reads_pure _

theorem yields_checkDraft {draft checked : VersionDraft}
    (h : Yields (checkDraft draft) s checked s') :
    (∃ tree, Condition.authored checked.conditions = .ok tree) ∧
      ∃ entries, Directive.check checked.actions = .ok entries := by
  unfold checkDraft at h
  obtain ⟨_, _, hconditions, h⟩ := yields_bind.1 h
  obtain ⟨_, _, hactions, h⟩ := yields_bind.1 h
  obtain ⟨rfl, -⟩ := yields_pure.1 h
  obtain ⟨rfl, hchecked⟩ := yields_checkActions hactions
  exact ⟨yields_checkConditions hconditions, hchecked⟩

/-! ## Rules and versions -/

theorem addDraft_changes {rule : Uuid} {draft : VersionDraft} (number : Int)
    (hrule : (rule, caller.tenant) ∈ owned s.rules)
    (hchecked : (∃ tree, Condition.authored draft.conditions = .ok tree) ∧
      ∃ entries, Directive.check draft.actions = .ok entries) :
    Changes c .authoring s (addDraft caller rule number draft s).2 := by
  unfold addDraft
  refine .read (reads_column _) fun number _ => .read (reads_encoded _) fun severity _ => ?_
  refine .read (reads_encoded? _) fun changeNote _ => ?_
  rw [run_newRow_bind]
  refine .bind_reads (.addVersion ?_ ?_ ?_ ?_ ?_) fun _ => reads_pure _
  · rfl
  · exact hrule
  · exact ⟨rfl, rfl, rfl⟩
  · exact hchecked
  · rfl

theorem createRule_changes (draft : RuleDraft) (first : VersionDraft) :
    Changes c .authoring s (createRule caller draft first s).2 := by
  unfold createRule
  refine .read (reads_checkDraft _) fun first hfirst => ?_
  refine .read (reads_own _ _ _ _).discard fun _ hfound => ?_
  refine .read (reads_encoded _) fun name _ => .read (reads_encoded? _) fun appliesTo _ => ?_
  rw [run_newRow_bind]
  obtain ⟨p, hp⟩ := yields_discard.1 hfound
  obtain ⟨hp, hid, htenant⟩ := findOwn_eq_some (yields_own.1 hp).1
  have hpack : (draft.pack, caller.tenant) ∈ owned s.packs := mem_owned.2 ⟨p, hp, hid, htenant⟩
  refine .bind (.addRule rfl ⟨rfl, rfl⟩ hpack) fun _ t hadded _ => ?_
  have hchecked := yields_checkDraft hfirst
  refine .bind_reads (.discard (addDraft_changes 1 ?_ hchecked)) fun _ => reads_showRule _
  rw [yields_modify.1 hadded]
  exact mem_owned_self (List.mem_append_right _ (List.mem_singleton_self _))

theorem createVersion_changes (rule : Uuid) (draft : VersionDraft) :
    Changes c .authoring s (createVersion caller rule draft s).2 := by
  unfold createVersion
  refine .read (reads_checkDraft _) fun draft hdraft => .own fun r hr _ htenant => ?_
  refine .read reads_get fun t _ => ?_
  refine .bind_reads (addDraft_changes _ ?_ (yields_checkDraft hdraft)) reads_showVersion
  rw [← htenant]
  exact mem_owned_self hr

theorem updateVersion_changes (id : Uuid) (change : VersionChange) :
    Changes c .authoring s (updateVersion caller id change s).2 := by
  unfold updateVersion
  refine .own fun v hv _ _ => .guard fun hdraft => ?_
  refine .read (reads_optionForM reads_checkConditions _) fun _ hconditions => ?_
  refine .read (reads_optionForM (fun a => (reads_checkActions a).discard) _) fun _ hactions => ?_
  refine .read (reads_encoded? _) fun severity _ => .read (reads_encoded? _) fun note _ => ?_
  refine .bind_reads (.saveVersion hv (.content (not_not.1 hdraft) ⟨rfl, rfl, rfl, rfl⟩ ?_ ?_))
    reads_showVersion
  · intro k hk
    rw [show change.conditions = some k from hk] at hconditions
    exact yields_checkConditions hconditions
  · intro k hk
    rw [show change.actions = some k from hk] at hactions
    obtain ⟨a, ha⟩ := yields_discard.1 hactions
    exact (yields_checkActions ha).2

theorem forceVersion_changes (id : Uuid) (write : VersionWrite) :
    Changes c .forcing s (forceVersion caller id write s).2 := by
  unfold forceVersion
  refine .own fun v hv _ _ => .read (reads_optionMapM reads_column _) fun number _ => ?_
  refine .read (reads_encoded? _) fun status _ => .read (reads_encoded? _) fun severity _ => ?_
  refine .read (reads_optionMapM reads_encoded? _) fun changeNote _ => .guard fun _ => ?_
  exact .bind_reads (.saveVersion hv (.force ⟨rfl, rfl⟩)) reads_showVersion

end Authoring

end Rulebook
