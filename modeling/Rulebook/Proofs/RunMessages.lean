import Rulebook.Proofs.Calls.Impact
import Rulebook.Proofs.Store.Failing
import Rulebook.Proofs.Store.Frame

/-!
The messages that failed runs are stored with. A message with lone surrogates could not be stored,
and the run that failed with it would go on as if it were running. Nothing that a scan fails with
has such a message (`Impact.storable_of_scan`): texts of callers stand in it only as they are shown,
which spells lone surrogates out, or as the store has taken them already. So the execution of a
stored run never fails (`Impact.executeRun_ends`).
-/
namespace Rulebook

open Txn Impact

theorem Text.ofString_append (s t : String) :
    Text.ofString s ++ Text.ofString t = Text.ofString (s ++ t) := by
  show Text.mk (s.toList.map .char ++ t.toList.map .char) = .mk ((s ++ t).toList.map .char)
  rw [← List.map_append, ← String.toList_append]

/-- There is an encoding for the message of a failure. -/
def Failure.Storable (e : Failure) : Prop := ∃ message : String, e.message = message

namespace Failure

variable {e : Failure}

theorem storable_unknownEntityType (entityType : String) :
    (unknownEntityType entityType).Storable := by
  refine ⟨"No entity table is configured for entity type '" ++ entityType ++ "'", ?_⟩
  simp only [message, Text.ofString_append]

theorem storable_runEnded (id : Uuid) : (runEnded id).Storable := by
  refine ⟨"Impact run " ++ id.toText ++ " is no longer running", ?_⟩
  simp only [message, Text.ofString_append]

theorem storable_notADate (field : String) (v : Value) : (notADate field v).Storable := by
  refine ⟨field ++ " must be an ISO date, got " ++ v.shown, ?_⟩
  simp only [message, Text.ofString_append]

end Failure

namespace Impact

variable {c : Circumstances} {s s' : Store} {e d : Failure} {run : ImpactRun}

/-! ## What a scan fails with -/

theorem storable_of_list {source : EntitySource} {tenant : Uuid} {entityType : String}
    (h : source.list tenant entityType = .error e) : e.Storable := by
  cases source with
  | absent =>
    cases h
    exact ⟨_, rfl⟩
  | memory held => cases h
  | tables tables =>
    rcases Except.bind_eq_error.1 h with h | ⟨table, -, h⟩
    · unfold EntityTables.table at h
      split at h
      · cases h
        exact Failure.storable_unknownEntityType entityType
      · split at h
        · cases h
        · cases h
          exact ⟨_, rfl⟩
    · rcases Except.bind_eq_error.1 h with h | ⟨rows, -, h⟩
      · rcases Except.bind_eq_error.1 h with h | ⟨name, -, h⟩
        · unfold Table.column at h
          split at h
          · cases h
          · cases h
            exact ⟨_, rfl⟩
        · cases h
      · cases h

theorem storable_of_population {policy : FailurePolicy} {source : EntitySource} {v : Version}
    {r : Rule} (h : population policy source v r = .error e) : e.Storable := by
  rcases Except.bind_eq_error.1 h with h | ⟨conditions, -, h⟩
  · obtain ⟨node, -, rfl⟩ := Except.mapError_eq_error.1 h
    exact ⟨node.message, rfl⟩
  · rcases Except.bind_eq_error.1 h with h | ⟨entities, -, h⟩
    · exact storable_of_list h
    · cases h

theorem storable_of_projections {p : Population} {v : Version} {r : Rule} {today : Date}
    (h : projections p v r today = .error e) : e.Storable := by
  rcases Except.bind_eq_error.1 h with h | ⟨value, -, h⟩
  · obtain ⟨fault, -, rfl⟩ := Except.mapError_eq_error.1 h
    exact ⟨fault.message, rfl⟩
  · rcases Except.bind_eq_error.1 h with h | ⟨due, -, h⟩
    · unfold Filing.dueDate at h
      split at h
      · cases h
      · cases h
        exact Failure.storable_notADate "due_date" value
    · obtain ⟨fault, -, rfl⟩ := Except.mapError_eq_error.1 h
      exact ⟨fault.message, rfl⟩

/-- Whatever a scan fails with has a message that can be stored. -/
theorem storable_of_scan {policy : FailurePolicy} {source : EntitySource} {v : Version} {r : Rule}
    {today : Date}
    (h : ((population policy source v r).bind fun p => projections p v r today) = .error e) :
    e.Storable := by
  rcases Except.bind_eq_error.1 h with h | ⟨p, -, h⟩
  · exact storable_of_population h
  · exact storable_of_projections h

/-- Whatever keeps a run from being completed has a message that can be stored. -/
theorem storable_of_complete {v : Version} {ps : List Projection}
    (h : Fails (complete run v ps) s e s') : e.Storable := by
  rcases fails_complete h with (⟨text, rfl⟩ | rfl) | ⟨rfl, -⟩
  · exact ⟨_, rfl⟩
  · exact ⟨_, rfl⟩
  · exact Failure.storable_runEnded run.id

/-! ## Executions -/

theorem not_fails_fail (h : d.Storable) : ¬ Fails (fail run d) s e s' := by
  obtain ⟨message, hmessage⟩ := h
  intro hfails
  rcases fails_bind.1 hfails with h | ⟨_, t, -, h⟩
  · rw [hmessage, encoded, Text.encoded, Text.string?_ofString] at h
    exact not_fails_pure h
  · exact not_fails_finish (fails_discard.1 h)

theorem not_fails_settle (h : d.Storable) : ¬ Fails (settle run d) s e s' := by
  unfold settle
  split
  · exact not_fails_pure
  · exact not_fails_fail h

theorem not_fails_conclude {v : Version} {r : Rule} {today : Date} :
    ¬ Fails (conclude c run v r today) s e s' := by
  intro h
  unfold conclude at h
  split at h
  · obtain ⟨d, t, hcomplete, h⟩ := fails_tryCatch.1 h
    obtain ⟨-, _, hcomplete⟩ := fails_undoing hcomplete
    exact not_fails_settle (storable_of_complete hcomplete) h
  · next d hscan => exact not_fails_fail (storable_of_scan hscan) h

/-- An execution of a run of the caller does not fail. -/
theorem not_fails_executeRun {caller : Caller} {today : Date} {cancelDuringScan : Bool}
    (hs : s.Intact) (hrun : run ∈ s.runs) (htenant : run.tenant = caller.tenant) :
    ¬ Fails (executeRun c caller run.id today cancelDuringScan) s e s' := by
  intro h
  have hown : (run.id, caller.tenant) ∈ owned s.runs := htenant ▸ mem_owned_self hrun
  have hchanges : Changes c .impact s s' :=
    .of_fails (executeRun_changes hs run.id today cancelDuringScan) h
  rw [executeRun_eq] at h
  obtain ⟨q, hq, hqtenant, h⟩ := fails_owned_bind hs.runs hown h
  split at h
  · exact not_fails_pure h
  · have hversion : (q.version, caller.tenant) ∈ owned s.versions := hqtenant ▸ hs.runVersion q hq
    obtain ⟨v, hv, -, h⟩ := fails_owned_bind hs.versions hversion h
    rcases fails_bind.1 h with h | ⟨r, t, -, h⟩
    · exact not_fails_ruleOf hs hv h
    · have hconclude : ∃ t, Fails (do
          conclude c q v r today
          ownRun caller.tenant run.id) t e s' := by
        split at h
        · rcases fails_bind.1 h with h | ⟨_, t', -, h⟩
          · exact absurd (fails_discard.1 h) not_fails_finish
          · exact ⟨t', h⟩
        · exact ⟨t, h⟩
      obtain ⟨_, h⟩ := hconclude
      rcases fails_bind.1 h with h | ⟨_, t', -, h⟩
      · exact not_fails_conclude h
      · -- The run is read again in the end, and it is still there.
        obtain ⟨hnone, -, hsame⟩ := fails_own.1 h
        have hlast := hchanges.owned_runs hs hown
        obtain ⟨_, -, -, -, hfound⟩ := findOwn_of_owned (hchanges.intact hs).runs hlast
        rw [hsame, hnone] at hfound
        cases hfound

/-- Executing a run of the caller goes through, and the run has ended afterwards. -/
theorem executeRun_ends {caller : Caller} (hs : s.Intact) (hrun : run ∈ s.runs)
    (htenant : run.tenant = caller.tenant) (today : Date) (cancelDuringScan : Bool) :
    ∃ q s', Yields (executeRun c caller run.id today cancelDuringScan) s q s' ∧
      q ∈ s'.runs ∧ q.id = run.id ∧ q.status ≠ .running := by
  rcases yields_or_fails (executeRun c caller run.id today cancelDuringScan) s with
    ⟨q, s', h⟩ | ⟨e, s', h⟩
  · exact ⟨q, s', h, yields_executeRun h⟩
  · exact absurd h (not_fails_executeRun hs hrun htenant)

end Impact

end Rulebook
