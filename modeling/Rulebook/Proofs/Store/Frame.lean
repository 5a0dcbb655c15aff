import Rulebook.Proofs.Store.Intact

/-!
What changes leave alone. `Store.Written` lists the tables that each kind of work writes to; a
change leaves all others as they are (`Changes.written`). Rules and versions are touched by
authoring, by the life of versions and by forcing only; findings only by filing and reviewing, which
add open ones and move them forward (`Change.findings_cases`); runs and results only by impact runs
(`Change.runs_cases`).
-/
namespace Rulebook

variable {c : Impact.Circumstances} {w : Work} {s s' : Store}

/-- Two stores differ in the tables of a kind of work at most, and in what identifiers are used up
and time has passed. -/
def Store.Written (w : Work) (s s' : Store) : Prop :=
  s' = match w with
    | .catalogue => { s with
      packs := s'.packs, regulations := s'.regulations, nextId := s'.nextId, clock := s'.clock }
    | .authoring | .lifecycle => { s with
      rules := s'.rules, versions := s'.versions, nextId := s'.nextId, clock := s'.clock }
    | .forcing => { s with versions := s'.versions, nextId := s'.nextId, clock := s'.clock }
    | .filing => { s with
      findings := s'.findings, tasks := s'.tasks, nextId := s'.nextId, clock := s'.clock }
    | .review => { s with
      findings := s'.findings, overrides := s'.overrides, nextId := s'.nextId, clock := s'.clock }
    | .impact => { s with
      runs := s'.runs, results := s'.results, nextId := s'.nextId, clock := s'.clock }

theorem Store.Written.refl (w : Work) (s : Store) : s.Written w s := by
  cases w <;> rfl

theorem Store.Written.trans {s'' : Store} (h : s.Written w s') (h' : s'.Written w s'') :
    s.Written w s'' := by
  cases w <;>
    · unfold Store.Written at h h' ⊢
      rw [h', h]

theorem Change.written (h : Change c w s s') : s.Written w s' := by
  cases h with
  | passed => cases w <;> rfl
  | versionSaved old lawful unique => cases lawful <;> rfl
  | _ => rfl

/-- A kind of work writes to its own tables only. -/
theorem Changes.written (h : Changes c w s s') : s.Written w s' := by
  induction h with
  | refl => exact .refl w s
  | tail _ last ih => exact ih.trans last.written

/-- Whether a kind of work writes to rules and versions. -/
def Work.writesVersions : Work → Bool
  | .authoring | .forcing | .lifecycle => true
  | .catalogue | .filing | .review | .impact => false

theorem VersionEdit.Lawful.writesVersions {v : Version} {edit : VersionEdit}
    (h : edit.Lawful w v) : w.writesVersions = true := by
  cases h <;> rfl

theorem Change.rules_versions (h : Change c w s s') (hw : w.writesVersions = false) :
    s'.rules = s.rules ∧ s'.versions = s.versions := by
  cases h with
  | versionSaved old lawful unique =>
    rw [lawful.writesVersions] at hw
    cases hw
  | ruleAdded | ruleSaved | versionAdded => cases hw
  | _ => exact ⟨rfl, rfl⟩

theorem Changes.rules_versions (h : Changes c w s s') (hw : w.writesVersions = false) :
    s'.rules = s.rules ∧ s'.versions = s.versions := by
  induction h with
  | refl => exact ⟨rfl, rfl⟩
  | tail _ last ih =>
    obtain ⟨hrules, hversions⟩ := last.rules_versions hw
    exact ⟨hrules.trans ih.1, hversions.trans ih.2⟩

/-- Authoring, the life of versions and forcing apart, conditions and actions stay as checked. -/
theorem Change.authored (h : Change c w s s') (hw : w ≠ .forcing)
    (hs : ∀ v ∈ s.versions, v.Authored) : ∀ v ∈ s'.versions, v.Authored := by
  cases h with
  | @versionAdded _ v _ id rule draft authored unique =>
    intro q hq
    rcases List.mem_append.1 hq with hq | hq
    · exact hs q hq
    · rw [List.mem_singleton.1 hq]
      exact authored
  | @versionSaved _ _ v _ _ edit old lawful unique =>
    intro q hq
    rcases mem_replaceRow.1 hq with ⟨rfl, -⟩ | ⟨hq, -⟩
    · obtain ⟨hconditions, hactions⟩ := hs v old
      cases lawful with
      | content draft kept conditions actions =>
        constructor
        · cases hedit : edit.conditions with
          | none => simpa [VersionEdit.applyTo, hedit] using hconditions
          | some k => simpa [VersionEdit.applyTo, hedit] using conditions k hedit
        · cases hedit : edit.actions with
          | none => simpa [VersionEdit.applyTo, hedit] using hactions
          | some k => simpa [VersionEdit.applyTo, hedit] using actions k hedit
      | submit | approve | activate | retire => exact ⟨hconditions, hactions⟩
      | force => exact absurd rfl hw
    · exact hs q hq
  | _ => exact hs

theorem Changes.authored (h : Changes c w s s') (hw : w ≠ .forcing)
    (hs : ∀ v ∈ s.versions, v.Authored) : ∀ v ∈ s'.versions, v.Authored := by
  induction h with
  | refl => exact hs
  | tail _ last ih => exact last.authored hw ih

/-- Findings are added open, and moved to a status that may follow. -/
theorem Change.findings_cases (h : Change c w s s') :
    s'.findings = s.findings ∨
      (∃ f : Finding, f.id = ⟨s.nextId⟩ ∧ f.status = .open ∧ s'.findings = s.findings ++ [f]) ∨
      ∃ f ∈ s.findings, ∃ status u, status ∈ f.status.successors ∧
        s'.findings = replaceRow s.findings { f with status, updatedAt := u } := by
  cases h with
  | @filed _ f _ _ id status unique ids tasks => exact Or.inr (Or.inl ⟨f, id, status, rfl⟩)
  | @findingMoved _ f status u _ old next unique =>
    exact Or.inr (Or.inr ⟨f, old, status, u, next, rfl⟩)
  | _ => exact Or.inl rfl

/-- Runs are added running, and ended while they are running; results are added with completion
only. -/
theorem Change.runs_cases (h : Change c w s s') :
    (s'.runs = s.runs ∧ s'.results = s.results) ∨
      (∃ run : ImpactRun, run.id = ⟨s.nextId⟩ ∧ run.status = .running ∧ run.summary = none ∧
        run.error = none ∧ run.completedAt = none ∧ s'.runs = s.runs ++ [run] ∧
        s'.results = s.results) ∨
      w = .impact ∧ ∃ run ∈ s.runs, run.status = .running ∧ ∃ outcome at_ u qs,
        s'.runs = replaceRow s.runs
          { Impact.Outcome.applyTo run outcome with completedAt := some at_, updatedAt := u } ∧
        s'.results = s.results ++ qs ∧
        ((∃ counts, outcome = .complete counts ∧ Impact.Scanned c s run counts qs) ∨
          (∀ counts, outcome ≠ .complete counts) ∧ qs = []) := by
  cases h with
  | @runAdded _ run _ id fresh derives =>
    exact Or.inr (Or.inl ⟨run, id, fresh.1, fresh.2.1, fresh.2.2.1, fresh.2.2.2, rfl, rfl⟩)
  | @runFailed _ run message at_ u _ old running =>
    refine Or.inr (Or.inr
      ⟨rfl, run, old, running, .failed message, at_, u, [], rfl, ?_, Or.inr ⟨?_, rfl⟩⟩)
    · exact (List.append_nil _).symm
    · exact fun _ h => by cases h
  | @runCancelled _ run at_ u _ old running =>
    refine Or.inr (Or.inr
      ⟨rfl, run, old, running, .cancelled, at_, u, [], rfl, ?_, Or.inr ⟨?_, rfl⟩⟩)
    · exact (List.append_nil _).symm
    · exact fun _ h => by cases h
  | @runCompleted _ run counts qs at_ u _ old running scanned ids =>
    exact Or.inr (Or.inr ⟨rfl, run, old, running, .complete counts, at_, u, qs, rfl, rfl,
      Or.inl ⟨counts, rfl, scanned⟩⟩)
  | _ => exact Or.inl ⟨rfl, rfl⟩

/-- No run is lost. -/
theorem Change.owned_runs (h : Change c w s s') (hs : s.Intact) {id tenant : Uuid}
    (hrun : (id, tenant) ∈ owned s.runs) : (id, tenant) ∈ owned s'.runs := by
  rcases h.runs_cases with ⟨hruns, -⟩ | ⟨new, -, -, -, -, -, hruns, -⟩ |
    ⟨-, old, hold, -, outcome, at_, u, qs, hruns, -, -⟩
  · rw [hruns]
    exact hrun
  · rw [hruns]
    exact mem_owned_append hrun
  · rw [hruns, owned_replaceRow hs.runs hold]
    · exact hrun
    · cases outcome <;> rfl
    · cases outcome <;> rfl

theorem Changes.owned_runs (h : Changes c w s s') (hs : s.Intact) {id tenant : Uuid}
    (hrun : (id, tenant) ∈ owned s.runs) : (id, tenant) ∈ owned s'.runs :=
  h.keep (P := fun t => (id, tenant) ∈ owned t.runs) hs hrun fun ht hown last =>
    last.owned_runs ht hown

end Rulebook
