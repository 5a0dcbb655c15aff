import Mathlib
import Rulebook.Proofs.History
import Rulebook.Proofs.RunMessages

/-!
The life of impact runs. A run is ended once, by whoever comes first, and nothing about it changes
from then on, its results included (`Change.ended_stays`). What a run says and which results it has
is decided by its status (`ImpactRun.InOrder`); a complete run has the counts and the results of a
scan that some move of the history has made (`Engine.after_runs_inOrder`).
-/
namespace Rulebook

open Txn Impact

variable {c : Circumstances} {w : Work} {s s' : Store} {run : ImpactRun}

/-! ## Results of a run -/

/-- The results of a run, in the order in which they were stored. -/
def Store.resultsFor (s : Store) (run : Uuid) : List ImpactResult :=
  s.results.filter fun q => q.run == run

theorem Store.resultsFor_congr (h : s'.results = s.results) (id : Uuid) :
    s'.resultsFor id = s.resultsFor id := by
  rw [resultsFor, h, resultsFor]

/-- Results of another run are not results of this one. -/
theorem Store.resultsFor_other {qs : List ImpactResult} {id other : Uuid}
    (h : s'.results = s.results ++ qs) (hqs : ∀ q ∈ qs, q.run = other) (hne : id ≠ other) :
    s'.resultsFor id = s.resultsFor id := by
  have hnone : qs.filter (fun q => q.run == id) = [] := by
    refine List.filter_eq_nil_iff.2 fun q hq heq => hne ?_
    rw [← hqs q hq]
    exact (eq_of_beq heq).symm
  rw [resultsFor, h, List.filter_append, hnone, List.append_nil, resultsFor]

/-- Results that are all of one run come after those that it has already. -/
theorem Store.resultsFor_same {qs : List ImpactResult} {id : Uuid}
    (h : s'.results = s.results ++ qs) (hqs : ∀ q ∈ qs, q.run = id) :
    s'.resultsFor id = s.resultsFor id ++ qs := by
  have hall : qs.filter (fun q => q.run == id) = qs :=
    List.filter_eq_self.2 fun q hq => beq_iff_eq.2 (hqs q hq)
  rw [resultsFor, h, List.filter_append, hall, resultsFor]

/-- What is not there yet has no results. -/
theorem Store.Intact.resultsFor_new (hs : s.Intact) : s.resultsFor ⟨s.nextId⟩ = [] := by
  refine List.filter_eq_nil_iff.2 fun q hq heq => ?_
  exact hs.runs.owned_ne_next (hs.resultRun q hq) (eq_of_beq heq)

/-! ## What a scan says -/

namespace Impact

variable {counts : ImpactSummary} {qs : List ImpactResult}

/-- A scan is the same for all states of a run. -/
theorem Scanned.congr {q : ImpactRun} (h : Scanned c s run counts qs) (hid : q.id = run.id)
    (htenant : q.tenant = run.tenant) (hversion : q.version = run.version) :
    Scanned c s q counts qs := by
  obtain ⟨v, hv, r, hr, hvid, hvtenant, hrid, hrtenant, p, today, ps, hp, hps, hcounts,
    hrecords⟩ := h
  refine ⟨v, hv, r, hr, hvid.trans hversion.symm, hvtenant.trans htenant.symm, hrid,
    hrtenant.trans htenant.symm, p, today, ps, hp, hps, hcounts, hrecords.imp fun p k hk => ?_⟩
  exact { hk with run_eq := hk.run_eq.trans hid.symm, tenant_eq := hk.tenant_eq.trans htenant.symm }

/-- It depends on the tables of rules and versions only. -/
theorem Scanned.of_tables (h : Scanned c s run counts qs) (hversions : s'.versions = s.versions)
    (hrules : s'.rules = s.rules) : Scanned c s' run counts qs := by
  unfold Scanned at h ⊢
  rw [hversions, hrules]
  exact h

theorem countP_records {ps : List Projection} (h : List.Forall₂ (Records run) ps qs) :
    qs.countP (fun q => q.wouldTrigger) = ps.countP fun p => p.wouldTrigger := by
  induction h with
  | nil => rfl
  | cons hfirst _ ih => rw [List.countP_cons, List.countP_cons, ih, hfirst.wouldTrigger_eq]

/-- The counts are those of the results. -/
theorem Scanned.counts_eq (h : Scanned c s run counts qs) :
    counts.total = qs.length ∧ counts.wouldTrigger = qs.countP (fun q => q.wouldTrigger) ∧
      counts.noTrigger = qs.length - qs.countP fun q => q.wouldTrigger := by
  obtain ⟨v, -, r, -, -, -, -, -, p, today, ps, -, -, hcounts, hrecords⟩ := h
  have hlength := hrecords.length_eq
  have htrigger := countP_records hrecords
  rw [hcounts, htrigger, ← hlength]
  exact ⟨rfl, rfl, rfl⟩

/-- The results are, in order, those of the entities that a source lists for the version of a
run. -/
def Listed (c : Circumstances) (s : Store) (run : ImpactRun) (qs : List ImpactResult) : Prop :=
  ∃ v ∈ s.versions, ∃ r ∈ s.rules, v.id = run.version ∧ v.rule = r.id ∧
    ∃ entities, c.source.list run.tenant (scannedType r) = .ok entities ∧
      List.Forall₂ (fun entity q => q.entityType = scannedType r ∧
        Text.ofString q.entityId = EntitySource.idText entity) entities qs

/-- Results that record projections are, in order, those of the entities that were projected. -/
theorem entities_of_records {p : Population} {v : Version} {r : Rule} {today : Date}
    {ps : List Projection} (hps : projections p v r today = .ok ps)
    (hrecords : List.Forall₂ (Records run) ps qs) :
    List.Forall₂ (fun entity q => q.entityType = scannedType r ∧
      Text.ofString q.entityId = EntitySource.idText entity) p.entities qs := by
  obtain ⟨value, due, -, -, hprojects⟩ := projects_of_projections hps
  refine forall₂_comp hprojects hrecords fun entity p q hp hq => ?_
  refine ⟨hq.entityType_eq.trans hp.entityType_eq, ?_⟩
  rw [← hp.entityId_eq]
  exact Text.ofString_of_string? hq.entityId_eq

/-- A scan has one result for each entity that it lists. -/
theorem Scanned.listed (h : Scanned c s run counts qs) : Listed c s run qs := by
  obtain ⟨v, hv, r, hr, hvid, htenant, hrid, -, p, today, ps, hp, hps, -, hrecords⟩ := h
  have hlist := (population_eq_ok.1 hp).2
  rw [htenant] at hlist
  exact ⟨v, hv, r, hr, hvid, hrid.symm, p.entities, hlist, entities_of_records hps hrecords⟩

end Impact

/-! ## One change -/

/-- What is ended stays as it is, with its results. -/
theorem Change.ended_stays (h : Change c w s s') (hs : s.Intact) (hrun : run ∈ s.runs)
    (hended : run.status ≠ .running) :
    run ∈ s'.runs ∧ s'.resultsFor run.id = s.resultsFor run.id := by
  rcases h.runs_cases with ⟨hruns, hresults⟩ | ⟨new, -, -, -, -, -, hruns, hresults⟩ |
    ⟨-, old, hold, hrunning, outcome, at_, u, qs, hruns, hresults, hqs⟩
  · rw [hruns]
    exact ⟨hrun, Store.resultsFor_congr hresults _⟩
  · rw [hruns]
    exact ⟨List.mem_append_left _ hrun, Store.resultsFor_congr hresults _⟩
  · have hne : run.id ≠ old.id := by
      intro hid
      rw [hs.runs.eq_of_id hrun hold hid] at hended
      exact hended hrunning
    have hother : ∀ q ∈ qs, q.run = old.id := by
      rcases hqs with ⟨counts, -, hscanned⟩ | ⟨-, hnone⟩
      · exact fun q hq => (hscanned.mem q hq).1
      · rw [hnone]
        exact fun q hq => by cases hq
    rw [hruns]
    refine ⟨mem_replaceRow_of_ne hrun ?_, Store.resultsFor_other hresults hother hne⟩
    exact fun heq => hne (heq.trans (outcome.id_applyTo old))

/-- What a run says and has in each status, with what is to be known of counts and results. -/
structure ImpactRun.InOrder (scanned : ImpactSummary → List ImpactResult → Prop) (run : ImpactRun)
    (qs : List ImpactResult) : Prop where
  running : run.status = .running →
    run.summary = none ∧ run.error = none ∧ run.completedAt = none ∧ qs = []
  complete : run.status = .complete →
    run.error = none ∧ run.completedAt ≠ none ∧
      ∃ counts, run.summary = some counts ∧ scanned counts qs
  failed : run.status = .failed →
    run.summary = none ∧ run.error ≠ none ∧ run.completedAt ≠ none ∧ qs = []
  cancelled : run.status = .cancelled →
    run.summary = none ∧ run.error = none ∧ run.completedAt ≠ none ∧ qs = []

def Store.RunsInOrder (scanned : ImpactRun → ImpactSummary → List ImpactResult → Prop) (s : Store) :
    Prop :=
  ∀ run ∈ s.runs, run.InOrder (scanned run) (s.resultsFor run.id)

/-- Ending a run puts into it what belongs to its new status. -/
theorem ImpactRun.InOrder.applyTo {scanned known : ImpactSummary → List ImpactResult → Prop}
    {qs : List ImpactResult} (h : run.InOrder scanned []) (hrunning : run.status = .running)
    (outcome : Outcome) (at_ u : Instant)
    (hqs : (∃ counts, outcome = .complete counts ∧ known counts qs) ∨
      (∀ counts, outcome ≠ .complete counts) ∧ qs = []) :
    ({ outcome.applyTo run with completedAt := some at_, updatedAt := u } : ImpactRun).InOrder
      known qs := by
  obtain ⟨hsummary, herror, -, -⟩ := h.running hrunning
  cases outcome with
  | complete counts =>
    obtain ⟨k, hk, hknown⟩ := hqs.resolve_right fun h => h.1 counts rfl
    cases hk
    refine ⟨fun h => (by cases h), fun _ => ?_, fun h => (by cases h), fun h => (by cases h)⟩
    exact ⟨herror, Option.some_ne_none _, counts, rfl, hknown⟩
  | failed message =>
    rcases hqs with ⟨_, h, -⟩ | ⟨-, rfl⟩
    · cases h
    refine ⟨fun h => (by cases h), fun h => (by cases h), fun _ => ?_, fun h => (by cases h)⟩
    exact ⟨hsummary, Option.some_ne_none _, Option.some_ne_none _, rfl⟩
  | cancelled =>
    rcases hqs with ⟨_, h, -⟩ | ⟨-, rfl⟩
    · cases h
    refine ⟨fun h => (by cases h), fun h => (by cases h), fun h => (by cases h), fun _ => ?_⟩
    exact ⟨hsummary, herror, Option.some_ne_none _, rfl⟩

theorem Change.runs_inOrder {scanned : ImpactRun → ImpactSummary → List ImpactResult → Prop}
    (h : Change c w s s') (hs : s.Intact) (hruns : s.RunsInOrder scanned)
    (hscan : w = .impact → ∀ run counts qs, Scanned c s run counts qs → scanned run counts qs) :
    s'.RunsInOrder scanned := by
  intro q hq
  rcases h.runs_cases with ⟨hsame, hresults⟩ |
    ⟨new, hid, hstatus, hsummary, herror, hat, hadded, hresults⟩ |
    ⟨hwork, old, hold, hrunning, outcome, at_, u, qs, hreplaced, hresults, hqs⟩
  · rw [hsame] at hq
    rw [Store.resultsFor_congr hresults]
    exact hruns q hq
  · rw [Store.resultsFor_congr hresults]
    rw [hadded] at hq
    rcases List.mem_append.1 hq with hq | hq
    · exact hruns q hq
    · rw [List.mem_singleton.1 hq, hid, hs.resultsFor_new]
      have hother : ∀ status, status ≠ .running → new.status ≠ status := fun _ hne heq =>
        hne (heq.symm.trans hstatus)
      exact ⟨fun _ => ⟨hsummary, herror, hat, rfl⟩,
        fun h => absurd h (hother _ (by decide)), fun h => absurd h (hother _ (by decide)),
        fun h => absurd h (hother _ (by decide))⟩
  · have hother : ∀ q ∈ qs, q.run = old.id := by
      rcases hqs with ⟨counts, -, hscanned⟩ | ⟨-, hnone⟩
      · exact fun q hq => (hscanned.mem q hq).1
      · rw [hnone]
        exact fun q hq => by cases hq
    rw [hreplaced] at hq
    rcases mem_replaceRow.1 hq with ⟨rfl, -⟩ | ⟨hq, hne⟩
    · have hid : (outcome.applyTo old).id = old.id := outcome.id_applyTo old
      have hinOrder := hruns old hold
      have hnone := (hinOrder.running hrunning).2.2.2
      rw [hnone] at hinOrder
      have hresultsFor : s'.resultsFor (outcome.applyTo old).id = qs := by
        rw [hid, Store.resultsFor_same hresults hother, hnone, List.nil_append]
      refine hresultsFor.symm ▸ hinOrder.applyTo hrunning outcome at_ u (hqs.imp_left ?_)
      rintro ⟨counts, hcounts, hscanned⟩
      refine ⟨counts, hcounts, hscan hwork _ counts qs (hscanned.congr hid ?_ ?_)⟩
      · cases outcome <;> rfl
      · cases outcome <;> rfl
    · have hid : q.id ≠ old.id := fun heq => hne (heq.trans (outcome.id_applyTo old).symm)
      rw [Store.resultsFor_other hresults hother hid]
      exact hruns q hq

/-! ## Changes and histories -/

theorem Changes.ended_stays (h : Changes c w s s') (hs : s.Intact) (hrun : run ∈ s.runs)
    (hended : run.status ≠ .running) :
    run ∈ s'.runs ∧ s'.resultsFor run.id = s.resultsFor run.id := by
  refine h.keep (P := fun t => run ∈ t.runs ∧ t.resultsFor run.id = s.resultsFor run.id) hs
    ⟨hrun, rfl⟩ ?_
  rintro t t' ht ⟨hmem, hresults⟩ last
  obtain ⟨hmem', hresults'⟩ := last.ended_stays ht hmem hended
  exact ⟨hmem', hresults'.trans hresults⟩

/-- The run with an identifier is there, and not running any more. -/
def Store.Ended (s : Store) (id : Uuid) : Prop :=
  ∃ run ∈ s.runs, run.id = id ∧ run.status ≠ .running

theorem Store.Intact.hasRunning_eq_false (hs : s.Intact) (hrun : run ∈ s.runs)
    (hended : run.status ≠ .running) : hasRunning s run.tenant run.id = false := by
  rw [hasRunning, show findOwn s.runs run.tenant run.id = some run from hs.runs.findOwn_eq hrun,
    Option.any_some]
  exact decide_eq_false hended

theorem Store.Ended.of_owned {id tenant : Uuid} (hs : s.Intact) (hown : (id, tenant) ∈ owned s.runs)
    (h : ∀ q, findOwn s.runs tenant id = some q → q.status ≠ .running) : s.Ended id := by
  obtain ⟨run, hrun, hid, -, hfound⟩ := findOwn_of_owned hs.runs hown
  exact ⟨run, hrun, hid, h run hfound⟩

theorem Changes.ended {id : Uuid} (h : Changes c w s s') (hs : s.Intact) (hended : s.Ended id) :
    s'.Ended id := by
  obtain ⟨run, hrun, hid, hstatus⟩ := hended
  exact ⟨run, (h.ended_stays hs hrun hstatus).1, hid, hstatus⟩

theorem Changes.runs_inOrder {scanned : ImpactRun → ImpactSummary → List ImpactResult → Prop}
    (h : Changes c w s s') (hs : s.Intact) (hruns : s.RunsInOrder scanned)
    (hscan : w = .impact → ∀ run counts qs, Scanned c s run counts qs → scanned run counts qs) :
    s'.RunsInOrder scanned := by
  have hboth : s'.RunsInOrder scanned ∧
      (w = .impact → s'.rules = s.rules ∧ s'.versions = s.versions) := by
    refine h.keep (P := fun t => t.RunsInOrder scanned ∧
      (w = .impact → t.rules = s.rules ∧ t.versions = s.versions)) hs
      ⟨hruns, fun _ => ⟨rfl, rfl⟩⟩ ?_
    rintro t t' ht ⟨hinOrder, htables⟩ last
    refine ⟨last.runs_inOrder ht hinOrder fun hwork run counts qs hscanned => ?_, fun hwork => ?_⟩
    · -- A scan in between reads the tables as they were at first.
      obtain ⟨hrules, hversions⟩ := htables hwork
      exact hscan hwork run counts qs (hscanned.of_tables hversions.symm hrules.symm)
    · obtain ⟨hrules, hversions⟩ := htables hwork
      obtain ⟨hrules', hversions'⟩ := last.rules_versions (by rw [hwork]; rfl)
      exact ⟨hrules'.trans hrules, hversions'.trans hversions⟩
  exact hboth.1

namespace Engine

variable {e : Engine}

/-- What is ended after some moves stays as it is after all further ones. -/
theorem after_ended_stays (hs : e.store.Intact) (hrun : run ∈ e.store.runs)
    (hended : run.status ≠ .running) (moves : List Move) :
    run ∈ (e.after moves).store.runs ∧
      (e.after moves).store.resultsFor run.id = e.store.resultsFor run.id := by
  refine after_keeps
    (P := fun t => run ∈ t.runs ∧ t.resultsFor run.id = e.store.resultsFor run.id) hs
    ⟨hrun, rfl⟩ ?_
  rintro d hd ⟨hmem, hresults⟩ m -
  obtain ⟨hmem', hresults'⟩ := (move_changes hd m).ended_stays hd hmem hended
  exact ⟨hmem', hresults'.trans hresults⟩

/-- Among some moves there is one that has executed a scan with these counts and results. -/
def Executed (e : Engine) (moves : List Move) (run : ImpactRun) (counts : ImpactSummary)
    (qs : List ImpactResult) : Prop :=
  ∃ done m rest, moves = done ++ m :: rest ∧ m.work = .impact ∧
    Scanned (m.circumstances (e.after done)) (e.after done).store run counts qs

theorem Executed.append {moves : List Move} {counts : ImpactSummary} {qs : List ImpactResult}
    (h : e.Executed moves run counts qs) (more : List Move) :
    e.Executed (moves ++ more) run counts qs := by
  obtain ⟨done, m, rest, rfl, hwork, hscanned⟩ := h
  exact ⟨done, m, rest ++ more, by simp, hwork, hscanned⟩

theorem after_runs_inOrder (hs : e.store.Intact) (hnone : e.store.runs = []) (moves : List Move) :
    (e.after moves).store.RunsInOrder (e.Executed moves) := by
  induction moves using List.reverseRecOn with
  | nil =>
    intro run hrun
    rw [show (e.after []).store.runs = [] from hnone] at hrun
    cases hrun
  | append_singleton moves m ih =>
    have hintact := after_intact hs moves
    have hlater : (e.after moves).store.RunsInOrder (e.Executed (moves ++ [m])) := by
      intro run hrun
      obtain ⟨hrunning, hcomplete, hfailed, hcancelled⟩ := ih run hrun
      refine ⟨hrunning, fun hstatus => ?_, hfailed, hcancelled⟩
      obtain ⟨herror, hat, counts, hcounts, hexecuted⟩ := hcomplete hstatus
      exact ⟨herror, hat, counts, hcounts, hexecuted.append [m]⟩
    rw [after_concat]
    refine (move_changes hintact m).runs_inOrder hintact hlater ?_
    exact fun hwork run counts qs hscanned => ⟨moves, m, [], rfl, hwork, hscanned⟩

end Engine

/-! ## Runs -/

/-- After any moves, what a run says and which results it has is decided by its status: a complete
run has one result for each entity that some move has listed for it, and the counts of its results.
Once a run has ended, by whatever move, it stays as it is with its results, whatever happens from
there on. Executing a run goes through, and ends it or finds it ended. Whoever comes too late to
complete a run has added all results by then; the failure takes them back, and what handles it
leaves the run alone. -/
theorem runs_end_once (source : EntitySource) (clock : Instant) (nextId : Nat)
    (before later : List Move) :
    let e := Engine.fresh source clock nextId
    let s := (e.after before).store
    let t := (e.after (before ++ later)).store
    (∀ run ∈ s.runs, run.status ≠ .running →
      run ∈ t.runs ∧ (∀ q ∈ t.runs, q.id = run.id → q = run) ∧
      t.resultsFor run.id = s.resultsFor run.id) ∧
    (∀ run ∈ s.runs, let qs := s.resultsFor run.id
      (run.status = .running →
        run.summary = none ∧ run.error = none ∧ run.completedAt = none ∧ qs = []) ∧
      (run.status = .complete → run.error = none ∧ run.completedAt ≠ none ∧
        ∃ counts, run.summary = some counts ∧ counts.total = qs.length ∧
          counts.wouldTrigger = qs.countP (fun q => q.wouldTrigger) ∧
          counts.noTrigger = counts.total - counts.wouldTrigger ∧
          ∃ done m rest, before = done ++ m :: rest ∧ m.work = .impact ∧
            Scanned (m.circumstances (e.after done)) (e.after done).store run counts qs ∧
            Listed (m.circumstances (e.after done)) (e.after done).store run qs) ∧
      (run.status = .failed →
        run.summary = none ∧ run.error ≠ none ∧ run.completedAt ≠ none ∧ qs = []) ∧
      (run.status = .cancelled →
        run.summary = none ∧ run.error = none ∧ run.completedAt ≠ none ∧ qs = [])) ∧
    (∀ run ∈ s.runs, ∀ c caller today cancelDuringScan, run.tenant = caller.tenant →
      ∃ q s', Yields (executeRun c caller run.id today cancelDuringScan) s q s' ∧ q ∈ s'.runs ∧
        q.id = run.id ∧ q.status ≠ .running) ∧
    ∀ run ∈ s.runs, run.status ≠ .running → ∀ v ps u added,
      Yields (addResults run.tenant run.id ps) s u added →
      (∃ qs broken, List.Forall₂ (Records run) ps qs ∧ broken.results = s.results ++ qs ∧
        Fails (complete run v ps) s (.runEnded run.id) broken) ∧
      Yields (tryCatch (undoing (complete run v ps)) (settle run)) s () s := by
  intro e s t
  have hfresh := Engine.fresh_intact source clock nextId
  have hs : s.Intact := Engine.after_intact hfresh before
  have ht : t.Intact := Engine.after_intact hfresh (before ++ later)
  have hinOrder := Engine.after_runs_inOrder hfresh rfl before
  refine ⟨fun run hrun hended => ?_, fun run hrun => ?_, ?_, ?_⟩
  · obtain ⟨hmem, hresults⟩ := Engine.after_ended_stays hs hrun hended later
    rw [← Engine.after_append] at hmem hresults
    exact ⟨hmem, fun q hq hid => ht.runs.eq_of_id hq hmem hid, hresults⟩
  · obtain ⟨hrunning, hcomplete, hfailed, hcancelled⟩ := hinOrder run hrun
    refine ⟨hrunning, fun hstatus => ?_, hfailed, hcancelled⟩
    obtain ⟨herror, hat, counts, hcounts, done, m, rest, hbefore, hwork, hscanned⟩ :=
      hcomplete hstatus
    obtain ⟨htotal, htrigger, hno⟩ := hscanned.counts_eq
    refine ⟨herror, hat, counts, hcounts, htotal, htrigger, ?_, done, m, rest, hbefore, hwork,
      hscanned, hscanned.listed⟩
    rw [htotal, htrigger]
    exact hno
  · intro run hrun c caller today cancelDuringScan htenant
    exact executeRun_ends hs hrun htenant today cancelDuringScan
  · intro run hrun hended v ps u added hadded
    exact complete_lost hadded (hs.hasRunning_eq_false hrun hended)

/-- A version that is dry-run over the loans of a tenant. -/
def dryRun : List Move :=
  let caller : Caller := { tenant := ⟨100⟩ }
  [.call {} caller (.createPack { name := "Lending", authority := "Board" }),
    .call {} caller (.createRule { pack := ⟨0⟩, name := "Risk" }
      { conditions := .object [("all", .list [])] }),
    .call {} caller (.startRun ⟨2⟩)]

/-- An engine whose source holds one loan. -/
def oneLoan : Engine :=
  .fresh (.memory [{ tenant := ⟨100⟩, entityType := "loan", entity := [("id", .text "7")] }])
    default 0

theorem results_dryRun :
    (oneLoan.after dryRun).store.runs.map (fun run =>
      (run.status, ((oneLoan.after dryRun).store.resultsFor run.id).length)) =
        [(.complete, 1)] := by
  cbv

/-- With one loan the run is complete, and keeps its one result. -/
theorem runs_end_once_loan :
    ∀ later, ∀ run ∈ (oneLoan.after dryRun).store.runs,
      run ∈ (oneLoan.after (dryRun ++ later)).store.runs ∧
      ((oneLoan.after (dryRun ++ later)).store.resultsFor run.id).length = 1 := by
  intro later run hrun
  have hmem := List.mem_map_of_mem (f := fun run : ImpactRun =>
    (run.status, ((oneLoan.after dryRun).store.resultsFor run.id).length)) hrun
  rw [results_dryRun, List.mem_singleton, Prod.mk.injEq] at hmem
  obtain ⟨hstatus, hlength⟩ := hmem
  have hended : run.status ≠ .running := by
    rw [hstatus]
    decide
  obtain ⟨hkept, -, hresults⟩ := (runs_end_once _ _ _ dryRun later).1 run hrun hended
  exact ⟨hkept, (congrArg List.length hresults).trans hlength⟩

end Rulebook
