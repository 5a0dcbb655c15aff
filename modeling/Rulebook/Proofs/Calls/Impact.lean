import Rulebook.Impact.Schedule
import Rulebook.Proofs.Calls.Filing

/-!
What impact runs do to the store. A run is ended only while it is running (`Impact.run_finish`), and
completed only together with one result for each projection of a scan (`Impact.yields_complete`).
The results are added first: if the run has ended in the meantime, they are taken back with the
failure that this raises (`Impact.complete_lost`). So every execution, wherever it breaks off, is a
chain of lawful changes.
-/
namespace Rulebook.Impact

open Txn

variable {c : Circumstances} {s s' : Store} {caller : Caller}

/-! ## Ending runs -/

/-- The store once a run has been ended, or the clock has been read in vain. -/
def ended (tenant id : Uuid) (outcome : Outcome) (s : Store) : Store :=
  match findOwn s.runs tenant id with
  | some run =>
    if run.status = .running then
      { s with
        runs := replaceRow s.runs { outcome.applyTo run with
          completedAt := some s.clock, updatedAt := s.clock.next }
        clock := s.clock.next.next }
    else { s with clock := s.clock.next.next }
  | none => { s with clock := s.clock.next.next }

theorem ended_frame (tenant id : Uuid) (outcome : Outcome) (s : Store) :
    ended tenant id outcome s = { s with
      runs := (ended tenant id outcome s).runs, clock := (ended tenant id outcome s).clock } := by
  unfold ended
  cases findOwn s.runs tenant id with
  | none => rfl
  | some run =>
    dsimp only
    split
    · rfl
    · rfl

/-- Whether a tenant has a run with an identifier that is running. -/
def hasRunning (s : Store) (tenant id : Uuid) : Bool :=
  (findOwn s.runs tenant id).any fun run => run.status = .running

theorem hasRunning_iff {tenant id : Uuid} : hasRunning s tenant id = true ↔
    ∃ run, findOwn s.runs tenant id = some run ∧ run.status = .running := by
  simp [hasRunning, Option.any_eq_true]

theorem run_finish (tenant id : Uuid) (outcome : Outcome) (s : Store) :
    finish tenant id outcome s = ((.ok (hasRunning s tenant id), ended tenant id outcome s) :
      Except Failure Bool × Store) := by
  unfold finish ended hasRunning
  rw [run_now_bind, run_now_bind]
  show (match findOwn s.runs tenant id with
    | some run => if run.status = .running then _ else _
    | none => _ : Txn Bool) _ = _
  cases findOwn s.runs tenant id with
  | none => rfl
  | some run =>
    rw [Option.any_some]
    dsimp only
    split
    · next hrunning =>
      rw [decide_eq_true hrunning]
      rfl
    · next hended =>
      rw [decide_eq_false hended]
      rfl

theorem yields_finish {tenant id : Uuid} {outcome : Outcome} {b : Bool} :
    Yields (finish tenant id outcome) s b s' ↔
      b = hasRunning s tenant id ∧ s' = ended tenant id outcome s := by
  rw [Yields, run_finish]
  constructor
  · rintro ⟨⟩
    exact ⟨rfl, rfl⟩
  · rintro ⟨rfl, rfl⟩
    rfl

theorem not_fails_finish {tenant id : Uuid} {outcome : Outcome} {e : Failure} :
    ¬ Fails (finish tenant id outcome) s e s' :=
  not_fails_yields (yields_finish.2 ⟨rfl, rfl⟩)

/-- Whether the run was still running is often not asked. -/
theorem yields_discard_finish {tenant id : Uuid} {outcome : Outcome} {u : Unit} :
    Yields (discard (finish tenant id outcome)) s u s' ↔ s' = ended tenant id outcome s := by
  rw [yields_discard]
  constructor
  · rintro ⟨b, h⟩
    exact (yields_finish.1 h).2
  · exact fun h => ⟨_, yields_finish.2 ⟨rfl, h⟩⟩

theorem Outcome.applyTo_not_running (outcome : Outcome) (run : ImpactRun) :
    (outcome.applyTo run).status ≠ .running := by
  cases outcome <;> exact fun h => by cases h

theorem Outcome.id_applyTo (outcome : Outcome) (run : ImpactRun) :
    (outcome.applyTo run).id = run.id := by
  cases outcome <;> rfl

/-- What is found in the place of a run that has been ended is not running. -/
theorem replaced_not_running {rows : List ImpactRun} {tenant id : Uuid} {stored q : ImpactRun}
    {outcome : Outcome} {at_ : Option Instant} {u : Instant}
    (hfound : findOwn rows tenant id = some stored)
    (h : findOwn (replaceRow rows { outcome.applyTo stored with
      completedAt := at_, updatedAt := u }) tenant id = some q) :
    q.status ≠ .running := by
  obtain ⟨hq, hqid, -⟩ := findOwn_eq_some h
  obtain ⟨-, hid, -⟩ := findOwn_eq_some hfound
  rcases mem_replaceRow.1 hq with ⟨rfl, -⟩ | ⟨-, hne⟩
  · exact outcome.applyTo_not_running stored
  · refine absurd ?_ hne
    rw [hqid, ← hid]
    exact (outcome.id_applyTo stored).symm

/-- A run that has been ended is not running, whoever ended it. -/
theorem ended_not_running {tenant id : Uuid} {outcome : Outcome} {q : ImpactRun}
    (h : findOwn (ended tenant id outcome s).runs tenant id = some q) : q.status ≠ .running := by
  unfold ended at h
  cases hfound : findOwn s.runs tenant id with
  | none =>
    rw [hfound] at h
    rw [show findOwn s.runs tenant id = some q from h] at hfound
    cases hfound
  | some run =>
    rw [hfound] at h
    dsimp only at h
    split at h
    · exact replaced_not_running hfound h
    · next hended =>
      rw [show findOwn s.runs tenant id = some q from h] at hfound
      rw [Option.some.inj hfound]
      exact hended

theorem mem_ended_of_ne {tenant id : Uuid} {outcome : Outcome} {q : ImpactRun} (hq : q ∈ s.runs)
    (hne : q.id ≠ id) : q ∈ (ended tenant id outcome s).runs := by
  unfold ended
  cases hfound : findOwn s.runs tenant id with
  | none => exact hq
  | some run =>
    obtain ⟨-, hid, -⟩ := findOwn_eq_some hfound
    dsimp only
    split
    · refine mem_replaceRow_of_ne hq fun heq => hne ?_
      exact heq.trans ((outcome.id_applyTo run).trans hid)
    · exact hq

/-- Ending a run that has ended only takes time. -/
theorem ended_ended (tenant run : Uuid) (outcome outcome' : Outcome) (s : Store) :
    ended tenant run outcome' (ended tenant run outcome s) =
      { ended tenant run outcome s with
        clock := (ended tenant run outcome s).clock.next.next } := by
  rw [ended]
  cases hfound : findOwn (ended tenant run outcome s).runs tenant run with
  | none => rfl
  | some q => exact if_neg (ended_not_running hfound)

/-- A run is not complete for having ended otherwise. -/
theorem ended_complete {tenant id : Uuid} {outcome : Outcome} {q : ImpactRun}
    (houtcome : ∀ counts, outcome ≠ .complete counts)
    (h : findOwn (ended tenant id outcome s).runs tenant id = some q) (hq : q.status = .complete) :
    findOwn s.runs tenant id = some q := by
  unfold ended at h
  cases hfound : findOwn s.runs tenant id with
  | none =>
    rw [hfound] at h
    exact hfound.symm.trans h
  | some run =>
    rw [hfound] at h
    dsimp only at h
    split at h
    · obtain ⟨hmem, hid, -⟩ := findOwn_eq_some h
      obtain ⟨-, hrunid, -⟩ := findOwn_eq_some hfound
      rcases mem_replaceRow.1 hmem with ⟨rfl, -⟩ | ⟨-, hne⟩
      · cases outcome with
        | complete counts => exact absurd rfl (houtcome counts)
        | failed message => cases hq
        | cancelled => cases hq
      · refine absurd ?_ hne
        rw [hid, ← hrunid]
        exact (outcome.id_applyTo run).symm
    · exact hfound.symm.trans h

/-- Failing and cancelling are lawful whenever they happen. -/
theorem finish_changes (tenant id : Uuid) {outcome : Outcome}
    (h : ∀ counts, outcome ≠ .complete counts) :
    Changes c .impact s (finish tenant id outcome s).2 := by
  rw [run_finish]
  unfold ended
  have htime : Ticks s.clock s.clock.next.next [] := s.ticks_pastRow.later
  cases hfound : findOwn s.runs tenant id with
  | none => exact .passed (Nat.le_refl _) htime
  | some run =>
    obtain ⟨hrun, -, -⟩ := findOwn_eq_some hfound
    dsimp only
    split
    · next hrunning =>
      cases outcome with
      | complete counts => exact absurd rfl (h counts)
      | failed message => exact .single (.runFailed hrun hrunning htime)
      | cancelled => exact .single (.runCancelled hrun hrunning htime)
    · exact .passed (Nat.le_refl _) htime

theorem cancel_changes (tenant id : Uuid) :
    Changes c .impact s (discard (finish tenant id .cancelled) s).2 :=
  .discard (finish_changes tenant id fun _ h => by cases h)

theorem ended_changes (tenant id : Uuid) (s : Store) :
    Changes c .impact s (ended tenant id .cancelled s) :=
  .of_yields (a := ()) (cancel_changes tenant id) (yields_discard_finish.2 rfl)

theorem fail_changes (run : ImpactRun) (e : Failure) : Changes c .impact s (fail run e s).2 := by
  unfold fail
  refine .read (reads_encoded _) fun message _ => .discard ?_
  exact finish_changes _ _ fun _ h => by cases h

theorem settle_changes (run : ImpactRun) (e : Failure) :
    Changes c .impact s (settle run e s).2 := by
  unfold settle
  split
  · exact .refl s
  · exact fail_changes run e

/-! ## Scans -/

theorem population_eq_ok {policy : FailurePolicy} {source : EntitySource} {v : Version} {r : Rule}
    {p : Population} : population policy source v r = .ok p ↔
      Condition.ofValue policy v.conditionsOrNone = .ok p.conditions ∧
        source.list v.tenant (scannedType r) = .ok p.entities := by
  unfold population
  rw [Except.bind_eq_ok]
  constructor
  · rintro ⟨conditions, hconditions, h⟩
    obtain ⟨entities, hentities, h⟩ := Except.bind_eq_ok.1 h
    rw [← Except.ok.inj h]
    exact ⟨Except.mapError_eq_ok.1 hconditions, hentities⟩
  · rintro ⟨hconditions, hentities⟩
    exact ⟨_, Except.mapError_eq_ok.2 hconditions, Except.bind_eq_ok.2 ⟨_, hentities, rfl⟩⟩

/-- What a projection says of an entity. -/
structure Projects (conditions : Condition) (v : Version) (r : Rule) (due : Option Date)
    (entity : Fields) (p : Projection) : Prop where
  entityType_eq : p.entityType = scannedType r
  entityId_eq : p.entityId = EntitySource.idText entity
  wouldTrigger_eq :
    conditions.evaluate (.object [(scannedType r, .object entity)]) = .ok p.wouldTrigger
  inputs_eq :
    conditions.snapshot (.object [(scannedType r, .object entity)]) (scannedType r) = .ok p.inputs
  dueDate_eq : p.dueDate = due

theorem projects_of_project {conditions : Condition} {v : Version} {r : Rule} {due : Option Date}
    {entity : Fields} {p : Projection} (h : project conditions v r due entity = .ok p) :
    Projects conditions v r due entity p := by
  unfold project at h
  obtain ⟨triggers, htriggers, h⟩ := Except.bind_eq_ok.1 h
  obtain ⟨inputs, hinputs, h⟩ := Except.bind_eq_ok.1 h
  rw [← Except.ok.inj h]
  exact ⟨rfl, rfl, htriggers, hinputs, rfl⟩

theorem projects_of_projections {p : Population} {v : Version} {r : Rule} {today : Date}
    {ps : List Projection} (h : projections p v r today = .ok ps) :
    ∃ value due, Directive.firstDueDate v.actions today = .ok value ∧
      Filing.dueDate value = .ok due ∧
      List.Forall₂ (Projects p.conditions v r due) p.entities ps := by
  unfold projections at h
  obtain ⟨value, hvalue, h⟩ := Except.bind_eq_ok.1 h
  obtain ⟨due, hdue, h⟩ := Except.bind_eq_ok.1 h
  refine ⟨value, due, Except.mapError_eq_ok.1 hvalue, hdue, ?_⟩
  exact (Except.mapM_ok (Except.mapError_eq_ok.1 h)).imp fun _ _ => projects_of_project

/-! ## Completing runs -/

theorem yields_addResultRows {run : ImpactRun} {ps : List Projection} {u : Unit}
    (h : Yields (addResultRows run.tenant run.id ps) s u s') :
    ∃ qs t, qs.map (fun q => q.id) = idsFrom s.nextId qs.length ∧
      List.Forall₂ (Records run) ps qs ∧ Ticks s.clock t (qs.map fun q => q.createdAt) ∧
      s' = { s with results := s.results ++ qs, nextId := s.nextId + qs.length, clock := t } := by
  induction ps generalizing s with
  | nil =>
    obtain ⟨-, rfl⟩ := yields_pure.1 h
    exact ⟨[], s'.clock, rfl, .nil, Nat.le_refl _, by simp⟩
  | cons p rest ih =>
    unfold addResultRows at h
    obtain ⟨entityId, hentity, h⟩ := (reads_encoded _).yields_bind.1 h
    rw [yields_newRow_bind] at h
    obtain ⟨_, t, hadded, h⟩ := yields_bind.1 h
    rw [yields_modify.1 hadded] at h
    obtain ⟨qs, clock, hids, hrecords, htime, hs'⟩ := ih h
    have hfirst : Records run p { s.nextRow run.tenant with
        run := run.id, entityType := p.entityType, entityId, wouldTrigger := p.wouldTrigger
        severity := p.severity, dueDate := p.dueDate, ruleName := p.ruleName
        inputs := p.inputs } :=
      ⟨rfl, rfl, rfl, (yields_encoded.1 hentity).1, rfl, rfl, rfl, rfl, rfl⟩
    refine ⟨_ :: qs, clock, ?_, .cons hfirst hrecords, s.ticks_pastRow.append htime, ?_⟩
    · rw [List.map_cons, List.length_cons, idsFrom_succ]
      exact congrArg _ hids
    · rw [hs', List.length_cons, Nat.add_comm qs.length 1, ← Nat.add_assoc, ← List.append_cons]
      rfl

theorem yields_addResults {run : ImpactRun} {ps : List Projection} {u : Unit}
    (h : Yields (addResults run.tenant run.id ps) s u s') :
    ∃ qs t, qs.map (fun q => q.id) = idsFrom s.nextId qs.length ∧
      List.Forall₂ (Records run) ps qs ∧ Ticks s.clock t (qs.map fun q => q.createdAt) ∧
      s' = { s with results := s.results ++ qs, nextId := s.nextId + qs.length, clock := t } := by
  obtain ⟨_, -, h⟩ := (reads_listForM (fun _ => reads_json _) ps).yields_bind.1 h
  exact yields_addResultRows h

/-- What keeps results from being stored: an identifier without an encoding, or a quotation without
JSON. -/
def ResultsRefused (e : Failure) : Prop :=
  (∃ text, e = .unencodable text) ∨ e = .storage "value has no JSON"

theorem failsAs_addResultRows (tenant id : Uuid) (ps : List Projection) :
    FailsAs ResultsRefused (addResultRows tenant id ps) := by
  induction ps with
  | nil => exact failsAs_pure ()
  | cons p rest ih =>
    have hencoded : FailsAs ResultsRefused (encoded p.entityId) :=
      fun _ _ _ h => Or.inl ⟨p.entityId, (fails_encoded h).1⟩
    refine hencoded.bind fun entityId => (failsAs_newRow tenant).bind fun row => ?_
    exact (failsAs_modify _).bind fun _ => ih

theorem failsAs_addResults (tenant id : Uuid) (ps : List Projection) :
    FailsAs ResultsRefused (addResults tenant id ps) :=
  (failsAs_listForM (fun _ => failsAs_json (Or.inr rfl) _) ps).bind fun _ =>
    failsAs_addResultRows tenant id ps

/-- A run that is completed was running, and is stored with its results. -/
theorem yields_complete {run : ImpactRun} {v : Version} {ps : List Projection} {u : Unit}
    (h : Yields (complete run v ps) s u s') :
    ∃ stored, findOwn s.runs run.tenant run.id = some stored ∧ stored.status = .running ∧
      ∃ qs at_ clock, List.Forall₂ (Records run) ps qs ∧
        qs.map (fun q => q.id) = idsFrom s.nextId qs.length ∧ Ticks s.clock clock [] ∧
        s' = { s with
          runs := replaceRow s.runs { (Outcome.complete (summary v ps)).applyTo stored with
            completedAt := some at_, updatedAt := at_.next }
          results := s.results ++ qs, nextId := s.nextId + qs.length, clock := clock } := by
  unfold complete at h
  obtain ⟨_, t, hadded, h⟩ := yields_bind.1 h
  obtain ⟨qs, clock, hids, hrecords, htime, ht⟩ := yields_addResults hadded
  obtain ⟨completed, t', hfinish, h⟩ := yields_bind.1 h
  obtain ⟨rfl, ht'⟩ := yields_finish.1 hfinish
  have hruns : t.runs = s.runs := by rw [ht]
  cases hstill : hasRunning t run.tenant run.id with
  | false =>
    rw [hstill] at h
    cases h
  | true =>
    rw [hstill] at h
    obtain ⟨-, hs'⟩ := yields_pure.1 h
    obtain ⟨stored, hfound, hrunning⟩ := hasRunning_iff.1 hstill
    refine ⟨stored, hruns ▸ hfound, hrunning, qs, clock, clock.next.next, hrecords, hids,
      Nat.le_trans htime.later (Nat.le_add_right _ 2), ?_⟩
    rw [hs', ht', ended, hfound]
    dsimp only
    rw [if_pos hrunning, ht]

/-- Where a run cannot be completed, its results cannot be stored, or the run has ended. -/
theorem fails_complete {run : ImpactRun} {v : Version} {ps : List Projection} {e : Failure}
    (h : Fails (complete run v ps) s e s') :
    ResultsRefused e ∨ e = .runEnded run.id ∧ hasRunning s run.tenant run.id = false := by
  unfold complete at h
  rcases fails_bind.1 h with h | ⟨_, t, hadded, h⟩
  · exact Or.inl (failsAs_addResults _ _ _ h)
  · obtain ⟨qs, clock, -, -, -, ht⟩ := yields_addResults hadded
    rcases fails_bind.1 h with h | ⟨completed, t', hfinish, h⟩
    · exact absurd h not_fails_finish
    · obtain ⟨rfl, -⟩ := yields_finish.1 hfinish
      cases hstill : hasRunning t run.tenant run.id with
      | true =>
        rw [hstill] at h
        exact absurd h not_fails_pure
      | false =>
        rw [hstill] at h
        refine Or.inr ⟨(fails_throw.1 h).1, ?_⟩
        rw [← hstill, hasRunning, hasRunning, ht]

/-- Whoever comes too late to complete a run has added all results by then, and takes them back. -/
theorem complete_lost {run : ImpactRun} {v : Version} {ps : List Projection} {u : Unit}
    (hadded : Yields (addResults run.tenant run.id ps) s u s')
    (hended : hasRunning s run.tenant run.id = false) :
    (∃ qs t, List.Forall₂ (Records run) ps qs ∧ t.results = s.results ++ qs ∧
      Fails (complete run v ps) s (.runEnded run.id) t) ∧
    Yields (tryCatch (undoing (complete run v ps)) (settle run)) s () s := by
  obtain ⟨qs, clock, -, hrecords, -, hs'⟩ := yields_addResults hadded
  have hlost : hasRunning s' run.tenant run.id = false := by
    rw [← hended, hasRunning, hasRunning, hs']
  have hresults : (ended run.tenant run.id (.complete (summary v ps)) s').results =
      s.results ++ qs := by
    rw [ended_frame, hs']
  have hfinish : Yields (finish run.tenant run.id (.complete (summary v ps))) s' false
      (ended run.tenant run.id (.complete (summary v ps)) s') :=
    yields_finish.2 ⟨hlost.symm, rfl⟩
  have hfails : Fails (complete run v ps) s (.runEnded run.id)
      (ended run.tenant run.id (.complete (summary v ps)) s') :=
    fails_bind.2 (Or.inr ⟨u, s', hadded, fails_bind.2 (Or.inr ⟨false, _, hfinish,
      fails_throw.2 ⟨rfl, rfl⟩⟩)⟩)
  refine ⟨⟨qs, _, hrecords, hresults, hfails⟩, yields_tryCatch.2 (Or.inr ⟨.runEnded run.id, s, ?_,
    yields_pure.2 ⟨rfl, rfl⟩⟩)⟩
  rw [run_undoing, show complete run v ps s = _ from hfails]

/-! ## Executing runs -/

/-- What an execution does once it has the version and the rule: it lists and projects the entities
and ends the run accordingly. -/
def conclude (c : Circumstances) (run : ImpactRun) (v : Version) (r : Rule) (today : Date) :
    Txn Unit :=
  match (population c.policy c.source v r).bind fun p => projections p v r today with
  | .ok ps => tryCatch (undoing (complete run v ps)) (settle run)
  | .error e => fail run e

theorem executeRun_eq (id : Uuid) (today : Date) (cancelDuringScan : Bool) :
    executeRun c caller id today cancelDuringScan = (do
      let run ← ownRun caller.tenant id
      if run.status ≠ .running then return run
      else
        let v ← ownVersion caller.tenant run.version
        let r ← ruleOf v
        if cancelDuringScan && (population c.policy c.source v r).isOk then
          discard <| finish run.tenant run.id .cancelled
          conclude c run v r today
          ownRun caller.tenant id
        else
          conclude c run v r today
          ownRun caller.tenant id) := by
  unfold executeRun conclude
  refine bind_congr fun run => ?_
  split
  · rfl
  · refine bind_congr fun v => bind_congr fun r => ?_
    dsimp only
    cases (population c.policy c.source v r).bind fun p => projections p v r today with
    | ok ps => rfl
    | error e => rfl

/-- Executing is lawful from where the run is as it was read, or has ended since. -/
theorem conclude_changes {run : ImpactRun} {v : Version} {r : Rule} (today : Date)
    (hrun : ∀ q, findOwn s.runs run.tenant run.id = some q → q.status = .running → q = run)
    (hv : v ∈ s.versions) (hr : r ∈ s.rules) (hversion : v.id = run.version ∧ v.tenant = run.tenant)
    (hrule : r.id = v.rule ∧ r.tenant = run.tenant) :
    Changes c .impact s (conclude c run v r today s).2 := by
  unfold conclude
  cases hlisted : (population c.policy c.source v r).bind fun p => projections p v r today with
  | error e => exact fail_changes run e
  | ok ps =>
    refine .tryCatch ?_ fun e _ _ _ => settle_changes run e
    rcases undone_undoing (complete run v ps) s with ⟨u, s', h⟩ | h
    · rw [show undoing (complete run v ps) s = _ from h]
      obtain ⟨stored, hfound, hrunning, qs, at_, clock, hrecords, hids, htime, rfl⟩ :=
        yields_complete (yields_undoing.1 h)
      obtain rfl := hrun stored hfound hrunning
      obtain ⟨p, hpopulation, hprojections⟩ := Except.bind_eq_ok.1 hlisted
      refine .single (.runCompleted (findOwn_eq_some hfound).1 hrunning ?_ hids htime)
      exact ⟨v, hv, r, hr, hversion.1, hversion.2, hrule.1, hrule.2, p, today, ps, hpopulation,
        hprojections, rfl, hrecords⟩
    · rw [h]
      exact .refl s

theorem createRun_changes (hs : s.Intact) (version : Uuid) :
    Changes c .impact s (createRun caller version s).2 := by
  unfold createRun
  refine .own fun v hv _ htenant => .read (reads_ruleOf v) fun r hfound => ?_
  obtain ⟨hr, hrule, hrtenant⟩ := findOwn_eq_some ((yields_ruleOf hs hv).1 hfound).1
  refine .single (.runAdded rfl ⟨rfl, rfl, rfl, rfl⟩ ?_ s.ticks_pastRow.later)
  exact ⟨v.rule, v, hv, r, hr, rfl, htenant, rfl, hrule, hrtenant.trans htenant, rfl⟩

/-- The run that is created is new, and there afterwards. -/
theorem mem_createRun {version : Uuid} {run : ImpactRun}
    (h : Yields (createRun caller version) s run s') :
    run ∈ s'.runs ∧ run.id = ⟨s.nextId⟩ ∧ run.tenant = caller.tenant := by
  obtain ⟨v, -, h⟩ := yields_own_bind.1 h
  obtain ⟨r, -, h⟩ := (reads_ruleOf v).yields_bind.1 h
  obtain ⟨_, t, hadded, h⟩ := yields_bind.1 (yields_newRow_bind.1 h)
  obtain ⟨rfl, rfl⟩ := yields_pure.1 h
  rw [yields_modify.1 hadded]
  exact ⟨List.mem_append_right _ (List.mem_singleton_self _), rfl, rfl⟩

theorem owned_createRun {version : Uuid} {run : ImpactRun}
    (h : Yields (createRun caller version) s run s') : (run.id, caller.tenant) ∈ owned s'.runs := by
  obtain ⟨hrun, -, htenant⟩ := mem_createRun h
  exact mem_owned.2 ⟨run, hrun, rfl, htenant⟩

theorem executeRun_changes (hs : s.Intact) (id : Uuid) (today : Date) (cancelDuringScan : Bool) :
    Changes c .impact s (executeRun c caller id today cancelDuringScan s).2 := by
  rw [executeRun_eq]
  refine .read (reads_own _ _ _ _) fun run hown => ?_
  obtain ⟨hfound, -⟩ := yields_own.1 hown
  obtain ⟨hrun, hid, htenant⟩ : run ∈ s.runs ∧ run.id = id ∧ run.tenant = caller.tenant :=
    findOwn_eq_some hfound
  split
  · exact .refl s
  · next hrunning =>
    refine .own fun v hv hvid hvtenant => .read (reads_ruleOf v) fun r hr => ?_
    obtain ⟨hr, hrid, hrtenant⟩ := findOwn_eq_some ((yields_ruleOf hs hv).1 hr).1
    have hversion : v.id = run.version ∧ v.tenant = run.tenant :=
      ⟨hvid, hvtenant.trans htenant.symm⟩
    have hrule : r.id = v.rule ∧ r.tenant = run.tenant := ⟨hrid, hrtenant.trans hversion.2⟩
    split
    · refine .bind (cancel_changes run.tenant run.id) fun _ t ht _ => ?_
      rw [yields_discard_finish] at ht
      refine .bind_reads (conclude_changes today (fun q hq hqrunning => ?_) ?_ ?_ hversion hrule)
        fun _ => reads_own _ _ _ _
      · rw [ht] at hq
        exact absurd hqrunning (ended_not_running hq)
      · rw [ht, ended_frame]
        exact hv
      · rw [ht, ended_frame]
        exact hr
    · refine .bind_reads (conclude_changes today (fun q hq _ => ?_) hv hr hversion hrule)
        fun _ => reads_own _ _ _ _
      rw [hid, htenant, hfound] at hq
      exact (Option.some.inj hq).symm

theorem yields_fail {run : ImpactRun} {e : Failure} {u : Unit} (h : Yields (fail run e) s u s') :
    ∃ message, s' = ended run.tenant run.id (.failed message) s := by
  obtain ⟨message, -, h⟩ := (reads_encoded _).yields_bind.1 h
  exact ⟨message, yields_discard_finish.1 h⟩

/-- What could not be completed is left as it has ended, or fails. -/
theorem yields_conclude_lost {run : ImpactRun} {v : Version} {ps : List Projection} {e : Failure}
    {u : Unit} {t : Store} (hfails : Fails (undoing (complete run v ps)) s e t)
    (h : Yields (settle run e) t u s') :
    s' = s ∧ hasRunning s run.tenant run.id = false ∨
      ∃ message, s' = ended run.tenant run.id (.failed message) s := by
  obtain ⟨rfl, t', hfails⟩ := fails_undoing hfails
  rcases fails_complete hfails with (⟨text, rfl⟩ | rfl) | ⟨rfl, hended⟩
  · exact Or.inr (yields_fail h)
  · exact Or.inr (yields_fail h)
  · exact Or.inl ⟨(yields_pure.1 h).2, hended⟩

/-- However an execution concludes, the run is ended. -/
theorem yields_conclude {run q : ImpactRun} {v : Version} {r : Rule} {today : Date} {u : Unit}
    (h : Yields (conclude c run v r today) s u s')
    (hq : findOwn s'.runs run.tenant run.id = some q) : q.status ≠ .running := by
  unfold conclude at h
  split at h
  · rcases yields_tryCatch.1 h with h | ⟨e, t, hfails, h⟩
    · obtain ⟨stored, hfound, -, qs, at_, clock, -, -, -, hs'⟩ :=
        yields_complete (yields_undoing.1 h)
      rw [hs'] at hq
      exact replaced_not_running hfound hq
    · rcases yields_conclude_lost hfails h with ⟨rfl, hended⟩ | ⟨message, hs'⟩
      · intro hrunning
        rw [hasRunning_iff.2 ⟨q, hq, hrunning⟩] at hended
        cases hended
      · rw [hs'] at hq
        exact ended_not_running hq
  · obtain ⟨outcome, hs'⟩ := yields_fail h
    rw [hs'] at hq
    exact ended_not_running hq

/-- An execution concludes with a complete run only by storing the results of its scan, unless the
run was complete before. -/
theorem conclude_complete {run q : ImpactRun} {v : Version} {r : Rule} {today : Date} {u : Unit}
    (h : Yields (conclude c run v r today) s u s')
    (hq : findOwn s'.runs run.tenant run.id = some q) (hcomplete : q.status = .complete) :
    findOwn s.runs run.tenant run.id = some q ∨
      (∃ stored, findOwn s.runs run.tenant run.id = some stored ∧ stored.status = .running) ∧
        ∃ p ps qs, population c.policy c.source v r = .ok p ∧ projections p v r today = .ok ps ∧
          List.Forall₂ (Records run) ps qs ∧ s'.results = s.results ++ qs := by
  unfold conclude at h
  split at h
  · next ps hlisted =>
    rcases yields_tryCatch.1 h with h | ⟨e, t, hfails, h⟩
    · obtain ⟨stored, hfound, hrunning, qs, at_, clock, hrecords, -, -, hs'⟩ :=
        yields_complete (yields_undoing.1 h)
      obtain ⟨p, hp, hps⟩ := Except.bind_eq_ok.1 hlisted
      exact Or.inr ⟨⟨stored, hfound, hrunning⟩, p, ps, qs, hp, hps, hrecords, by rw [hs']⟩
    · rcases yields_conclude_lost hfails h with ⟨rfl, -⟩ | ⟨message, hs'⟩
      · exact Or.inl hq
      · rw [hs'] at hq
        exact Or.inl (ended_complete (fun _ h => by cases h) hq hcomplete)
  · obtain ⟨message, rfl⟩ := yields_fail h
    exact Or.inl (ended_complete (fun _ h => by cases h) hq hcomplete)

/-- An execution that answers has ended its run, or found it ended. -/
theorem yields_executeRun {id : Uuid} {today : Date} {cancelDuringScan : Bool} {q : ImpactRun}
    (h : Yields (executeRun c caller id today cancelDuringScan) s q s') :
    q ∈ s'.runs ∧ q.id = id ∧ q.status ≠ .running := by
  rw [executeRun_eq] at h
  obtain ⟨run, hfound, h⟩ := yields_own_bind.1 h
  obtain ⟨hrun, hid, htenant⟩ : run ∈ s.runs ∧ run.id = id ∧ run.tenant = caller.tenant :=
    findOwn_eq_some hfound
  split at h
  · next hended =>
    obtain ⟨rfl, rfl⟩ := yields_pure.1 h
    exact ⟨hrun, hid, hended⟩
  · obtain ⟨v, -, h⟩ := yields_own_bind.1 h
    obtain ⟨r, -, h⟩ := (reads_ruleOf v).yields_bind.1 h
    -- Whether or not it was cancelled during the scan, the run is read again in the end.
    have hconclude : ∃ t : Store, Yields (do
        conclude c run v r today
        ownRun caller.tenant id) t q s' := by
      split at h
      · obtain ⟨_, t, -, h⟩ := yields_bind.1 h
        exact ⟨t, h⟩
      · exact ⟨s, h⟩
    obtain ⟨t, h⟩ := hconclude
    obtain ⟨_, t', hended, h⟩ := yields_bind.1 h
    obtain ⟨hq, rfl⟩ := yields_own.1 h
    obtain ⟨hmem, hqid, -⟩ := findOwn_eq_some hq
    rw [← hid, ← htenant] at hq
    exact ⟨hmem, hqid, yields_conclude hended hq⟩

/-- An execution answers a complete run only if it has stored the results of its scan, or found the
run complete. -/
theorem executeRun_complete (hs : s.Intact) {id : Uuid} {today : Date} {cancelDuringScan : Bool}
    {q : ImpactRun}
    (h : Yields (executeRun c caller id today cancelDuringScan) s q s')
    (hcomplete : q.status = .complete) :
    findOwn s.runs caller.tenant id = some q ∨
      ∃ run v r p ps qs, findOwn s.runs caller.tenant id = some run ∧ run.status = .running ∧
        findOwn s.versions caller.tenant run.version = some v ∧
        findOwn s.rules caller.tenant v.rule = some r ∧
        population c.policy c.source v r = .ok p ∧ projections p v r today = .ok ps ∧
        List.Forall₂ (Records run) ps qs ∧ s'.results = s.results ++ qs := by
  rw [executeRun_eq] at h
  obtain ⟨run, hfound, h⟩ := yields_own_bind.1 h
  obtain ⟨-, hid, htenant⟩ : run ∈ s.runs ∧ run.id = id ∧ run.tenant = caller.tenant :=
    findOwn_eq_some hfound
  split at h
  · obtain ⟨rfl, rfl⟩ := yields_pure.1 h
    exact Or.inl hfound
  · next hrunning =>
    have hrunning := not_not.1 hrunning
    obtain ⟨v, hv, h⟩ := yields_own_bind.1 h
    obtain ⟨r, hr, h⟩ := (reads_ruleOf v).yields_bind.1 h
    obtain ⟨hvmem, -, hvtenant⟩ : v ∈ s.versions ∧ _ ∧ v.tenant = caller.tenant :=
      findOwn_eq_some hv
    replace hr := ((yields_ruleOf hs hvmem).1 hr).1
    rw [hvtenant] at hr
    split at h
    · -- A run that was cancelled during the scan does not end as a complete one.
      obtain ⟨_, t, hcancel, h⟩ := yields_bind.1 h
      obtain ⟨_, t', hconclude, h⟩ := yields_bind.1 h
      obtain ⟨hq, rfl⟩ := yields_own.1 h
      rw [← hid, ← htenant] at hq
      rw [yields_discard_finish.1 hcancel] at hconclude
      rcases conclude_complete hconclude hq hcomplete with
        hbefore | ⟨⟨stored, hstored, hstill⟩, -⟩
      · have hbefore := ended_complete (fun _ h => by cases h) hbefore hcomplete
        rw [hid, htenant, hfound] at hbefore
        rw [← Option.some.inj hbefore, hrunning] at hcomplete
        cases hcomplete
      · exact absurd hstill (ended_not_running hstored)
    · obtain ⟨_, t', hconclude, h⟩ := yields_bind.1 h
      obtain ⟨hq, rfl⟩ := yields_own.1 h
      rw [← hid, ← htenant] at hq
      rcases conclude_complete hconclude hq hcomplete with
        hbefore | ⟨-, p, ps, qs, hp, hps, hrecords, hresults⟩
      · rw [hid, htenant] at hbefore
        exact Or.inl hbefore
      · exact Or.inr ⟨run, v, r, p, ps, qs, hfound, hrunning, hv, hr, hp, hps, hrecords, hresults⟩

theorem startRun_changes (hs : s.Intact) (version : Uuid) (today : Date) :
    Changes c .impact s (startRun c caller version today s).2 :=
  .bind (createRun_changes hs version) fun _ _ _ h => executeRun_changes (h.intact hs) _ today false

theorem cancelRun_changes (id : Uuid) : Changes c .impact s (cancelRun caller id s).2 :=
  .bind_reads (cancel_changes caller.tenant id) fun _ => reads_own _ _ _ _

theorem reads_cancellableRun (id : Uuid) : Reads (cancellableRun caller id) := by
  refine (reads_own _ _ _ _).bind fun run => ?_
  dsimp only
  split
  · exact (reads_throw _).bind fun _ => reads_pure run
  · exact reads_pure run

theorem reads_getRun (pageSize : Int) (id : Uuid) : Reads (getRun pageSize caller id) := by
  refine (reads_own _ _ _ _).bind fun run => (reads_column pageSize).bind fun _ => ?_
  exact reads_get.bind fun _ => reads_pure _

theorem BackgroundTask.cancel_changes (t : BackgroundTask) :
    Changes c .impact s (t.cancel s).2 := by
  unfold BackgroundTask.cancel
  cases t.phase with
  | waiting => exact .refl s
  | begun => exact Impact.cancel_changes _ _

/-- A task that waits is dropped, and its run is left as it is. -/
theorem BackgroundTask.yields_cancel_waiting {t : BackgroundTask} (h : t.phase = .waiting) :
    Yields t.cancel s () s := by
  unfold BackgroundTask.cancel
  rw [h]
  exact yields_pure.2 ⟨rfl, rfl⟩

/-- A task that has begun takes its run with it. -/
theorem BackgroundTask.yields_cancel_begun {t : BackgroundTask} (h : t.phase = .begun) :
    Yields t.cancel s () (ended t.caller.tenant t.run .cancelled s) := by
  unfold BackgroundTask.cancel
  rw [h]
  exact yields_discard_finish.2 rfl

theorem BackgroundTask.execute_changes (hs : s.Intact) (t : BackgroundTask) :
    Changes c .impact s (t.execute c s).2 := by
  unfold BackgroundTask.execute
  exact .read reads_today fun today _ => .discard (executeRun_changes hs t.run today false)

theorem cancelAll_changes (tasks : Schedule) : Changes c .impact s (cancelAll tasks s).2 := by
  induction tasks generalizing s with
  | nil => exact .refl s
  | cons t rest ih => exact .bind (t.cancel_changes) fun _ _ _ _ => ih

end Rulebook.Impact
