import Mathlib
import Rulebook.Proofs.Directive.DueDate
import Rulebook.Proofs.Evaluation
import Rulebook.Proofs.RunLife

/-!
A dry run predicts the live one. The scan of an impact run and the evaluation of an entity are
written apart, but both read the conditions of a version under a policy and apply them to the
entity under the name of its type. So where an execution completes, each of its results tells
whether an evaluation of that entity will find the version, once that is active and nothing of it is
pending, and what the finding will say (`dry_run_predicts`).
-/
namespace Rulebook

open Txn Impact

variable {s s' : Store}

/-! ## Finding one version -/

/-- An evaluation finds an active version about the type, of which nothing is pending, exactly if it
holds. -/
theorem Evaluation.finds_version {c : Circumstances} {caller : Caller} {entityType : Text}
    {entity : Fields} {found : List FindingView} {v : Version} {r : Rule} {t : Target}
    (ht : t = { tenant := caller.tenant, entityType, entityId := EntitySource.idText entity
                entity })
    (hs : s.Intact) (hstale : c.stale = false) (hv : v ∈ s.versions)
    (htenant : v.tenant = caller.tenant) (hactive : v.status = .active) (hr : r ∈ s.rules)
    (hrule : r.id = v.rule)
    (hcovers : ∀ name, r.appliesTo = some name → Text.ofString name = entityType)
    (hfree : ¬ Pending s t v.id) (h : Yields (evaluate c caller entityType entity) s found s') :
    (Holds c t v ↔ ∃ view ∈ found, view.finding.version = v.id) ∧
      ∀ view ∈ found, view.finding.version = v.id → Found c t (v, r) view := by
  obtain ⟨name, hname, hvisits⟩ := yields_evaluate h
  rw [show ({ tenant := caller.tenant, entityType, entityId := (entity.getD "id").plain, entity } :
    Target) = t from ht.symm] at hvisits
  obtain ⟨hits, hsublist, hmem, hviews, -⟩ := yields_evaluateVersions hs hstale
    (hs.nodup_activeVersions caller.tenant name) hvisits
  have hlisted : (v, r) ∈ s.activeVersions caller.tenant name := hs.mem_activeVersions.2
    ⟨hv, htenant, hactive, hr, hrule, (Rule.covers_iff hname).2 hcovers⟩
  have hversion : ∀ hit view, Found c t hit view → view.finding.version = hit.1.id := by
    rintro hit view ⟨_, _, _, -, -, -, hreports⟩
    exact hreports.version_eq
  -- No other version has the identifier, and no other rule that of the version's.
  have hsame : ∀ hit ∈ hits, hit.1.id = v.id → hit = (v, r) := by
    rintro ⟨w, q⟩ hin hid
    obtain ⟨hw, -, -, hq, hqid, -⟩ := hs.mem_activeVersions.1 (hsublist.subset hin)
    obtain rfl := hs.versions.eq_of_id hw hv hid
    rw [hs.rules.eq_of_id hq hr (hqid.trans hrule.symm)]
  have hviewed : ∀ view ∈ found, view.finding.version = v.id →
      (v, r) ∈ hits ∧ Found c t (v, r) view := by
    intro view hview hid
    obtain ⟨hit, hin, hfound⟩ := exists_of_forall₂ hviews view hview
    obtain rfl := hsame hit hin ((hversion hit view hfound).symm.trans hid)
    exact ⟨hin, hfound⟩
  refine ⟨⟨fun hholds => ?_, ?_⟩, fun view hview hid => (hviewed view hview hid).2⟩
  · obtain ⟨view, hview, hfound⟩ :=
      exists_of_forall₂ hviews.flip (v, r) ((hmem _ hlisted).2 ⟨hholds, hfree⟩)
    exact ⟨view, hview, hversion _ view hfound⟩
  · rintro ⟨view, hview, hid⟩
    exact ((hmem _ hlisted).1 (hviewed view hview hid).1).1

/-! ## What a result foretells -/

/-- A version could be found in a store as a scan has seen it: it is active, with the conditions and
actions of then and a rule about the same type, and nothing of it is pending. -/
structure Store.Offers (t : Store) (v : Version) (r : Rule) (target : Evaluation.Target) :
    Prop where
  intact : t.Intact
  version : ∃ w ∈ t.versions, w.id = v.id ∧ w.tenant = v.tenant ∧ w.status = .active ∧
    w.conditions = v.conditions ∧ w.actions = v.actions ∧
    ∃ q ∈ t.rules, q.id = w.rule ∧ q.appliesTo = r.appliesTo
  free : ¬ Evaluation.Pending t target v.id

namespace Impact

/-- An entity as a scan for a rule hands it to evaluation. -/
def target (v : Version) (r : Rule) (entity : Fields) : Evaluation.Target :=
  { tenant := v.tenant, entityType := scannedType r, entityId := EntitySource.idText entity, entity }

/-- What a result says of an entity is what an evaluation of it will find of the version. -/
def Foretells (policy : FailurePolicy) (today : Date) (v : Version) (r : Rule) (entity : Fields)
    (q : ImpactResult) : Prop :=
  ∀ (t t' : Store) (day : Date) (caller : Caller) (found : List FindingView),
    t.Offers v r (target v r entity) → caller.tenant = v.tenant →
    Yields (Evaluation.evaluate { policy, today := day } caller (scannedType r) entity)
      t found t' →
    (q.wouldTrigger = true ↔ ∃ view ∈ found, view.finding.version = v.id) ∧
    ∀ view ∈ found, view.finding.version = v.id →
      q.entityId = view.finding.entityId ∧
      view.finding.details.get? "inputs_snapshot" = some (.object q.inputs) ∧
      (day = today → ∀ directives, Directive.check v.actions = .ok directives →
        directives.countP (Directive.kind? · = some .setDueDate) ≤ 1 →
        q.dueDate = view.finding.dueDate)

theorem covers_scannedType {r q : Rule} (hnamed : r.appliesTo ≠ some "")
    (hq : q.appliesTo = r.appliesTo) (name : String) (hname : q.appliesTo = some name) :
    Text.ofString name = (scannedType r : Text) := by
  rw [hq] at hname
  unfold scannedType
  rw [hname]
  dsimp only
  split
  · next hempty =>
    rw [String.isEmpty_iff.1 hempty] at hname
    exact absurd hname hnamed
  · rfl

/-- A result that records the projection of a scan foretells the evaluation. -/
theorem foretells_of_projects {policy : FailurePolicy} {today : Date} {run : ImpactRun}
    {v : Version} {r : Rule} {conditions : Condition} {value : Value} {due : Option Date}
    {entity : Fields} {p : Projection} {q : ImpactResult} (hnamed : r.appliesTo ≠ some "")
    (hconditions : Condition.ofValue policy v.conditionsOrNone = .ok conditions)
    (hvalue : Directive.firstDueDate v.actions today = .ok value)
    (hdue : Filing.dueDate value = .ok due) (hp : Projects conditions v r due entity p)
    (hq : Records run p q) : Foretells policy today v r entity q := by
  rintro t t' day caller found ⟨ht, ⟨w, hw, hid, htenant, hactive, hsame, hactions, k, hk, hkid,
    happlies⟩, hfree⟩ hcaller h
  have hread : Condition.ofValue policy w.conditionsOrNone = .ok conditions := by
    rw [Version.conditionsOrNone, hsame]
    exact hconditions
  rw [← hid] at hfree ⊢
  obtain ⟨hfinds, hfound⟩ := Evaluation.finds_version (t := target v r entity)
    (by rw [hcaller]; rfl) ht rfl hw (htenant.trans hcaller.symm) hactive hk hkid
    (covers_scannedType hnamed happlies) hfree h
  refine ⟨?_, fun view hview hversion => ?_⟩
  · rw [← hfinds, hq.wouldTrigger_eq]
    constructor
    · intro htriggers
      exact ⟨conditions, hread, htriggers ▸ hp.wouldTrigger_eq⟩
    · rintro ⟨tree, htree, hholds⟩
      rw [hread] at htree
      cases htree
      exact Except.ok.inj (hp.wouldTrigger_eq.symm.trans hholds)
  · obtain ⟨tree, inputs, plan, htree, hinputs, hplan, hreports⟩ := hfound view hview hversion
    rw [hread] at htree
    cases htree
    have hsnapshot : inputs = p.inputs := Except.ok.inj (hinputs.symm.trans hp.inputs_eq)
    refine ⟨?_, ?_, ?_⟩
    · have hplain : Text.ofString view.finding.entityId = p.entityId :=
        hreports.entityId_eq.trans hp.entityId_eq.symm
      have hid := hq.entityId_eq
      rw [← hplain, Text.string?_ofString] at hid
      exact (Option.some.inj hid).symm
    · rw [hreports.details_eq, hsnapshot, hq.inputs_eq]
      rfl
    · rintro rfl directives hcheck hcount
      rw [hactions] at hplan
      rw [hq.dueDate_eq, hp.dueDate_eq]
      have hsets := hreports.dueDate_eq
      rw [Plan.dueDate_ofValue hcheck hcount hplan hvalue, hdue] at hsets
      exact Except.ok.inj hsets

end Impact

/-! ## Executions -/

/-- Where the execution of a running run completes, there is one result for each entity that is
listed for its version, and each foretells what an evaluation of that entity will find, in any store
in which the version is active as it was scanned and nothing of it is pending. The due date is that
of the finding if the actions are well formed and set one at most. -/
theorem dry_run_predicts (source : EntitySource) (clock : Instant) (nextId : Nat)
    (moves : List Move) (c : Circumstances) (caller : Caller) (today : Date)
    (cancelDuringScan : Bool) (run q : ImpactRun) (s' : Store) :
    let s := ((Engine.fresh source clock nextId).after moves).store
    run ∈ s.runs → run.status = .running →
    Yields (executeRun c caller run.id today cancelDuringScan) s q s' → q.status = .complete →
    ∃ v ∈ s.versions, ∃ r ∈ s.rules,
      v.id = run.version ∧ v.tenant = caller.tenant ∧ r.id = v.rule ∧
      (r.appliesTo ≠ some "" → ∃ entities,
        c.source.list caller.tenant (scannedType r) = .ok entities ∧
        List.Forall₂ (Foretells c.policy today v r) entities (s'.resultsFor run.id)) := by
  intro s hrun hrunning h hcomplete
  have hfresh := Engine.fresh_intact source clock nextId
  have hs : s.Intact := Engine.after_intact hfresh moves
  have hnone : s.resultsFor run.id = [] :=
    ((Engine.after_runs_inOrder hfresh rfl moves run hrun).running hrunning).2.2.2
  rcases executeRun_complete hs h hcomplete with
    hbefore | ⟨run', v, r, p, ps, qs, hfound, -, hv, hr, hp, hps, hrecords, hresults⟩
  · -- The run that was found would have been complete.
    obtain ⟨hq, hid, -⟩ := findOwn_eq_some hbefore
    rw [hs.runs.eq_of_id hq hrun hid, hrunning] at hcomplete
    cases hcomplete
  · obtain ⟨hrun', hid, -⟩ := findOwn_eq_some hfound
    obtain rfl : run' = run := hs.runs.eq_of_id hrun' hrun hid
    obtain ⟨hv, hvid, hvtenant⟩ : v ∈ s.versions ∧ v.id = run'.version ∧
      v.tenant = caller.tenant := findOwn_eq_some hv
    obtain ⟨hr, hrid, -⟩ : r ∈ s.rules ∧ r.id = v.rule ∧ r.tenant = caller.tenant :=
      findOwn_eq_some hr
    refine ⟨v, hv, r, hr, hvid, hvtenant, hrid, fun hnamed => ?_⟩
    obtain ⟨hconditions, hlist⟩ := population_eq_ok.1 hp
    obtain ⟨value, due, hvalue, hdue, hprojects⟩ := projects_of_projections hps
    refine ⟨p.entities, hvtenant ▸ hlist, ?_⟩
    have hown : ∀ q ∈ qs, q.run = run'.id := forall_mem_of_forall₂ hrecords fun _ _ h => h.run_eq
    rw [Store.resultsFor_same hresults hown, hnone, List.nil_append]
    exact forall₂_comp hprojects hrecords fun entity p q hp hq =>
      foretells_of_projects hnamed hconditions hvalue hdue hp hq

/-- Actions that set a fixed due date. -/
def fixedDueDate : Value :=
  .list [.object [("type", .text "set_due_date"), ("mode", .text "fixed"),
    ("value", .text "2030-01-31")]]

/-- A version with a fixed due date, and a run of it that is yet to be executed. -/
def plannedRun : List Move :=
  let caller : Caller := { tenant := ⟨100⟩ }
  [.call {} caller (.createPack { name := "Lending", authority := "Board" }),
    .call {} caller (.createRule { pack := ⟨0⟩, name := "Risk" }
      { conditions := .object [("all", .list [])], actions := fixedDueDate }),
    .call {} caller (.createRun ⟨2⟩)]

def planned : Engine := oneLoan.after plannedRun

/-- The version is active. -/
def launched : Engine :=
  let caller : Caller := { tenant := ⟨100⟩ }
  planned.after [.call {} caller (.submitRule ⟨1⟩), .call {} caller (.approveVersion ⟨2⟩),
    .call {} caller (.activateVersion ⟨2⟩)]

theorem stored_planned :
    planned.store.runs.map (fun run => (run.id, run.status)) = [(⟨3⟩, .running)] ∧
      planned.store.rules.map (fun r => (r.id, r.appliesTo)) = [(⟨1⟩, some "loan")] ∧
      planned.store.versions.map (fun v => (v.id, v.rule, v.conditions, v.actions)) =
        [(⟨2⟩, ⟨1⟩, .object [("all", .list [])], fixedDueDate)] := by
  cbv

theorem stored_launched :
    launched.store.findings.length = 0 ∧
      launched.store.rules.map (fun r => (r.id, r.appliesTo)) = [(⟨1⟩, some "loan")] ∧
      launched.store.versions.map (fun v =>
        (v.status, v.tenant, v.id, v.rule, v.conditions, v.actions)) =
          [(.active, ⟨100⟩, ⟨2⟩, ⟨1⟩, .object [("all", .list [])], fixedDueDate)] := by
  cbv

theorem executed_planned :
    (executeRun { source := oneLoan.source } { tenant := ⟨100⟩ } ⟨3⟩ default false planned.store :
      Except Failure ImpactRun × Store).1.toOption.map (fun q => q.status) = some .complete := by
  cbv

theorem evaluated_launched :
    (Evaluation.evaluate { today := default } { tenant := ⟨100⟩ } "loan" [("id", .text "7")]
      launched.store : Except Failure (List FindingView) × Store).1.toOption.map
        (fun found => found.map fun view => view.finding.version) = some [⟨2⟩] := by
  cbv

/-- Executed, the run foretells the due date of the finding that the version will make, once it is
active. -/
theorem dry_run_predicts_loan :
    ∃ q s' result found t',
      Yields (executeRun { source := oneLoan.source } { tenant := ⟨100⟩ } ⟨3⟩ default false)
        planned.store q s' ∧
      s'.resultsFor ⟨3⟩ = [result] ∧ result.wouldTrigger = true ∧
      Yields (Evaluation.evaluate { today := default } { tenant := ⟨100⟩ } "loan"
        [("id", .text "7")]) launched.store found t' ∧
      ∃ view ∈ found, view.finding.version = ⟨2⟩ ∧ result.dueDate = view.finding.dueDate := by
  obtain ⟨hruns, hrules, hversions⟩ := stored_planned
  obtain ⟨hfindings, hrules', hversions'⟩ := stored_launched
  obtain ⟨q, s', hexecution, hcomplete⟩ := yields_of_answer executed_planned
  obtain ⟨found, t', hevaluation, hfound⟩ := yields_of_answer evaluated_launched
  obtain ⟨run, hrun, hrow⟩ := List.map_eq_singleton_iff.1 hruns
  obtain ⟨hid, hrunning⟩ := Prod.mk.inj hrow
  have hmem : run ∈ planned.store.runs := by
    rw [hrun]
    exact List.mem_singleton.2 rfl
  rw [← hid] at hexecution
  obtain ⟨v, hv, r, hr, -, htenant, hrule, hforetells⟩ := dry_run_predicts _ _ _ plannedRun
    { source := oneLoan.source } { tenant := ⟨100⟩ } default false run q s' hmem hrunning hexecution
    hcomplete
  obtain ⟨v', hv', hversion⟩ := List.map_eq_singleton_iff.1 hversions
  obtain ⟨r', hr', hruleRow⟩ := List.map_eq_singleton_iff.1 hrules
  obtain rfl : v = v' := List.mem_singleton.1 (hv' ▸ hv)
  obtain rfl : r = r' := List.mem_singleton.1 (hr' ▸ hr)
  obtain ⟨hvid, hvrule, hconditions, hactions⟩ : v.id = ⟨2⟩ ∧ v.rule = ⟨1⟩ ∧
    v.conditions = .object [("all", .list [])] ∧ v.actions = fixedDueDate := by simpa using hversion
  obtain ⟨hrid, happlies⟩ := Prod.mk.inj hruleRow
  obtain ⟨entities, hlist, hresults⟩ := hforetells (by rw [happlies]; decide)
  have hscanned : scannedType r = "loan" := by
    rw [scannedType, happlies]
    rfl
  have hentities : entities = [([("id", .text "7")] : Fields)] := by
    rw [hscanned] at hlist
    exact (Except.ok.inj hlist).symm
  rw [hentities, hid] at hresults
  obtain ⟨result, rest, hforetold, hnil, hresult⟩ := List.forall₂_cons_left_iff.1 hresults
  rw [List.forall₂_nil_left_iff.1 hnil] at hresult
  -- The version is active as it was scanned, and there are no findings yet.
  obtain ⟨w, hw, hlive⟩ := List.map_eq_singleton_iff.1 hversions'
  obtain ⟨k, hk, hliveRule⟩ := List.map_eq_singleton_iff.1 hrules'
  obtain ⟨hwstatus, hwtenant, hwid, hwrule, hwconditions, hwactions⟩ : w.status = .active ∧
    w.tenant = ⟨100⟩ ∧ w.id = ⟨2⟩ ∧ w.rule = ⟨1⟩ ∧ w.conditions = .object [("all", .list [])] ∧
    w.actions = fixedDueDate := by simpa using hlive
  obtain ⟨hkid, hkapplies⟩ := Prod.mk.inj hliveRule
  have hoffers : launched.store.Offers v r (target v r [("id", .text "7")]) := by
    refine ⟨?_, ⟨w, ?_, hwid.trans hvid.symm, hwtenant.trans htenant.symm, hwstatus,
      hwconditions.trans hconditions.symm, hwactions.trans hactions.symm, k, ?_,
      hkid.trans hwrule.symm, hkapplies.trans happlies.symm⟩, ?_⟩
    · exact Engine.after_intact (Engine.after_intact (Engine.fresh_intact _ _ _) plannedRun) _
    · rw [hw]
      exact List.mem_singleton.2 rfl
    · rw [hk]
      exact List.mem_singleton.2 rfl
    · rintro ⟨f, hf, -⟩
      rw [List.eq_nil_of_length_eq_zero hfindings] at hf
      cases hf
  rw [← hscanned] at hevaluation
  obtain ⟨htriggers, hsays⟩ :=
    hforetold _ t' default { tenant := ⟨100⟩ } found hoffers htenant.symm hevaluation
  rw [hscanned] at hevaluation
  obtain ⟨view, hview, hviewed⟩ := List.map_eq_singleton_iff.1 hfound
  have hin : view ∈ found := by
    rw [hview]
    exact List.mem_singleton.2 rfl
  refine ⟨q, s', result, found, t', hid ▸ hexecution, hresult,
    htriggers.2 ⟨view, hin, hviewed.trans hvid.symm⟩, hevaluation, view, hin, hviewed, ?_⟩
  obtain ⟨-, -, hdue⟩ := hsays view hin (hviewed.trans hvid.symm)
  refine hdue rfl [.object [("type", .text "set_due_date"), ("mode", .text "fixed"),
    ("value", .text "2030-01-31")]] ?_ ?_
  · rw [hactions]
    cbv
  · decide

end Rulebook
