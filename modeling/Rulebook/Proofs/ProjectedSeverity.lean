import Mathlib
import Rulebook.Proofs.Commuting
import Rulebook.Proofs.Directive.Plan
import Rulebook.Proofs.DryRun
import Rulebook.Proofs.ScannedType

/-!
The severity of a dry run. A scan gives each result the severity of the version. A plan starts with
it too, but a directive for a finding that names a severity of its own takes its place
(`Plan.severity_ofValue`). So a result foretells the severity of the finding exactly if the last
severity that the directives name, if any, is that of the version (`projected_severity_iff`).
-/
namespace Rulebook

open Txn Impact

variable {s s' : Store}

/-! ## Named severities -/

namespace Directive

/-- The last severity that directives for findings name. -/
def namedSeverity? (directives : List Value) : Option Value :=
  (((ofKind .createFinding directives).map (·.getD "severity")).filter Value.isPresent).getLast?

end Directive

theorem Value.isPresent_text {a : String} (h : a ≠ "") :
    (Value.text a).isPresent = true := by
  have hletters : a.toList ≠ [] := fun hnil => h (String.toList_eq_nil_iff.1 hnil)
  simpa [Value.isPresent, Text.isEmpty, Text.ofString, Text.ofChars] using hletters

theorem Value.text_ofString_inj {a b : String} :
    Value.text (Text.ofString a) = .text (Text.ofString b) ↔ a = b := by
  refine ⟨fun h => ?_, fun h => by rw [h]⟩
  have hstring := congrArg Text.string? (Value.text.inj h)
  rw [Text.string?_ofString, Text.string?_ofString] at hstring
  exact Option.some.inj hstring

/-- The severity of a planned finding is the last one that is named, or else the one given. -/
theorem Plan.severity_ofValue {actions : Value} {directives : List Value} {severity : String}
    {today : Date} {plan : Plan} (hcheck : Directive.check actions = .ok directives)
    (hsevere : severity ≠ "") (h : ofValue actions (.text severity) today = .ok plan) :
    plan.finding.severity = (Directive.namedSeverity? directives).getD (.text severity) := by
  obtain ⟨rfl, -⟩ := Directive.check_eq_ok hcheck
  obtain ⟨⟨dues, artifacts, -, hfinding⟩, -⟩ := ofValue_eq_ok.mp h
  rw [hfinding, Value.orElse, if_pos (Value.isPresent_text hsevere)]
  rfl

/-- Whatever an evaluation finds of a version has the severity that its directives name, or else
that of the version. -/
theorem Evaluation.severity_of_evaluate {c : Circumstances} {caller : Caller} {entityType : Text}
    {entity : Fields} {found : List FindingView} {w : Version} {directives : List Value}
    (hs : s.Intact) (hw : w ∈ s.versions) (hcheck : Directive.check w.actions = .ok directives)
    (hsevere : w.severity ≠ "") (h : Yields (evaluate c caller entityType entity) s found s') :
    ∀ view ∈ found, view.finding.version = w.id →
      .text view.finding.severity =
        (Directive.namedSeverity? directives).getD (.text w.severity) := by
  intro view hview hversion
  obtain ⟨name, -, hvisits⟩ := yields_evaluate h
  obtain ⟨⟨v, r⟩, hlisted, tree, inputs, plan, -, -, hplan, hreports⟩ :=
    evaluateVersions_found hs.supplied hvisits view hview
  obtain ⟨hv, -⟩ := hs.mem_activeVersions.1 hlisted
  obtain rfl := hs.versions.eq_of_id hv hw (hreports.version_eq.symm.trans hversion)
  rw [← Plan.severity_ofValue hcheck hsevere hplan]
  exact hreports.severity_eq.symm

namespace Impact

/-! ## What results say of severities -/

theorem severity_of_projections {p : Population} {v : Version} {r : Rule} {today : Date}
    {ps : List Projection} (h : projections p v r today = .ok ps) :
    ∀ k ∈ ps, k.severity = v.severity := by
  unfold projections at h
  obtain ⟨value, -, h⟩ := Except.bind_eq_ok.1 h
  obtain ⟨due, -, h⟩ := Except.bind_eq_ok.1 h
  refine forall_mem_of_forall₂ (Except.mapM_ok (Except.mapError_eq_ok.1 h)) fun entity k hk => ?_
  unfold project at hk
  obtain ⟨triggers, -, hk⟩ := Except.bind_eq_ok.1 hk
  obtain ⟨inputs, -, hk⟩ := Except.bind_eq_ok.1 hk
  rw [← Except.ok.inj hk]

/-- A result against the findings of the version in any store in which that is active as it was
scanned and nothing of it is pending: where the result triggers there is one, its severity is the
last that the directives name or else that of the version, and the result has the same exactly if
none other is named. -/
def WeighsAgainst (policy : FailurePolicy) (v : Version) (r : Rule) (directives : List Value)
    (entity : Fields) (q : ImpactResult) : Prop :=
  q.severity = v.severity ∧
  ∀ (t t' : Store) (day : Date) (caller : Caller) (found : List FindingView),
    t.Offers v r (target v r entity) → (∀ w ∈ t.versions, w.id = v.id → w.severity = v.severity) →
    caller.tenant = v.tenant →
    Yields (Evaluation.evaluate { policy, today := day } caller (scannedType r) entity)
      t found t' →
    (r.appliesTo ≠ some "" → q.wouldTrigger = true →
      ∃ view ∈ found, view.finding.version = v.id) ∧
    ∀ view ∈ found, view.finding.version = v.id →
      .text view.finding.severity =
        (Directive.namedSeverity? directives).getD (.text v.severity) ∧
      (q.severity = view.finding.severity ↔
        ∀ named ∈ Directive.namedSeverity? directives, named = .text v.severity)

/-- A result that records a projection, weighed against the findings of an evaluation. -/
theorem weighsAgainst_of_projects {policy : FailurePolicy} {today : Date} {run : ImpactRun}
    {v : Version} {r : Rule} {conditions : Condition} {value : Value} {due : Option Date}
    {entity : Fields} {p : Projection} {q : ImpactResult} {directives : List Value}
    (hconditions : Condition.ofValue policy v.conditionsOrNone = .ok conditions)
    (hvalue : Directive.firstDueDate v.actions today = .ok value)
    (hdue : Filing.dueDate value = .ok due) (hp : Projects conditions v r due entity p)
    (hq : Records run p q) (hseverity : p.severity = v.severity)
    (hcheck : Directive.check v.actions = .ok directives) (hsevere : v.severity ≠ "") :
    WeighsAgainst policy v r directives entity q := by
  have hresult : q.severity = v.severity := hq.severity_eq.trans hseverity
  refine ⟨hresult, fun t t' day caller found hoffers hsame hcaller h => ⟨fun hnamed htriggers => ?_,
    fun view hview hversion => ?_⟩⟩
  · have hforetells := foretells_of_projects hnamed hconditions hvalue hdue hp hq
    exact (hforetells t t' day caller found hoffers hcaller h).1.1 htriggers
  · obtain ⟨w, hw, hid, -, -, -, hactions, -⟩ := hoffers.version
    have hweight := Evaluation.severity_of_evaluate hoffers.intact hw (hactions ▸ hcheck)
      (hsame w hw hid ▸ hsevere) h view hview (hversion.trans hid.symm)
    rw [hsame w hw hid] at hweight
    refine ⟨hweight, ?_⟩
    rw [hresult, ← Value.text_ofString_inj, hweight]
    cases Directive.namedSeverity? directives with
    | none => simp
    | some named => simp [eq_comm]

end Impact

/-- Where the execution of a running run completes, each result has the severity of the version,
and the finding that an evaluation makes of the entity, once the version is active, the last one
that the directives of the version name, if they name any. So the two agree, for any list of
directives that passes its check and any severity that is not empty, exactly if the directives name
no other severity last than that of the version. -/
theorem projected_severity_iff (source : EntitySource) (clock : Instant) (nextId : Nat)
    (moves : List Move) (c : Circumstances) (caller : Caller) (today : Date)
    (cancelDuringScan : Bool) (run q : ImpactRun) (s' : Store) :
    let s := ((Engine.fresh source clock nextId).after moves).store
    run ∈ s.runs → run.status = .running →
    Yields (executeRun c caller run.id today cancelDuringScan) s q s' → q.status = .complete →
    ∃ v ∈ s.versions, ∃ r ∈ s.rules,
      v.id = run.version ∧ v.tenant = caller.tenant ∧ r.id = v.rule ∧
      ∀ directives, Directive.check v.actions = .ok directives → v.severity ≠ "" →
        ∃ entities, c.source.list caller.tenant (scannedType r) = .ok entities ∧
          List.Forall₂ (WeighsAgainst c.policy v r directives) entities
            (s'.resultsFor run.id) := by
  intro s hrun hrunning h hcomplete
  have hfresh := Engine.fresh_intact source clock nextId
  have hs : s.Intact := Engine.after_intact hfresh moves
  have hnone : s.resultsFor run.id = [] :=
    ((Engine.after_runs_inOrder hfresh rfl moves run hrun).running hrunning).2.2.2
  obtain ⟨v, hv, r, hr, hvid, hvtenant, hrid, p, ps, hp, hps, hrecords⟩ :=
    results_of_executeRun hs hrun hrunning hnone h hcomplete
  refine ⟨v, hv, r, hr, hvid, hvtenant, hrid, fun directives hcheck hsevere => ?_⟩
  obtain ⟨hconditions, hlist⟩ := population_eq_ok.1 hp
  obtain ⟨value, due, hvalue, hdue, hprojects⟩ := projects_of_projections hps
  have hgraded := (List.forall₂_and_left _ _).2 ⟨severity_of_projections hps, hrecords⟩
  refine ⟨p.entities, hvtenant ▸ hlist, ?_⟩
  exact forall₂_comp hprojects hgraded fun entity k q hk ⟨hseverity, hq⟩ =>
    weighsAgainst_of_projects hconditions hvalue hdue hk hq hseverity hcheck hsevere

theorem severity_planned : planned.store.versions.map (fun v => v.severity) = ["medium"] ∧
    launched.store.versions.map (fun v => v.severity) = ["medium"] := by
  decide +kernel

/-- The version that sets a fixed due date is offered as any scan of it has seen it. -/
theorem offers_launched {v : Version} {r : Rule} (target : Evaluation.Target)
    (hid : v.id = ⟨2⟩) (htenant : v.tenant = ⟨100⟩)
    (hconditions : v.conditions = .object [("all", .list [])]) (hactions : v.actions = fixedDueDate)
    (happlies : r.appliesTo = some "loan") : launched.store.Offers v r target := by
  obtain ⟨hfindings, hrules, hversions⟩ := stored_launched
  obtain ⟨w, hw, hrow⟩ := exists_of_map_eq_singleton hversions
  obtain ⟨k, hk, hrule⟩ := exists_of_map_eq_singleton hrules
  simp only [Prod.mk.injEq] at hrow hrule
  obtain ⟨hactive, hwtenant, hwid, hwrule, hwconditions, hwactions⟩ := hrow
  refine ⟨?_, ⟨w, hw, hwid.trans hid.symm, hwtenant.trans htenant.symm, hactive,
    hwconditions.trans hconditions.symm, hwactions.trans hactions.symm, k, hk,
    hrule.1.trans hwrule.symm, hrule.2.trans happlies.symm⟩, ?_⟩
  · exact Engine.after_intact (Engine.after_intact (Engine.fresh_intact _ _ _) plannedRun) _
  · rintro ⟨f, hf, -⟩
    rw [List.eq_nil_of_length_eq_zero hfindings] at hf
    cases hf

/-- Its directives name no severity, so the result has that of the finding. -/
theorem projected_severity_iff_unnamed :
    ∃ q s' result found t',
      Yields (executeRun { source := oneLoan.source } { tenant := ⟨100⟩ } ⟨3⟩ default false)
        planned.store q s' ∧
      s'.resultsFor ⟨3⟩ = [result] ∧
      Yields (Evaluation.evaluate { today := default } { tenant := ⟨100⟩ } "loan"
        [("id", .text "7")]) launched.store found t' ∧
      ∃ view ∈ found, view.finding.version = ⟨2⟩ ∧ result.severity = view.finding.severity := by
  obtain ⟨hruns, hrules, hversions⟩ := stored_planned
  obtain ⟨q, s', hexecution, hcomplete⟩ := yields_of_answer executed_planned
  obtain ⟨found, t', hevaluation, hfound⟩ := yields_of_answer evaluated_launched
  obtain ⟨run, hrun, hrow⟩ := exists_of_map_eq_singleton hruns
  obtain ⟨hid, hrunning⟩ := Prod.mk.inj hrow
  rw [← hid] at hexecution
  obtain ⟨v, hv, r, hr, -, htenant, -, hweights⟩ := projected_severity_iff _ _ _ plannedRun
    { source := oneLoan.source } { tenant := ⟨100⟩ } default false run q s' hrun hrunning hexecution
    hcomplete
  have hversion := eq_of_map_eq_singleton hversions hv
  have hrule := eq_of_map_eq_singleton hrules hr
  have hsevere := eq_of_map_eq_singleton severity_planned.1 hv
  obtain ⟨hvid, -, hconditions, hactions⟩ := by simpa only [Prod.mk.injEq] using hversion
  obtain ⟨-, happlies⟩ := Prod.mk.inj hrule
  have hcheck : Directive.check v.actions = .ok [.object [("type", .text "set_due_date"),
      ("mode", .text "fixed"), ("value", .text "2030-01-31")]] := by
    rw [hactions]
    cbv
  obtain ⟨entities, hlist, hresults⟩ := hweights _ hcheck (by rw [hsevere]; decide)
  have hscanned : scannedType r = "loan" := by
    rw [scannedType, happlies]
    rfl
  have hentities : entities = [([("id", .text "7")] : Fields)] := by
    rw [hscanned] at hlist
    exact (Except.ok.inj hlist).symm
  rw [hentities, hid] at hresults
  obtain ⟨result, rest, ⟨-, hfindings⟩, hnil, hresult⟩ := List.forall₂_cons_left_iff.1 hresults
  rw [List.forall₂_nil_left_iff.1 hnil] at hresult
  have hsame : ∀ w ∈ launched.store.versions, w.id = v.id → w.severity = v.severity :=
    fun w hw _ => (eq_of_map_eq_singleton severity_planned.2 hw).trans hsevere.symm
  rw [← hscanned] at hevaluation
  obtain ⟨-, hviews⟩ := hfindings _ t' default { tenant := ⟨100⟩ } found
    (offers_launched _ hvid htenant hconditions hactions happlies) hsame htenant.symm hevaluation
  rw [hscanned] at hevaluation
  obtain ⟨view, hview, hviewed⟩ := exists_of_map_eq_singleton hfound
  obtain ⟨-, hagree⟩ := hviews view hview (hviewed.trans hvid.symm)
  exact ⟨q, s', result, found, t', hid ▸ hexecution, hresult, hevaluation, view, hview, hviewed,
    hagree.2 fun _ hnamed => by cases hnamed⟩

/-- A version of low severity whose findings are to be critical is dry-run and activated, and then
finds the same loan. -/
def gradedVersion : List Move :=
  let caller : Caller := { tenant := ⟨100⟩ }
  [.call {} caller (.createPack { name := "Lending", authority := "Board" }),
    .call {} caller (.createRule { pack := ⟨0⟩, name := "Risk" }
      { conditions := .object [("all", .list [])], severity := some "low"
        actions := .list [.object [("type", .text "create_finding"),
          ("severity", .text "critical")]] }),
    .call {} caller (.startRun ⟨2⟩), .call {} caller (.submitRule ⟨1⟩),
    .call {} caller (.approveVersion ⟨2⟩), .call {} caller (.activateVersion ⟨2⟩),
    .call {} caller (.evaluate "loan" [("id", .text "7")] none false)]

/-- The result is low, and the finding is critical. -/
theorem projected_low_found_critical :
    let s := (oneLoan.after gradedVersion).store
    s.runs.map (fun run => (run.id, run.version, run.status)) = [(⟨3⟩, ⟨2⟩, .complete)] ∧
      s.results.map (fun q => (q.run, q.entityId, q.wouldTrigger, q.severity)) =
        [(⟨3⟩, "7", true, "low")] ∧
      s.findings.map (fun f => (f.version, f.entityId, f.severity)) =
        [(⟨2⟩, "7", "critical")] := by
  decide +kernel

end Rulebook
