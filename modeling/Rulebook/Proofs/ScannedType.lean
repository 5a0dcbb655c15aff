import Mathlib
import Rulebook.Proofs.CreationOrder
import Rulebook.Proofs.References
import Rulebook.Proofs.RunLife

/-!
The type that is scanned for a rule. Executing a run asks the source for the entities of one type
and for nothing else (`Impact.Scans`): the type that the rule is about, or loans where it names
none. An evaluation compares the name with the type of an entity. Both agree but for the empty name,
which a scan takes for no name and an evaluation for a type of its own (`covers_scannedType_iff`),
and no rule changes its type (`scanned_type_covered_iff`).
-/
namespace Rulebook

open Txn Impact

variable {s s' : Store} {caller : Caller} {run : ImpactRun} {v : Version} {r : Rule}

/-! ## What an execution asks the source for -/

namespace Impact

variable {c c' : Circumstances}

theorem population_congr (hpolicy : c'.policy = c.policy)
    (hlist : c'.source.list v.tenant (scannedType r) = c.source.list v.tenant (scannedType r)) :
    population c'.policy c'.source v r = population c.policy c.source v r := by
  unfold population
  rw [hpolicy, hlist]

theorem conclude_congr (run : ImpactRun) (today : Date)
    (h : population c'.policy c'.source v r = population c.policy c.source v r) :
    conclude c' run v r today = conclude c run v r today := by
  unfold conclude
  rw [h]

/-- An execution depends on the source by what this lists for the scanned type. -/
theorem executeRun_congr (hs : s.Intact) (hrun : run ∈ s.runs) (hv : v ∈ s.versions)
    (hr : r ∈ s.rules) (hversion : v.id = run.version) (hrule : r.id = v.rule)
    (htenant : v.tenant = caller.tenant) (hpolicy : c'.policy = c.policy)
    (hlist : c'.source.list caller.tenant (scannedType r) =
      c.source.list caller.tenant (scannedType r)) (today : Date) (cancelDuringScan : Bool) :
    (executeRun c' caller run.id today cancelDuringScan s : Except Failure ImpactRun × Store) =
      executeRun c caller run.id today cancelDuringScan s := by
  have hpopulation := population_congr hpolicy (htenant.symm ▸ hlist)
  rw [executeRun_eq, executeRun_eq]
  refine (reads_own _ _ _ _).run_bind_congr fun q hq => ?_
  obtain ⟨hq, hqid, -⟩ := findOwn_eq_some (yields_own.1 hq).1
  obtain rfl := hs.runs.eq_of_id hq hrun hqid
  split
  · rfl
  · refine (reads_own _ _ _ _).run_bind_congr fun w hw => ?_
    obtain ⟨hw, hwid, -⟩ := findOwn_eq_some (yields_own.1 hw).1
    obtain rfl := hs.versions.eq_of_id hw hv (hwid.trans hversion.symm)
    refine (reads_ruleOf w).run_bind_congr fun k hk => ?_
    obtain ⟨hk, hkid, -⟩ := findOwn_eq_some ((yields_ruleOf hs hv).1 hk).1
    obtain rfl := hs.rules.eq_of_id hk hr (hkid.trans hrule.symm)
    rw [hpopulation, conclude_congr q today hpopulation]

/-- An execution that completes stores the results of a scan of the version, and no others. -/
theorem results_of_executeRun {today : Date} {cancelDuringScan : Bool} {q : ImpactRun}
    (hs : s.Intact) (hrun : run ∈ s.runs) (hrunning : run.status = .running)
    (hnone : s.resultsFor run.id = [])
    (h : Yields (executeRun c caller run.id today cancelDuringScan) s q s')
    (hcomplete : q.status = .complete) :
    ∃ v ∈ s.versions, ∃ r ∈ s.rules, v.id = run.version ∧ v.tenant = caller.tenant ∧
      r.id = v.rule ∧ ∃ p ps, population c.policy c.source v r = .ok p ∧
        projections p v r today = .ok ps ∧
        List.Forall₂ (Records run) ps (s'.resultsFor run.id) := by
  rcases executeRun_complete hs h hcomplete with
    hbefore | ⟨k, v, r, p, ps, qs, hfound, -, hv, hr, hp, hps, hrecords, hresults⟩
  · obtain ⟨hq, hid, -⟩ := findOwn_eq_some hbefore
    rw [hs.runs.eq_of_id hq hrun hid, hrunning] at hcomplete
    cases hcomplete
  · obtain ⟨hk, hid, -⟩ := findOwn_eq_some hfound
    obtain rfl := hs.runs.eq_of_id hk hrun hid
    obtain ⟨hv, hvid, hvtenant⟩ : v ∈ s.versions ∧ v.id = k.version ∧ v.tenant = caller.tenant :=
      findOwn_eq_some hv
    obtain ⟨hr, hrid, -⟩ : r ∈ s.rules ∧ r.id = v.rule ∧ r.tenant = caller.tenant :=
      findOwn_eq_some hr
    have hown : ∀ q ∈ qs, q.run = k.id := forall_mem_of_forall₂ hrecords fun _ _ h => h.run_eq
    refine ⟨v, hv, r, hr, hvid, hvtenant, hrid, p, ps, hp, hps, ?_⟩
    rw [Store.resultsFor_same hresults hown, hnone, List.nil_append]
    exact hrecords

/-- Executing a run goes over the entities of one type: nothing else is asked of the source, and a
run that completes has one result for each of them. -/
structure Scans (s : Store) (caller : Caller) (run : ImpactRun) (entityType : String) : Prop where
  asks : ∀ (c c' : Circumstances) (today : Date) (cancelDuringScan : Bool), c'.policy = c.policy →
    c'.source.list caller.tenant entityType = c.source.list caller.tenant entityType →
    (executeRun c' caller run.id today cancelDuringScan s : Except Failure ImpactRun × Store) =
      executeRun c caller run.id today cancelDuringScan s
  results : ∀ (c : Circumstances) (today : Date) (cancelDuringScan : Bool) (q : ImpactRun)
    (s' : Store), Yields (executeRun c caller run.id today cancelDuringScan) s q s' →
    q.status = .complete → ∃ entities, c.source.list caller.tenant entityType = .ok entities ∧
      List.Forall₂ (fun entity k => k.entityType = entityType ∧
        Text.ofString k.entityId = EntitySource.idText entity) entities (s'.resultsFor run.id)

theorem scans_scannedType (hs : s.Intact) (hrun : run ∈ s.runs) (hrunning : run.status = .running)
    (hnone : s.resultsFor run.id = []) (hv : v ∈ s.versions) (hr : r ∈ s.rules)
    (hversion : v.id = run.version) (hrule : r.id = v.rule) (htenant : v.tenant = caller.tenant) :
    Scans s caller run (scannedType r) where
  asks c c' today cancelDuringScan hpolicy hlist :=
    executeRun_congr hs hrun hv hr hversion hrule htenant hpolicy hlist today cancelDuringScan
  results c today cancelDuringScan q s' h hcomplete := by
    obtain ⟨w, hw, k, hk, hwid, hwtenant, hkid, p, ps, hp, hps, hrecords⟩ :=
      results_of_executeRun hs hrun hrunning hnone h hcomplete
    obtain rfl := hs.versions.eq_of_id hw hv (hwid.trans hversion.symm)
    obtain rfl := hs.rules.eq_of_id hk hr (hkid.trans hrule.symm)
    exact ⟨p.entities, hwtenant ▸ (population_eq_ok.1 hp).2, entities_of_records hps hrecords⟩

/-- A rule is about the type that is scanned for it, unless its type has the empty name. -/
theorem covers_scannedType_iff (r : Rule) :
    r.covers (scannedType r) = true ↔ r.appliesTo ≠ some "" := by
  unfold Rule.covers scannedType
  cases r.appliesTo with
  | none => simp
  | some name =>
    dsimp only
    split
    · next hempty => simp [String.isEmpty_iff.1 hempty, defaultEntityType]
    · next hnamed =>
      rw [String.isEmpty_iff] at hnamed
      simp [hnamed]

end Impact

/-! ## Which listings show a version -/

/-- Whatever happens to a version, it is listed for the types that its rule was about at first. -/
theorem Engine.mem_listed_later {e : Engine} (hs : e.store.Intact) (hv : v ∈ e.store.versions)
    (hr : r ∈ e.store.rules) (hrule : r.id = v.rule) (moves : List Move) :
    ∀ w ∈ (e.after moves).store.versions, w.id = v.id → w.status = .active → ∀ name : String,
      (w ∈ (e.after moves).store.listed v.tenant name ↔ r.covers name = true) := by
  intro w hw hid hactive name
  have ht := after_intact hs moves
  have hderives : e.store.Derives v.tenant v.id v.rule (some r.pack) :=
    ⟨v, hv, r, hr, rfl, rfl, rfl, hrule, (tenant_of_rule hs hv hr hrule.symm).symm, rfl⟩
  obtain ⟨q, hq, -, -, hqid, hqtenant, hqrule, -⟩ := after_derives hs hderives moves
  obtain rfl := ht.versions.eq_of_id hq hw (hqid.trans hid.symm)
  obtain ⟨k, hk, current, status, u, rfl⟩ := (after_lasts hs moves).rules.next hr
  have hkrule : ({ r with currentVersion := current, status, updatedAt := u } : Rule).id = q.rule :=
    hrule.trans hqrule.symm
  rw [ht.mem_listed]
  constructor
  · rintro ⟨-, -, p, hp, hpid, hcovers⟩
    obtain rfl := ht.rules.eq_of_id hp hk (hpid.trans hkrule.symm)
    exact hcovers
  · intro hcovers
    exact ⟨⟨hq, hactive⟩, hqtenant, _, hk, hkrule, hcovers⟩

/-- Executing a run of a version goes over the entities of one type, and the listing of the active
versions about that type shows the version, once it is active, exactly if the type of its rule does
not have the empty name. A version whose rule has it is listed for that name alone. -/
theorem scanned_type_covered_iff (source : EntitySource) (clock : Instant) (nextId : Nat)
    (before later : List Move) (caller : Caller) :
    let e := Engine.fresh source clock nextId
    let s := (e.after before).store
    let t := (e.after (before ++ later)).store
    ∀ v ∈ s.versions, v.tenant = caller.tenant → ∀ r ∈ s.rules, r.id = v.rule →
      (∀ run ∈ s.runs, run.version = v.id → run.status = .running →
        Scans s caller run (scannedType r)) ∧
      ∀ w ∈ t.versions, w.id = v.id → w.status = .active →
        (∃ listed, Yields (Authoring.listActive caller (scannedType r)) t listed t ∧
          (w ∈ listed ↔ r.appliesTo ≠ some "")) ∧
        (r.appliesTo = some "" → ∀ name : String, ∃ listed,
          Yields (Authoring.listActive caller name) t listed t ∧ (w ∈ listed ↔ name = "")) := by
  intro e s t v hv htenant r hr hrule
  have hfresh := Engine.fresh_intact source clock nextId
  have hs : s.Intact := Engine.after_intact hfresh before
  refine ⟨fun run hrun hversion hrunning => ?_, fun w hw hid hactive => ?_⟩
  · have hnone : s.resultsFor run.id = [] :=
      ((Engine.after_runs_inOrder hfresh rfl before run hrun).running hrunning).2.2.2
    exact scans_scannedType hs hrun hrunning hnone hv hr hversion.symm hrule htenant
  · have hlisted : ∀ name : String, w ∈ t.listed caller.tenant name ↔ r.covers name = true := by
      intro name
      have hlater := Engine.mem_listed_later hs hv hr hrule later
      rw [← Engine.after_append, htenant] at hlater
      exact hlater w hw hid hactive name
    refine ⟨⟨_, Authoring.listActive_yields t caller _, ?_⟩, fun hempty name =>
      ⟨_, Authoring.listActive_yields t caller name, ?_⟩⟩
    · rw [hlisted, covers_scannedType_iff]
    · rw [hlisted, Rule.covers, hempty]
      exact beq_iff_eq.trans eq_comm

/-- A rule about a type, or about every type, and a run of its version. -/
def typedRun (appliesTo : Option Text) : List Move :=
  let caller : Caller := { tenant := ⟨100⟩ }
  [.call {} caller (.createPack { name := "Lending", authority := "Board" }),
    .call {} caller (.createRule { pack := ⟨0⟩, name := "Risk", appliesTo }
      { conditions := .object [("all", .list [])] }),
    .call {} caller (.createRun ⟨2⟩)]

/-- The run is executed, and the version is activated. -/
def typedLaunch : List Move :=
  let caller : Caller := { tenant := ⟨100⟩ }
  [.call {} caller (.executeRun ⟨3⟩ none false), .call {} caller (.submitRule ⟨1⟩),
    .call {} caller (.approveVersion ⟨2⟩), .call {} caller (.activateVersion ⟨2⟩)]

theorem stored_typedRun :
    let s := (oneLoan.after (typedRun none)).store
    s.rules.map (fun r => (r.id, r.appliesTo)) = [(⟨1⟩, none)] ∧
      s.versions.map (fun v => (v.id, v.tenant, v.rule)) = [(⟨2⟩, ⟨100⟩, ⟨1⟩)] ∧
      s.runs.map (fun run => (run.version, run.status)) = [(⟨2⟩, .running)] ∧
      (oneLoan.after (typedRun none ++ typedLaunch)).store.versions.map
        (fun v => (v.id, v.status)) = [(⟨2⟩, .active)] := by
  cbv

/-- For a rule about every type loans are scanned, and its version is listed for loans. -/
theorem scanned_type_covered_iff_untyped :
    let s := (oneLoan.after (typedRun none)).store
    let t := (oneLoan.after (typedRun none ++ typedLaunch)).store
    (∃ run ∈ s.runs, run.version = ⟨2⟩ ∧ Scans s { tenant := ⟨100⟩ } run "loan") ∧
      ∃ w ∈ t.versions, w.id = ⟨2⟩ ∧ ∃ listed,
        Yields (Authoring.listActive { tenant := ⟨100⟩ } "loan") t listed t ∧ w ∈ listed := by
  intro s t
  obtain ⟨hrules, hversions, hruns, hlater⟩ := stored_typedRun
  obtain ⟨r, hr, hrow⟩ := exists_of_map_eq_singleton hrules
  obtain ⟨v, hv, hversion⟩ := exists_of_map_eq_singleton hversions
  obtain ⟨run, hrun, hrunning⟩ := exists_of_map_eq_singleton hruns
  obtain ⟨w, hw, hactive⟩ := exists_of_map_eq_singleton hlater
  simp only [Prod.mk.injEq] at hrow hversion hrunning hactive
  have hscanned : scannedType r = "loan" := by
    rw [scannedType, hrow.2]
    rfl
  obtain ⟨hscans, hcovered⟩ := scanned_type_covered_iff _ default 0 (typedRun none) typedLaunch
    { tenant := ⟨100⟩ } v hv hversion.2.1 r hr (hrow.1.trans hversion.2.2.symm)
  obtain ⟨⟨listed, hlisted, hiff⟩, -⟩ :=
    hcovered w hw (hactive.1.trans hversion.1.symm) hactive.2
  rw [hscanned] at hscans hlisted
  refine ⟨⟨run, hrun, hrunning.1, ?_⟩, w, hw, hactive.1, listed, hlisted, hiff.2 ?_⟩
  · exact hscans run hrun (hrunning.1.trans hversion.1.symm) hrunning.2
  · rw [hrow.2]
    decide

/-- For a rule about the type with the empty name loans are scanned, but its version, once it is
active, is not listed for loans. -/
theorem unnamed_type_scans_loans :
    let s := (oneLoan.after (typedRun (some "") ++ typedLaunch)).store
    s.rules.map (fun r => r.appliesTo) = [some ""] ∧
      s.runs.map (fun run => (run.id, run.version, run.status)) = [(⟨3⟩, ⟨2⟩, .complete)] ∧
      s.results.map (fun q => (q.run, q.entityType, q.entityId)) = [(⟨3⟩, "loan", "7")] ∧
      s.versions.map (fun v => (v.id, v.status)) = [(⟨2⟩, .active)] ∧
      (Authoring.listActive { tenant := ⟨100⟩ } "loan" s :
        Except Failure (List Version) × Store).1.toOption.map (fun listed => listed.length) =
          some 0 := by
  cbv

end Rulebook
