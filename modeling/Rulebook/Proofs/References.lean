import Rulebook.Proofs.Evidence

/-!
References. No table is bound to another by the store, so references are right because the calls
look up what they name. What rules, versions, tasks, overrides and results refer to is part of being
in order (`Store.Intact`); here it is regulations, whose pack may be missing, and runs, which copy
the pack of their rule (`Store.Linked`), and the findings of evaluations, which copy the rule and
the pack. A copy never goes stale: a version stays with its rule, and a rule in its pack
(`Change.derives`).
-/
namespace Rulebook

variable {c : Impact.Circumstances} {w : Work} {s t : Store} {tenant version rule : Uuid}
  {pack : Option Uuid} {f : Finding}

/-! ## Copies of references -/

/-- `q` is `v` at a later time: it is of the same tenant and the same rule. -/
def Version.Stays (v q : Version) : Prop := q.id = v.id ∧ q.tenant = v.tenant ∧ q.rule = v.rule

theorem Version.Stays.refl (v : Version) : v.Stays v := ⟨rfl, rfl, rfl⟩

/-- Each version stays with its rule, whatever is written to it. -/
theorem Change.versions_stay (h : Change c w s t) (hs : s.Intact) :
    Remain Version.Stays s.versions t.versions := by
  cases h with
  | versionAdded => exact .append .refl _ _
  | versionSaved old => exact hs.versions.remain_replaceRow old (by rfl) .refl ⟨rfl, rfl, rfl⟩
  | _ => exact .refl .refl _

/-- What can be derived from a version can be derived from it after any change. -/
theorem Change.derives (h : Change c w s t) (hs : s.Intact)
    (hderives : s.Derives tenant version rule pack) : t.Derives tenant version rule pack := by
  obtain ⟨v, hv, r, hr, rfl, rfl, rfl, hid, htenant, rfl⟩ := hderives
  obtain ⟨q, hq, hqid, hqtenant, hqrule⟩ := (h.versions_stay hs).next hv
  obtain ⟨p, hp, _, _, _, rfl⟩ := (h.lasts hs).rules.next hr
  exact ⟨q, hq, _, hp, hqid, hqtenant, hqrule, hid, htenant, rfl⟩

theorem Engine.after_derives {e : Engine} (hs : e.store.Intact)
    (h : e.store.Derives tenant version rule pack) (moves : List Move) :
    (e.after moves).store.Derives tenant version rule pack :=
  after_keeps (P := fun s => s.Derives tenant version rule pack) hs h fun _ hd hderives m _ =>
    (move_changes hd m).keep hd hderives fun ht hderives last => last.derives ht hderives

/-! ## Regulations and runs -/

/-- Regulations name packs of their tenants, if any, and runs the packs of the rules of their
versions. -/
structure Store.Linked (s : Store) : Prop where
  regulationPack : ∀ g ∈ s.regulations, ∀ p, g.pack = some p → (p, g.tenant) ∈ owned s.packs
  runDerives : ∀ run ∈ s.runs, ∃ rule, s.Derives run.tenant run.version rule run.pack

theorem Change.linked (h : Change c w s t) (hs : s.Intact) (hlinked : s.Linked) : t.Linked := by
  have hpacks : ∀ g ∈ s.regulations, ∀ p, g.pack = some p → (p, g.tenant) ∈ owned t.packs :=
    fun g hg p hp => (h.lasts hs).packs.subset (hlinked.regulationPack g hg p hp)
  have hruns : ∀ run ∈ s.runs, ∃ rule, t.Derives run.tenant run.version rule run.pack :=
    fun run hrun => (hlinked.runDerives run hrun).imp fun _ hderives => h.derives hs hderives
  cases h with
  | regulationAdded id pack =>
    exact ⟨List.forall_mem_append.2 ⟨hpacks, List.forall_mem_singleton.2 pack⟩, hruns⟩
  | runAdded id fresh derives =>
    exact ⟨hpacks, List.forall_mem_append.2 ⟨hruns, List.forall_mem_singleton.2 derives⟩⟩
  -- However a run ends, its version and its pack are those that it was started with.
  | runFailed old | runCancelled old | runCompleted old =>
    have hold := hruns _ old
    refine ⟨hpacks, fun run hrun => ?_⟩
    rcases mem_replaceRow.1 hrun with ⟨rfl, -⟩ | ⟨hrun, -⟩
    · exact hold
    · exact hruns run hrun
  | _ => exact ⟨hpacks, hruns⟩

theorem Engine.after_linked {e : Engine} (hs : e.store.Intact) (h : e.store.Linked)
    (moves : List Move) : (e.after moves).store.Linked :=
  after_keeps (P := Store.Linked) hs h fun _ hd hlinked m _ =>
    (move_changes hd m).keep hd hlinked fun ht hlinked last => last.linked ht hlinked

/-! ## Findings of evaluations -/

/-- What a finding quotes is what can be derived from its version. -/
theorem Store.Attests.derives (h : s.Attests f) (hs : s.Intact) :
    s.Derives f.tenant f.version f.rule f.pack := by
  obtain ⟨v, hv, r, hr, hid, -, hquotes⟩ := h
  rw [hquotes.tenant_eq, hquotes.version_eq, hquotes.rule_eq, hquotes.pack_eq]
  exact ⟨v, hv, r, hr, rfl, rfl, hid.symm, rfl, (tenant_of_rule hs hv hr hid.symm).symm, rfl⟩

/-- A finding has been filed by an evaluation, one of the moves of a history. -/
def Engine.Evaluates (e : Engine) (moves : List Move) (finding : Uuid) : Prop :=
  ∃ before settings caller call later,
    moves = before ++ .call settings caller call :: later ∧ call.evaluates = true ∧
    (∀ f ∈ (e.after before).store.findings, f.id ≠ finding) ∧
    ∃ f ∈ ((e.after before).perform settings caller call).2.store.findings, f.id = finding

/-- Whatever comes after the evaluation, its findings are still there as it derived them. -/
theorem Engine.derives_of_evaluates {e : Engine} (hs : e.store.Intact) {moves : List Move}
    {finding : Uuid} (h : e.Evaluates moves finding) : ∀ f ∈ (e.after moves).store.findings,
    f.id = finding → (e.after moves).store.Derives f.tenant f.version f.rule f.pack := by
  obtain ⟨before, settings, caller, call, later, rfl, hcall, hnew, k, hk, rfl⟩ := h
  have hbefore := after_intact hs before
  have hd : ((e.after before).perform settings caller call).2.store.Intact :=
    (perform_changes hbefore call).intact hbefore
  have hlast : e.after (before ++ .call settings caller call :: later) =
      ((e.after before).perform settings caller call).2.after later := by
    rw [after_append, after, List.foldl_cons]
    rfl
  obtain ⟨hversions, hrules, hfindings⟩ := perform_attested settings caller hbefore hcall
  have hattests : ((e.after before).perform settings caller call).2.store.Attests k := by
    rw [Store.Attests, hversions, hrules]
    exact (hfindings k hk).resolve_left fun hold => hnew k hold rfl
  obtain ⟨g, hg, hbecomes⟩ := after_finding_becomes hd hk later
  rw [hlast]
  intro f hf hid
  obtain rfl := (after_intact hd later).findings.eq_of_id hf hg (hid.trans hbecomes.id_eq.symm)
  obtain ⟨_, _, rfl, -⟩ := hbecomes
  exact after_derives hd (hattests.derives hd) later

/-- In every history references lead to rows that are stored, and both rows belong to one tenant:
from rules and regulations to packs, from versions to rules, from tasks and overrides to findings,
from results to runs. Runs, and findings of evaluations, lead to a version and its rule, and the
copies that they hold of the rule and its pack are right. -/
theorem references_lead_to_rows (source : EntitySource) (clock : Instant) (nextId : Nat)
    (moves : List Move) :
    let e := Engine.fresh source clock nextId
    let s := (e.after moves).store
    (∀ r ∈ s.rules, ∃ p ∈ s.packs, p.id = r.pack ∧ p.tenant = r.tenant) ∧
    (∀ v ∈ s.versions, ∃ r ∈ s.rules, r.id = v.rule ∧ r.tenant = v.tenant) ∧
    (∀ g ∈ s.regulations, ∀ id, g.pack = some id →
      ∃ p ∈ s.packs, p.id = id ∧ p.tenant = g.tenant) ∧
    (∀ k ∈ s.tasks, ∃ f ∈ s.findings, f.id = k.finding ∧ f.tenant = k.tenant) ∧
    (∀ o ∈ s.overrides, ∃ f ∈ s.findings, f.id = o.finding ∧ f.tenant = o.tenant) ∧
    (∀ q ∈ s.results, ∃ run ∈ s.runs, run.id = q.run ∧ run.tenant = q.tenant) ∧
    (∀ run ∈ s.runs, ∃ rule, s.Derives run.tenant run.version rule run.pack) ∧
    (∀ f ∈ s.findings, e.Evaluates moves f.id →
      s.Derives f.tenant f.version f.rule f.pack) ∧
    (s.packs.map (·.id)).Nodup ∧ (s.rules.map (·.id)).Nodup ∧ (s.versions.map (·.id)).Nodup ∧
    (s.findings.map (·.id)).Nodup ∧ (s.runs.map (·.id)).Nodup := by
  intro e s
  have hfresh := Engine.fresh_intact source clock nextId
  have hs : s.Intact := Engine.after_intact hfresh moves
  have hlinked : s.Linked := Engine.after_linked hfresh ⟨nofun, nofun⟩ moves
  exact ⟨fun r hr => mem_owned.1 (hs.rulePack r hr), fun v hv => mem_owned.1 (hs.versionRule v hv),
    fun g hg p hp => mem_owned.1 (hlinked.regulationPack g hg p hp),
    fun k hk => mem_owned.1 (hs.taskFinding k hk),
    fun o ho => mem_owned.1 (hs.overrideFinding o ho),
    fun q hq => mem_owned.1 (hs.resultRun q hq), hlinked.runDerives,
    fun f hf hevaluates => Engine.derives_of_evaluates hfresh hevaluates f hf rfl,
    hs.packs.nodup, hs.rules.nodup, hs.versions.nodup, hs.findings.nodup, hs.runs.nodup⟩

/-- A rule about all loans finds one and is run, and then its version is retired. -/
def blanketRun : List Move :=
  let caller : Caller := { tenant := ⟨100⟩ }
  blanketRule ++ [.call {} caller (.evaluate "loan" [("id", .text "7")] none false),
    .call {} caller (.runInline ⟨2⟩), .call {} caller (.retireVersion ⟨2⟩)]

/-- The finding and the run still lead to that version. -/
theorem references_lead_to_rows_retired :
    let s := ((Engine.fresh .absent default 0).after blanketRun).store
    s.findings.map (fun f => (f.version, f.rule, f.pack)) = [(⟨2⟩, ⟨1⟩, some ⟨0⟩)] ∧
      s.runs.map (fun run => (run.version, run.pack)) = [(⟨2⟩, some ⟨0⟩)] ∧
      (∀ f ∈ s.findings, s.Derives f.tenant f.version f.rule f.pack) ∧
      ∀ run ∈ s.runs, ∃ rule, s.Derives run.tenant run.version rule run.pack := by
  have hnone : ((Engine.fresh .absent default 0).after blanketRule).store.findings.map
      (fun f => f.id) = [] := by cbv
  have hfiled : (((Engine.fresh .absent default 0).after blanketRule).perform {}
      { tenant := ⟨100⟩ } (.evaluate "loan" [("id", .text "7")] none false)).2.store.findings.map
      (fun f => f.id) = [⟨3⟩] := by cbv
  have hids : ((Engine.fresh .absent default 0).after blanketRun).store.findings.map
      (fun f => f.id) = [⟨3⟩] := by cbv
  obtain ⟨-, -, -, -, -, -, hruns, hfindings, -⟩ :=
    references_lead_to_rows .absent default 0 blanketRun
  refine ⟨by cbv, by cbv, fun f hf => hfindings f hf ?_, hruns⟩
  have hid := List.mem_map_of_mem (f := fun f => f.id) hf
  rw [hids, ← hfiled] at hid
  refine ⟨blanketRule, {}, _, _, _, rfl, rfl, fun q hq => ?_, List.mem_map.1 hid⟩
  rw [List.map_eq_nil_iff.1 hnone] at hq
  cases hq

end Rulebook
