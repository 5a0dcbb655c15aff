import Rulebook.Proofs.Store.Change

/-!
Stores in order. `Store.Intact` says that identifiers are unique and used up, that references lead
to rows of the same tenant, and that the two rules of uniqueness hold: no two versions of a rule
share a number or are both active, no two live findings are about one key. Every single change keeps
it (`Change.intact`), so every chain of changes does, and with it whatever a call does before it
ends or fails.
-/
namespace Rulebook

variable {c : Impact.Circumstances} {w : Work} {s s' : Store}

/-! ## References -/

section Owned

variable {α : Type} [Stored α] {rows : List α} {r q : α} {id tenant : Uuid} {n : Nat}

theorem mem_owned : (id, tenant) ∈ owned rows ↔
    ∃ r ∈ rows, (Stored.row r).id = id ∧ (Stored.row r).tenant = tenant := by
  simp [owned]

theorem mem_owned_self (h : r ∈ rows) :
    ((Stored.row r).id, (Stored.row r).tenant) ∈ owned rows :=
  mem_owned.2 ⟨r, h, rfl, rfl⟩

theorem mem_owned_append {new : List α} (h : (id, tenant) ∈ owned rows) :
    (id, tenant) ∈ owned (rows ++ new) := by
  rw [owned, List.map_append]
  exact List.mem_append_left _ h

/-- What is owned is found. -/
theorem findOwn_of_owned (h : Keyed rows n) (hown : (id, tenant) ∈ owned rows) :
    ∃ r ∈ rows, (Stored.row r).id = id ∧ (Stored.row r).tenant = tenant ∧
      findOwn rows tenant id = some r := by
  obtain ⟨r, hr, rfl, rfl⟩ := mem_owned.1 hown
  exact ⟨r, hr, rfl, rfl, h.findOwn_eq hr⟩

theorem Keyed.owned_ne_next (h : Keyed rows n) (hown : (id, tenant) ∈ owned rows) : id ≠ ⟨n⟩ := by
  obtain ⟨r, hr, rfl, -⟩ := mem_owned.1 hown
  exact h.ne_next hr

theorem owned_replaceRow (h : Keyed rows n) (hq : q ∈ rows)
    (hid : (Stored.row r).id = (Stored.row q).id)
    (htenant : (Stored.row r).tenant = (Stored.row q).tenant) :
    owned (replaceRow rows r) = owned rows := by
  refine h.map_replaceRow hq hid ?_ fun _ _ _ => rfl
  rw [hid, htenant]

end Owned

/-! ## Clashes -/

theorem Version.clashes_comm (v q : Version) : v.clashes q = q.clashes v := by
  simp only [Version.clashes, bne, Bool.beq_comm (a := v.id), Bool.beq_comm (a := v.rule),
    Bool.beq_comm (a := v.number), Bool.and_comm v.isActive]

theorem Finding.clashes_comm (f g : Finding) : f.clashes g = g.clashes f := by
  simp only [Finding.clashes, Finding.isLiveFor, bne, Bool.beq_comm (a := f.id)]
  cases f.status.isLive <;> cases g.status.isLive <;> simp [Bool.beq_comm (a := f.key)]

theorem Version.not_clashes_iff {v q : Version} : v.clashes q = false ↔
    (v.id ≠ q.id → v.rule = q.rule →
      v.number ≠ q.number ∧ ¬ (v.status = .active ∧ q.status = .active)) := by
  rw [← Bool.not_eq_true]
  simp [Version.clashes, Version.isActive, not_or]

theorem Finding.not_clashes_iff {f g : Finding} : f.clashes g = false ↔
    (f.id ≠ g.id → f.status.isLive = true → g.status.isLive = true → f.key ≠ g.key) := by
  rw [← Bool.not_eq_true]
  simp only [Finding.clashes, Finding.isLiveFor, Bool.and_eq_true, bne_iff_ne, beq_iff_eq, not_and,
    and_imp]
  exact ⟨fun h hne hf hg heq => h hne hf hg heq.symm, fun h hne hf hg heq => h hne hf hg heq.symm⟩

theorem Version.not_clashes_self (v : Version) : v.clashes v = false := by
  simp [Version.clashes]

theorem Finding.not_clashes_self (f : Finding) : f.clashes f = false := by
  simp [Finding.clashes]

/-! ## Stores in order -/

structure Store.Intact (s : Store) : Prop where
  packs : Keyed s.packs s.nextId
  regulations : Keyed s.regulations s.nextId
  rules : Keyed s.rules s.nextId
  versions : Keyed s.versions s.nextId
  findings : Keyed s.findings s.nextId
  tasks : Keyed s.tasks s.nextId
  overrides : Keyed s.overrides s.nextId
  runs : Keyed s.runs s.nextId
  results : Keyed s.results s.nextId
  rulePack : ∀ r ∈ s.rules, (r.pack, r.tenant) ∈ owned s.packs
  versionRule : ∀ v ∈ s.versions, (v.rule, v.tenant) ∈ owned s.rules
  taskFinding : ∀ k ∈ s.tasks, (k.finding, k.tenant) ∈ owned s.findings
  overrideFinding : ∀ o ∈ s.overrides, (o.finding, o.tenant) ∈ owned s.findings
  runVersion : ∀ r ∈ s.runs, (r.version, r.tenant) ∈ owned s.versions
  resultRun : ∀ q ∈ s.results, (q.run, q.tenant) ∈ owned s.runs
  noClash : ∀ v ∈ s.versions, ∀ q ∈ s.versions, v.clashes q = false
  oneLive : ∀ f ∈ s.findings, ∀ g ∈ s.findings, f.clashes g = false

theorem Store.Derives.owned_version {tenant version rule : Uuid} {pack : Option Uuid}
    (h : s.Derives tenant version rule pack) : (version, tenant) ∈ owned s.versions := by
  obtain ⟨v, hv, _, _, hid, htenant, _⟩ := h
  exact mem_owned.2 ⟨v, hv, hid, htenant⟩

theorem Store.Intact.empty (t : Instant) (n : Nat) : (Store.empty t n).Intact := by
  constructor <;> first | exact Keyed.nil | (intro _ h; cases h)

namespace Store.Intact

/-- A rule is found by its identifier. -/
theorem rule?_eq_some (h : s.Intact) {id : Uuid} {r : Rule} :
    s.rule? id = some r ↔ r ∈ s.rules ∧ r.id = id := by
  constructor
  · intro hfound
    exact ⟨List.mem_of_find?_eq_some hfound, by simpa using List.find?_some hfound⟩
  · rintro ⟨hr, rfl⟩
    cases hfound : s.rule? r.id with
    | none =>
      have hnone := List.find?_eq_none.1 hfound r hr
      simp at hnone
    | some q =>
      have hid : q.id = r.id := by simpa using List.find?_some hfound
      rw [h.rules.eq_of_id (List.mem_of_find?_eq_some hfound) hr hid]

/-- Using up identifiers and letting time pass does no harm. -/
theorem passed (h : s.Intact) {n : Nat} (hn : s.nextId ≤ n) (t : Instant) :
    ({ s with nextId := n, clock := t } : Store).Intact :=
  { h with
    packs := h.packs.mono hn
    regulations := h.regulations.mono hn
    rules := h.rules.mono hn
    versions := h.versions.mono hn
    findings := h.findings.mono hn
    tasks := h.tasks.mono hn
    overrides := h.overrides.mono hn
    runs := h.runs.mono hn
    results := h.results.mono hn }

/-- Adding a pack does no harm. -/
theorem packAdded (h : s.Intact) {p : Pack} (hid : p.id = ⟨s.nextId⟩) (t : Instant) :
    ({ s with packs := s.packs ++ [p], nextId := s.nextId + 1, clock := t } : Store).Intact :=
  { h.passed (Nat.le_succ _) t with
    packs := h.packs.add hid
    rulePack := fun r hr => mem_owned_append (h.rulePack r hr) }

/-- Replacing a pack by one of the same identity does no harm. -/
theorem packSaved (h : s.Intact) {p new : Pack} (hp : p ∈ s.packs) (hid : new.id = p.id)
    (htenant : new.tenant = p.tenant) (t : Instant) :
    ({ s with packs := replaceRow s.packs new, clock := t } : Store).Intact := by
  have hown : owned (replaceRow s.packs new) = owned s.packs :=
    owned_replaceRow h.packs hp hid htenant
  refine { h with packs := h.packs.replace, rulePack := fun r hr => ?_ }
  rw [hown]
  exact h.rulePack r hr

/-- Adding a regulation does no harm, whatever pack it names. -/
theorem regulationAdded (h : s.Intact) {r : Regulation} (hid : r.id = ⟨s.nextId⟩) (t : Instant) :
    ({ s with
      regulations := s.regulations ++ [r], nextId := s.nextId + 1, clock := t } : Store).Intact :=
  { h.passed (Nat.le_succ _) t with regulations := h.regulations.add hid }

/-- Adding a rule of a pack does no harm. -/
theorem ruleAdded (h : s.Intact) {r : Rule} (hid : r.id = ⟨s.nextId⟩)
    (hpack : (r.pack, r.tenant) ∈ owned s.packs) (t : Instant) :
    ({ s with rules := s.rules ++ [r], nextId := s.nextId + 1, clock := t } : Store).Intact :=
  { h.passed (Nat.le_succ _) t with
    rules := h.rules.add hid
    rulePack := List.forall_mem_append.2 ⟨h.rulePack, List.forall_mem_singleton.2 hpack⟩
    versionRule := fun v hv => mem_owned_append (h.versionRule v hv) }

/-- Replacing a rule by one of the same identity does no harm. -/
theorem ruleSaved (h : s.Intact) {r new : Rule} (hr : r ∈ s.rules) (hid : new.id = r.id)
    (htenant : new.tenant = r.tenant) (hpack : new.pack = r.pack) (t : Instant) :
    ({ s with rules := replaceRow s.rules new, clock := t } : Store).Intact := by
  have hown : owned (replaceRow s.rules new) = owned s.rules :=
    owned_replaceRow h.rules hr hid htenant
  refine { h with rules := h.rules.replace, rulePack := ?_, versionRule := ?_ }
  · intro q hq
    rcases mem_replaceRow.1 hq with ⟨rfl, _⟩ | ⟨hq, _⟩
    · rw [hpack, htenant]
      exact h.rulePack r hr
    · exact h.rulePack q hq
  · intro v hv
    rw [hown]
    exact h.versionRule v hv

/-- Replacing a version by one of the same identity that clashes with none does no harm. -/
theorem versionSaved (h : s.Intact) {v new : Version} (hv : v ∈ s.versions)
    (hid : new.id = v.id) (htenant : new.tenant = v.tenant) (hrule : new.rule = v.rule)
    (hnew : ∀ q ∈ s.versions, new.clashes q = false) (t : Instant) :
    ({ s with versions := replaceRow s.versions new, clock := t } : Store).Intact := by
  have hown : owned (replaceRow s.versions new) = owned s.versions :=
    owned_replaceRow h.versions hv hid htenant
  refine { h with
    versions := h.versions.replace, versionRule := ?_, runVersion := ?_, noClash := ?_ }
  · intro q hq
    rcases mem_replaceRow.1 hq with ⟨rfl, _⟩ | ⟨hq, _⟩
    · rw [hrule, htenant]
      exact h.versionRule v hv
    · exact h.versionRule q hq
  · intro r hr
    rw [hown]
    exact h.runVersion r hr
  · intro p hp q hq
    rcases mem_replaceRow.1 hp with ⟨rfl, _⟩ | ⟨hp', _⟩ <;>
      rcases mem_replaceRow.1 hq with ⟨rfl, _⟩ | ⟨hq', _⟩
    · exact Version.not_clashes_self _
    · exact hnew q hq'
    · rw [Version.clashes_comm]
      exact hnew p hp'
    · exact h.noClash p hp' q hq'

/-- Moving a finding so that it clashes with none does no harm. -/
theorem findingSaved (h : s.Intact) {f new : Finding} (hf : f ∈ s.findings)
    (hid : new.id = f.id) (htenant : new.tenant = f.tenant)
    (hnew : ∀ g ∈ s.findings, new.clashes g = false) (t : Instant) :
    ({ s with findings := replaceRow s.findings new, clock := t } : Store).Intact := by
  have hown : owned (replaceRow s.findings new) = owned s.findings :=
    owned_replaceRow h.findings hf hid htenant
  refine { h with findings := h.findings.replace, taskFinding := ?_, overrideFinding := ?_,
                  oneLive := ?_ }
  · intro k hk
    rw [hown]
    exact h.taskFinding k hk
  · intro o ho
    rw [hown]
    exact h.overrideFinding o ho
  · intro f hf g hg
    rcases mem_replaceRow.1 hf with ⟨rfl, _⟩ | ⟨hf', _⟩ <;>
      rcases mem_replaceRow.1 hg with ⟨rfl, _⟩ | ⟨hg', _⟩
    · exact Finding.not_clashes_self _
    · exact hnew g hg'
    · rw [Finding.clashes_comm]
      exact hnew f hf'
    · exact h.oneLive f hf' g hg'

/-- Replacing a run by one of the same identity does no harm. -/
theorem runSaved (h : s.Intact) {run new : ImpactRun} (hrun : run ∈ s.runs)
    (hid : new.id = run.id) (htenant : new.tenant = run.tenant)
    (hversion : new.version = run.version) (t : Instant) :
    ({ s with runs := replaceRow s.runs new, clock := t } : Store).Intact := by
  have hown : owned (replaceRow s.runs new) = owned s.runs :=
    owned_replaceRow h.runs hrun hid htenant
  refine { h with runs := h.runs.replace, runVersion := ?_, resultRun := ?_ }
  · intro r hr
    rcases mem_replaceRow.1 hr with ⟨rfl, _⟩ | ⟨hr, _⟩
    · rw [hversion, htenant]
      exact h.runVersion run hrun
    · exact h.runVersion r hr
  · intro q hq
    rw [hown]
    exact h.resultRun q hq

/-- Filing a finding that clashes with none, with tasks of its own, does no harm. -/
theorem filed (h : s.Intact) {f : Finding} {ts : List Task} (hid : f.id = ⟨s.nextId⟩)
    (hnew : ∀ g ∈ s.findings, f.clashes g = false)
    (hids : ts.map (·.id) = idsFrom (s.nextId + 1) ts.length)
    (htasks : ∀ k ∈ ts, k.finding = f.id ∧ k.tenant = f.tenant) (t : Instant) :
    ({ s with findings := s.findings ++ [f], tasks := s.tasks ++ ts,
              nextId := s.nextId + 1 + ts.length, clock := t } : Store).Intact := by
  have hlater : s.nextId + 1 ≤ s.nextId + 1 + ts.length := Nat.le_add_right _ _
  refine { h.passed (Nat.le_trans (Nat.le_succ _) hlater) t with
    findings := (h.findings.add hid).mono hlater
    tasks := (h.tasks.mono (Nat.le_succ _)).addAll hids
    taskFinding := ?_, overrideFinding := ?_, oneLive := ?_ }
  · intro k hk
    rcases List.mem_append.1 hk with hk | hk
    · exact mem_owned_append (h.taskFinding k hk)
    · obtain ⟨hfinding, htenant⟩ := htasks k hk
      rw [hfinding, htenant]
      exact mem_owned_self (List.mem_append_right _ (List.mem_singleton_self f))
  · intro o ho
    exact mem_owned_append (h.overrideFinding o ho)
  · intro g hg k hk
    rcases List.mem_append.1 hg with hg' | hg' <;> rcases List.mem_append.1 hk with hk' | hk'
    · exact h.oneLive g hg' k hk'
    · rw [List.mem_singleton.1 hk', Finding.clashes_comm]
      exact hnew g hg'
    · rw [List.mem_singleton.1 hg']
      exact hnew k hk'
    · rw [List.mem_singleton.1 hg', List.mem_singleton.1 hk']
      exact Finding.not_clashes_self f

/-- Adding a finding that clashes with none does no harm. -/
theorem findingAdded (h : s.Intact) {f : Finding} (hid : f.id = ⟨s.nextId⟩)
    (hnew : ∀ g ∈ s.findings, f.clashes g = false) (t : Instant) :
    ({ s with
      findings := s.findings ++ [f], nextId := s.nextId + 1, clock := t } : Store).Intact := by
  have hfiled := h.filed hid hnew (show ([] : List Task).map (fun k => k.id) = _ from rfl)
    (fun _ hk => by cases hk) t
  rw [List.append_nil] at hfiled
  exact hfiled

/-- Adding a task of a finding does no harm. -/
theorem taskAdded (h : s.Intact) {k : Task} (hid : k.id = ⟨s.nextId⟩)
    (hfinding : (k.finding, k.tenant) ∈ owned s.findings) (t : Instant) :
    ({ s with tasks := s.tasks ++ [k], nextId := s.nextId + 1, clock := t } : Store).Intact :=
  { h.passed (Nat.le_succ _) t with
    tasks := h.tasks.add hid
    taskFinding := List.forall_mem_append.2 ⟨h.taskFinding, List.forall_mem_singleton.2 hfinding⟩ }

/-- Adding an override of a finding does no harm. -/
theorem overrideAdded (h : s.Intact) {o : Override} (hid : o.id = ⟨s.nextId⟩)
    (hfinding : (o.finding, o.tenant) ∈ owned s.findings) (t : Instant) :
    ({ s with
      overrides := s.overrides ++ [o], nextId := s.nextId + 1, clock := t } : Store).Intact :=
  { h.passed (Nat.le_succ _) t with
    overrides := h.overrides.add hid
    overrideFinding :=
      List.forall_mem_append.2 ⟨h.overrideFinding, List.forall_mem_singleton.2 hfinding⟩ }

/-- Adding a run of a version does no harm. -/
theorem runAdded (h : s.Intact) {run : ImpactRun} (hid : run.id = ⟨s.nextId⟩)
    (hversion : (run.version, run.tenant) ∈ owned s.versions) (t : Instant) :
    ({ s with runs := s.runs ++ [run], nextId := s.nextId + 1, clock := t } : Store).Intact :=
  { h.passed (Nat.le_succ _) t with
    runs := h.runs.add hid
    runVersion := List.forall_mem_append.2 ⟨h.runVersion, List.forall_mem_singleton.2 hversion⟩
    resultRun := fun q hq => mem_owned_append (h.resultRun q hq) }

/-- Adding a result of a run does no harm. -/
theorem resultAdded (h : s.Intact) {q : ImpactResult} (hid : q.id = ⟨s.nextId⟩)
    (hrun : (q.run, q.tenant) ∈ owned s.runs) (t : Instant) :
    ({ s with results := s.results ++ [q], nextId := s.nextId + 1, clock := t } : Store).Intact :=
  { h.passed (Nat.le_succ _) t with
    results := h.results.add hid
    resultRun := List.forall_mem_append.2 ⟨h.resultRun, List.forall_mem_singleton.2 hrun⟩ }

/-- Adding a version of a rule that clashes with none does no harm. -/
theorem versionAdded (h : s.Intact) {v : Version} (hid : v.id = ⟨s.nextId⟩)
    (hrule : (v.rule, v.tenant) ∈ owned s.rules) (hnew : ∀ q ∈ s.versions, v.clashes q = false)
    (t : Instant) :
    ({ s with
      versions := s.versions ++ [v], nextId := s.nextId + 1, clock := t } : Store).Intact := by
  refine { h.passed (Nat.le_succ _) t with
    versions := h.versions.add hid, versionRule := ?_, runVersion := ?_, noClash := ?_ }
  · intro q hq
    rcases List.mem_append.1 hq with hq | hq
    · exact h.versionRule q hq
    · rw [List.mem_singleton.1 hq]
      exact hrule
  · intro r hr
    exact mem_owned_append (h.runVersion r hr)
  · intro p hp q hq
    rcases List.mem_append.1 hp with hp' | hp' <;> rcases List.mem_append.1 hq with hq' | hq'
    · exact h.noClash p hp' q hq'
    · rw [List.mem_singleton.1 hq', Version.clashes_comm]
      exact hnew p hp'
    · rw [List.mem_singleton.1 hp']
      exact hnew q hq'
    · rw [List.mem_singleton.1 hp', List.mem_singleton.1 hq']
      exact Version.not_clashes_self v

/-- Completing a run with results of its own does no harm. -/
theorem runCompleted (h : s.Intact) {run new : ImpactRun} {results : List ImpactResult}
    (hrun : run ∈ s.runs) (hid : new.id = run.id) (htenant : new.tenant = run.tenant)
    (hversion : new.version = run.version)
    (hids : results.map (·.id) = idsFrom s.nextId results.length)
    (hresults : ∀ q ∈ results, q.run = run.id ∧ q.tenant = run.tenant) (t : Instant) :
    ({ s with runs := replaceRow s.runs new, results := s.results ++ results,
              nextId := s.nextId + results.length, clock := t } : Store).Intact := by
  have hrunSaved := h.runSaved hrun hid htenant hversion t
  refine { hrunSaved.passed (Nat.le_add_right _ _) t with
    results := h.results.addAll hids, resultRun := ?_ }
  intro q hq
  rcases List.mem_append.1 hq with hq | hq
  · exact hrunSaved.resultRun q hq
  · have hown : owned (replaceRow s.runs new) = owned s.runs :=
      owned_replaceRow h.runs hrun hid htenant
    obtain ⟨hqrun, hqtenant⟩ := hresults q hq
    rw [hqrun, hqtenant, hown]
    exact mem_owned_self hrun

end Store.Intact

/-! ## Changes keep the order -/

theorem Impact.Scanned.mem {run : ImpactRun} {counts : ImpactSummary} {results : List ImpactResult}
    (h : Scanned c s run counts results) :
    ∀ q ∈ results, q.run = run.id ∧ q.tenant = run.tenant := by
  obtain ⟨_, _, _, _, _, _, _, _, _, _, ps, _, _, _, hrecords⟩ := h
  exact forall_mem_of_forall₂ hrecords fun p q hq => ⟨hq.run_eq, hq.tenant_eq⟩

theorem Change.intact (hc : Change c w s s') (h : s.Intact) : s'.Intact := by
  cases hc with
  | passed later => exact h.passed later _
  | packAdded id => exact h.packAdded id _
  | packSaved old same => exact h.packSaved old same.1 same.2 _
  | regulationAdded id pack => exact h.regulationAdded id _
  | ruleAdded id idle pack => exact h.ruleAdded id pack _
  | ruleSaved old => exact h.ruleSaved old (by rfl) (by rfl) (by rfl) _
  | versionAdded id rule draft authored unique => exact h.versionAdded id rule unique _
  | versionSaved old lawful unique =>
    refine h.versionSaved old ?_ ?_ ?_ ?_ _
    · rfl
    · rfl
    · rfl
    · exact unique
  | filed id status unique ids tasks => exact h.filed id unique ids tasks _
  | findingMoved old next unique =>
    refine h.findingSaved old ?_ ?_ ?_ _
    · rfl
    · rfl
    · exact unique
  | overridden id finding => exact h.overrideAdded id finding _
  | runAdded id fresh derives =>
    obtain ⟨rule, hderives⟩ := derives
    exact h.runAdded id hderives.owned_version _
  | runFailed old running => exact h.runSaved old (by rfl) (by rfl) (by rfl) _
  | runCancelled old running => exact h.runSaved old (by rfl) (by rfl) (by rfl) _
  | runCompleted old running scanned ids =>
    exact h.runCompleted old (by rfl) (by rfl) (by rfl) ids scanned.mem _

theorem Changes.intact (hc : Changes c w s s') (h : s.Intact) : s'.Intact := by
  induction hc with
  | refl => exact h
  | tail _ last ih => exact last.intact ih

/-- What each change keeps in stores in order is kept by all of them together. -/
theorem Changes.keep {P : Store → Prop} (hc : Changes c w s s') (hs : s.Intact) (hfirst : P s)
    (hstep : ∀ {t t' : Store}, t.Intact → P t → Change c w t t' → P t') : P s' := by
  have hboth : s'.Intact ∧ P s' := by
    induction hc with
    | refl => exact ⟨hs, hfirst⟩
    | tail _ last ih => exact ⟨last.intact ih.1, hstep ih.1 ih.2 last⟩
  exact hboth.2

end Rulebook
