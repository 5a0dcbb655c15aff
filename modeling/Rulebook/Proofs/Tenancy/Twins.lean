import Rulebook.Impact.Run
import Rulebook.Proofs.Store.Saving
import Rulebook.Proofs.Tenancy.Holdings

/-!
Two stores that are the same to one tenant. They hold the same rows of the tenant under other
numbers, show the same time, and count new identifiers on alike; what the other tenants hold may
differ. Whatever the queries say about rows of the tenant is then the same up to the numbers, also
where they look at all rows: references lead to rows of the same owner, so rows of another tenant
are not among what is found.
-/
namespace Rulebook

/-- To a tenant two stores are the same, but for numbers. -/
structure Store.Twins (ρ : Uuid → Uuid) (tenant : Uuid) (s t : Store) : Prop where
  injective : Function.Injective ρ
  fresh : ∀ k, ρ ⟨s.nextId + k⟩ = ⟨t.nextId + k⟩
  clock : t.clock = s.clock
  left : s.Intact
  right : t.Intact
  packs : ownRows t.packs tenant = (ownRows s.packs tenant).map (Pack.rename ρ)
  regulations :
    ownRows t.regulations tenant = (ownRows s.regulations tenant).map (Regulation.rename ρ)
  rules : ownRows t.rules tenant = (ownRows s.rules tenant).map (Rule.rename ρ)
  versions : ownRows t.versions tenant = (ownRows s.versions tenant).map (Version.rename ρ)
  findings : ownRows t.findings tenant = (ownRows s.findings tenant).map (Finding.rename ρ)
  tasks : ownRows t.tasks tenant = (ownRows s.tasks tenant).map (Task.rename ρ)
  overrides : ownRows t.overrides tenant = (ownRows s.overrides tenant).map (Override.rename ρ)
  runs : ownRows t.runs tenant = (ownRows s.runs tenant).map (ImpactRun.rename ρ)
  results : ownRows t.results tenant = (ownRows s.results tenant).map (ImpactResult.rename ρ)

variable {ρ : Uuid → Uuid} {A id : Uuid} {s t : Store}

theorem Store.Twins.holdings (h : s.Twins ρ A t) : t.holdings A = (s.holdings A).rename ρ := by
  simp only [Store.holdings, Holdings.rename, h.packs, h.regulations, h.rules, h.versions,
    h.findings, h.tasks, h.overrides, h.runs, h.results]

/-! ## References -/

section Owned

variable {α : Type} [Stored α] {rows rows' : List α} {rename : α → α} {n : Nat} {B : Uuid}

theorem mem_owned_iff_ownRows :
    (id, A) ∈ owned rows ↔ ∃ r ∈ ownRows rows A, (Stored.row r).id = id := by
  rw [mem_owned]
  constructor
  · rintro ⟨r, hr, hid, htenant⟩
    exact ⟨r, mem_ownRows.2 ⟨hr, htenant⟩, hid⟩
  · rintro ⟨r, hr, hid⟩
    obtain ⟨hr, htenant⟩ := mem_ownRows.1 hr
    exact ⟨r, hr, hid, htenant⟩

theorem owned_rename (hid : ∀ r, (Stored.row (rename r)).id = ρ (Stored.row r).id)
    (hrows : ownRows rows' A = (ownRows rows A).map rename) (h : (id, A) ∈ owned rows) :
    (ρ id, A) ∈ owned rows' := by
  obtain ⟨r, hr, rfl⟩ := mem_owned_iff_ownRows.1 h
  refine mem_owned_iff_ownRows.2 ⟨rename r, ?_, hid r⟩
  rw [hrows]
  exact List.mem_map_of_mem hr

/-- What is owned has one owner. -/
theorem Keyed.owner_unique (h : Keyed rows n) (hA : (id, A) ∈ owned rows)
    (hB : (id, B) ∈ owned rows) : A = B := by
  obtain ⟨r, hr, hid, rfl⟩ := mem_owned.1 hA
  obtain ⟨q, hq, hqid, rfl⟩ := mem_owned.1 hB
  rw [h.eq_of_id hr hq (hid.trans hqid.symm)]

theorem any_own (rows : List α) {p : α → Bool}
    (h : ∀ q ∈ rows, p q = true → (Stored.row q).tenant = A) :
    rows.any p = (ownRows rows A).any p := by
  rw [Bool.eq_iff_iff, List.any_eq_true, List.any_eq_true]
  constructor
  · rintro ⟨q, hq, hp⟩
    exact ⟨q, mem_ownRows.2 ⟨hq, h q hq hp⟩, hp⟩
  · rintro ⟨q, hq, hp⟩
    exact ⟨q, (mem_ownRows.1 hq).1, hp⟩

theorem findOwn_rename (hρ : Function.Injective ρ)
    (hid : ∀ r, (Stored.row (rename r)).id = ρ (Stored.row r).id)
    (hrows : ownRows rows' A = (ownRows rows A).map rename) (id : Uuid) :
    findOwn rows' A (ρ id) = (findOwn rows A id).map rename := by
  rw [findOwn_eq_find?, hrows, find?_map_id hρ hid, ← findOwn_eq_find?]

end Owned

/-! ## Views -/

theorem Version.shown_rename (v : Version) :
    (v.rename ρ).shown = v.shown.map (Version.rename ρ) := by
  unfold Version.shown
  show ((Directive.entries v.actions).mapError Failure.fault >>= _) = _
  cases Directive.entries v.actions with
  | error e => rfl
  | ok actions =>
    show (if v.conditionsOrNone.isObject then _ else _) =
      Except.map _ (if v.conditionsOrNone.isObject then _ else _)
    split
    · rfl
    · rfl

theorem mapM_shown_rename (vs : List Version) : (vs.map (Version.rename ρ)).mapM Version.shown =
    (vs.mapM Version.shown).map (List.map (Version.rename ρ)) := by
  induction vs with
  | nil => rfl
  | cons v rest ih =>
    rw [List.map_cons, List.mapM_cons, List.mapM_cons, ih, Version.shown_rename]
    cases v.shown with
    | error e => rfl
    | ok w =>
      cases rest.mapM Version.shown with
      | error e => rfl
      | ok ws => rfl

namespace Store.Twins

variable (h : s.Twins ρ A t)

include h

theorem owned_rules (hid : (id, A) ∈ owned s.rules) : (ρ id, A) ∈ owned t.rules :=
  owned_rename (fun _ => rfl) h.rules hid

theorem owned_versions (hid : (id, A) ∈ owned s.versions) : (ρ id, A) ∈ owned t.versions :=
  owned_rename (fun _ => rfl) h.versions hid

theorem owned_findings (hid : (id, A) ∈ owned s.findings) : (ρ id, A) ∈ owned t.findings :=
  owned_rename (fun _ => rfl) h.findings hid

theorem owned_runs (hid : (id, A) ∈ owned s.runs) : (ρ id, A) ∈ owned t.runs :=
  owned_rename (fun _ => rfl) h.runs hid

/-! ## Queries -/

theorem map_eq (id other : Uuid) : (ρ id == ρ other) = (id == other) := by
  rw [Bool.eq_iff_iff, beq_iff_eq, beq_iff_eq, h.injective.eq_iff]

theorem nextNumber (id : Uuid) : t.nextNumber A (ρ id) = s.nextNumber A id := by
  unfold Store.nextNumber
  rw [h.versions, List.filter_map, List.map_map]
  simp only [Function.comp_def, Version.rename, h.map_eq]

theorem rule? (hid : (id, A) ∈ owned s.rules) :
    t.rule? (ρ id) = (s.rule? id).map (Rule.rename ρ) := by
  have hs : ∀ r ∈ s.rules, (r.id == id) = true → r.tenant = A := fun r hr hrid =>
    h.left.rules.owner_unique (eq_of_beq hrid ▸ mem_owned_self hr) hid
  have ht : ∀ r ∈ t.rules, (r.id == ρ id) = true → r.tenant = A := fun r hr hrid =>
    h.right.rules.owner_unique (eq_of_beq hrid ▸ mem_owned_self hr) (h.owned_rules hid)
  rw [Store.rule?, Store.rule?, ← List.head?_filter, ← List.head?_filter, filter_own ht,
    filter_own hs, h.rules, List.filter_map, List.head?_map]
  simp only [Function.comp_def, Rule.rename, h.map_eq]

theorem versionsOf (hid : (id, A) ∈ owned s.rules) :
    t.versionsOf (ρ id) = (s.versionsOf id).map (Version.rename ρ) := by
  have hs : ∀ v ∈ s.versions, (v.rule == id) = true → v.tenant = A := fun v hv hrule =>
    h.left.rules.owner_unique (eq_of_beq hrule ▸ h.left.versionRule v hv) hid
  have ht : ∀ v ∈ t.versions, (v.rule == ρ id) = true → v.tenant = A := fun v hv hrule =>
    h.right.rules.owner_unique (eq_of_beq hrule ▸ h.right.versionRule v hv) (h.owned_rules hid)
  rw [Store.versionsOf, Store.versionsOf, filter_own ht, filter_own hs, h.versions, List.filter_map]
  simp only [Function.comp_def, Version.rename, h.map_eq]
  exact (List.map_mergeSort (f := Version.rename ρ) fun _ _ _ _ => rfl).symm

theorem tasksOf (hid : (id, A) ∈ owned s.findings) :
    t.tasksOf (ρ id) = (s.tasksOf id).map (Task.rename ρ) := by
  have hs : ∀ k ∈ s.tasks, (k.finding == id) = true → k.tenant = A := fun k hk hfinding =>
    h.left.findings.owner_unique (eq_of_beq hfinding ▸ h.left.taskFinding k hk) hid
  have ht : ∀ k ∈ t.tasks, (k.finding == ρ id) = true → k.tenant = A := fun k hk hfinding =>
    h.right.findings.owner_unique (eq_of_beq hfinding ▸ h.right.taskFinding k hk)
      (h.owned_findings hid)
  rw [Store.tasksOf, Store.tasksOf, filter_own ht, filter_own hs, h.tasks, List.filter_map]
  simp only [Function.comp_def, Task.rename, h.map_eq]
  exact oldestFirst_map (fun _ => rfl) _

theorem resultsOf (id : Uuid) :
    Impact.resultsOf t A (ρ id) = (Impact.resultsOf s A id).map (ImpactResult.rename ρ) := by
  rw [Impact.resultsOf, Impact.resultsOf, h.results, List.filter_map]
  simp only [Function.comp_def, ImpactResult.rename, h.map_eq]
  exact (List.map_mergeSort (f := ImpactResult.rename ρ) fun _ _ _ _ => rfl).symm

/-- Whatever the names, a rule is shown with the versions that are its own. -/
theorem ruleView {r : Rule} (hr : (r.id, A) ∈ owned s.rules) :
    t.ruleView (r.rename ρ) = (s.ruleView r).map (RuleView.rename ρ) := by
  rw [Store.ruleView, Store.ruleView, show (r.rename ρ).id = ρ r.id from rfl, h.versionsOf hr,
    mapM_shown_rename]
  cases (s.versionsOf r.id).mapM Version.shown with
  | error e => rfl
  | ok vs => rfl

theorem findingView {f : Finding} (hf : (f.id, A) ∈ owned s.findings) :
    t.findingView (f.rename ρ) = (s.findingView f).rename ρ := by
  rw [Store.findingView, Store.findingView, FindingView.rename, ← h.tasksOf hf]
  rfl

theorem activeVersions (entityType : String) :
    t.activeVersions A entityType =
      (s.activeVersions A entityType).map fun p => (p.1.rename ρ, p.2.rename ρ) := by
  rw [Store.activeVersions, Store.activeVersions, h.versions, List.filterMap_map,
    List.map_filterMap]
  refine List.filterMap_congr fun v hv => ?_
  obtain ⟨hv, htenant⟩ := mem_ownRows.1 hv
  have hrule : (v.rule, A) ∈ owned s.rules := htenant ▸ h.left.versionRule v hv
  rw [Function.comp_apply, show (v.rename ρ).rule = ρ v.rule from rfl, h.rule? hrule]
  show (if v.isActive = true then _ else _) = _
  split
  · cases s.rule? v.rule with
    | none => rfl
    | some r =>
      show (if r.covers entityType = true then _ else _) = _
      split
      · next hcovers => simp [hcovers]
      · next hcovers => simp [hcovers]
  · rfl

/-! ## Clashes -/

theorem version_clash {v : Version} (hrule : (v.rule, A) ∈ owned s.rules) :
    t.versions.any (v.rename ρ).clashes = s.versions.any v.clashes := by
  have hs : ∀ q ∈ s.versions, v.clashes q = true → q.tenant = A := by
    intro q hq hclash
    simp only [Version.clashes, Bool.and_eq_true, beq_iff_eq] at hclash
    exact h.left.rules.owner_unique (hclash.1.2 ▸ h.left.versionRule q hq) hrule
  have ht : ∀ q ∈ t.versions, (v.rename ρ).clashes q = true → q.tenant = A := by
    intro q hq hclash
    simp only [Version.clashes, Bool.and_eq_true, beq_iff_eq] at hclash
    have hown := h.right.versionRule q hq
    rw [← hclash.1.2] at hown
    exact h.right.rules.owner_unique hown (h.owned_rules hrule)
  rw [any_own _ ht, any_own _ hs, h.versions, List.any_map]
  congr 1
  funext q
  simp only [Function.comp_apply, Version.clashes, Version.rename, bne, h.map_eq, Version.isActive]

theorem finding_clash {f : Finding} (htenant : f.tenant = A) :
    t.findings.any (f.rename ρ).clashes = s.findings.any f.clashes := by
  have hown : ∀ (k g : Finding), k.tenant = A → k.clashes g = true → g.tenant = A := by
    intro k g hk hclash
    simp only [Finding.clashes, Finding.isLiveFor, Bool.and_eq_true, beq_iff_eq] at hclash
    rw [← hk]
    exact congrArg FindingKey.tenant hclash.2.2
  rw [any_own t.findings fun g _ => hown (f.rename ρ) g htenant,
    any_own s.findings fun g _ => hown f g htenant,
    h.findings, List.any_map]
  congr 1
  funext g
  simp only [Function.comp_apply, Finding.clashes, Finding.rename, Finding.isLiveFor, Finding.key,
    bne, h.map_eq]

theorem liveFinding? {key : FindingKey} (hkey : key.tenant = A) :
    (t.liveFinding? key).isSome = (s.liveFinding? key).isSome := by
  have hown : ∀ g : Finding, g.isLiveFor key = true → g.tenant = A := by
    intro g hlive
    simp only [Finding.isLiveFor, Bool.and_eq_true, beq_iff_eq] at hlive
    rw [← hkey, ← hlive.2]
    rfl
  rw [Store.liveFinding?, Store.liveFinding?, List.isSome_find?, List.isSome_find?,
    any_own t.findings fun g _ => hown g, any_own s.findings fun g _ => hown g, h.findings,
    List.any_map]
  rfl

end Store.Twins

/-! ## Writes -/

section Writes

variable {α : Type} [Stored α] {rows rows' : List α} {rename : α → α} {r q : α} {n m : Nat}

theorem mem_rename (hrows : ownRows rows' A = (ownRows rows A).map rename)
    (htenant : ∀ r, (Stored.row (rename r)).tenant = (Stored.row r).tenant) (hr : r ∈ rows)
    (hA : (Stored.row r).tenant = A) : rename r ∈ rows' ∧ (Stored.row (rename r)).tenant = A := by
  have hmem : rename r ∈ ownRows rows' A := by
    rw [hrows]
    exact List.mem_map_of_mem (mem_ownRows.2 ⟨hr, hA⟩)
  exact ⟨(mem_ownRows.1 hmem).1, (htenant r).trans hA⟩

theorem ownRows_add_rename (htenant : ∀ r, (Stored.row (rename r)).tenant = (Stored.row r).tenant)
    (hrows : ownRows rows' A = (ownRows rows A).map rename) (hA : (Stored.row r).tenant = A) :
    ownRows (rows' ++ [rename r]) A = (ownRows (rows ++ [r]) A).map rename := by
  rw [ownRows_add ((htenant r).trans hA), ownRows_add hA, hrows, List.map_append,
    List.map_singleton]

theorem ownRows_replaceRow_rename (hρ : Function.Injective ρ)
    (hid : ∀ r, (Stored.row (rename r)).id = ρ (Stored.row r).id)
    (htenant : ∀ r, (Stored.row (rename r)).tenant = (Stored.row r).tenant)
    (hrows : ownRows rows' A = (ownRows rows A).map rename) (hkeyed : Keyed rows n)
    (hkeyed' : Keyed rows' m) (hq : q ∈ rows) (hA : (Stored.row q).tenant = A)
    (hrid : (Stored.row r).id = (Stored.row q).id)
    (hrtenant : (Stored.row r).tenant = (Stored.row q).tenant) :
    ownRows (replaceRow rows' (rename r)) A = (ownRows (replaceRow rows r) A).map rename := by
  obtain ⟨hq', -⟩ := mem_rename hrows htenant hq hA
  rw [hkeyed'.ownRows_replaceRow hq' (by rw [hid, hid, hrid]) (by rw [htenant, htenant, hrtenant]),
    hkeyed.ownRows_replaceRow hq hrid hrtenant, hrows, replaceRow_map hρ hid]

end Writes

namespace Store.Twins

variable (h : s.Twins ρ A t)

include h

/-- Time passes alike. -/
theorem tick : ({ s with clock := s.clock.next } : Store).Twins ρ A
    { t with clock := t.clock.next } :=
  { h with
    clock := congrArg Instant.next h.clock
    left := h.left.passed (Nat.le_refl _) _
    right := h.right.passed (Nat.le_refl _) _ }

theorem fresh_succ (k : Nat) : ρ ⟨s.nextId + 1 + k⟩ = ⟨t.nextId + 1 + k⟩ := by
  rw [Nat.add_assoc, Nat.add_assoc]
  exact h.fresh (1 + k)

/-- A new row has been begun in both. -/
theorem pastRow : s.pastRow.Twins ρ A t.pastRow :=
  { h with
    fresh := h.fresh_succ
    clock := congrArg (fun c : Instant => c.next.next) h.clock
    left := h.left.passed (Nat.le_succ _) _
    right := h.right.passed (Nat.le_succ _) _ }

theorem next_id {id : Uuid} (hid : id = ⟨s.nextId⟩) : ρ id = ⟨t.nextId⟩ := by
  rw [hid]
  exact h.fresh 0

theorem nextRow : t.nextRow A = { s.nextRow A with id := ρ (s.nextRow A).id } := by
  rw [Store.nextRow, Store.nextRow, h.clock, h.next_id rfl]

/-! ### Packs and regulations -/

theorem packAdded {p : Pack} (hid : p.id = ⟨s.nextId⟩) (hA : p.tenant = A) :
    ({ s.pastRow with packs := s.packs ++ [p] } : Store).Twins ρ A
      { t.pastRow with packs := t.packs ++ [p.rename ρ] } :=
  { h.pastRow with
    left := h.left.packAdded hid _
    right := h.right.packAdded (h.next_id hid) _
    packs := ownRows_add_rename (fun _ => rfl) h.packs hA }

theorem packSaved {p q : Pack} (hp : p ∈ s.packs) (hA : p.tenant = A) (hid : q.id = p.id)
    (htenant : q.tenant = p.tenant) :
    ({ s with packs := replaceRow s.packs q, clock := s.clock.next } : Store).Twins ρ A
      { t with packs := replaceRow t.packs (q.rename ρ), clock := t.clock.next } := by
  obtain ⟨hp', -⟩ := mem_rename h.packs (fun _ => rfl) hp hA
  exact { h.tick with
    left := h.left.packSaved hp hid htenant _
    right := h.right.packSaved hp' (show (q.rename ρ).id = _ from congrArg ρ hid) htenant _
    packs := ownRows_replaceRow_rename h.injective (fun _ => rfl) (fun _ => rfl) h.packs
      h.left.packs h.right.packs hp hA hid htenant }

theorem regulationAdded {r : Regulation} (hid : r.id = ⟨s.nextId⟩) (hA : r.tenant = A) :
    ({ s.pastRow with regulations := s.regulations ++ [r] } : Store).Twins ρ A
      { t.pastRow with regulations := t.regulations ++ [r.rename ρ] } :=
  { h.pastRow with
    left := h.left.regulationAdded hid _
    right := h.right.regulationAdded (h.next_id hid) _
    regulations := ownRows_add_rename (fun _ => rfl) h.regulations hA }

/-! ### Rules and versions -/

theorem ruleAdded {r : Rule} (hid : r.id = ⟨s.nextId⟩) (hA : r.tenant = A)
    (hpack : (r.pack, A) ∈ owned s.packs) (hpack' : (r.pack, A) ∈ owned t.packs) :
    ({ s.pastRow with rules := s.rules ++ [r] } : Store).Twins ρ A
      { t.pastRow with rules := t.rules ++ [r.rename ρ] } :=
  { h.pastRow with
    left := h.left.ruleAdded hid (hA ▸ hpack) _
    right := h.right.ruleAdded (r := r.rename ρ) (h.next_id hid) (hA.symm ▸ hpack') _
    rules := ownRows_add_rename (fun _ => rfl) h.rules hA }

theorem ruleSaved {r : Rule} (hr : r ∈ s.rules) (hA : r.tenant = A) (current : Option Uuid)
    (status : RuleStatus) (u : Instant) :
    let q : Rule := { r with currentVersion := current, status, updatedAt := u }
    ({ s with rules := replaceRow s.rules q, clock := s.clock.next } : Store).Twins ρ A
      { t with rules := replaceRow t.rules (q.rename ρ), clock := t.clock.next } := by
  obtain ⟨hr', -⟩ := mem_rename h.rules (fun _ => rfl) hr hA
  exact { h.tick with
    left := h.left.ruleSaved hr (by rfl) (by rfl) (by rfl) _
    right := h.right.ruleSaved hr' (by rfl) (by rfl) (by rfl) _
    rules := ownRows_replaceRow_rename h.injective (fun _ => rfl) (fun _ => rfl) h.rules
      h.left.rules h.right.rules hr hA rfl rfl }

theorem versionAdded {v : Version} (hid : v.id = ⟨s.nextId⟩) (hA : v.tenant = A)
    (hrule : (v.rule, A) ∈ owned s.rules) (hnew : ¬ s.versions.any v.clashes = true) :
    ({ s.pastRow with versions := s.versions ++ [v] } : Store).Twins ρ A
      { t.pastRow with versions := t.versions ++ [v.rename ρ] } := by
  have hnew' := hnew
  rw [← h.version_clash hrule] at hnew'
  exact { h.pastRow with
    left := h.left.versionAdded hid (hA ▸ hrule) (Txn.any_eq_false_iff.1 hnew) _
    right := h.right.versionAdded (v := v.rename ρ) (h.next_id hid) (hA.symm ▸ h.owned_rules hrule)
      (Txn.any_eq_false_iff.1 hnew') _
    versions := ownRows_add_rename (fun _ => rfl) h.versions hA }

theorem versionSaved {v w : Version} (hv : v ∈ s.versions) (hA : v.tenant = A)
    (hid : w.id = v.id) (htenant : w.tenant = v.tenant) (hrule : w.rule = v.rule)
    (hnew : ¬ s.versions.any w.clashes = true) :
    ({ s with versions := replaceRow s.versions w, clock := s.clock.next } : Store).Twins ρ A
      { t with versions := replaceRow t.versions (w.rename ρ), clock := t.clock.next } := by
  obtain ⟨hv', -⟩ := mem_rename h.versions (fun _ => rfl) hv hA
  have hown : (w.rule, A) ∈ owned s.rules := hrule ▸ hA ▸ h.left.versionRule v hv
  have hnew' := hnew
  rw [← h.version_clash hown] at hnew'
  exact { h.tick with
    left := h.left.versionSaved hv hid htenant hrule (Txn.any_eq_false_iff.1 hnew) _
    right := h.right.versionSaved hv' (show (w.rename ρ).id = _ from congrArg ρ hid) htenant
      (congrArg ρ hrule) (Txn.any_eq_false_iff.1 hnew') _
    versions := ownRows_replaceRow_rename h.injective (fun _ => rfl) (fun _ => rfl) h.versions
      h.left.versions h.right.versions hv hA hid htenant }

/-! ### Findings, tasks and overrides -/

theorem findingAdded {f : Finding} (hid : f.id = ⟨s.nextId⟩) (hA : f.tenant = A)
    (hnew : ¬ s.findings.any f.clashes = true) :
    ({ s.pastRow with findings := s.findings ++ [f] } : Store).Twins ρ A
      { t.pastRow with findings := t.findings ++ [f.rename ρ] } := by
  have hnew' := hnew
  rw [← h.finding_clash hA] at hnew'
  exact { h.pastRow with
    left := h.left.findingAdded hid (Txn.any_eq_false_iff.1 hnew) _
    right := h.right.findingAdded (h.next_id hid) (Txn.any_eq_false_iff.1 hnew') _
    findings := ownRows_add_rename (fun _ => rfl) h.findings hA }

theorem findingSaved {f g : Finding} (hf : f ∈ s.findings) (hA : f.tenant = A) (hid : g.id = f.id)
    (htenant : g.tenant = f.tenant) (hnew : ¬ s.findings.any g.clashes = true) :
    ({ s with findings := replaceRow s.findings g, clock := s.clock.next } : Store).Twins ρ A
      { t with findings := replaceRow t.findings (g.rename ρ), clock := t.clock.next } := by
  obtain ⟨hf', -⟩ := mem_rename h.findings (fun _ => rfl) hf hA
  have hnew' := hnew
  rw [← h.finding_clash (htenant.trans hA)] at hnew'
  exact { h.tick with
    left := h.left.findingSaved hf hid htenant (Txn.any_eq_false_iff.1 hnew) _
    right := h.right.findingSaved hf' (show (g.rename ρ).id = _ from congrArg ρ hid) htenant
      (Txn.any_eq_false_iff.1 hnew') _
    findings := ownRows_replaceRow_rename h.injective (fun _ => rfl) (fun _ => rfl) h.findings
      h.left.findings h.right.findings hf hA hid htenant }

theorem taskAdded {k : Task} (hid : k.id = ⟨s.nextId⟩) (hA : k.tenant = A)
    (hfinding : (k.finding, A) ∈ owned s.findings) :
    ({ s.pastRow with tasks := s.tasks ++ [k] } : Store).Twins ρ A
      { t.pastRow with tasks := t.tasks ++ [k.rename ρ] } :=
  { h.pastRow with
    left := h.left.taskAdded hid (hA.symm ▸ hfinding) _
    right := h.right.taskAdded (show (k.rename ρ).id = _ from h.next_id hid)
      (hA.symm ▸ h.owned_findings hfinding) _
    tasks := ownRows_add_rename (fun _ => rfl) h.tasks hA }

theorem overrideAdded {o : Override} (hid : o.id = ⟨s.nextId⟩) (hA : o.tenant = A)
    (hfinding : (o.finding, A) ∈ owned s.findings) :
    ({ s.pastRow with overrides := s.overrides ++ [o] } : Store).Twins ρ A
      { t.pastRow with overrides := t.overrides ++ [o.rename ρ] } :=
  { h.pastRow with
    left := h.left.overrideAdded hid (hA.symm ▸ hfinding) _
    right := h.right.overrideAdded (o := o.rename ρ) (h.next_id hid)
      (hA.symm ▸ h.owned_findings hfinding) _
    overrides := ownRows_add_rename (fun _ => rfl) h.overrides hA }

/-! ### Runs and results -/

theorem runAdded {run : ImpactRun} (hid : run.id = ⟨s.nextId⟩) (hA : run.tenant = A)
    (hversion : (run.version, A) ∈ owned s.versions) :
    ({ s.pastRow with runs := s.runs ++ [run] } : Store).Twins ρ A
      { t.pastRow with runs := t.runs ++ [run.rename ρ] } :=
  { h.pastRow with
    left := h.left.runAdded hid (hA.symm ▸ hversion) _
    right := h.right.runAdded (show (run.rename ρ).id = _ from h.next_id hid)
      (hA.symm ▸ h.owned_versions hversion) _
    runs := ownRows_add_rename (fun _ => rfl) h.runs hA }

/-- A run is saved with the time as it stands. -/
theorem runSaved {run new : ImpactRun} (hrun : run ∈ s.runs) (hA : run.tenant = A)
    (hid : new.id = run.id) (htenant : new.tenant = run.tenant)
    (hversion : new.version = run.version) :
    ({ s with runs := replaceRow s.runs new } : Store).Twins ρ A
      { t with runs := replaceRow t.runs (new.rename ρ) } := by
  obtain ⟨hrun', -⟩ := mem_rename h.runs (fun _ => rfl) hrun hA
  exact { h with
    left := h.left.runSaved hrun hid htenant hversion _
    right := h.right.runSaved hrun' (show (new.rename ρ).id = _ from congrArg ρ hid) htenant
      (congrArg ρ hversion) _
    runs := ownRows_replaceRow_rename h.injective (fun _ => rfl) (fun _ => rfl) h.runs
      h.left.runs h.right.runs hrun hA hid htenant }

theorem resultAdded {q : ImpactResult} (hid : q.id = ⟨s.nextId⟩) (hA : q.tenant = A)
    (hrun : (q.run, A) ∈ owned s.runs) :
    ({ s.pastRow with results := s.results ++ [q] } : Store).Twins ρ A
      { t.pastRow with results := t.results ++ [q.rename ρ] } :=
  { h.pastRow with
    left := h.left.resultAdded hid (hA.symm ▸ hrun) _
    right := h.right.resultAdded (show (q.rename ρ).id = _ from h.next_id hid)
      (hA.symm ▸ h.owned_runs hrun) _
    results := ownRows_add_rename (fun _ => rfl) h.results hA }

end Store.Twins

end Rulebook
