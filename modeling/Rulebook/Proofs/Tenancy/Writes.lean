import Rulebook.Proofs.Calls.Lifecycle
import Rulebook.Proofs.Tenancy.Mirror

/-!
Look-ups and writes, mirrored. A row is looked up either by what a row of the same tenant refers to,
which both stores know under names that belong together, or by an argument of the call, which is the
same for both. At the start of a call (`Store.Alike`) what the tenant holds is the very same in both
stores, so the argument leads to the same row or to none.
-/
namespace Rulebook

variable {ρ : Uuid → Uuid} {A : Uuid} {s t : Store}

/-! ## The start of a call -/

/-- Two stores that are the same to a tenant under the numbers given out so far. -/
structure Store.Alike (ρ : Uuid → Uuid) (tenant : Uuid) (s t : Store) : Prop
    extends Store.Twins ρ tenant s t where
  fixed : ∀ id : Uuid, id.number < s.nextId → ρ id = id

section Arguments

variable {α : Type} [Stored α] {rows rows' : List α} {rename : α → α} {id : Uuid}

theorem Store.Alike.findOwn (h : s.Alike ρ A t) (hkeyed : Keyed rows s.nextId)
    (hid : ∀ r, (Stored.row (rename r)).id = ρ (Stored.row r).id)
    (hrows : ownRows rows' A = (ownRows rows A).map rename) (id : Uuid) :
    findOwn rows' A id = (Rulebook.findOwn rows A id).map rename := by
  by_cases hlt : id.number < s.nextId
  · have hfind := findOwn_rename h.injective hid hrows id
    rwa [h.fixed id hlt] at hfind
  · -- An identifier that has not been given out is that of no row.
    have hbelow : ∀ r ∈ ownRows rows A, (Stored.row r).id ≠ id := fun r hr heq =>
      hlt (heq ▸ hkeyed.below r (mem_ownRows.1 hr).1)
    have hleft : Rulebook.findOwn rows A id = none := by
      rw [findOwn_eq_find?, List.find?_eq_none]
      exact fun r hr heq => hbelow r hr (eq_of_beq heq)
    rw [hleft, findOwn_eq_find?, hrows, Option.map_none, List.find?_eq_none]
    intro q hq heq
    obtain ⟨r, hr, rfl⟩ := List.mem_map.1 hq
    rw [hid, h.fixed _ (hkeyed.below r (mem_ownRows.1 hr).1)] at heq
    exact hbelow r hr (eq_of_beq heq)

theorem Store.Alike.fixed_of_owned (h : s.Alike ρ A t) (hkeyed : Keyed rows s.nextId) {B : Uuid}
    (hown : (id, B) ∈ owned rows) : ρ id = id := by
  obtain ⟨r, hr, rfl, -⟩ := mem_owned.1 hown
  exact h.fixed _ (hkeyed.below r hr)

/-- Both stores own the same under one name. -/
theorem Store.Alike.owned_iff (h : s.Alike ρ A t) (hkeyed : Keyed rows s.nextId)
    (hid : ∀ r, (Stored.row (rename r)).id = ρ (Stored.row r).id)
    (hrows : ownRows rows' A = (ownRows rows A).map rename) :
    (id, A) ∈ owned rows' ↔ (id, A) ∈ owned rows := by
  rw [mem_owned_iff_ownRows, mem_owned_iff_ownRows, hrows]
  have hsame : ∀ r ∈ ownRows rows A, (Stored.row (rename r)).id = (Stored.row r).id := by
    intro r hr
    rw [hid, h.fixed _ (hkeyed.below r (mem_ownRows.1 hr).1)]
  constructor
  · rintro ⟨q, hq, rfl⟩
    obtain ⟨r, hr, rfl⟩ := List.mem_map.1 hq
    exact ⟨r, hr, (hsame r hr).symm⟩
  · rintro ⟨r, hr, rfl⟩
    exact ⟨rename r, List.mem_map_of_mem hr, hsame r hr⟩

end Arguments

namespace Store.Alike

variable (h : s.Alike ρ A t)

include h

theorem rename_rule {r : Rule} (hr : r ∈ s.rules) : r.rename ρ = r := by
  rw [Rule.rename, h.fixed r.id (h.left.rules.below r hr)]

theorem rename_version {v : Version} (hv : v ∈ s.versions) : v.rename ρ = v := by
  rw [Version.rename, h.fixed v.id (h.left.versions.below v hv),
    h.fixed_of_owned h.left.rules (h.left.versionRule v hv)]

end Store.Alike

/-- Stores in order in which a tenant holds the same at the same time are alike to it. -/
theorem Store.Intact.alike {A : Uuid} (hs : s.Intact) (ht : t.Intact) (hclock : t.clock = s.clock)
    (hholdings : t.holdings A = s.holdings A) (hn : s.nextId ≤ t.nextId) :
    s.Alike (Uuid.reissue s.nextId t.nextId) A t := by
  have hfixed (id : Uuid) (hid : id.number < s.nextId) : Uuid.reissue s.nextId t.nextId id = id :=
    Uuid.reissue_of_lt hid (Nat.lt_of_lt_of_le hid hn)
  have hreference {α : Type} [Stored α] {rows : List α} (hkeyed : Keyed rows s.nextId) {id B : Uuid}
      (hown : (id, B) ∈ owned rows) : Uuid.reissue s.nextId t.nextId id = id := by
    obtain ⟨r, hr, rfl, -⟩ := mem_owned.1 hown
    exact hfixed _ (hkeyed.below r hr)
  constructor
  · constructor
    case injective => exact Uuid.reissue_injective hn
    case fresh => exact Uuid.reissue_add
    case clock => exact hclock
    case left => exact hs
    case right => exact ht
    case packs =>
      rw [map_ownRows_eq_self fun p hp => by rw [Pack.rename, hfixed p.id (hs.packs.below p hp)]]
      exact congrArg Holdings.packs hholdings
    case regulations =>
      rw [map_ownRows_eq_self fun r hr => by
        rw [Regulation.rename, hfixed r.id (hs.regulations.below r hr)]]
      exact congrArg Holdings.regulations hholdings
    case rules =>
      rw [map_ownRows_eq_self fun r hr => by rw [Rule.rename, hfixed r.id (hs.rules.below r hr)]]
      exact congrArg Holdings.rules hholdings
    case versions =>
      rw [map_ownRows_eq_self fun v hv => by
        rw [Version.rename, hfixed v.id (hs.versions.below v hv),
          hreference hs.rules (hs.versionRule v hv)]]
      exact congrArg Holdings.versions hholdings
    case findings =>
      rw [map_ownRows_eq_self fun f hf => by
        rw [Finding.rename, hfixed f.id (hs.findings.below f hf)]]
      exact congrArg Holdings.findings hholdings
    case tasks =>
      rw [map_ownRows_eq_self fun k hk => by
        rw [Task.rename, hfixed k.id (hs.tasks.below k hk),
          hreference hs.findings (hs.taskFinding k hk)]]
      exact congrArg Holdings.tasks hholdings
    case overrides =>
      rw [map_ownRows_eq_self fun o ho => by
        rw [Override.rename, hfixed o.id (hs.overrides.below o ho),
          hreference hs.findings (hs.overrideFinding o ho)]]
      exact congrArg Holdings.overrides hholdings
    case runs =>
      rw [map_ownRows_eq_self fun r hr => by
        rw [ImpactRun.rename, hfixed r.id (hs.runs.below r hr),
          hreference hs.versions (hs.runVersion r hr)]]
      exact congrArg Holdings.runs hholdings
    case results =>
      rw [map_ownRows_eq_self fun q hq => by
        rw [ImpactResult.rename, hfixed q.id (hs.results.below q hq),
          hreference hs.runs (hs.resultRun q hq)]]
      exact congrArg Holdings.results hholdings
  · exact hfixed

namespace Txn.Mirrors

variable {α β : Type} {F : α → α} {G : β → β}

/-! ## Look-ups -/

section LookUps

variable [Stored α] {kind : RowKind} {rows : Store → List α} {id : Uuid} {n : Nat} {f g : α → Txn β}

/-- A row that an argument names. -/
theorem argument_bind (h : s.Alike ρ A t) (hkeyed : Keyed (rows s) s.nextId)
    (hid : ∀ r, (Stored.row (F r)).id = ρ (Stored.row r).id)
    (hrows : ownRows (rows t) A = (ownRows (rows s) A).map F)
    (hf : ∀ r ∈ rows s, (Stored.row r).id = id → (Stored.row r).tenant = A → ρ id = id →
      Mirrors ρ A G (f r) (g (F r)) s t) :
    Mirrors ρ A G (own kind rows A id >>= f) (own kind rows A id >>= g) s t := by
  refine own_bind h.toTwins (h.findOwn hkeyed hid hrows id) (fun _ => rfl) fun r hfound => ?_
  obtain ⟨hr, hrid, htenant⟩ := findOwn_eq_some hfound
  exact hf r hr hrid htenant (h.fixed id (hrid ▸ hkeyed.below r hr))

/-- A row that another one of the tenant refers to. -/
theorem reference_bind (h : s.Twins ρ A t) (hkeyed : Keyed (rows s) n)
    (hid : ∀ r, (Stored.row (F r)).id = ρ (Stored.row r).id)
    (hrows : ownRows (rows t) A = (ownRows (rows s) A).map F) (hown : (id, A) ∈ owned (rows s))
    (hf : ∀ r ∈ rows s, (Stored.row r).id = id → (Stored.row r).tenant = A →
      Mirrors ρ A G (f r) (g (F r)) s t) :
    Mirrors ρ A G (own kind rows A id >>= f) (own kind rows A (ρ id) >>= g) s t := by
  obtain ⟨q, -, -, -, hq⟩ := findOwn_of_owned hkeyed hown
  refine own_bind h (findOwn_rename h.injective hid hrows id) (fun hnone => ?_) fun r hfound => ?_
  · rw [hq] at hnone
    cases hnone
  · obtain ⟨hr, hrid, htenant⟩ := findOwn_eq_some hfound
    exact hf r hr hrid htenant

theorem argument (kind : RowKind) (id : Uuid) (h : s.Alike ρ A t) (hkeyed : Keyed (rows s) s.nextId)
    (hid : ∀ r, (Stored.row (F r)).id = ρ (Stored.row r).id)
    (hrows : ownRows (rows t) A = (ownRows (rows s) A).map F) :
    Mirrors ρ A F (own kind rows A id) (own kind rows A id) s t := by
  rw [← bind_pure (own kind rows A id)]
  exact argument_bind h hkeyed hid hrows fun r _ _ _ _ => pure h.toTwins rfl

theorem reference (kind : RowKind) (h : s.Twins ρ A t) (hkeyed : Keyed (rows s) n)
    (hid : ∀ r, (Stored.row (F r)).id = ρ (Stored.row r).id)
    (hrows : ownRows (rows t) A = (ownRows (rows s) A).map F) (hown : (id, A) ∈ owned (rows s)) :
    Mirrors ρ A F (own kind rows A id) (own kind rows A (ρ id)) s t := by
  rw [← bind_pure (own kind rows A id), ← bind_pure (own kind rows A (ρ id))]
  exact reference_bind h hkeyed hid hrows hown fun r _ _ _ => pure h rfl

end LookUps

/-- The rule of a version of the tenant. -/
theorem ruleOf_bind {v : Version} {f g : Rule → Txn β} (h : s.Twins ρ A t) (hv : v ∈ s.versions)
    (hA : v.tenant = A)
    (hf : ∀ r ∈ s.rules, r.id = v.rule → r.tenant = A →
      Mirrors ρ A G (f r) (g (r.rename ρ)) s t) :
    Mirrors ρ A G (ruleOf v >>= f) (ruleOf (v.rename ρ) >>= g) s t := by
  have hrule : (v.rule, A) ∈ owned s.rules := hA ▸ h.left.versionRule v hv
  have hown : v.rename ρ ∈ ownRows t.versions A := by
    rw [h.versions]
    exact List.mem_map_of_mem (mem_ownRows.2 ⟨hv, hA⟩)
  have hx := run_ruleOf h.left hv
  have hy := run_ruleOf h.right (mem_ownRows.1 hown).1
  rw [hA] at hx
  rw [show (v.rename ρ).tenant = A from hA] at hy
  exact (reference_bind h h.left.rules (fun _ => rfl) h.rules hrule hf).of_rest
    (run_bind_congr_left hx) (run_bind_congr_left hy) fun _ _ => rfl

/-! ## Adding rows -/

theorem modify {f g : Store → Store} (htwins : (f s).Twins ρ A (g t))
    (hspares : ∀ B, B ≠ A → (f s).holdings B = s.holdings B) :
    Mirrors ρ A id (modify f) (modify g) s t := ⟨rfl, htwins, hspares⟩

theorem addPack {p : Pack} (h : s.Twins ρ A t) (hid : p.id = ⟨s.nextId⟩) (hA : p.tenant = A) :
    Mirrors ρ A id (addPack p) (addPack (p.rename ρ)) s.pastRow t.pastRow :=
  modify (h.packAdded hid hA) fun B hB =>
    congrArg (fun rows => { s.holdings B with packs := rows })
      (ownRows_add_other (r := p) hA hB)

theorem addRegulation {r : Regulation} (h : s.Twins ρ A t) (hid : r.id = ⟨s.nextId⟩)
    (hA : r.tenant = A) :
    Mirrors ρ A id (addRegulation r) (addRegulation (r.rename ρ)) s.pastRow t.pastRow :=
  modify (h.regulationAdded hid hA) fun B hB =>
    congrArg (fun rows => { s.holdings B with regulations := rows })
      (ownRows_add_other (r := r) hA hB)

theorem addRule {r : Rule} (h : s.Twins ρ A t) (hid : r.id = ⟨s.nextId⟩) (hA : r.tenant = A)
    (hpack : (r.pack, A) ∈ owned s.packs) (hpack' : (r.pack, A) ∈ owned t.packs) :
    Mirrors ρ A id (addRule r) (addRule (r.rename ρ)) s.pastRow t.pastRow :=
  modify (h.ruleAdded hid hA hpack hpack') fun B hB =>
    congrArg (fun rows => { s.holdings B with rules := rows })
      (ownRows_add_other (r := r) hA hB)

/-- A version is refused in both stores or in none. -/
theorem addVersion {v : Version} (h : s.Twins ρ A t) (hid : v.id = ⟨s.nextId⟩) (hA : v.tenant = A)
    (hrule : (v.rule, A) ∈ owned s.rules) :
    Mirrors ρ A id (addVersion v) (addVersion (v.rename ρ)) s.pastRow t.pastRow := by
  refine get_bind (guard h.pastRow ?_ fun hnew => ?_)
  · exact Eq.congr_left (h.version_clash hrule)
  · refine modify (h.versionAdded hid hA hrule hnew) fun B hB => ?_
    exact congrArg (fun rows => { s.holdings B with versions := rows })
      (ownRows_add_other (r := v) hA hB)

theorem addFinding {f : Finding} (h : s.Twins ρ A t) (hid : f.id = ⟨s.nextId⟩) (hA : f.tenant = A) :
    Mirrors ρ A id (addFinding f) (addFinding (f.rename ρ)) s.pastRow t.pastRow := by
  refine get_bind (guard h.pastRow ?_ fun hnew => ?_)
  · exact Eq.congr_left (h.finding_clash hA)
  · refine modify (h.findingAdded hid hA hnew) fun B hB => ?_
    exact congrArg (fun rows => { s.holdings B with findings := rows })
      (ownRows_add_other (r := f) hA hB)

theorem addTask {k : Task} (h : s.Twins ρ A t) (hid : k.id = ⟨s.nextId⟩) (hA : k.tenant = A)
    (hfinding : (k.finding, A) ∈ owned s.findings) :
    Mirrors ρ A id (addTask k) (addTask (k.rename ρ)) s.pastRow t.pastRow :=
  modify (h.taskAdded hid hA hfinding) fun B hB =>
    congrArg (fun rows => { s.holdings B with tasks := rows })
      (ownRows_add_other (r := k) hA hB)

theorem addOverride {o : Override} (h : s.Twins ρ A t) (hid : o.id = ⟨s.nextId⟩)
    (hA : o.tenant = A) (hfinding : (o.finding, A) ∈ owned s.findings) :
    Mirrors ρ A id (addOverride o) (addOverride (o.rename ρ)) s.pastRow t.pastRow :=
  modify (h.overrideAdded hid hA hfinding) fun B hB =>
    congrArg (fun rows => { s.holdings B with overrides := rows })
      (ownRows_add_other (r := o) hA hB)

theorem addRun {run : ImpactRun} (h : s.Twins ρ A t) (hid : run.id = ⟨s.nextId⟩)
    (hA : run.tenant = A) (hversion : (run.version, A) ∈ owned s.versions) :
    Mirrors ρ A id (addRun run) (addRun (run.rename ρ)) s.pastRow t.pastRow :=
  modify (h.runAdded hid hA hversion) fun B hB =>
    congrArg (fun rows => { s.holdings B with runs := rows })
      (ownRows_add_other (r := run) hA hB)

theorem addResult {q : ImpactResult} (h : s.Twins ρ A t) (hid : q.id = ⟨s.nextId⟩)
    (hA : q.tenant = A) (hrun : (q.run, A) ∈ owned s.runs) :
    Mirrors ρ A id (addResult q) (addResult (q.rename ρ)) s.pastRow t.pastRow :=
  modify (h.resultAdded hid hA hrun) fun B hB =>
    congrArg (fun rows => { s.holdings B with results := rows })
      (ownRows_add_other (r := q) hA hB)

/-! ## Saving rows -/

theorem savePack {old new : Pack} (h : s.Twins ρ A t) (hold : old ∈ s.packs) (hA : old.tenant = A)
    (hid : new.id = old.id) (htenant : new.tenant = old.tenant) :
    Mirrors ρ A (Pack.rename ρ) (savePack old new) (savePack (old.rename ρ) (new.rename ρ))
      s t := by
  have hinjective : Function.Injective (Pack.rename ρ) :=
    injective_of_rename_rename Pack.rename_rename h.injective
  refine ite hinjective.eq_iff (fun _ => pure h rfl) fun _ => now_bind h ?_
  refine bind (modify (h.packSaved hold hA hid htenant) fun B hB => ?_) fun _ _ _ _ h => pure h rfl
  exact congrArg (fun rows => { s.holdings B with packs := rows })
    (h.left.packs.ownRows_replaceRow_other (r := { new with updatedAt := s.clock }) hold hid htenant
      hA hB)

theorem saveRule {r : Rule} (h : s.Twins ρ A t) (hr : r ∈ s.rules) (hA : r.tenant = A)
    (current : Option Uuid) (status : RuleStatus) :
    Mirrors ρ A (Rule.rename ρ) (saveRule r { r with currentVersion := current, status })
      (saveRule (r.rename ρ) { r.rename ρ with currentVersion := current, status }) s t := by
  have hinjective : Function.Injective (Rule.rename ρ) :=
    injective_of_rename_rename Rule.rename_rename h.injective
  refine ite (hinjective.eq_iff (a := { r with currentVersion := current, status }))
    (fun _ => pure h rfl) fun _ => now_bind h ?_
  refine bind (modify (h.ruleSaved hr hA current status s.clock) fun B hB => ?_)
    fun _ _ _ _ h => pure h rfl
  exact congrArg (fun rows => { s.holdings B with rules := rows })
    (h.left.rules.ownRows_replaceRow_other
      (r := { r with currentVersion := current, status, updatedAt := s.clock }) hr rfl rfl
      hA hB)

theorem saveVersion {v : Version} (h : s.Twins ρ A t) (hv : v ∈ s.versions) (hA : v.tenant = A)
    (edit : VersionEdit) :
    Mirrors ρ A (Version.rename ρ) (saveVersion v edit) (saveVersion (v.rename ρ) edit) s t := by
  refine ite Iff.rfl (fun _ => pure h rfl) fun _ => get_bind (guard h ?_ fun hnew => now_bind h ?_)
  · exact Eq.congr_left (h.version_clash (v := edit.applyTo v) (hA ▸ h.left.versionRule v hv))
  refine bind (modify ?_ fun B hB => ?_) fun _ _ _ _ h => pure h rfl
  · exact h.versionSaved (w := { (edit.settle v).applyTo v with updatedAt := s.clock }) hv hA rfl
      rfl rfl hnew
  · exact congrArg (fun rows => { s.holdings B with versions := rows })
      (h.left.versions.ownRows_replaceRow_other
        (r := { (edit.settle v).applyTo v with updatedAt := s.clock }) hv rfl rfl hA hB)

/-- Versions that are stored, all different, are moved alike. -/
theorem saveVersionStatus {vs : List Version} (h : s.Twins ρ A t)
    (hmem : ∀ v ∈ vs, v ∈ s.versions ∧ v.tenant = A) (hnodup : (vs.map fun v => v.id).Nodup)
    (status : VersionStatus) :
    Mirrors ρ A id (saveVersionStatus status vs)
      (saveVersionStatus status (vs.map (Version.rename ρ))) s t := by
  induction vs generalizing s t with
  | nil => exact pure h rfl
  | cons v vs ih =>
    obtain ⟨hv, hA⟩ := hmem v (List.mem_cons_self ..)
    obtain ⟨hhead, hnodup⟩ := List.nodup_cons.1 hnodup
    refine bind (saveVersion h hv hA { status := some status }).discard fun _ s' t' hs' h' => ?_
    obtain ⟨_, hs'⟩ := yields_discard.1 hs'
    obtain ⟨-, -, hkept, -⟩ := yields_saveVersion_plain rfl rfl h.left.versions hv hs'
    refine ih h' (fun q hq => ?_) hnodup
    obtain ⟨hqmem, hqA⟩ := hmem q (List.mem_cons_of_mem _ hq)
    exact ⟨hkept q hqmem fun heq => hhead (List.mem_map.2 ⟨q, hq, heq⟩), hqA⟩

theorem saveFindingStatus {f : Finding} (h : s.Twins ρ A t) (hf : f ∈ s.findings)
    (hA : f.tenant = A) (status : FindingStatus) :
    Mirrors ρ A (Finding.rename ρ) (saveFindingStatus f status)
      (saveFindingStatus (f.rename ρ) status) s t := by
  refine ite Iff.rfl (fun _ => pure h rfl) fun _ => get_bind (guard h ?_ fun hnew => now_bind h ?_)
  · exact Eq.congr_left (h.finding_clash (f := { f with status := status }) hA)
  refine bind (modify ?_ fun B hB => ?_) fun _ _ _ _ h => pure h rfl
  · exact h.findingSaved (g := { f with status, updatedAt := s.clock }) hf hA rfl rfl hnew
  · exact congrArg (fun rows => { s.holdings B with findings := rows })
      (h.left.findings.ownRows_replaceRow_other (r := { f with status, updatedAt := s.clock }) hf
        rfl rfl hA hB)

theorem saveRun {run new : ImpactRun} (h : s.Twins ρ A t) (hrun : run ∈ s.runs)
    (hA : run.tenant = A) (hid : new.id = run.id) (htenant : new.tenant = run.tenant)
    (hversion : new.version = run.version) :
    Mirrors ρ A id (saveRun new) (saveRun (new.rename ρ)) s t :=
  modify (h.runSaved hrun hA hid htenant hversion) fun B hB =>
    congrArg (fun rows => { s.holdings B with runs := rows })
      (h.left.runs.ownRows_replaceRow_other (r := new) hrun hid htenant hA hB)

/-! ## Showing rows -/

theorem showVersion (h : s.Twins ρ A t) (v : Version) :
    Mirrors ρ A (Version.rename ρ) (showVersion v) (showVersion (v.rename ρ)) s t :=
  ofExcept h v.shown_rename

theorem showRule {r : Rule} (h : s.Twins ρ A t) (hr : (r.id, A) ∈ owned s.rules) :
    Mirrors ρ A (RuleView.rename ρ) (showRule r) (showRule (r.rename ρ)) s t :=
  get_bind (ofExcept h (h.ruleView hr))

theorem showFinding {f : Finding} (h : s.Twins ρ A t) (hf : (f.id, A) ∈ owned s.findings) :
    Mirrors ρ A (FindingView.rename ρ) (showFinding f) (showFinding (f.rename ρ)) s t :=
  get_bind (pure h (h.findingView hf))

/-- What is shown of several rows, one after the other. -/
theorem mapM_reads {xs : List α} {f g : α → Txn β} (h : s.Twins ρ A t) (hreads : ∀ a, Reads (f a))
    (hf : ∀ a ∈ xs, ∀ t, s.Twins ρ A t → Mirrors ρ A G (f a) (g (F a)) s t) :
    Mirrors ρ A (List.map G) (xs.mapM f) ((xs.map F).mapM g) s t := by
  induction xs generalizing t with
  | nil => exact pure h rfl
  | cons a rest ih =>
    rw [List.map_cons, List.mapM_cons, List.mapM_cons]
    refine bind (hf a (List.mem_cons_self ..) t h) fun b s' t' hb h' => ?_
    obtain rfl := (hreads a).yields hb
    exact bind (ih h' fun q hq => hf q (List.mem_cons_of_mem _ hq)) fun bs _ _ _ h => pure h rfl

end Txn.Mirrors

end Rulebook
