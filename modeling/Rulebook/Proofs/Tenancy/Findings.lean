import Rulebook.Proofs.Calls.Filing
import Rulebook.Proofs.Tenancy.Rules
import Rulebook.Review

/-!
The calls about findings, mirrored. An evaluation goes over the active versions of the caller's
tenant, which are the same in both stores, and a duplicate is found only among its own findings; so
what other tenants have filed decides neither what is filed nor what is refused.
-/
namespace Rulebook

open Txn

variable {ρ : Uuid → Uuid} {A : Uuid} {s t : Store} {caller : Caller}

/-! ## Filing -/

namespace Filing

theorem addTasks_mirrors {finding : Uuid} (h : s.Twins ρ A t)
    (hfinding : (finding, A) ∈ owned s.findings) (rows : List TaskRow) :
    Mirrors ρ A id (addTasks A finding rows) (addTasks A (ρ finding) rows) s t := by
  induction rows generalizing s t with
  | nil => exact .pure h rfl
  | cons task rest ih =>
    unfold addTasks
    refine .newRow_bind h ?_
    cases task.title with
    | none => exact .throw h.pastRow
    | some title =>
      refine (Mirrors.addTask h rfl rfl hfinding).bind fun _ s' t' hadded h' => ih h' ?_
      rw [yields_modify.1 hadded]
      exact hfinding

theorem blind_key (tenant version : Uuid) (entityType entityId : Text) :
    Blind (key tenant version entityType entityId) :=
  (blind_encoded _).bind fun _ => (blind_encoded _).bind fun _ => blind_pure _

theorem addAll_mirrors {subject : Subject} (h : s.Twins ρ subject.tenant t) (draft : FindingDraft)
    (due : Option Date) (drafts : List (TaskDraft × Option Date)) :
    Mirrors ρ subject.tenant (Finding.rename ρ) (addAll subject draft due drafts)
      (addAll subject draft due drafts) s t := by
  refine .blind_bind h (blind_json _) fun _ _ => .blind_bind h (blind_key _ _ _ _) fun k hk => ?_
  rw [← (yields_key hk).1] at h ⊢
  refine .blind_bind h (blind_cell _) fun severity _ => ?_
  refine .blind_bind h (blind_cell _) fun title _ => .newRow_bind h ?_
  cases severity with
  | none => exact .throw h.pastRow
  | some severity =>
    cases title with
    | none => exact .throw h.pastRow
    | some title =>
      refine (Mirrors.addFinding h rfl rfl).bind fun _ s' t' hadded h' => ?_
      have hrows : Blind (taskRows drafts) := ⟨rowsOf drafts, taskRows_eq drafts⟩
      refine .blind_bind h' hrows fun rows _ => ?_
      refine (addTasks_mirrors h' ?_ rows).bind fun _ _ _ _ h => .pure h rfl
      rw [(yields_addFinding.1 hadded).2]
      exact mem_owned_self (List.mem_append_right _ (List.mem_singleton_self _))

theorem explain_mirrors {α : Type} {F : α → α} {subject : Subject}
    (h : s.Twins ρ subject.tenant t) (e : Failure) :
    Mirrors ρ subject.tenant F (explain subject e) (explain subject e) s t := by
  unfold explain
  split
  · refine .blind_bind h (blind_key _ _ _ _) fun k hk => ?_
    rw [← (yields_key hk).1] at h ⊢
    refine .get_bind (.ite ?_ (fun _ => .throw h) fun _ => .throw h)
    rw [h.liveFinding? rfl]
  · exact .throw h

theorem file_mirrors {subject : Subject} (h : s.Twins ρ subject.tenant t) (plan : Plan) :
    Mirrors ρ subject.tenant (Finding.rename ρ) (file subject plan) (file subject plan) s t := by
  refine .blind_bind h (blind_ofExcept _) fun dates _ => ?_
  refine .blind_bind h (blind_ofExcept _) fun due _ => ?_
  exact .tryCatch (.undoing h (addAll_mirrors h _ _ _)) fun e _ _ _ h => explain_mirrors h e

theorem fileShown_mirrors {subject : Subject} (h : s.Twins ρ A t) (hA : subject.tenant = A)
    (plan : Plan) :
    Mirrors ρ A (FindingView.rename ρ) (fileShown subject plan) (fileShown subject plan) s t := by
  subst hA
  refine (file_mirrors h plan).bind fun f s' t' hf h' => ?_
  refine .ite Iff.rfl (fun _ => .showFinding h' ?_) fun _ => .throw h'
  obtain ⟨ts, hfiles, -, -, -, -, -, rfl⟩ := yields_file hf
  rw [← hfiles.tenant_eq]
  exact mem_owned_self (List.mem_append_right _ (List.mem_singleton_self f))

end Filing

/-! ## Evaluating -/

/-- The source of entities shows a tenant the same. -/
structure EntitySource.Agree (tenant : Uuid) (source source' : EntitySource) : Prop where
  list : ∀ entityType, source'.list tenant entityType = source.list tenant entityType
  get : ∀ entityType entityId,
    source'.get? tenant entityType entityId = source.get? tenant entityType entityId

/-- Only a source that is missing says so. -/
theorem EntitySource.absent_iff (source : EntitySource) (tenant : Uuid) (entityType : Text) :
    source = .absent ↔ source.list tenant entityType = .error .sourceless := by
  cases source with
  | absent => exact iff_of_true rfl rfl
  | memory held => exact iff_of_false (fun h => by cases h) fun h => by cases h
  | tables e =>
    refine iff_of_false (fun h => by cases h) fun h => ?_
    rcases Except.bind_eq_error.1 h with h | ⟨u, -, h⟩
    · unfold EntityTables.table at h
      split at h
      · cases h
      · split at h
        · cases h
        · cases h
    · rcases Except.bind_eq_error.1 h with h | ⟨rows, -, h⟩
      · rcases Except.bind_eq_error.1 h with h | ⟨c, -, h⟩
        · unfold Table.column at h
          split at h
          · cases h
          · cases h
        · cases h
      · cases h

theorem EntitySource.Agree.absent_iff {tenant : Uuid} {source source' : EntitySource}
    (h : source.Agree tenant source') : source' = .absent ↔ source = .absent := by
  rw [source'.absent_iff tenant "", source.absent_iff tenant "", h.list]

/-- At the start the active versions of the tenant are the very same. -/
theorem Store.Alike.activeVersions (h : s.Alike ρ caller.tenant t) (entityType : String) :
    t.activeVersions caller.tenant entityType = s.activeVersions caller.tenant entityType := by
  rw [Store.activeVersions, Store.activeVersions, h.ownRows_versions]
  refine List.filterMap_congr fun v hv => ?_
  obtain ⟨hv, htenant⟩ := mem_ownRows.1 hv
  have hrule : (v.rule, caller.tenant) ∈ owned s.rules := htenant ▸ h.left.versionRule v hv
  have hfound := h.rule? hrule
  rw [h.fixed_of_owned h.left.rules hrule] at hfound
  have hsame : (s.rule? v.rule).map (Rule.rename ρ) = s.rule? v.rule := by
    cases hr : s.rule? v.rule with
    | none => rfl
    | some r => exact congrArg some (h.rename_rule (List.mem_of_find?_eq_some hr))
  rw [hfound, hsame]

namespace Evaluation

variable {c : Circumstances}

theorem unlessDuplicate_mirrors {α : Type} {F : α → α} {x y : Txn α} (hx : Mirrors ρ A F x y s t) :
    Mirrors ρ A (Option.map F) (unlessDuplicate x) (unlessDuplicate y) s t := by
  refine .tryCatch (hx.bind fun _ _ _ _ h => .pure h rfl) fun e _ _ _ h => ?_
  split
  · exact .pure h rfl
  · exact .throw h

theorem fileHit_mirrors {target : Target} (h : s.Twins ρ target.tenant t) (today : Date)
    (v : Version) (r : Rule) (tree : Condition) :
    Mirrors ρ target.tenant (Option.map (FindingView.rename ρ)) (fileHit today target v r tree)
      (fileHit today target v r tree) s t := by
  refine .blind_bind h (blind_ofFault _) fun inputs _ => ?_
  refine .blind_bind h (blind_ofFault _) fun plan _ => ?_
  exact unlessDuplicate_mirrors (Filing.fileShown_mirrors h rfl plan)

theorem evaluateVersion_mirrors {target : Target} (h : s.Twins ρ target.tenant t) (v : Version)
    (r : Rule) :
    Mirrors ρ target.tenant (Option.map (FindingView.rename ρ)) (evaluateVersion c target v r)
      (evaluateVersion c target v r) s t := by
  cases htree : Condition.ofValue c.policy v.conditionsOrNone with
  | error e =>
    rw [evaluateVersion_of_malformed htree]
    exact .pure h rfl
  | ok tree =>
    rw [evaluateVersion_of_tree htree]
    refine .blind_bind h (blind_ofFault _) fun holds _ => ?_
    refine .ite Iff.rfl (fun _ => .pure h rfl) fun _ => ?_
    refine .ite Iff.rfl (fun _ => fileHit_mirrors h _ v r tree) fun _ => ?_
    refine .blind_bind h (Filing.blind_key _ _ _ _) fun k hk => .get_bind ?_
    refine .ite ?_ (fun _ => .pure h rfl) fun _ => fileHit_mirrors h _ v r tree
    rw [h.liveFinding? (Filing.yields_key hk).1]

theorem evaluateVersions_mirrors {target : Target} (h : s.Twins ρ target.tenant t)
    (versions : List (Version × Rule)) :
    Mirrors ρ target.tenant (List.map (FindingView.rename ρ)) (evaluateVersions c target versions)
      (evaluateVersions c target versions) s t := by
  induction versions generalizing s t with
  | nil => exact .pure h rfl
  | cons hit rest ih =>
    obtain ⟨v, r⟩ := hit
    refine (evaluateVersion_mirrors h v r).bind fun found _ _ _ h => ?_
    refine (ih h).bind fun more _ _ _ h => .pure h ?_
    rw [List.map_append, Option.toList_map]

theorem evaluate_mirrors (h : s.Alike ρ caller.tenant t) (entityType : Text) (entity : Fields) :
    Mirrors ρ caller.tenant (List.map (FindingView.rename ρ)) (evaluate c caller entityType entity)
      (evaluate c caller entityType entity) s t := by
  refine .blind_bind h.toTwins (blind_ofExcept _) fun target htarget => ?_
  refine .blind_bind h.toTwins (blind_encoded _) fun _ _ => .get_bind ?_
  rw [h.activeVersions]
  have htenant : target.tenant = caller.tenant := by
    rw [Target.ofEntity_eq_ok (yields_ofExcept.1 htarget).1]
  exact htenant ▸ evaluateVersions_mirrors (htenant.symm ▸ h.toTwins) _

theorem evaluateById_of_supplied {source : EntitySource} (h : source ≠ .absent)
    (entityType entityId : Text) : evaluateById c source caller entityType entityId = (do
      match ← Txn.ofExcept (source.get? caller.tenant entityType entityId) with
      | none => throw (.entityNotFound entityType entityId)
      | some entity => evaluate c caller entityType entity) := by
  cases source with
  | absent => exact absurd rfl h
  | memory _ | tables _ => rfl

theorem evaluateById_mirrors {source source' : EntitySource} (h : s.Alike ρ caller.tenant t)
    (hsource : source.Agree caller.tenant source') (entityType entityId : Text) :
    Mirrors ρ caller.tenant (List.map (FindingView.rename ρ))
      (evaluateById c source caller entityType entityId)
      (evaluateById c source' caller entityType entityId) s t := by
  have habsent := hsource.absent_iff
  by_cases hnone : source = .absent
  · rw [hnone, habsent.2 hnone]
    exact .throw h.toTwins
  · rw [evaluateById_of_supplied hnone, evaluateById_of_supplied (mt habsent.1 hnone), hsource.get]
    refine .blind_bind h.toTwins (blind_ofExcept _) fun entity _ => ?_
    cases entity with
    | none => exact .throw h.toTwins
    | some entity => exact evaluate_mirrors h entityType entity

theorem apply_mirrors (h : s.Alike ρ caller.tenant t) (today : Date) (version : Uuid)
    (entityType entityId : Text) (actions severity : Value) (details : Fields) :
    Mirrors ρ caller.tenant (FindingView.rename ρ)
      (apply today caller version entityType entityId actions severity details)
      (apply today caller version entityType entityId actions severity details) s t := by
  refine .argument_bind h h.left.versions (fun _ => rfl) h.versions fun v hv hid htenant _ => ?_
  refine .ruleOf_bind h.toTwins hv htenant fun r hr _ _ => ?_
  refine .blind_bind h.toTwins (blind_ofFault _) fun plan _ => ?_
  rw [h.rename_rule hr, h.rename_version hv]
  exact Filing.fileShown_mirrors h.toTwins rfl plan

theorem createFinding_mirrors (h : s.Alike ρ caller.tenant t) (version : Uuid)
    (entityType entityId : Text) (plan : Plan) (details : Fields) :
    Mirrors ρ caller.tenant (FindingView.rename ρ)
      (createFinding caller version entityType entityId plan details)
      (createFinding caller version entityType entityId plan details) s t := by
  refine .argument_bind h h.left.versions (fun _ => rfl) h.versions fun v hv _ _ _ => ?_
  rw [h.rename_version hv]
  exact Filing.fileShown_mirrors h.toTwins rfl plan

end Evaluation

/-! ## Reviewing -/

namespace Review

theorem upTo_map {α β : Type} (limit : Int) (f : α → β) (xs : List α) :
    upTo limit (xs.map f) = (upTo limit xs).map f := by
  unfold upTo
  split
  · rfl
  · exact List.map_take.symm

theorem mem_of_mem_upTo {α : Type} {limit : Int} {x : α} {xs : List α} (h : x ∈ upTo limit xs) :
    x ∈ xs := by
  unfold upTo at h
  split at h
  · exact h
  · exact List.mem_of_mem_take h

theorem listFindings_mirrors (h : s.Alike ρ caller.tenant t) (limit : Int)
    (filter : FindingFilter) :
    Mirrors ρ caller.tenant (List.map (FindingView.rename ρ)) (listFindings limit caller filter)
      (listFindings limit caller filter) s t := by
  have h := h.toTwins
  refine .blind_bind h (blind_listForM (fun wish => (blind_encoded? wish).discard) _) fun _ _ => ?_
  refine .blind_bind h (blind_column _) fun limit _ => .get_bind (.pure h ?_)
  have hlisted (findings : List Finding) :
      newestFirst (fun f => f.createdAt) (findings.map (Finding.rename ρ)) =
        (newestFirst (fun f => f.createdAt) findings).map (Finding.rename ρ) :=
    newestFirst_map (fun _ => rfl) findings
  rw [h.findings, List.filter_map, hlisted, upTo_map, List.map_map, List.map_map]
  refine List.map_congr_left fun f hf => h.findingView ?_
  obtain ⟨hf, -⟩ := List.mem_filter.1 (mem_newestFirst.1 (mem_of_mem_upTo hf))
  obtain ⟨hf, htenant⟩ := mem_ownRows.1 hf
  rw [← htenant]
  exact mem_owned_self hf

/-- The finding that is saved is there afterwards. -/
theorem owned_saveFindingStatus {f g : Finding} {status : FindingStatus} {s' : Store}
    (hf : f ∈ s.findings) (h : Yields (saveFindingStatus f status) s g s') :
    (g.id, f.tenant) ∈ owned s'.findings := by
  rcases yields_saveFindingStatus.1 h with ⟨-, rfl, rfl⟩ | ⟨-, -, rfl, rfl⟩
  · exact mem_owned_self hf
  · exact mem_owned_self (mem_replaceRow_self hf rfl)

theorem updateStatus_mirrors (h : s.Alike ρ caller.tenant t) (id : Uuid) (label : Text) :
    Mirrors ρ caller.tenant (FindingView.rename ρ) (updateStatus caller id label)
      (updateStatus caller id label) s t := by
  unfold updateStatus
  cases label.string?.bind FindingStatus.ofLabel? with
  | none => exact .throw h.toTwins
  | some status =>
    refine .argument_bind h h.left.findings (fun _ => rfl) h.findings fun f hf _ htenant _ => ?_
    have h := h.toTwins
    refine .ite Iff.rfl (fun _ => ?_) fun _ => .throw h
    refine (Mirrors.saveFindingStatus h hf htenant status).bind fun g _ _ hg h => .showFinding h ?_
    exact htenant ▸ owned_saveFindingStatus hf hg

theorem override_mirrors (h : s.Alike ρ caller.tenant t) (id : Uuid) (draft : OverrideDraft) :
    Mirrors ρ caller.tenant (OverrideView.rename ρ) (override caller id draft)
      (override caller id draft) s t := by
  refine .argument_bind h h.left.findings (fun _ => rfl) h.findings fun f hf _ htenant _ => ?_
  have h := h.toTwins
  refine .guard h Iff.rfl fun _ => .blind_bind h (blind_encoded _) fun action _ => ?_
  refine .blind_bind h (blind_encoded? _) fun _ _ => .blind_bind h (blind_encoded? _) fun _ _ => ?_
  refine .now_bind h (.newRow_bind h.tick ?_)
  have hown : (f.id, caller.tenant) ∈ owned s.findings := htenant ▸ mem_owned_self hf
  refine (Mirrors.addOverride h.tick rfl rfl hown).bind fun _ s₁ t₁ hadded h₁ => ?_
  have hf₁ : f ∈ s₁.findings := by
    rw [yields_modify.1 hadded]
    exact hf
  refine (Mirrors.saveFindingStatus h₁ hf₁ htenant _).bind fun g s₂ t₂ hg h₂ => ?_
  have hg₂ : (g.id, caller.tenant) ∈ owned s₂.findings := htenant ▸ owned_saveFindingStatus hf₁ hg
  exact (Mirrors.showFinding h₂ hg₂).bind fun _ _ _ _ h => .pure h rfl

theorem listOverrides_mirrors (h : s.Alike ρ caller.tenant t) (id : Uuid) :
    Mirrors ρ caller.tenant (List.map (Override.rename ρ)) (listOverrides caller id)
      (listOverrides caller id) s t := by
  have hfinding := Mirrors.argument .finding id h h.left.findings (fun _ => rfl) h.findings
  refine hfinding.discard.bind fun _ s' t' hfound h' => .get_bind (.pure h' ?_)
  obtain ⟨f, hfound⟩ := yields_discard.1 hfound
  obtain ⟨hfound, rfl⟩ := yields_own.1 hfound
  obtain ⟨hf, hid, -⟩ := findOwn_eq_some hfound
  have hfixed : ρ id = id := hid ▸ h.fixed f.id (h.left.findings.below f hf)
  have hsame : (fun o : Override => o.finding == id) ∘ Override.rename ρ =
      fun o => o.finding == id := by
    funext o
    show (ρ o.finding == id) = (o.finding == id)
    rw [← h'.map_eq o.finding id, hfixed]
  rw [h'.overrides, List.filter_map, hsame]
  exact oldestFirst_map (fun _ => rfl) _

end Review

end Rulebook
