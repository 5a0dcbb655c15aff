import Rulebook.Authoring
import Rulebook.Catalogue
import Rulebook.Proofs.Tenancy.Writes

/-!
The calls about packs, regulations, rules and versions, mirrored: on stores that are the same to the
caller's tenant they answer alike, do the same to what it holds, and touch nothing else.
-/
namespace Rulebook

open Txn

variable {ρ : Uuid → Uuid} {s t : Store} {caller : Caller}

/-- At the start the versions of the tenant are the very same. -/
theorem Store.Alike.ownRows_versions (h : s.Alike ρ caller.tenant t) :
    ownRows t.versions caller.tenant = ownRows s.versions caller.tenant := by
  rw [h.versions, map_ownRows_eq_self fun v hv => h.rename_version hv]

/-! ## Packs and regulations -/

namespace Catalogue

theorem createPack_mirrors (h : s.Alike ρ caller.tenant t) (draft : PackDraft) :
    Mirrors ρ caller.tenant (Pack.rename ρ) (createPack caller draft) (createPack caller draft)
      s t := by
  have h := h.toTwins
  refine .blind_bind h (blind_encoded _) fun name _ => .blind_bind h (blind_encoded _) fun _ _ => ?_
  refine .blind_bind h (blind_encoded? _) fun _ _ => .blind_bind h (blind_encoded _) fun _ _ => ?_
  refine .newRow_bind h ?_
  exact (Mirrors.addPack h rfl rfl).bind fun _ _ _ _ h => .pure h rfl

theorem listPacks_mirrors (h : s.Alike ρ caller.tenant t) :
    Mirrors ρ caller.tenant (List.map (Pack.rename ρ)) (listPacks caller) (listPacks caller)
      s t := by
  refine .get_bind (.pure h.toTwins ?_)
  rw [h.packs]
  exact newestFirst_map (fun _ => rfl) _

theorem updatePack_mirrors (h : s.Alike ρ caller.tenant t) (id : Uuid) (change : PackChange) :
    Mirrors ρ caller.tenant (Pack.rename ρ) (updatePack caller id change)
      (updatePack caller id change) s t := by
  refine .argument_bind h h.left.packs (fun _ => rfl) h.packs fun p hp _ htenant _ => ?_
  have h := h.toTwins
  refine .blind_bind h (blind_encoded? _) fun _ _ => .blind_bind h (blind_encoded? _) fun _ _ => ?_
  refine .blind_bind h (blind_encoded? _) fun _ _ => .blind_bind h (blind_encoded? _) fun _ _ => ?_
  exact .savePack h hp htenant rfl rfl

theorem createRegulation_mirrors (h : s.Alike ρ caller.tenant t) (draft : RegulationDraft) :
    Mirrors ρ caller.tenant (Regulation.rename ρ) (createRegulation caller draft)
      (createRegulation caller draft) s t := by
  have hpack (pack : Uuid) := Mirrors.argument .pack pack h h.left.packs (fun _ => rfl) h.packs
  have h := h.toTwins
  unfold createRegulation
  dsimp only
  cases draft.pack
  case' some p => refine (hpack p).discard.bind fun _ s t _ h => ?_
  all_goals
    refine .blind_bind h (blind_encoded _) fun _ _ => .blind_bind h (blind_encoded _) fun _ _ => ?_
    refine .blind_bind h (blind_encoded? _) fun _ _ => ?_
    refine .blind_bind h (blind_encoded? _) fun _ _ => ?_
    refine .blind_bind h (blind_encoded? _) fun _ _ => ?_
    refine .blind_bind h (blind_encoded? _) fun _ _ => ?_
    refine .blind_bind h (blind_encoded _) fun _ _ => .newRow_bind h ?_
    exact (Mirrors.addRegulation h rfl rfl).bind fun _ _ _ _ h => .pure h rfl

theorem listRegulations_mirrors (h : s.Alike ρ caller.tenant t) (pack : Option Uuid) :
    Mirrors ρ caller.tenant (List.map (Regulation.rename ρ)) (listRegulations caller pack)
      (listRegulations caller pack) s t := by
  refine .get_bind (.pure h.toTwins ?_)
  rw [h.regulations, List.filter_map]
  exact newestFirst_map (fun _ => rfl) _

end Catalogue

namespace Authoring

theorem blind_checkConditions (conditions : Value) : Blind (checkConditions conditions) :=
  (blind_ofExcept _).discard

theorem blind_checkActions (actions : Value) : Blind (checkActions actions) :=
  (blind_ofExcept _).bind fun _ => blind_pure _

theorem blind_checkDraft (draft : VersionDraft) : Blind (checkDraft draft) :=
  (blind_checkConditions _).bind fun _ => (blind_checkActions _).bind fun _ => blind_pure _

theorem addDraft_mirrors {rule : Uuid} (h : s.Twins ρ caller.tenant t)
    (hrule : (rule, caller.tenant) ∈ owned s.rules) (number : Int) (draft : VersionDraft) :
    Mirrors ρ caller.tenant (Version.rename ρ) (addDraft caller rule number draft)
      (addDraft caller (ρ rule) number draft) s t := by
  refine .blind_bind h (blind_column _) fun _ _ => .blind_bind h (blind_encoded _) fun _ _ => ?_
  refine .blind_bind h (blind_encoded? _) fun _ _ => .newRow_bind h ?_
  exact (Mirrors.addVersion h rfl rfl hrule).bind fun _ _ _ _ h => .pure h rfl

/-- Adding a version does nothing to the rules. -/
theorem rules_addDraft {rule : Uuid} {number : Int} {draft : VersionDraft} {v : Version}
    {s' : Store} (h : Yields (addDraft caller rule number draft) s v s') : s'.rules = s.rules := by
  obtain ⟨_, -, h⟩ := (reads_column _).yields_bind.1 h
  obtain ⟨_, -, h⟩ := (reads_encoded _).yields_bind.1 h
  obtain ⟨_, -, h⟩ := (reads_encoded? _).yields_bind.1 h
  obtain ⟨_, t, hadded, h⟩ := yields_bind.1 (yields_newRow_bind.1 h)
  obtain ⟨-, rfl⟩ := yields_pure.1 h
  rw [(yields_addVersion.1 hadded).2]
  rfl

theorem createRule_mirrors (h : s.Alike ρ caller.tenant t) (draft : RuleDraft)
    (first : VersionDraft) :
    Mirrors ρ caller.tenant (RuleView.rename ρ) (createRule caller draft first)
      (createRule caller draft first) s t := by
  refine .blind_bind h.toTwins (blind_checkDraft _) fun first _ => ?_
  have hpack := Mirrors.argument .pack draft.pack h h.left.packs (fun _ => rfl) h.packs
  refine hpack.discard.bind fun _ s' t' hfound h' => ?_
  obtain ⟨p, hp⟩ := yields_discard.1 hfound
  obtain ⟨hp, rfl⟩ := yields_own.1 hp
  obtain ⟨hp, hid, htenant⟩ := findOwn_eq_some hp
  have hown : (draft.pack, caller.tenant) ∈ owned s'.packs := mem_owned.2 ⟨p, hp, hid, htenant⟩
  have hown' : (draft.pack, caller.tenant) ∈ owned t'.packs := by
    rw [← h.fixed_of_owned h.left.packs hown]
    exact owned_rename (fun _ => rfl) h'.packs hown
  refine .blind_bind h' (blind_encoded _) fun _ _ => .blind_bind h' (blind_encoded? _) fun _ _ => ?_
  refine .newRow_bind h' ?_
  refine (Mirrors.addRule h' rfl rfl hown hown').bind fun _ s₁ t₁ hadded h₁ => ?_
  have hrule : ((⟨s'.nextId⟩ : Uuid), caller.tenant) ∈ owned s₁.rules := by
    rw [yields_modify.1 hadded]
    exact mem_owned_self (List.mem_append_right _ (List.mem_singleton_self _))
  refine (addDraft_mirrors h₁ hrule 1 _).discard.bind fun _ s₂ t₂ hdrafted h₂ => ?_
  obtain ⟨_, hdrafted⟩ := yields_discard.1 hdrafted
  refine .showRule h₂ ?_
  rw [rules_addDraft hdrafted]
  exact hrule

theorem listRules_mirrors (h : s.Alike ρ caller.tenant t) (pack : Option Uuid) :
    Mirrors ρ caller.tenant (List.map (RuleView.rename ρ)) (listRules caller pack)
      (listRules caller pack) s t := by
  have h := h.toTwins
  refine .get_bind ?_
  dsimp only
  have hlisted (rules : List Rule) :
      newestFirst (fun r => r.updatedAt) (rules.map (Rule.rename ρ)) =
        (newestFirst (fun r => r.updatedAt) rules).map (Rule.rename ρ) :=
    newestFirst_map (fun _ => rfl) rules
  rw [h.rules, List.filter_map, hlisted]
  refine .mapM_reads h reads_showRule fun r hr t h => .showRule h ?_
  obtain ⟨hr, -⟩ := List.mem_filter.1 (mem_newestFirst.1 hr)
  obtain ⟨hr, htenant⟩ := mem_ownRows.1 hr
  rw [← htenant]
  exact mem_owned_self hr

theorem createVersion_mirrors (h : s.Alike ρ caller.tenant t) (rule : Uuid) (draft : VersionDraft) :
    Mirrors ρ caller.tenant (Version.rename ρ) (createVersion caller rule draft)
      (createVersion caller rule draft) s t := by
  refine .blind_bind h.toTwins (blind_checkDraft _) fun draft _ => ?_
  refine .argument_bind h h.left.rules (fun _ => rfl) h.rules fun r hr hid htenant _ => ?_
  refine .get_bind ?_
  rw [show (r.rename ρ).id = ρ r.id from rfl, h.nextNumber]
  refine (addDraft_mirrors h.toTwins ?_ _ draft).bind fun v _ _ _ h => .showVersion h v
  rw [← htenant]
  exact mem_owned_self hr

theorem updateVersion_mirrors (h : s.Alike ρ caller.tenant t) (id : Uuid) (change : VersionChange) :
    Mirrors ρ caller.tenant (Version.rename ρ) (updateVersion caller id change)
      (updateVersion caller id change) s t := by
  refine .argument_bind h h.left.versions (fun _ => rfl) h.versions fun v hv hid htenant _ => ?_
  have h := h.toTwins
  refine .guard h Iff.rfl fun _ => ?_
  refine .blind_bind h (blind_optionForM blind_checkConditions _) fun _ _ => ?_
  refine .blind_bind h (blind_optionForM (fun a => (blind_checkActions a).discard) _) fun _ _ => ?_
  refine .blind_bind h (blind_encoded? _) fun _ _ => .blind_bind h (blind_encoded? _) fun _ _ => ?_
  exact (Mirrors.saveVersion h hv htenant _).bind fun w _ _ _ h => .showVersion h w

theorem forceVersion_mirrors (h : s.Alike ρ caller.tenant t) (id : Uuid) (write : VersionWrite) :
    Mirrors ρ caller.tenant (Version.rename ρ) (forceVersion caller id write)
      (forceVersion caller id write) s t := by
  refine .argument_bind h h.left.versions (fun _ => rfl) h.versions fun v hv hid htenant _ => ?_
  have h := h.toTwins
  refine .blind_bind h (blind_optionMapM blind_column _) fun _ _ => ?_
  refine .blind_bind h (blind_encoded? _) fun _ _ => .blind_bind h (blind_encoded? _) fun _ _ => ?_
  refine .blind_bind h (blind_optionMapM blind_encoded? _) fun _ _ => ?_
  refine .guard h Iff.rfl fun _ => ?_
  exact (Mirrors.saveVersion h hv htenant _).bind fun w _ _ _ h => .showVersion h w

theorem nextNumber_mirrors (h : s.Alike ρ caller.tenant t) (rule : Uuid) :
    Mirrors ρ caller.tenant id (nextNumber caller rule) (nextNumber caller rule) s t := by
  refine .get_bind (.pure h.toTwins ?_)
  rw [Store.nextNumber, Store.nextNumber, h.ownRows_versions]
  rfl

/-- Of a rule that the tenant does not own, it owns no versions. -/
theorem not_mem_versionsOf {rule tenant : Uuid} (hs : s.Intact)
    (hrule : (rule, tenant) ∉ owned s.rules) (p : Version → Bool) :
    ((s.versionsOf rule).filter fun v => v.tenant == tenant && p v) = [] := by
  refine List.filter_eq_nil_iff.2 fun v hv hp => hrule ?_
  obtain ⟨hv, hvrule⟩ := mem_versionsOf.1 hv
  obtain ⟨htenant, -⟩ := Bool.and_eq_true_iff.1 hp
  rw [← eq_of_beq htenant, ← hvrule]
  exact hs.versionRule v hv

theorem listVersions_mirrors (h : s.Alike ρ caller.tenant t) (rule : Uuid) (status : Option Text) :
    Mirrors ρ caller.tenant (List.map (Version.rename ρ)) (listVersions caller rule status)
      (listVersions caller rule status) s t := by
  refine .blind_bind h.toTwins (blind_encoded? _) fun status _ => .get_bind ?_
  dsimp only
  by_cases hrule : (rule, caller.tenant) ∈ owned s.rules
  · have hversions := h.versionsOf hrule
    rw [h.fixed_of_owned h.left.rules hrule] at hversions
    rw [hversions, List.filter_map]
    exact .mapM_reads h.toTwins reads_showVersion fun v _ t h => .showVersion h v
  · have hrule' : (rule, caller.tenant) ∉ owned t.rules := by
      rwa [h.owned_iff h.left.rules (fun _ => rfl) h.rules]
    rw [not_mem_versionsOf h.left hrule, not_mem_versionsOf h.right hrule']
    exact .pure h.toTwins rfl

theorem listActive_mirrors (h : s.Alike ρ caller.tenant t) (entityType : Text) :
    Mirrors ρ caller.tenant (List.map (Version.rename ρ)) (listActive caller entityType)
      (listActive caller entityType) s t := by
  refine .blind_bind h.toTwins (blind_encoded _) fun _ _ => .get_bind (.pure h.toTwins ?_)
  rw [h.activeVersions, List.map_map, List.map_map]
  rfl

end Authoring

/-! ## The life of a version -/

namespace Lifecycle

theorem versionsAt_rename {rule : Uuid} (h : s.Twins ρ caller.tenant t)
    (hrule : (rule, caller.tenant) ∈ owned s.rules) (status : VersionStatus) :
    t.versionsAt caller.tenant (ρ rule) status =
      (s.versionsAt caller.tenant rule status).map (Version.rename ρ) := by
  rw [Store.versionsAt, Store.versionsAt, h.versionsOf hrule, List.filter_map]
  rfl

theorem moveVersionsAt_mirrors {rule : Uuid} (h : s.Twins ρ caller.tenant t)
    (hrule : (rule, caller.tenant) ∈ owned s.rules) (start status : VersionStatus) :
    Mirrors ρ caller.tenant id (saveVersionStatus status (s.versionsAt caller.tenant rule start))
      (saveVersionStatus status (t.versionsAt caller.tenant (ρ rule) start)) s t := by
  rw [versionsAt_rename h hrule]
  refine .saveVersionStatus h (fun v hv => ?_) (nodup_versionsAt h.left _ _ _) status
  obtain ⟨hv, -, htenant, -⟩ := mem_versionsAt.1 hv
  exact ⟨hv, htenant⟩

/-- The rule that is saved is there afterwards. -/
theorem owned_saveRule {r q : Rule} {current : Option Uuid} {status : RuleStatus} {s' : Store}
    (hr : r ∈ s.rules)
    (h : Yields (saveRule r { r with currentVersion := current, status := status }) s q s') :
    (q.id, r.tenant) ∈ owned s'.rules := by
  rcases yields_saveRule.1 h with ⟨-, rfl, rfl⟩ | ⟨-, rfl, rfl⟩
  · exact mem_owned_self hr
  · exact mem_owned_self (mem_replaceRow_self hr rfl)

theorem submitRule_mirrors (h : s.Alike ρ caller.tenant t) (id : Uuid) :
    Mirrors ρ caller.tenant (RuleView.rename ρ) (submitRule caller id) (submitRule caller id)
      s t := by
  refine .argument_bind h h.left.rules (fun _ => rfl) h.rules fun r hr _ htenant _ => ?_
  have h := h.toTwins
  have hrule : (r.id, caller.tenant) ∈ owned s.rules := htenant ▸ mem_owned_self hr
  refine .get_bind (.guard h ?_ fun _ => ?_)
  · show (t.versionsAt caller.tenant (ρ r.id) .draft).isEmpty = true ↔
      (s.versionsAt caller.tenant r.id .draft).isEmpty = true
    rw [versionsAt_rename h hrule, List.isEmpty_map]
  refine (moveVersionsAt_mirrors h hrule .draft .inReview).bind fun _ s₁ t₁ hmoved h₁ => ?_
  obtain ⟨-, -, hrules, -⟩ := yields_moveVersionsAt h.left hr htenant hmoved
  have hr₁ : r ∈ s₁.rules := hrules ▸ hr
  refine .ite Iff.rfl (fun _ => ?_) fun _ => ?_
  · refine (Mirrors.saveRule h₁ hr₁ htenant r.currentVersion .inReview).bind fun q s₂ t₂ hq h₂ => ?_
    exact .showRule h₂ (htenant ▸ owned_saveRule hr₁ hq)
  · refine (Mirrors.pure h₁ rfl).bind fun q s₂ t₂ hq h₂ => .showRule h₂ ?_
    obtain ⟨rfl, rfl⟩ := yields_pure.1 hq
    exact htenant ▸ mem_owned_self hr₁

theorem readyVersion_mirrors (h : s.Alike ρ caller.tenant t) (id : Uuid) (step : VersionStep) :
    Mirrors ρ caller.tenant (Version.rename ρ) (readyVersion caller id step)
      (readyVersion caller id step) s t :=
  .argument_bind h h.left.versions (fun _ => rfl) h.versions fun _ _ _ _ _ =>
    .guard h.toTwins Iff.rfl fun _ => .pure h.toTwins rfl

theorem approveVersion_mirrors (h : s.Alike ρ caller.tenant t) (id : Uuid) :
    Mirrors ρ caller.tenant (Version.rename ρ) (approveVersion caller id)
      (approveVersion caller id) s t := by
  refine (readyVersion_mirrors h id .approve).bind fun v s₁ t₁ hready h₁ => .now_bind h₁ ?_
  obtain ⟨hfound, -, rfl⟩ := yields_readyVersion.1 hready
  obtain ⟨hv, -, htenant⟩ := findOwn_eq_some hfound
  exact (Mirrors.saveVersion h₁.tick hv htenant _).bind fun w _ _ _ h => .showVersion h w

theorem activateVersion_mirrors (h : s.Alike ρ caller.tenant t) (id : Uuid) :
    Mirrors ρ caller.tenant (RuleView.rename ρ) (activateVersion caller id)
      (activateVersion caller id) s t := by
  refine (readyVersion_mirrors h id .activate).bind fun v s₁ t₁ hready h₁ => ?_
  obtain ⟨hfound, hstatus, rfl⟩ := yields_readyVersion.1 hready
  obtain ⟨hv, -, hvtenant⟩ := findOwn_eq_some hfound
  have hfixed : (v.rename ρ).id = v.id := h.fixed _ (h.left.versions.below v hv)
  refine .reference_bind h₁ h₁.left.rules (fun _ => rfl) h₁.rules
    (hvtenant ▸ h₁.left.versionRule v hv) fun r hr _ htenant => ?_
  have hrule : (r.id, caller.tenant) ∈ owned s₁.rules := htenant ▸ mem_owned_self hr
  refine .get_bind ?_
  refine (moveVersionsAt_mirrors h₁ hrule .active .retired).bind fun _ s₂ t₂ hmoved h₂ => ?_
  obtain ⟨hkeyed, hkept, hrules, -⟩ := yields_moveVersionsAt h₁.left hr htenant hmoved
  have hv₂ : v ∈ s₂.versions := hkept v hv fun hactive => by rw [hstatus] at hactive; cases hactive
  refine (Mirrors.saveVersion h₂ hv₂ hvtenant _).discard.bind fun _ s₃ t₃ hsaved h₃ => ?_
  obtain ⟨a, hsaved⟩ := yields_discard.1 hsaved
  obtain ⟨-, -, -, hrules₃, -⟩ := yields_saveVersion_plain rfl rfl hkeyed hv₂ hsaved
  have hr₃ : r ∈ s₃.rules := by
    rw [hrules₃, hrules]
    exact hr
  rw [hfixed]
  refine (Mirrors.saveRule h₃ hr₃ htenant (some v.id) .active).bind fun q s₄ t₄ hq h₄ => ?_
  exact .showRule h₄ (htenant ▸ owned_saveRule hr₃ hq)

theorem retireVersion_mirrors (h : s.Alike ρ caller.tenant t) (id : Uuid) :
    Mirrors ρ caller.tenant (Version.rename ρ) (retireVersion caller id)
      (retireVersion caller id) s t := by
  refine .argument_bind h h.left.versions (fun _ => rfl) h.versions fun v hv _ htenant _ => ?_
  have hid : (v.rename ρ).id = v.id := h.fixed _ (h.left.versions.below v hv)
  refine .guard h.toTwins Iff.rfl fun _ => ?_
  refine (Mirrors.saveVersion h.toTwins hv htenant _).bind fun retired s₁ t₁ hsaved h₁ => ?_
  obtain ⟨-, -, -, hrules, -⟩ := yields_saveVersion_plain rfl rfl h.left.versions hv hsaved
  refine .ite Iff.rfl (fun _ => ?_) fun _ => .showVersion h₁ retired
  refine .reference_bind h₁ h₁.left.rules (fun _ => rfl) h₁.rules ?_ fun r hr _ hrtenant => ?_
  · rw [hrules, ← htenant]
    exact h.left.versionRule v hv
  rw [hid]
  refine .ite Iff.rfl (fun _ => ?_) fun _ => .showVersion h₁ retired
  refine (Mirrors.saveRule h₁ hr hrtenant none .draft).discard.bind fun _ s₂ t₂ _ h₂ => ?_
  exact .showVersion h₂ retired

end Lifecycle

end Rulebook
