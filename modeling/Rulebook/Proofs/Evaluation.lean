import Mathlib
import Rulebook.Proofs.History

/-!
What an evaluation finds. The active versions about the type of an entity are visited one after the
other (`Store.mem_activeVersions`); a visit adds one finding where the version holds and no live
finding is about it, and does nothing where not (`Evaluation.yields_evaluateVersion`). A finding of
one version does not count for another one, so what is found by all visits is decided by the store
before the first of them (`Evaluation.yields_evaluateVersions`).
-/
namespace Rulebook

open Txn

variable {s s' s'' : Store}

/-! ## Findings with their tasks -/

/-- The store once findings have been added with their tasks. -/
def Store.Gains (s s' : Store) (found : List FindingView) : Prop :=
  s' = { s with
    findings := s.findings ++ found.map (fun view => view.finding)
    tasks := s.tasks ++ found.flatMap (fun view => view.tasks)
    nextId := s'.nextId, clock := s'.clock }

theorem Store.Gains.nil (s : Store) : s.Gains s [] := by
  simp [Store.Gains]

theorem Store.Gains.findings {found : List FindingView} (h : s.Gains s' found) :
    s'.findings = s.findings ++ found.map fun view => view.finding :=
  congrArg Store.findings (show s' = _ from h)

theorem Store.Gains.tasks {found : List FindingView} (h : s.Gains s' found) :
    s'.tasks = s.tasks ++ found.flatMap fun view => view.tasks :=
  congrArg Store.tasks (show s' = _ from h)

theorem Store.Gains.rules {found : List FindingView} (h : s.Gains s' found) :
    s'.rules = s.rules := by
  rw [show s' = _ from h]

theorem Store.Gains.versions {found : List FindingView} (h : s.Gains s' found) :
    s'.versions = s.versions := by
  rw [show s' = _ from h]

theorem Store.Gains.append {found more : List FindingView} (h : s.Gains s' found)
    (h' : s'.Gains s'' more) : s.Gains s'' (found ++ more) := by
  unfold Store.Gains at h h' ⊢
  rw [h', h]
  simp [List.append_assoc]

namespace Filing

variable {subject : Subject} {plan : Plan}

/-- The tasks that are stored with a finding are all its tasks. -/
theorem Stores.tasksOf (hs : s.Supplied) {f : Finding} {ts : List Task}
    (hfiles : Files subject plan f ts) (hstores : Stores s s' f ts) : s'.tasksOf f.id = ts := by
  obtain ⟨hid, -, -, clock, htime, hs'⟩ := hstores
  obtain ⟨dates, -, hdrafted⟩ := hfiles.tasks
  have hold : s.tasks.filter (fun k => k.finding == f.id) = [] := by
    refine List.filter_eq_nil_iff.2 fun k hk heq => ?_
    have hlt := hs.tasks k hk
    rw [eq_of_beq heq, hid] at hlt
    exact absurd hlt (Nat.lt_irrefl _)
  have hnew : ts.filter (fun k => k.finding == f.id) = ts := by
    refine List.filter_eq_self.2 (forall_mem_of_forall₂ hdrafted fun draft k hk => ?_)
    exact beq_iff_eq.2 hk.finding_eq
  rw [Store.tasksOf, hs', List.filter_append, hold, hnew, List.nil_append]
  exact (Ticks.listed htime.2 (.refl ts)).1

/-- The new finding is shown with exactly the tasks that were stored with it. -/
theorem yields_fileShown (hs : s.Supplied) {view : FindingView}
    (h : Yields (fileShown subject plan) s view s') :
    isShowable plan = true ∧ Files subject plan view.finding view.tasks ∧
      Stores s s' view.finding view.tasks := by
  unfold fileShown at h
  obtain ⟨f, t, hfile, h⟩ := yields_bind.1 h
  obtain ⟨ts, hfiles, hstores⟩ := yields_file hfile
  split at h
  · next hshow =>
    rw [showFinding, yields_get_bind] at h
    obtain ⟨hview, hsame⟩ := yields_pure.1 h
    rw [hview, hsame]
    show _ ∧ Files subject plan f (t.tasksOf f.id) ∧ Stores s t f (t.tasksOf f.id)
    rw [hstores.tasksOf hs hfiles]
    exact ⟨hshow, hfiles, hstores⟩
  · exact absurd h not_yields_throw

/-- A filing that is refused as a duplicate has stored nothing. -/
theorem fileShown_duplicate {key : FindingKey}
    (h : Fails (fileShown subject plan) s (.duplicateFinding key) s') :
    s' = s ∧ Fails (file subject plan) s (.duplicateFinding key) s := by
  unfold fileShown at h
  rcases fails_bind.1 h with h | ⟨f, t, -, h⟩
  · obtain rfl := (undone_file subject plan).fails h
    exact ⟨rfl, h⟩
  · split at h
    · cases h
    · obtain ⟨heq, -⟩ := fails_throw.1 h
      cases heq

end Filing

namespace Evaluation

variable {c : Circumstances} {t : Target} {v : Version} {r : Rule}

/-! ## Which versions are to be found -/

/-- The conditions of a version can be read, and hold for an entity. -/
def Holds (c : Circumstances) (t : Target) (v : Version) : Prop :=
  ∃ tree, Condition.ofValue c.policy v.conditionsOrNone = .ok tree ∧
    tree.evaluate t.context = .ok true

/-- A live finding of a version is about an entity. -/
def Pending (s : Store) (t : Target) (version : Uuid) : Prop :=
  ∃ f ∈ s.findings, f.status.isLive = true ∧ f.tenant = t.tenant ∧
    Text.ofString f.entityType = t.entityType ∧ Text.ofString f.entityId = t.entityId ∧
    f.version = version

theorem liveFinding?_isSome_iff {version : Uuid} {key : FindingKey}
    (h : Yields (Filing.key t.tenant version t.entityType t.entityId) s key s) :
    (s.liveFinding? key).isSome = true ↔ Pending s t version := by
  obtain ⟨htenant, hversion, htype, hid⟩ := Filing.yields_key h
  have hstring : ∀ {a b : String} {u : Text}, u.string? = some b →
      (a = b ↔ Text.ofString a = u) := by
    intro a b u hu
    constructor
    · intro hab
      rw [hab]
      exact Text.ofString_of_string? hu
    · intro hau
      rw [← hau, Text.string?_ofString] at hu
      exact Option.some.inj hu
  rw [Store.liveFinding?, List.find?_isSome]
  simp only [Finding.isLiveFor, Bool.and_eq_true, beq_iff_eq, Pending]
  have hkey : ∀ f : Finding, f.key = key ↔ f.tenant = t.tenant ∧
      Text.ofString f.entityType = t.entityType ∧ Text.ofString f.entityId = t.entityId ∧
      f.version = version := by
    intro f
    rw [← hstring htype, ← hstring hid, ← htenant, ← hversion]
    obtain ⟨tenant, entityType, entityId, w⟩ := key
    simp only [Finding.key, FindingKey.mk.injEq]
  simp only [hkey]

end Evaluation

/-- The listing of active versions depends on rules and versions only. -/
theorem Store.activeVersions_congr (hrules : s'.rules = s.rules)
    (hversions : s'.versions = s.versions) (tenant : Uuid) (name : String) :
    s'.activeVersions tenant name = s.activeVersions tenant name := by
  unfold Store.activeVersions Store.rule?
  rw [hrules, hversions]

/-- The active versions of a tenant, each with its rule, are as they are in the tables. -/
theorem Store.Intact.mem_activeVersions (hs : s.Intact) {tenant : Uuid} {entityType : String}
    {v : Version} {r : Rule} :
    (v, r) ∈ s.activeVersions tenant entityType ↔
      v ∈ s.versions ∧ v.tenant = tenant ∧ v.status = .active ∧ r ∈ s.rules ∧ r.id = v.rule ∧
        r.covers entityType = true := by
  rw [Store.activeVersions, List.mem_filterMap]
  constructor
  · rintro ⟨w, hw, h⟩
    obtain ⟨hw, htenant⟩ := mem_ownRows.1 hw
    split at h
    · next hactive =>
      split at h
      · next q hq =>
        split at h
        · next hcovers =>
          cases h
          obtain ⟨hr, hid⟩ := hs.rule?_eq_some.1 hq
          exact ⟨hw, htenant, by simpa [Version.isActive] using hactive, hr, hid, hcovers⟩
        · cases h
      · cases h
    · cases h
  · rintro ⟨hv, htenant, hactive, hr, hid, hcovers⟩
    refine ⟨v, mem_ownRows.2 ⟨hv, htenant⟩, ?_⟩
    rw [if_pos (by simp [Version.isActive, hactive]), hs.rule?_eq_some.2 ⟨hr, hid⟩]
    exact if_pos hcovers

/-- What is read off the results of some rows, where it is also read off the rows. -/
theorem sublist_map_filterMap {α β γ : Type} {f : α → Option β} {g : β → γ} {k : α → γ}
    (h : ∀ a b, f a = some b → g b = k a) (xs : List α) :
    ((xs.filterMap f).map g).Sublist (xs.map k) := by
  induction xs with
  | nil => exact .slnil
  | cons x xs ih =>
    rw [List.filterMap_cons, List.map_cons]
    split
    · exact ih.cons _
    · next y hy =>
      rw [List.map_cons, h x y hy]
      exact ih.cons_cons _

/-- The active versions stand in the order of the table. -/
theorem Store.activeVersions_sublist (s : Store) (tenant : Uuid) (entityType : String) :
    ((s.activeVersions tenant entityType).map Prod.fst).Sublist s.versions := by
  have hown : ((s.activeVersions tenant entityType).map Prod.fst).Sublist
      ((ownRows s.versions tenant).map id) := by
    refine sublist_map_filterMap (fun v p hp => ?_) _
    split at hp
    · split at hp
      · split at hp
        · cases hp
          rfl
        · cases hp
      · cases hp
    · cases hp
  rw [List.map_id] at hown
  exact hown.trans List.filter_sublist

/-- No version is visited twice. -/
theorem Store.Intact.nodup_activeVersions (hs : s.Intact) (tenant : Uuid) (entityType : String) :
    ((s.activeVersions tenant entityType).map fun p => p.1.id).Nodup := by
  have hids := (s.activeVersions_sublist tenant entityType).map fun v => v.id
  rw [List.map_map] at hids
  exact hs.versions.nodup.sublist hids

namespace Evaluation

variable {c : Circumstances} {t : Target} {v : Version} {r : Rule}

/-! ## What a finding says -/

/-- A stored task is what was planned. -/
structure Assigned (f : Finding) (draft : TaskDraft) (k : Task) : Prop where
  tenant_eq : k.tenant = f.tenant
  finding_eq : k.finding = f.id
  title_eq : draft.title = .text (Text.ofString k.title)
  status_eq : k.status = "open"
  dueDate_eq : Filing.dueDate draft.dueDate = .ok k.dueDate
  artifacts_eq : k.artifacts = draft.artifacts
  notes_eq : draft.notes = (k.notes.map fun n => .text (Text.ofString n)).getD .null

/-- A finding of a version on an entity, with the snapshot and the plan that it is made from. -/
structure Reports (t : Target) (v : Version) (r : Rule) (inputs : Fields) (plan : Plan)
    (view : FindingView) : Prop where
  tenant_eq : view.finding.tenant = t.tenant
  entityType_eq : Text.ofString view.finding.entityType = t.entityType
  entityId_eq : Text.ofString view.finding.entityId = t.entityId
  pack_eq : view.finding.pack = some r.pack
  rule_eq : view.finding.rule = r.id
  version_eq : view.finding.version = v.id
  status_eq : view.finding.status = .open
  title_eq : plan.finding.title = .text (Text.ofString view.finding.title)
  severity_eq : plan.finding.severity = .text (Text.ofString view.finding.severity)
  dueDate_eq : Filing.dueDate plan.finding.dueDate = .ok view.finding.dueDate
  details_eq : view.finding.details = ([("rule_name", .text r.name),
    ("inputs_snapshot", .object inputs), ("conditions", v.conditions), ("actions", v.actions),
    ("required_artifacts", .list plan.finding.artifacts), ("blocks", .list plan.finding.blocks)] :
      Fields)
  tasks : List.Forall₂ (Assigned view.finding) plan.tasks view.tasks

/-- A finding is what the conditions and the actions of a version make of an entity. -/
def Found (c : Circumstances) (t : Target) (hit : Version × Rule) (view : FindingView) : Prop :=
  ∃ tree inputs plan, Condition.ofValue c.policy hit.1.conditionsOrNone = .ok tree ∧
    tree.snapshot t.context t.entityType = .ok inputs ∧
    Plan.ofValue hit.1.actions (.text hit.1.severity) c.today = .ok plan ∧
    Reports t hit.1 hit.2 inputs plan view

theorem text_of_cellOf {v : Value} {a : String} (hv : v.isText = true)
    (h : cellOf v = .ok (some a)) : v = .text (Text.ofString a) := by
  cases v with
  | text u =>
    obtain ⟨b, hb, hu⟩ := cellOf_text h
    rw [Option.some.inj hb, hu]
  | _ => cases hv

theorem assigned_of_drafted {f : Finding} {tenant : Uuid} {drafts : List TaskDraft}
    {dates : List (Option Date)} {ts : List Task}
    (hdates : List.Forall₂ (fun d due => Filing.dueDate d.dueDate = .ok due) drafts dates)
    (hdrafted : List.Forall₂ (Filing.Drafted tenant f.id) (drafts.zip dates) ts)
    (htenant : f.tenant = tenant)
    (hshow : (drafts.all fun d => d.title.isText && (d.notes.isText || d.notes.isNull)) = true) :
    List.Forall₂ (Assigned f) drafts ts := by
  induction hdates generalizing ts with
  | nil =>
    cases hdrafted
    exact .nil
  | @cons draft due drafts dates hdue _ ih =>
    rw [List.zip_cons_cons] at hdrafted
    cases hdrafted with
    | @cons _ k _ ts hfirst hrest =>
      rw [List.all_cons, Bool.and_eq_true, Bool.and_eq_true, Bool.or_eq_true] at hshow
      obtain ⟨⟨htitle, hnotes⟩, hshow⟩ := hshow
      refine .cons ⟨hfirst.tenant_eq.trans htenant.symm, hfirst.finding_eq,
        text_of_cellOf htitle hfirst.title_eq, hfirst.status_eq, ?_, hfirst.artifacts_eq, ?_⟩
        (ih hrest hshow)
      · rw [hfirst.dueDate_eq]
        exact hdue
      · have hcell := hfirst.notes_eq
        dsimp only at hcell
        cases hnote : draft.notes with
        | text u =>
          rw [hnote] at hcell
          obtain ⟨b, hb, hu⟩ := cellOf_text hcell
          rw [hb, ← hu]
          rfl
        | null =>
          rw [hnote] at hcell
          have hnone : k.notes = none := (Except.ok.inj hcell).symm
          rw [hnone]
          rfl
        | _ =>
          rw [hnote] at hnotes
          rcases hnotes with h | h <;> cases h

theorem reports_of_files {inputs : Fields} {plan : Plan} {view : FindingView}
    (hshow : Filing.isShowable plan = true)
    (h : Filing.Files (subject t v r inputs) plan view.finding view.tasks) :
    Reports t v r inputs plan view := by
  rw [Filing.isShowable, Bool.and_eq_true, Bool.and_eq_true] at hshow
  obtain ⟨⟨htitle, hseverity⟩, htasks⟩ := hshow
  obtain ⟨dates, hdates, hdrafted⟩ := h.tasks
  exact ⟨h.tenant_eq, h.entityType_eq, h.entityId_eq, h.pack_eq, h.rule_eq, h.version_eq,
    h.status_eq, text_of_cellOf htitle h.title_eq, text_of_cellOf hseverity h.severity_eq,
    h.dueDate_eq, h.details_eq,
    assigned_of_drafted (Except.mapM_ok hdates) hdrafted h.tenant_eq htasks⟩

/-! ## One version -/

/-- Where a finding of a version is stored, none was pending. -/
theorem not_pending_of_stores (hs : s.Supplied) {inputs : Fields} {plan : Plan} {f : Finding}
    {ts : List Task} (hfiles : Filing.Files (subject t v r inputs) plan f ts)
    (hstores : Filing.Stores s s' f ts) : ¬ Pending s t v.id := by
  intro hpending
  have hkey : Yields (Filing.key t.tenant v.id t.entityType t.entityId) s f.key s :=
    hfiles.yields_key
  obtain ⟨g, hg, hlive⟩ := List.find?_isSome.1 ((liveFinding?_isSome_iff hkey).2 hpending)
  obtain ⟨hnew, -, hunique, -⟩ := hstores
  have hne : f.id ≠ g.id := by
    rintro heq
    have hlt := hs.findings g hg
    rw [← heq, hnew] at hlt
    exact Nat.lt_irrefl _ hlt
  have hclash := hunique g hg
  simp [Finding.clashes, hne, hlive, hfiles.status_eq, FindingStatus.isLive] at hclash

/-- Where a duplicate is let pass, there is a finding, or there was a duplicate. -/
theorem yields_unlessDuplicate {α : Type} {x : Txn α} {found : Option α}
    (h : Yields (unlessDuplicate x) s found s') :
    (∃ a, found = some a ∧ Yields x s a s') ∨
      found = none ∧ ∃ key, Fails x s (.duplicateFinding key) s' := by
  unfold unlessDuplicate at h
  rcases yields_tryCatch.1 h with h | ⟨e, u, hfails, h⟩
  · obtain ⟨a, u, hx, h⟩ := yields_bind.1 h
    obtain ⟨hfound, rfl⟩ := yields_pure.1 h
    exact Or.inl ⟨a, hfound, hx⟩
  · rcases fails_bind.1 hfails with hx | ⟨_, _, -, hpure⟩
    · split at h
      · next key =>
        obtain ⟨hfound, rfl⟩ := yields_pure.1 h
        exact Or.inr ⟨hfound, key, hx⟩
      · exact absurd h not_yields_throw
    · exact absurd hpure not_fails_pure

/-- A version that holds files its finding, unless one is pending: then nothing is left of the
attempt. -/
theorem yields_fileHit (hs : s.Supplied) {tree : Condition} {found : Option FindingView}
    (htree : Condition.ofValue c.policy v.conditionsOrNone = .ok tree)
    (h : Yields (fileHit c.today t v r tree) s found s') :
    ∃ key, Yields (Filing.key t.tenant v.id t.entityType t.entityId) s key s ∧
      ((found = none ∧ s' = s ∧ Pending s t v.id) ∨
        ∃ view, found = some view ∧ ¬ Pending s t v.id ∧ Found c t (v, r) view ∧
          s.Gains s' [view]) := by
  unfold fileHit at h
  obtain ⟨inputs, hinputs, h⟩ := (reads_ofFault _).yields_bind.1 h
  obtain ⟨plan, hplan, h⟩ := (reads_ofFault _).yields_bind.1 h
  rcases yields_unlessDuplicate h with ⟨view, hfound, hfiled⟩ | ⟨hfound, _, hduplicate⟩
  · obtain ⟨hshow, hfiles, hstores⟩ := Filing.yields_fileShown hs hfiled
    refine ⟨view.finding.key, hfiles.yields_key, Or.inr ⟨view, hfound,
      not_pending_of_stores hs hfiles hstores, ⟨tree, inputs, plan, htree,
        (yields_ofFault.1 hinputs).1, (yields_ofFault.1 hplan).1,
        reports_of_files hshow hfiles⟩, ?_⟩⟩
    obtain ⟨-, -, -, clock, -, hs'⟩ := hstores
    rw [Store.Gains, hs']
    simp
  · obtain ⟨hsame, hfile⟩ := Filing.fileShown_duplicate hduplicate
    obtain ⟨key, hkey, hlive⟩ := Filing.fails_file_duplicate hfile
    exact ⟨key, hkey, Or.inl ⟨hfound, hsame, (liveFinding?_isSome_iff hkey).1 hlive⟩⟩

/-- A visit adds one finding where the version holds and nothing is pending, and else nothing. -/
theorem yields_evaluateVersion (hs : s.Intact) (hstale : c.stale = false)
    {found : Option FindingView} (h : Yields (evaluateVersion c t v r) s found s') :
    (found = none ∧ s' = s ∧ ¬ (Holds c t v ∧ ¬ Pending s t v.id)) ∨
      ∃ view, found = some view ∧ Holds c t v ∧ ¬ Pending s t v.id ∧ Found c t (v, r) view ∧
        s.Gains s' [view] := by
  cases htree : Condition.ofValue c.policy v.conditionsOrNone with
  | error e =>
    rw [evaluateVersion_of_malformed htree] at h
    obtain ⟨hfound, hsame⟩ := yields_pure.1 h
    refine Or.inl ⟨hfound, hsame, ?_⟩
    rintro ⟨⟨tree, hother, -⟩, -⟩
    rw [htree] at hother
    cases hother
  | ok tree =>
    rw [evaluateVersion_of_tree htree] at h
    obtain ⟨holds, hholds, h⟩ := (reads_ofFault _).yields_bind.1 h
    have hholds := (yields_ofFault.1 hholds).1
    cases holds with
    | false =>
      obtain ⟨hfound, hsame⟩ := yields_pure.1 h
      refine Or.inl ⟨hfound, hsame, ?_⟩
      rintro ⟨⟨other, hother, htrue⟩, -⟩
      rw [htree] at hother
      cases hother
      rw [hholds] at htrue
      cases htrue
    | true =>
      rw [hstale] at h
      obtain ⟨key, hkey, h⟩ := (Filing.reads_key _ _ _ _).yields_bind.1 h
      rw [yields_get_bind] at h
      split at h
      · next hlive =>
        obtain ⟨hfound, hsame⟩ := yields_pure.1 h
        refine Or.inl ⟨hfound, hsame, fun hnew => hnew.2 ?_⟩
        exact (liveFinding?_isSome_iff hkey).1 hlive
      · next hlive =>
        have hpending : ¬ Pending s t v.id := fun hpending =>
          hlive ((liveFinding?_isSome_iff hkey).2 hpending)
        obtain ⟨-, -, ⟨-, -, hduplicate⟩ | ⟨view, hfound, -, hview, hgains⟩⟩ :=
          yields_fileHit hs.supplied htree h
        · exact absurd hduplicate hpending
        · exact Or.inr ⟨view, hfound, ⟨tree, htree, hholds⟩, hpending, hview, hgains⟩

/-! ## All versions -/

/-- A finding of one version is pending for no other one. -/
theorem pending_gains {hit : Version × Rule} {view : FindingView} (hfound : Found c t hit view)
    (hgains : s.Gains s' [view]) {version : Uuid} (hne : version ≠ hit.1.id) :
    Pending s' t version ↔ Pending s t version := by
  have hfindings : s'.findings = s.findings ++ [view.finding] := hgains.findings
  have hversion : view.finding.version = hit.1.id := by
    obtain ⟨_, _, _, -, -, -, hreports⟩ := hfound
    exact hreports.version_eq
  unfold Pending
  rw [hfindings]
  constructor
  · rintro ⟨f, hf, hlive, htenant, htype, hid, heq⟩
    rcases List.mem_append.1 hf with hf | hf
    · exact ⟨f, hf, hlive, htenant, htype, hid, heq⟩
    · rw [List.mem_singleton.1 hf, hversion] at heq
      exact absurd heq.symm hne
  · rintro ⟨f, hf, hpending⟩
    exact ⟨f, List.mem_append_left _ hf, hpending⟩

/-- All visits together find the versions that hold and had nothing pending before the first. -/
theorem yields_evaluateVersions (hs : s.Intact) (hstale : c.stale = false)
    {listed : List (Version × Rule)} (hnodup : (listed.map fun p => p.1.id).Nodup)
    {found : List FindingView} (h : Yields (evaluateVersions c t listed) s found s') :
    ∃ hits : List (Version × Rule), hits.Sublist listed ∧
      (∀ p ∈ listed, p ∈ hits ↔ Holds c t p.1 ∧ ¬ Pending s t p.1.id) ∧
      List.Forall₂ (Found c t) hits found ∧ s.Gains s' found := by
  induction listed generalizing s found with
  | nil =>
    obtain ⟨hfound, hsame⟩ := yields_pure.1 h
    rw [hfound, hsame]
    exact ⟨[], .slnil, fun p hp => (by cases hp), .nil, .nil s⟩
  | cons p rest ih =>
    obtain ⟨v, r⟩ := p
    rw [List.map_cons, List.nodup_cons] at hnodup
    obtain ⟨hout, hnodup⟩ := hnodup
    have hne : ∀ q ∈ rest, q.1.id ≠ v.id := fun q hq heq =>
      hout (List.mem_map.2 ⟨q, hq, heq⟩)
    unfold evaluateVersions at h
    obtain ⟨first, s₁, hfirst, h⟩ := yields_bind.1 h
    obtain ⟨more, s₂, hmore, h⟩ := yields_bind.1 h
    obtain ⟨hfound, hsame⟩ := yields_pure.1 h
    have hchanges : Changes { source := .absent } .filing s s₁ :=
      .of_yields (evaluateVersion_changes t v r) hfirst
    have hs₁ := hchanges.intact hs
    rw [← hsame] at hmore
    obtain ⟨hits, hsublist, hmem, hviews, hgains⟩ := ih hs₁ hnodup hmore
    rw [hfound]
    rcases yields_evaluateVersion hs hstale hfirst with
      ⟨hnone, hs₁eq, hskip⟩ | ⟨view, hsome, hholds, hpending, hview, hgain⟩
    · rw [hs₁eq] at hmem hgains
      rw [hnone]
      refine ⟨hits, hsublist.cons _, fun q hq => ?_, hviews, hgains⟩
      rcases List.mem_cons.1 hq with heq | hq
      · rw [heq]
        refine iff_of_false (fun hin => ?_) hskip
        exact hne _ (hsublist.subset hin) rfl
      · exact hmem q hq
    · rw [hsome]
      refine ⟨(v, r) :: hits, hsublist.cons_cons _, fun q hq => ?_, .cons hview hviews,
        hgain.append hgains⟩
      rcases List.mem_cons.1 hq with heq | hq
      · rw [heq]
        exact iff_of_true (List.mem_cons_self ..) ⟨hholds, hpending⟩
      · have hother : q ≠ (v, r) := fun heq => hne q hq (congrArg (fun p => p.1.id) heq)
        rw [List.mem_cons, or_iff_right hother, hmem q hq, pending_gains hview hgain (hne q hq)]

end Evaluation

/-! ## Evaluations -/

/-- A rule covers a type that its column names, or any type. -/
theorem Rule.covers_iff {r : Rule} {entityType : Text} {name : String}
    (h : entityType.string? = some name) : r.covers name = true ↔
      ∀ other, r.appliesTo = some other → Text.ofString other = entityType := by
  unfold Rule.covers
  cases r.appliesTo with
  | none => exact iff_of_true rfl fun _ h => by cases h
  | some other =>
    simp only [beq_iff_eq, Option.some.injEq, forall_eq']
    constructor
    · rintro rfl
      exact Text.ofString_of_string? h
    · intro heq
      rw [← heq, Text.string?_ofString] at h
      exact Option.some.inj h

/-- An evaluation visits the active versions about the type of the entity. -/
theorem Evaluation.yields_evaluate_iff {c : Circumstances} {caller : Caller} {entityType : Text}
    {entity : Fields} {found : List FindingView} :
    Yields (evaluate c caller entityType entity) s found s' ↔
      ∃ t name, Target.ofEntity caller.tenant entityType entity = .ok t ∧
        entityType.string? = some name ∧
        Yields (evaluateVersions c t (s.activeVersions caller.tenant name)) s found s' := by
  unfold evaluate
  simp only [(reads_ofExcept _).yields_bind, (reads_encoded _).yields_bind, yields_get_bind,
    yields_ofExcept, yields_encoded, and_true, exists_and_left]

theorem Evaluation.yields_evaluate {c : Circumstances} {caller : Caller} {entityType : Text}
    {entity : Fields} {found : List FindingView}
    (h : Yields (evaluate c caller entityType entity) s found s') :
    ∃ name, entityType.string? = some name ∧ Yields (evaluateVersions c
      { tenant := caller.tenant, entityType, entityId := (entity.getD "id").plain, entity }
      (s.activeVersions caller.tenant name)) s found s' := by
  obtain ⟨t, name, ht, hname, hvisits⟩ := yields_evaluate_iff.1 h
  rw [Target.ofEntity_eq_ok ht] at hvisits
  exact ⟨name, hname, hvisits⟩

/-- Where an evaluation goes through, it finds, in the order of the listing of active versions, each
active version about the type whose conditions can be read and hold and of which nothing is pending,
and no other; each finding says what the version makes of the entity, and nothing but the findings
and their tasks is stored. -/
theorem evaluation_finds_exactly (source : EntitySource) (clock : Instant) (nextId : Nat)
    (moves : List Move) (c : Evaluation.Circumstances) (hstale : c.stale = false) (caller : Caller)
    (entityType : Text) (entity : Fields) (found : List FindingView) (s' : Store) :
    let s := ((Engine.fresh source clock nextId).after moves).store
    let t : Evaluation.Target :=
      { tenant := caller.tenant, entityType, entityId := (entity.getD "id").plain, entity }
    Yields (Evaluation.evaluate c caller entityType entity) s found s' →
    ∃ (listed : List Version) (hits : List (Version × Rule)),
      Yields (Authoring.listActive caller entityType) s listed s ∧
      (hits.map fun p => p.1).Sublist listed ∧ (hits.map fun p => p.1.id).Nodup ∧
      (∀ v r, (v, r) ∈ hits ↔
        v ∈ s.versions ∧ v.tenant = caller.tenant ∧ v.status = .active ∧
        r ∈ s.rules ∧ r.id = v.rule ∧
        (∀ name, r.appliesTo = some name → Text.ofString name = entityType) ∧
        Evaluation.Holds c t v ∧ ¬ Evaluation.Pending s t v.id) ∧
      List.Forall₂ (Evaluation.Found c t) hits found ∧ s.Gains s' found := by
  intro s t hrun
  have hs : s.Intact := Engine.after_intact (Engine.fresh_intact source clock nextId) moves
  obtain ⟨name, hname, hvisits⟩ := Evaluation.yields_evaluate hrun
  have hnodup := hs.nodup_activeVersions caller.tenant name
  obtain ⟨hits, hsublist, hmem, hviews, hgains⟩ :=
    Evaluation.yields_evaluateVersions hs hstale hnodup hvisits
  refine ⟨_, hits, ?_, hsublist.map _, hnodup.sublist (hsublist.map _), fun v r => ?_, hviews,
    hgains⟩
  · unfold Authoring.listActive
    exact yields_bind.2 ⟨name, s, yields_encoded.2 ⟨hname, rfl⟩,
      yields_get_bind.2 (yields_pure.2 ⟨rfl, rfl⟩)⟩
  · constructor
    · intro hin
      have hlisted := hsublist.subset hin
      obtain ⟨hv, htenant, hactive, hr, hid, hcovers⟩ := hs.mem_activeVersions.1 hlisted
      have hhit := (hmem _ hlisted).1 hin
      exact ⟨hv, htenant, hactive, hr, hid, (Rule.covers_iff hname).1 hcovers, hhit⟩
    · rintro ⟨hv, htenant, hactive, hr, hid, hcovers, hhit⟩
      have hlisted := hs.mem_activeVersions.2
        ⟨hv, htenant, hactive, hr, hid, (Rule.covers_iff hname).2 hcovers⟩
      exact (hmem _ hlisted).2 hhit

/-- A rule with an active version that asks for nothing in particular. -/
def blanketRule : List Move :=
  let caller : Caller := { tenant := ⟨100⟩ }
  [.call {} caller (.createPack { name := "Lending", authority := "Board" }),
    .call {} caller (.createRule { pack := ⟨0⟩, name := "Risk" }
      { conditions := .object [("all", .list [])] }),
    .call {} caller (.submitRule ⟨1⟩), .call {} caller (.approveVersion ⟨2⟩),
    .call {} caller (.activateVersion ⟨2⟩)]

/-- It finds any loan. -/
theorem evaluation_finds_loan :
    let s := ((Engine.fresh .absent default 0).after blanketRule).store
    let t : Evaluation.Target :=
      { tenant := ⟨100⟩, entityType := "loan", entityId := "7", entity := [("id", .text "7")] }
    ∃ found s', Yields (Evaluation.evaluate { today := default } { tenant := ⟨100⟩ } "loan"
        [("id", .text "7")]) s found s' ∧
      found.map (fun view => view.finding.title) = ["Compliance requirement triggered"] ∧
      (∃ hits, List.Forall₂ (Evaluation.Found { today := default } t) hits found) ∧
      s.Gains s' found := by
  have hanswer : ((Evaluation.evaluate { today := default } { tenant := ⟨100⟩ } "loan"
      [("id", .text "7")] ((Engine.fresh .absent default 0).after blanketRule).store :
        Except Failure (List FindingView) × Store).1.toOption.map fun found =>
          found.map fun view => view.finding.title) =
      some ["Compliance requirement triggered"] := by cbv
  obtain ⟨found, s', hrun, htitles⟩ := yields_of_answer hanswer
  obtain ⟨_, hits, -, -, -, -, hviews, hgains⟩ := evaluation_finds_exactly .absent default 0
    blanketRule { today := default } rfl { tenant := ⟨100⟩ } "loan" [("id", .text "7")] found s'
    hrun
  exact ⟨found, s', hrun, htitles, ⟨hits, hviews⟩, hgains⟩

end Rulebook
