import Mathlib
import Rulebook.Proofs.Evaluation
import Rulebook.Proofs.Store.Lasting
import Rulebook.Proofs.VersionLife

/-!
Evidence. A finding that an evaluation files quotes the conditions and the actions of its version
and the name and the pack of its rule (`Store.Attests`). An evaluation only visits active versions,
and of a version that is no draft any more nothing that is quoted changes; nor does it of a rule. So
what a finding quotes stays what is stored (`Engine.after_attests`), through any calls that come
after the evaluation and wherever the evaluation itself broke off.
-/
namespace Rulebook

open Txn

variable {s s' : Store} {f : Finding}

/-! ## What a finding quotes -/

/-- A finding names a version and a rule, and quotes what both say. -/
structure Finding.Quotes (f : Finding) (v : Version) (r : Rule) : Prop where
  tenant_eq : f.tenant = v.tenant
  version_eq : f.version = v.id
  rule_eq : f.rule = r.id
  pack_eq : f.pack = some r.pack
  ruleName_eq : f.details.get? "rule_name" = some (.text r.name)
  conditions_eq : f.details.get? "conditions" = some v.conditions
  actions_eq : f.details.get? "actions" = some v.actions

/-- The version of a finding, which is no draft, and its rule are stored as the finding quotes
them. -/
def Store.Attests (s : Store) (f : Finding) : Prop :=
  ∃ v ∈ s.versions, ∃ r ∈ s.rules, r.id = v.rule ∧ v.status ≠ .draft ∧ f.Quotes v r

/-- Moving a finding on changes nothing that is quoted. -/
theorem Store.Attests.becomes {g : Finding} (h : s.Attests f) (hbecomes : f.Becomes g) :
    s.Attests g := by
  obtain ⟨v, hv, r, hr, hid, hstatus, hquotes⟩ := h
  obtain ⟨_, _, rfl, -⟩ := hbecomes
  exact ⟨v, hv, r, hr, hid, hstatus, { hquotes with }⟩

/-- Versions and rules are as they were, and what is added to the findings quotes them. -/
def Store.AddsAttested (s s' : Store) : Prop :=
  s'.versions = s.versions ∧ s'.rules = s.rules ∧ ∀ f ∈ s'.findings, f ∈ s.findings ∨ s.Attests f

instance : IsPreorder Store Store.AddsAttested where
  refl _ := ⟨rfl, rfl, fun _ => Or.inl⟩
  trans s t u := by
    rintro ⟨hversions, hrules, hfindings⟩ ⟨hversions', hrules', hfindings'⟩
    refine ⟨hversions'.trans hversions, hrules'.trans hrules, fun f hf => ?_⟩
    rcases hfindings' f hf with hf | hattests
    · exact hfindings f hf
    · unfold Store.Attests at hattests
      rw [hversions, hrules] at hattests
      exact Or.inr hattests

/-! ## Evaluations, whatever their outcome -/

/-- A filing stores its finding or nothing, also where the finding cannot be shown then. -/
theorem Filing.fileShown_ends (subject : Subject) (plan : Plan) (s : Store) :
    (fileShown subject plan s).2 = s ∨
      ∃ f ts, Files subject plan f ts ∧ Stores s (fileShown subject plan s).2 f ts := by
  have hshown : (file subject plan s).2 = (fileShown subject plan s).2 := by
    refine Within.from_bind (R := Eq) (fun f => ?_) s
    split
    · exact (reads_showFinding f).within
    · exact (reads_throw _).within
  rw [← hshown]
  rcases undone_file subject plan s with ⟨f, s', h⟩ | hsame
  · obtain ⟨ts, hfiles, hstores⟩ := yields_file h
    rw [show file subject plan s = _ from h]
    exact Or.inr ⟨f, ts, hfiles, hstores⟩
  · exact Or.inl hsame

namespace Evaluation

variable {c : Circumstances} {t : Target} {v : Version} {r : Rule} {caller : Caller}

theorem left_unlessDuplicate {α : Type} (x : Txn α) (s : Store) :
    (unlessDuplicate x s).2 = (x s).2 := by
  unfold unlessDuplicate
  rw [run_tryCatch, run_bind]
  rcases (x s : Except Failure α × Store) with ⟨e | a, s'⟩
  · dsimp only
    split
    · rfl
    · rfl
  · rfl

/-- A version is stored with its rule, and is no draft. -/
def Stands (s : Store) (tenant : Uuid) (hit : Version × Rule) : Prop :=
  hit.1 ∈ s.versions ∧ hit.1.tenant = tenant ∧ hit.1.status ≠ .draft ∧ hit.2 ∈ s.rules ∧
    hit.2.id = hit.1.rule

theorem quotes_of_files {inputs : Fields} {plan : Plan} {ts : List Task}
    (htenant : v.tenant = t.tenant) (h : Filing.Files (subject t v r inputs) plan f ts) :
    f.Quotes v r where
  tenant_eq := h.tenant_eq.trans htenant.symm
  version_eq := h.version_eq
  rule_eq := h.rule_eq
  pack_eq := h.pack_eq
  ruleName_eq := by rw [h.details_eq]; rfl
  conditions_eq := by rw [h.details_eq]; rfl
  actions_eq := by rw [h.details_eq]; rfl

theorem fileHit_attested (today : Date) (tree : Condition) (h : Stands s t.tenant (v, r)) :
    s.AddsAttested (fileHit today t v r tree s).2 := by
  unfold fileHit
  refine (reads_ofFault _).ends_bind (refl s) fun inputs _ => ?_
  refine (reads_ofFault _).ends_bind (refl s) fun plan _ => ?_
  rw [left_unlessDuplicate]
  rcases Filing.fileShown_ends (subject t v r inputs) plan s with
    hsame | ⟨f, ts, hfiles, -, -, -, clock, -, hstores⟩
  · rw [hsame]
    exact refl s
  · rw [hstores]
    refine ⟨rfl, rfl, fun g hg => ?_⟩
    rcases List.mem_append.1 hg with hg | hg
    · exact Or.inl hg
    · obtain ⟨hv, htenant, hstatus, hr, hid⟩ := h
      rw [List.mem_singleton.1 hg]
      exact Or.inr ⟨v, hv, r, hr, hid, hstatus, quotes_of_files htenant hfiles⟩

theorem evaluateVersion_attested (h : Stands s t.tenant (v, r)) :
    s.AddsAttested (evaluateVersion c t v r s).2 := by
  cases htree : Condition.ofValue c.policy v.conditionsOrNone with
  | error e =>
    rw [evaluateVersion_of_malformed htree]
    exact refl s
  | ok tree =>
    rw [evaluateVersion_of_tree htree]
    refine (reads_ofFault _).ends_bind (refl s) fun holds _ => ?_
    split
    · exact refl s
    split
    · exact fileHit_attested _ tree h
    refine (Filing.reads_key _ _ _ _).ends_bind (refl s) fun key _ => ?_
    refine reads_get.ends_bind (refl s) fun u _ => ?_
    split
    · exact refl s
    · exact fileHit_attested _ tree h

theorem evaluateVersions_attested {listed : List (Version × Rule)}
    (h : ∀ hit ∈ listed, Stands s t.tenant hit) :
    s.AddsAttested (evaluateVersions c t listed s).2 := by
  induction listed generalizing s with
  | nil => exact refl s
  | cons hit rest ih =>
    obtain ⟨v, r⟩ := hit
    have hfirst := evaluateVersion_attested (c := c) (h _ (List.mem_cons_self ..))
    refine ends_bind (P := s.AddsAttested) (fun e u hu => ?_) fun found u hu => ?_
    · rw [← hu.left]
      exact hfirst
    · rw [hu.left] at hfirst
      -- What is listed stands in the store that the first visit leaves as it did before.
      have hrest := ih (s := u) fun hit hin => by
        have hstands := h hit (List.mem_cons_of_mem _ hin)
        rw [Stands, ← hfirst.1, ← hfirst.2.1] at hstands
        exact hstands
      refine IsTrans.trans _ _ _ hfirst (IsTrans.trans _ _ _ hrest ?_)
      exact Within.from_bind (fun more => (reads_pure _).within) u

theorem evaluate_attested (hs : s.Intact) (entityType : Text) (entity : Fields) :
    s.AddsAttested (evaluate c caller entityType entity s).2 := by
  unfold evaluate
  refine (reads_ofExcept _).ends_bind (refl s) fun t ht => ?_
  refine (reads_encoded _).ends_bind (refl s) fun name _ => ?_
  refine reads_get.ends_bind (refl s) fun u hu => ?_
  obtain ⟨rfl, -⟩ := yields_get.1 hu
  refine evaluateVersions_attested fun ⟨v, r⟩ hit => ?_
  obtain ⟨hv, htenant, hactive, hr, hid, -⟩ := hs.mem_activeVersions.1 hit
  have hstatus : v.status ≠ .draft := by simp [hactive]
  rw [Target.ofEntity_eq_ok (yields_ofExcept.1 ht).1]
  exact ⟨hv, htenant, hstatus, hr, hid⟩

theorem evaluateById_attested (hs : s.Intact) (source : EntitySource) (entityType entityId : Text) :
    s.AddsAttested (evaluateById c source caller entityType entityId s).2 := by
  unfold evaluateById
  split
  · exact refl s
  · refine (reads_ofExcept _).ends_bind (refl s) fun found _ => ?_
    split
    · exact refl s
    · exact evaluate_attested hs _ _

end Evaluation

/-! ## Histories -/

/-- Whether a call evaluates an entity. -/
def Call.evaluates : Call → Bool
  | .evaluate .. | .evaluateById .. => true
  | _ => false

/-- Once it is no draft, a version moves in its status and its approval only, and becomes no draft
again. -/
theorem Version.Step.of_not_draft {m : Move} {v w : Version} (h : Step m v w)
    (hv : v.status ≠ .draft) : w.status ≠ .draft ∧ ∃ user at_ u,
      w = { v with
        status := w.status, approvedBy := user, approvedAt := at_, updatedAt := u } := by
  cases h with
  | kept => exact ⟨hv, v.approvedBy, v.approvedAt, v.updatedAt, rfl⟩
  | edited draft => exact absurd draft hv
  | submitted draft => exact absurd draft hv
  | approved => exact ⟨by simp, _, _, _, rfl⟩
  | activated | replaced | retired => exact ⟨by simp, _, _, _, rfl⟩

namespace Engine

variable {e : Engine}

/-- Whatever becomes of an evaluation, the findings that it leaves behind quote their versions. -/
theorem perform_attested (settings : Settings) (caller : Caller) (hs : e.store.Intact)
    {call : Call} (h : call.evaluates = true) :
    e.store.AddsAttested (e.perform settings caller call).2.store := by
  cases call with
  | evaluate entityType entity today stale =>
    refine answer_ends (refl _) ((reads_reference today).ends_bind (refl _) fun d _ => ?_)
    exact Evaluation.evaluate_attested hs entityType entity
  | evaluateById entityType entityId today =>
    refine answer_ends (refl _) ((reads_reference today).ends_bind (refl _) fun d _ => ?_)
    exact Evaluation.evaluateById_attested hs e.source entityType entityId
  | _ => cases h

/-- What a finding quotes stays as it is quoted, unless versions are written to unchecked. -/
theorem move_attests {m : Move} (hs : e.store.Intact) (hforce : m.work ≠ .forcing)
    (h : e.store.Attests f) : (e.move m).store.Attests f := by
  obtain ⟨v, hv, r, hr, hid, hstatus, hquotes⟩ := h
  obtain ⟨w, hw, hstep⟩ := (move_advances hs hforce).next hv
  obtain ⟨hnodraft, _, _, _, hsame⟩ := hstep.of_not_draft hstatus
  obtain ⟨_, hq, _, _, _, rfl⟩ := ((move_changes hs m).lasts hs).rules.next hr
  refine ⟨w, hw, _, hq, ?_, hnodraft, ?_⟩ <;> rw [hsame]
  · exact hid
  · exact { hquotes with }

theorem after_attests {moves : List Move} (hs : e.store.Intact)
    (hforce : ∀ m ∈ moves, m.work ≠ .forcing) (h : e.store.Attests f) :
    (e.after moves).store.Attests f :=
  after_keeps (P := fun s => s.Attests f) hs h fun _ hd hattests m hm =>
    move_attests hd (hforce m hm) hattests

end Engine

/-- Without forced writes, nothing that is stored is lost: tasks, overrides, regulations and results
stay as they are, a finding changes in its status only and gets no further tasks, and of all other
rows the identifier and the owner remain. A call writes to the tables of its kind of work only:
impact runs to runs and results, evaluations to findings and tasks. And whatever has been filed by
an evaluation, whether that went through or not, quotes at all later times the stored conditions and
actions of its version, and the name and the pack of its rule. -/
theorem evidence_lasts (source : EntitySource) (clock : Instant) (nextId : Nat)
    (before later : List Move) (hforce : ∀ m ∈ before ++ later, m.work ≠ .forcing) :
    let e := (Engine.fresh source clock nextId).after before
    e.store.Lasts (e.after later).store ∧
    (∀ settings caller call,
      e.store.Written call.work (e.perform settings caller call).2.store) ∧
    ∀ settings caller call, call.evaluates = true →
      let d := (e.perform settings caller call).2
      let t := (d.after later).store
      ∀ f ∈ d.store.findings, (∀ q ∈ e.store.findings, q.id ≠ f.id) →
        ∃ g ∈ t.findings, (∀ q ∈ t.findings, q.id = f.id → q = g) ∧ f.Becomes g ∧ t.Attests g := by
  intro e
  have hs : e.store.Intact := Engine.after_intact (Engine.fresh_intact source clock nextId) before
  have hlater : ∀ m ∈ later, m.work ≠ .forcing := fun m hm =>
    hforce m (List.mem_append_right before hm)
  refine ⟨Engine.after_lasts hs later, fun settings caller call => ?_,
    fun settings caller call hcall => ?_⟩
  · exact (Engine.perform_changes hs call).written
  · intro d t f hf hnew
    have hd : d.store.Intact := (Engine.perform_changes hs call).intact hs
    have ht : t.Intact := Engine.after_intact hd later
    obtain ⟨hversions, hrules, hfindings⟩ := Engine.perform_attested settings caller hs hcall
    have hattests : d.store.Attests f := by
      rw [Store.Attests, hversions, hrules]
      exact (hfindings f hf).resolve_left fun hold => hnew f hold rfl
    obtain ⟨g, hg, hbecomes⟩ := Engine.after_finding_becomes hd hf later
    refine ⟨g, hg, fun q hq hid => ?_, hbecomes,
      (Engine.after_attests hd hlater hattests).becomes hbecomes⟩
    exact ht.findings.eq_of_id hq hg (hid.trans hbecomes.id_eq.symm)

/-- What is found by a version stays quoted when the version is retired. -/
theorem evidence_lasts_retired :
    let e := (Engine.fresh .absent default 0).after blanketRule
    let caller : Caller := { tenant := ⟨100⟩ }
    let d := (e.perform {} caller (.evaluate "loan" [("id", .text "7")] none false)).2
    let t := (d.after [.call {} caller (.retireVersion ⟨2⟩)]).store
    t.versions.map (fun v => v.status) = [.retired] ∧
      d.store.findings.map (fun f => f.entityId) = ["7"] ∧
      ∀ f ∈ d.store.findings, ∃ g ∈ t.findings, f.Becomes g ∧ t.Attests g := by
  have hnone : ((Engine.fresh .absent default 0).after blanketRule).store.findings.map
      (fun f => f.id) = [] := by cbv
  refine ⟨by cbv, by cbv, fun f hf => ?_⟩
  obtain ⟨-, -, hfiled⟩ := evidence_lasts .absent default 0 blanketRule
    [.call {} { tenant := ⟨100⟩ } (.retireVersion ⟨2⟩)] (by decide)
  obtain ⟨g, hg, -, hbecomes, hattests⟩ := hfiled {} { tenant := ⟨100⟩ }
    (.evaluate "loan" [("id", .text "7")] none false) rfl f hf fun q hq => by
      rw [List.map_eq_nil_iff.1 hnone] at hq
      cases hq
  exact ⟨g, hg, hbecomes, hattests⟩

end Rulebook
