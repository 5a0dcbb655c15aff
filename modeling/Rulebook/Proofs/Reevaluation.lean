import Mathlib
import Rulebook.Proofs.StaleLookUp
import Rulebook.Proofs.Store.Lasting
import Rulebook.Proofs.VersionLife

/-!
Evaluating again. After an evaluation every version that it has visited is silent about the entity:
its conditions cannot be read, or do not hold, or a live finding of it is pending
(`Evaluation.Silent`). Silence lasts as long as no version is activated and no finding about the
entity is settled: what is active was active before with the same conditions and the same rule, and
a pending finding stays pending (`Engine.move_silent`). Silent versions are passed over without a plan
being made, so the entity can be evaluated again for any date, and nothing comes of it.
-/
namespace Rulebook

open Txn

variable {s s' : Store}

/-! ## Silent versions -/

namespace Evaluation

variable {c : Circumstances} {t : Target} {v : Version} {r : Rule}

/-- The conditions of a version can be decided for an entity, if they can be read, and where they
hold a finding is pending. -/
structure Silent (c : Circumstances) (s : Store) (t : Target) (v : Version) : Prop where
  decided : ∀ tree, Condition.ofValue c.policy v.conditionsOrNone = .ok tree →
    ∃ holds, tree.evaluate t.context = .ok holds
  pending : Holds c t v → Pending s t v.id

theorem Pending.yields_key {version : Uuid} (h : Pending s t version) :
    ∃ key, Yields (Filing.key t.tenant version t.entityType t.entityId) s key s := by
  obtain ⟨f, -, -, -, htype, hid, -⟩ := h
  rw [← htype, ← hid]
  exact ⟨_, Filing.key_goes_through⟩

/-- A silent version is passed over. -/
theorem Silent.yields_evaluateVersion (hstale : c.stale = false) (h : Silent c s t v) (r : Rule) :
    Yields (evaluateVersion c t v r) s none s := by
  cases htree : Condition.ofValue c.policy v.conditionsOrNone with
  | error e =>
    rw [evaluateVersion_of_malformed htree]
    exact yields_pure.2 ⟨rfl, rfl⟩
  | ok tree =>
    rw [evaluateVersion_of_tree htree]
    obtain ⟨holds, hholds⟩ := h.decided tree htree
    refine (reads_ofFault _).yields_bind.2 ⟨holds, yields_ofFault.2 ⟨hholds, rfl⟩, ?_⟩
    cases holds with
    | false => exact yields_pure.2 ⟨rfl, rfl⟩
    | true =>
      have hpending := h.pending ⟨tree, htree, hholds⟩
      obtain ⟨key, hkey⟩ := hpending.yields_key
      rw [hstale]
      refine (Filing.reads_key _ _ _ _).yields_bind.2 ⟨key, hkey, yields_get_bind.2 ?_⟩
      rw [if_pos ((liveFinding?_isSome_iff hkey).2 hpending)]
      exact yields_pure.2 ⟨rfl, rfl⟩

theorem yields_evaluateVersions_of_silent (hstale : c.stale = false)
    {listed : List (Version × Rule)} (h : ∀ hit ∈ listed, Silent c s t hit.1) :
    Yields (evaluateVersions c t listed) s [] s := by
  induction listed with
  | nil => exact yields_pure.2 ⟨rfl, rfl⟩
  | cons hit rest ih =>
    obtain ⟨v, r⟩ := hit
    have hfirst := (h _ (List.mem_cons_self ..)).yields_evaluateVersion hstale r
    have hrest := ih fun hit hin => h hit (List.mem_cons_of_mem _ hin)
    unfold evaluateVersions
    exact yields_bind.2 ⟨none, s, hfirst, yields_bind.2 ⟨[], s, hrest, yields_pure.2 ⟨rfl, rfl⟩⟩⟩

/-! ## After an evaluation -/

/-- An evaluation that goes through has decided the conditions of all versions it has visited. -/
theorem decided_of_yields {listed : List (Version × Rule)} {found : List FindingView}
    (h : Yields (evaluateVersions c t listed) s found s') :
    ∀ hit ∈ listed, ∀ tree, Condition.ofValue c.policy hit.1.conditionsOrNone = .ok tree →
      ∃ holds, tree.evaluate t.context = .ok holds := by
  induction listed generalizing s found s' with
  | nil => exact fun hit hin => by cases hin
  | cons first rest ih =>
    obtain ⟨v, r⟩ := first
    unfold evaluateVersions at h
    obtain ⟨_, u, hfirst, h⟩ := yields_bind.1 h
    obtain ⟨_, _, hmore, -⟩ := yields_bind.1 h
    intro hit hin tree htree
    rcases List.mem_cons.1 hin with rfl | hin
    · rw [evaluateVersion_of_tree htree] at hfirst
      obtain ⟨holds, hholds, -⟩ := (reads_ofFault _).yields_bind.1 hfirst
      exact ⟨holds, (yields_ofFault.1 hholds).1⟩
    · exact ih hmore hit hin tree htree

/-- What has been found is pending. -/
theorem Found.pending {hit : Version × Rule} {view : FindingView} (h : Found c t hit view)
    (hs : view.finding ∈ s.findings) : Pending s t hit.1.id := by
  obtain ⟨_, _, _, -, -, -, hreports⟩ := h
  exact ⟨view.finding, hs, by rw [hreports.status_eq]; rfl, hreports.tenant_eq,
    hreports.entityType_eq, hreports.entityId_eq, hreports.version_eq⟩

theorem silent_of_yields (hs : s.Intact) (hstale : c.stale = false)
    {listed : List (Version × Rule)} (hnodup : (listed.map fun p => p.1.id).Nodup)
    {found : List FindingView} (h : Yields (evaluateVersions c t listed) s found s') :
    ∀ hit ∈ listed, Silent c s' t hit.1 := by
  intro hit hin
  refine ⟨decided_of_yields h hit hin, fun hholds => ?_⟩
  obtain ⟨hits, -, hmem, hviews, hgains⟩ := yields_evaluateVersions hs hstale hnodup h
  have hfindings := hgains.findings
  by_cases hpending : Pending s t hit.1.id
  · obtain ⟨f, hf, hrest⟩ := hpending
    exact ⟨f, by rw [hfindings]; exact List.mem_append_left _ hf, hrest⟩
  · obtain ⟨view, hview, hfound⟩ :=
      exists_right_of_forall₂ hviews hit ((hmem hit hin).2 ⟨hholds, hpending⟩)
    refine Found.pending hfound ?_
    rw [hfindings]
    exact List.mem_append_right _ (List.mem_map_of_mem hview)

end Evaluation

/-! ## Moves -/

/-- From active to active, a version is not touched. -/
theorem Version.Step.eq_of_active {m : Move} {v w : Version} (h : Step m v w)
    (hv : v.status = .active) (hw : w.status = .active) : w = v := by
  cases h with
  | kept => rfl
  | edited h | submitted h | approved h | activated h =>
    rw [hv] at h
    cases h
  | replaced | retired => cases hw

namespace Engine

variable {e : Engine} {m : Move}

/-- A move activates a version of a tenant. -/
def Activates (e : Engine) (m : Move) (tenant : Uuid) : Prop :=
  ∃ v ∈ (e.move m).store.versions, v.tenant = tenant ∧ v.status = .active ∧
    ∀ q ∈ e.store.versions, q.id = v.id → q.status ≠ .active

/-- A move dismisses or waives a finding about an entity. -/
def Settles (e : Engine) (m : Move) (tenant : Uuid) (entityType entityId : Text) : Prop :=
  ∃ f ∈ e.store.findings, f.tenant = tenant ∧ Text.ofString f.entityType = entityType ∧
    Text.ofString f.entityId = entityId ∧ f.status ∉ [.dismissed, .waived] ∧
    ∃ g ∈ (e.move m).store.findings, g.id = f.id ∧ g.status ∈ [.dismissed, .waived]

/-- What leaves the versions alone activates none. -/
theorem not_activates (hs : e.store.Intact) (hwork : m.work.writesVersions = false)
    (tenant : Uuid) : ¬ e.Activates m tenant := by
  rintro ⟨v, hv, -, hactive, hnone⟩
  rw [((move_changes hs m).rules_versions hwork).2] at hv
  exact hnone v hv rfl hactive

/-- Where all findings are live afterwards, none has been settled. -/
theorem not_settles (h : ∀ g ∈ (e.move m).store.findings, g.status.isLive = true) (tenant : Uuid)
    (entityType entityId : Text) : ¬ e.Settles m tenant entityType entityId := by
  rintro ⟨-, -, -, -, -, -, g, hg, -, hsettled⟩
  rw [FindingStatus.mem_settled_iff, h g hg] at hsettled
  cases hsettled

/-- Whatever is true of each move of a history and the engine that it finds. -/
def Throughout (e : Engine) (p : Engine → Move → Prop) : List Move → Prop
  | [] => True
  | m :: rest => p e m ∧ (e.move m).Throughout p rest

/-- What such moves keep in a store in order is kept by all of them together. -/
theorem throughout_keeps {P : Store → Prop} {p : Engine → Move → Prop} {moves : List Move}
    (hs : e.store.Intact) (hfirst : P e.store) (h : e.Throughout p moves)
    (hmove : ∀ d m, d.store.Intact → P d.store → p d m → P (d.move m).store) :
    P (e.after moves).store := by
  induction moves generalizing e with
  | nil => exact hfirst
  | cons m rest ih =>
    exact ih ((move_changes hs m).intact hs) (hmove e m hs hfirst h.1) h.2

open Evaluation (Pending Silent)

variable {c : Evaluation.Circumstances} {t : Evaluation.Target} {name : String}

/-- Without settling, what is pending stays pending. -/
theorem move_pending (hs : e.store.Intact)
    (hsettle : ¬ e.Settles m t.tenant t.entityType t.entityId) {version : Uuid}
    (h : Pending e.store t version) : Pending (e.move m).store t version := by
  obtain ⟨f, hf, hlive, htenant, htype, hid, hversion⟩ := h
  obtain ⟨g, hg, hbecomes⟩ := (move_changes hs m).finding_becomes hs hf
  have hglive : g.status.isLive = true := by
    by_contra hdead
    refine hsettle ⟨f, hf, htenant, htype, hid, ?_, g, hg, hbecomes.id_eq, ?_⟩
    · intro hsettled
      rw [FindingStatus.mem_settled_iff.1 hsettled] at hlive
      cases hlive
    · exact FindingStatus.mem_settled_iff.2 (Bool.eq_false_of_not_eq_true hdead)
  obtain ⟨_, _, rfl, -⟩ := hbecomes
  exact ⟨_, hg, hglive, htenant, htype, hid, hversion⟩

/-- Without forcing, activating and settling, the active versions stay silent. -/
theorem move_silent (hs : e.store.Intact) (hforce : m.work ≠ .forcing)
    (hactivate : ¬ e.Activates m t.tenant)
    (hsettle : ¬ e.Settles m t.tenant t.entityType t.entityId)
    (h : ∀ hit ∈ e.store.activeVersions t.tenant name, Silent c e.store t hit.1) :
    ∀ hit ∈ (e.move m).store.activeVersions t.tenant name, Silent c (e.move m).store t hit.1 := by
  rintro ⟨w, q⟩ hit
  have hs' := (move_changes hs m).intact hs
  obtain ⟨hw, htenant, hactive, hq, hrule, hcovers⟩ := hs'.mem_activeVersions.1 hit
  -- It was active before the move, so the move has not touched it.
  obtain ⟨v, hv, hid, hvactive⟩ : ∃ v ∈ e.store.versions, v.id = w.id ∧ v.status = .active := by
    by_contra hnone
    exact hactivate ⟨w, hw, htenant, hactive, fun v hv hid hvactive =>
      hnone ⟨v, hv, hid, hvactive⟩⟩
  obtain ⟨x, hx, hstep⟩ := (move_advances hs hforce).next hv
  obtain rfl : x = w := hs'.versions.eq_of_id hx hw (hstep.id_eq.trans hid)
  obtain rfl := hstep.eq_of_active hvactive hactive
  -- Nor has its rule changed in what it covers.
  obtain ⟨r, hr, hrid, -⟩ := mem_owned.1 (hs.versionRule x hv)
  obtain ⟨y, hy, current, status, u, rfl⟩ := ((move_changes hs m).lasts hs).rules.next hr
  obtain rfl := hs'.rules.eq_of_id hy hq (hrid.trans hrule.symm)
  have hsilent := h (x, r) (hs.mem_activeVersions.2 ⟨hv, htenant, hactive, hr, hrid, hcovers⟩)
  exact ⟨hsilent.decided, fun hholds => move_pending hs hsettle (hsilent.pending hholds)⟩

/-- So they do through any such moves. -/
theorem after_silent (t : Evaluation.Target) {moves : List Move} (hs : e.store.Intact)
    (hmoves : e.Throughout (fun d m => m.work ≠ .forcing ∧ ¬ d.Activates m t.tenant ∧
      ¬ d.Settles m t.tenant t.entityType t.entityId) moves)
    (h : ∀ hit ∈ e.store.activeVersions t.tenant name, Silent c e.store t hit.1) :
    ∀ hit ∈ (e.after moves).store.activeVersions t.tenant name,
      Silent c (e.after moves).store t hit.1 :=
  throughout_keeps (P := fun s => ∀ hit ∈ s.activeVersions t.tenant name, Silent c s t hit.1)
    hs h hmoves fun _ _ hd hkept ⟨hforce, hactivate, hsettle⟩ =>
      move_silent hd hforce hactivate hsettle hkept

theorem reference_goes_through (today : Option Date) (s : Store) :
    ∃ d, Yields (reference today) s d s := by
  cases today with
  | none => exact ⟨s.clock.date, yields_get_bind.2 (yields_pure.2 ⟨rfl, rfl⟩)⟩
  | some d => exact ⟨d, yields_pure.2 ⟨rfl, rfl⟩⟩

/-- A call of `evaluate` that is answered has evaluated, for some date, with or without looking at
live findings, and answers what this has found. -/
theorem perform_evaluate_ok {settings : Settings} {caller : Caller} {entityType : Text}
    {entity : Fields} {today : Option Date} {stale : Bool} {answer : Answer}
    (h : (e.perform settings caller (.evaluate entityType entity today stale)).1 = .ok answer) :
    ∃ d found, answer = .findings found ∧
      Yields (Evaluation.evaluate { policy := settings.policy, today := d, stale } caller
        entityType entity) e.store found
          (e.perform settings caller (.evaluate entityType entity today stale)).2.store := by
  have hrun := yields_of_transact (Prod.ext h rfl :
    e.perform settings caller (.evaluate entityType entity today stale) = (.ok answer, _))
  obtain ⟨found, hbody, hanswer⟩ := yields_map.1 hrun
  obtain ⟨d, -, hevaluate⟩ := (reads_reference today).yields_bind.1 hbody
  exact ⟨d, found, hanswer, hevaluate⟩

end Engine

/-- In any history: once an entity has been evaluated, whether live findings were looked at or not,
evaluating it again for whatever date and by whichever user of the tenant answers that nothing is
found and leaves the engine as it is. Any calls by anyone may have come in between, as long as no
versions were written to unchecked, no version of the tenant was activated, and no finding about the
entity was dismissed or waived. -/
theorem reevaluation_finds_nothing (source : EntitySource) (clock : Instant) (nextId : Nat)
    (before later : List Move) (settings : Settings) (caller : Caller) (entityType : Text)
    (entity : Fields) (today : Option Date) (stale : Bool) (answer : Answer) :
    let e := (Engine.fresh source clock nextId).after before
    let first := e.perform settings caller (.evaluate entityType entity today stale)
    first.1 = .ok answer →
    first.2.Throughout (fun d m => m.work ≠ .forcing ∧ ¬ d.Activates m caller.tenant ∧
      ¬ d.Settles m caller.tenant entityType (entity.getD "id").plain) later →
    ∀ (settings' : Settings) (caller' : Caller) (today' : Option Date),
      settings'.policy = settings.policy → caller'.tenant = caller.tenant →
      let last := first.2.after later
      last.perform settings' caller' (.evaluate entityType entity today' false) =
        (.ok (.findings []), last) := by
  intro e first hanswer hlater settings' caller' today' hpolicy htenant last
  have hs : e.store.Intact := Engine.after_intact (Engine.fresh_intact source clock nextId) before
  have hs' : first.2.store.Intact := (Engine.perform_changes hs _).intact hs
  obtain ⟨d, found, -, hrun⟩ := Engine.perform_evaluate_ok hanswer
  -- A stale evaluation has done what the ordinary one would have done.
  have hlooks : Yields (Evaluation.evaluate { policy := settings.policy, today := d } caller
      entityType entity) e.store found first.2.store := by
    cases stale with
    | false => exact hrun
    | true => exact (Evaluation.evaluate_stale (c := { policy := settings.policy, today := d })
        hs.supplied hrun).1
  obtain ⟨t, name, ht, hname, hvisits⟩ := Evaluation.yields_evaluate_iff.1 hlooks
  have hsilent := Evaluation.silent_of_yields hs rfl (hs.nodup_activeVersions caller.tenant name)
    hvisits
  obtain ⟨hrules, hversions⟩ := (Engine.move_changes hs
    (.call settings caller (.evaluate entityType entity today stale))).rules_versions rfl
  rw [← Store.activeVersions_congr hrules hversions] at hsilent
  obtain rfl := Evaluation.Target.ofEntity_eq_ok ht
  have hlast := Engine.after_silent
    { tenant := caller.tenant, entityType, entityId := (entity.getD "id").plain, entity } hs'
    hlater hsilent
  obtain ⟨d', hd'⟩ := Engine.reference_goes_through today' last.store
  have hagain : Yields (Evaluation.evaluate { policy := settings'.policy, today := d' } caller'
      entityType entity) last.store [] last.store := by
    rw [← htenant] at ht hlast
    refine Evaluation.yields_evaluate_iff.2 ⟨_, name, ht, hname, ?_⟩
    refine Evaluation.yields_evaluateVersions_of_silent rfl fun hit hin => ?_
    rw [hpolicy]
    exact ⟨(hlast hit hin).decided, (hlast hit hin).pending⟩
  exact Engine.transact_of_yields (yields_map.2
    ⟨[], (Engine.reads_reference today').yields_bind.2 ⟨d', hd', hagain⟩, rfl⟩)

/-- The finding of a loan is worked on, and another loan is evaluated. -/
def progress : List Move :=
  [.call {} { tenant := ⟨100⟩ } (.updateStatus ⟨3⟩ "in_progress"),
    .call {} { tenant := ⟨100⟩ } (.evaluate "loan" [("id", .text "8")] none false)]

/-- The first loan has nothing more to be found. -/
theorem reevaluation_finds_nothing_in_progress :
    let e := (Engine.fresh .absent default 0).after blanketRule
    let evaluated : Call := .evaluate "loan" [("id", .text "7")] none false
    let last := (e.perform {} { tenant := ⟨100⟩ } evaluated).2.after progress
    last.store.findings.map (fun f => f.status) = [.inProgress, .open] ∧
      last.perform {} { tenant := ⟨100⟩ } evaluated = (.ok (.findings []), last) := by
  have hs : ((Engine.fresh .absent default 0).after blanketRule).store.Intact :=
    Engine.after_intact (Engine.fresh_intact .absent default 0) blanketRule
  have hlive : ∀ {s : Store}, (s.findings.all fun f => f.status.isLive) = true →
      ∀ g ∈ s.findings, g.status.isLive = true := fun h g hg => List.all_eq_true.1 h g hg
  have hok : ((((Engine.fresh .absent default 0).after blanketRule).perform {} { tenant := ⟨100⟩ }
      (.evaluate "loan" [("id", .text "7")] none false)).1.toOption.isSome) = true := by cbv
  refine ⟨by cbv, ?_⟩
  rcases hanswer : (((Engine.fresh .absent default 0).after blanketRule).perform {}
      { tenant := ⟨100⟩ } (.evaluate "loan" [("id", .text "7")] none false)).1 with _ | answer
  · rw [hanswer] at hok
    cases hok
  have hfirst := (Engine.move_changes hs
    (.call {} { tenant := ⟨100⟩ } (.evaluate "loan" [("id", .text "7")] none false))).intact hs
  refine reevaluation_finds_nothing .absent default 0 blanketRule progress {} { tenant := ⟨100⟩ }
    "loan" [("id", .text "7")] none false answer hanswer ⟨⟨by decide, ?_, ?_⟩, ⟨by decide, ?_, ?_⟩,
      trivial⟩ {} { tenant := ⟨100⟩ } none rfl rfl
  · exact Engine.not_activates hfirst rfl _
  · exact Engine.not_settles (hlive (by cbv)) _ _ _
  · exact Engine.not_activates ((Engine.move_changes hfirst _).intact hfirst) rfl _
  · exact Engine.not_settles (hlive (by cbv)) _ _ _

end Rulebook
