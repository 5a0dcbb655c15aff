import Rulebook.Proofs.Evaluation
import Rulebook.Proofs.FilingVerdict
import Rulebook.Proofs.Tenancy.Holdings

/-!
One evaluation, run on two stores. If the same versions have a finding about the entity pending in
both, the runs end alike (`Evaluation.evaluateVersions_parallel`): both go through or both fail with
the same failure, and what they find is the same up to times and to the identifiers, which are the
next ones of either store in the same order (`Parallel`). So an evaluation depends on the store by
what is pending about its entity and by nothing else.
-/
namespace Rulebook

open Txn

variable {s s' s'' u u' u'' : Store}

/-! ## Rows without times -/

/-- A finding without its times. -/
def Finding.timeless (f : Finding) : Finding :=
  { f with createdAt := default, updatedAt := default }

/-- A task without its times. -/
def Task.timeless (k : Task) : Task := { k with createdAt := default, updatedAt := default }

/-- A finding with its tasks, without their times. -/
def FindingView.timeless (view : FindingView) : FindingView :=
  { finding := view.finding.timeless, tasks := view.tasks.map Task.timeless }

/-! ## The same rows under other identifiers -/

theorem map_idsFrom {ρ : Uuid → Uuid} {n m count : Nat}
    (h : ∀ k < count, ρ ⟨n + k⟩ = ⟨m + k⟩) : (idsFrom n count).map ρ = idsFrom m count := by
  induction count generalizing n m with
  | zero => rfl
  | succ count ih =>
    rw [idsFrom_succ, idsFrom_succ, List.map_cons]
    refine congrArg₂ _ (h 0 (Nat.succ_pos count)) (ih fun k hk => ?_)
    rw [Nat.add_assoc, Nat.add_assoc, Nat.add_comm 1 k]
    exact h (k + 1) (Nat.succ_lt_succ hk)

namespace Filing

variable {subject : Subject} {plan : Plan} {f g : Finding} {ts us : List Task} {ρ : Uuid → Uuid}
  {tenant : Uuid}

/-- Up to its times, a task is told by its draft, its identifier and its finding. -/
theorem Drafted.timeless_eq {draft : TaskDraft × Option Date} {k j : Task}
    (hk : Drafted tenant f.id draft k) (hj : Drafted tenant g.id draft j) (hf : ρ f.id = g.id)
    (hid : ρ k.id = j.id) : j.timeless = (k.rename ρ).timeless := by
  have htitle : k.title = j.title := by
    have hcell := hk.title_eq.symm.trans hj.title_eq
    exact Option.some.inj (Except.ok.inj hcell)
  have hnotes : k.notes = j.notes := Except.ok.inj (hk.notes_eq.symm.trans hj.notes_eq)
  have hfinding : ρ k.finding = j.finding := by rw [hk.finding_eq, hf, hj.finding_eq]
  have htenant : k.tenant = j.tenant := hk.tenant_eq.trans hj.tenant_eq.symm
  have hstatus : k.status = j.status := hk.status_eq.trans hj.status_eq.symm
  have hdue : k.dueDate = j.dueDate := hk.dueDate_eq.trans hj.dueDate_eq.symm
  have hartifacts : k.artifacts = j.artifacts := hk.artifacts_eq.trans hj.artifacts_eq.symm
  unfold Task.rename Task.timeless
  rw [hid, htitle, hnotes, hfinding, htenant, hstatus, hdue, hartifacts]

theorem drafted_timeless_eq {drafts : List (TaskDraft × Option Date)}
    (hts : List.Forall₂ (Drafted tenant f.id) drafts ts)
    (hus : List.Forall₂ (Drafted tenant g.id) drafts us) (hf : ρ f.id = g.id)
    (hids : ts.map (fun k => ρ k.id) = us.map fun k => k.id) :
    us.map Task.timeless = ts.map fun k => (k.rename ρ).timeless := by
  induction hts generalizing us with
  | nil =>
    cases hus
    rfl
  | @cons draft k drafts ts hk _ ih =>
    cases hus with
    | @cons _ j _ us hj hrest =>
      rw [List.map_cons, List.map_cons, List.cons.injEq] at hids
      rw [List.map_cons, List.map_cons, hk.timeless_eq hj hf hids.1, ih hrest hids.2]

/-- Up to their times, a finding and its tasks are told by the subject, the plan and the
identifiers. -/
theorem Files.timeless_eq (h : Files subject plan f ts) (h' : Files subject plan g us)
    (hf : ρ f.id = g.id) (hids : ts.map (fun k => ρ k.id) = us.map fun k => k.id) :
    FindingView.timeless ⟨g, us⟩ = (FindingView.rename ρ ⟨f, ts⟩).timeless := by
  have hstring : ∀ {a b : String} {t : Text},
      Text.ofString a = t → Text.ofString b = t → a = b := by
    intro a b t ha hb
    have hsame := congrArg Text.string? (ha.trans hb.symm)
    rw [Text.string?_ofString, Text.string?_ofString] at hsame
    exact Option.some.inj hsame
  have hcell : ∀ {a b : String} {v : Value}, cellOf v = .ok (some a) → cellOf v = .ok (some b) →
      a = b := fun ha hb => Option.some.inj (Except.ok.inj (ha.symm.trans hb))
  have htenant : f.tenant = g.tenant := h.tenant_eq.trans h'.tenant_eq.symm
  have htype : f.entityType = g.entityType := hstring h.entityType_eq h'.entityType_eq
  have hentity : f.entityId = g.entityId := hstring h.entityId_eq h'.entityId_eq
  have hpack : f.pack = g.pack := h.pack_eq.trans h'.pack_eq.symm
  have hrule : f.rule = g.rule := h.rule_eq.trans h'.rule_eq.symm
  have hversion : f.version = g.version := h.version_eq.trans h'.version_eq.symm
  have hstatus : f.status = g.status := h.status_eq.trans h'.status_eq.symm
  have hseverity : f.severity = g.severity := hcell h.severity_eq h'.severity_eq
  have htitle : f.title = g.title := hcell h.title_eq h'.title_eq
  have hdue : f.dueDate = g.dueDate := Except.ok.inj (h.dueDate_eq.symm.trans h'.dueDate_eq)
  have hdetails : f.details = g.details := h.details_eq.trans h'.details_eq.symm
  obtain ⟨dates, hdates, hdrafted⟩ := h.tasks
  obtain ⟨dates', hdates', hdrafted'⟩ := h'.tasks
  obtain rfl := Except.ok.inj (hdates.symm.trans hdates')
  have htasks := drafted_timeless_eq hdrafted hdrafted' hf hids
  unfold FindingView.timeless FindingView.rename Finding.rename Finding.timeless
  rw [List.map_map, htasks]
  simp only [Function.comp_def, hf, htenant, htype, hentity, hpack, hrule, hversion, hstatus,
    hseverity, htitle, hdue, hdetails]

end Filing

/-- Two runs, from `s` to `s'` and from `u` to `u'`, have stored the same findings and tasks, but
for times, and each has given out its next identifiers in the same order. -/
structure Parallel (s s' u u' : Store) (found found' : List FindingView) : Prop where
  left : s.Gains s' found
  right : u.Gains u' found'
  advance : ∃ n, s'.nextId = s.nextId + n ∧ u'.nextId = u.nextId + n
  same : ∀ ρ : Uuid → Uuid,
    (∀ k, s.nextId + k < s'.nextId → ρ ⟨s.nextId + k⟩ = ⟨u.nextId + k⟩) →
      found'.map FindingView.timeless = found.map fun view => (view.rename ρ).timeless

namespace Parallel

theorem nil (s u : Store) : Parallel s s u u [] [] :=
  ⟨.nil s, .nil u, ⟨0, rfl, rfl⟩, fun _ _ => rfl⟩

theorem append {found more found' more' : List FindingView} (h : Parallel s s' u u' found found')
    (h' : Parallel s' s'' u' u'' more more') :
    Parallel s s'' u u'' (found ++ more) (found' ++ more') := by
  obtain ⟨n, hn, hn'⟩ := h.advance
  obtain ⟨m, hm, hm'⟩ := h'.advance
  refine ⟨h.left.append h'.left, h.right.append h'.right, ⟨n + m, ?_, ?_⟩, fun ρ hρ => ?_⟩
  · rw [hm, hn, Nat.add_assoc]
  · rw [hm', hn', Nat.add_assoc]
  · rw [List.map_append, List.map_append, h.same ρ fun k hk => hρ k (by omega),
      h'.same ρ fun k hk => ?_]
    rw [hn, Nat.add_assoc] at hk ⊢
    rw [hn', Nat.add_assoc]
    exact hρ (n + k) hk

end Parallel

/-- Two filings for one subject and plan have stored the same. -/
theorem Filing.Stores.parallel {subject : Subject} {plan : Plan} {f g : Finding} {ts us : List Task}
    (hfiles : Files subject plan f ts) (hstores : Stores s s' f ts)
    (hfiles' : Files subject plan g us) (hstores' : Stores u u' g us) :
    Parallel s s' u u' [⟨f, ts⟩] [⟨g, us⟩] := by
  obtain ⟨hf, hts, -, clock, -, rfl⟩ := hstores
  obtain ⟨hg, hus, -, clock', -, rfl⟩ := hstores'
  have hlength : ts.length = us.length := by
    obtain ⟨dates, hdates, hdrafted⟩ := hfiles.tasks
    obtain ⟨dates', hdates', hdrafted'⟩ := hfiles'.tasks
    obtain rfl := Except.ok.inj (hdates.symm.trans hdates')
    exact hdrafted.length_eq.symm.trans hdrafted'.length_eq
  refine ⟨by simp [Store.Gains], by simp [Store.Gains], ⟨1 + ts.length, ?_, ?_⟩, fun ρ hρ => ?_⟩
  · exact Nat.add_assoc ..
  · rw [hlength]
    exact Nat.add_assoc ..
  · rw [List.map_singleton, List.map_singleton]
    refine congrArg (fun view => [view]) (hfiles.timeless_eq hfiles' ?_ ?_)
    · rw [hf, hg]
      exact hρ 0 (by dsimp only; omega)
    · calc ts.map (fun k => ρ k.id)
          = (ts.map fun k => k.id).map ρ := List.map_map.symm
        _ = us.map fun k => k.id := by
          rw [hts, hus, hlength]
          refine map_idsFrom fun k hk => ?_
          rw [Nat.add_assoc, Nat.add_assoc]
          exact hρ (1 + k) (by dsimp only; omega)

/-! ## Runs that end alike -/

/-- Run on either store, a transaction goes through, or fails with the same failure; and where it
goes through it has stored the same, of which `found` tells what it has answered. -/
structure EndsAlike {α : Type} (x : Txn α) (found : α → List FindingView) (s u : Store) : Prop where
  outcome : verdict x s = verdict x u
  parallel : ∀ {a b : α} {s' u' : Store}, Yields x s a s' → Yields x u b u' →
    Parallel s s' u u' (found a) (found b)

namespace EndsAlike

variable {α β : Type} {x y : Txn α} {found : α → List FindingView} {more : β → List FindingView}

theorem pure {a : α} (h : found a = []) : EndsAlike (pure a) found s u where
  outcome := rfl
  parallel := by
    intro b c s' u' hs hu
    obtain ⟨rfl, rfl⟩ := yields_pure.1 hs
    obtain ⟨rfl, rfl⟩ := yields_pure.1 hu
    rw [h]
    exact .nil s' u'

/-- What on either store does what another transaction does ends as that one. -/
theorem of_runs (h : EndsAlike y found s u) (hs : (x s : Except Failure α × Store) = y s)
    (hu : (x u : Except Failure α × Store) = y u) : EndsAlike x found s u where
  outcome := by
    rw [Txn.verdict, Txn.verdict, hs, hu]
    exact h.outcome
  parallel hs' hu' := h.parallel (hs.symm.trans hs') (hu.symm.trans hu')

theorem ofExcept_bind {r : Except Failure β} {f : β → Txn α}
    (h : ∀ b, r = .ok b → EndsAlike (f b) found s u) :
    EndsAlike (Txn.ofExcept r >>= f) found s u where
  outcome := by
    rw [verdict_ofExcept_bind, verdict_ofExcept_bind]
    cases r with
    | error e => rfl
    | ok b => exact (h b rfl).outcome
  parallel := by
    intro a b s' u' hs hu
    cases r with
    | error e => cases hs
    | ok c => exact (h c rfl).parallel hs hu

/-- What looks at the stores and sees the same goes on alike. -/
theorem look {p : Store → Bool} (hp : p s = p u) (hx : EndsAlike x found s u)
    (hy : EndsAlike y found s u) :
    EndsAlike (get >>= fun w => if p w then x else y) found s u := by
  have hrun : ∀ w : Store, ((get >>= fun w => if p w then x else y) w : Except Failure α × Store) =
      (if p w then x else y) w := fun _ => rfl
  cases hlook : p s with
  | true =>
    refine hx.of_runs ?_ ?_
    · rw [hrun, if_pos hlook]
    · rw [hrun, if_pos (hp.symm.trans hlook)]
  | false =>
    refine hy.of_runs ?_ ?_
    · rw [hrun, hlook, if_neg Bool.false_ne_true]
    · rw [hrun, ← hp, hlook, if_neg Bool.false_ne_true]

/-- One after the other, where the second finds what the first has left. -/
theorem bind {f : α → Txn β} (hx : EndsAlike x found s u)
    (hf : ∀ {a b s' u'}, Yields x s a s' → Yields x u b u' →
      verdict (f a) s' = verdict (f b) u' ∧ ∀ {c d s'' u''}, Yields (f a) s' c s'' →
        Yields (f b) u' d u'' → Parallel s s'' u u'' (more c) (more d)) :
    EndsAlike (x >>= f) more s u where
  outcome := by
    rcases yields_or_fails x s with ⟨a, s', hs⟩ | ⟨e, s', hs⟩
    · obtain ⟨b, u', hu⟩ := verdict_eq_ok.1 (hx.outcome.symm.trans hs.verdict)
      rw [hs.verdict_bind, hu.verdict_bind, (hf hs hu).1]
    · obtain ⟨u', hu⟩ := verdict_eq_error.1 (hx.outcome.symm.trans hs.verdict)
      rw [hs.verdict_bind, hu.verdict_bind]
  parallel hs hu := by
    obtain ⟨a, s', hs, hc⟩ := yields_bind.1 hs
    obtain ⟨b, u', hu, hd⟩ := yields_bind.1 hu
    exact (hf hs hu).2 hc hd

end EndsAlike

/-! ## Filing -/

namespace Filing

variable {subject : Subject} {plan : Plan}

theorem check_congr {live live' : FindingKey → Bool}
    (h : ∀ key, keyOf subject = .ok key → live key = live' key) :
    check live subject plan = check live' subject plan := by
  have hreported : reported live subject = reported live' subject := by
    funext e
    cases e with
    | constraint =>
      unfold reported
      cases hkey : keyOf subject with
      | error e => rfl
      | ok key =>
        dsimp only
        rw [h key hkey]
    | _ => rfl
  have hrows : checkRows live subject plan = checkRows live' subject plan := by
    unfold checkRows
    refine congrArg _ (funext fun _ => ?_)
    cases hkey : keyOf subject with
    | error e => rfl
    | ok key =>
      dsimp only [bind, Except.bind]
      rw [h key hkey]
  rw [check, check, hreported, hrows]

/-- A filing ends alike on stores where the same findings about its key are live. -/
theorem fileShown_endsAlike (hs : s.Supplied) (hu : u.Supplied)
    (hlive : ∀ key, keyOf subject = .ok key →
      (s.liveFinding? key).isSome = (u.liveFinding? key).isSome) :
    EndsAlike (fileShown subject plan) (fun view => [view]) s u where
  outcome := by
    have hconst : ∀ {t : Store}, verdict (fileShown subject plan) t =
        (verdict (file subject plan) t).bind fun _ =>
          if isShowable plan then .ok () else .error .unpresentable := by
      intro t
      refine verdict_bind_const fun f t' _ => ?_
      split
      · rfl
      · rfl
    rw [hconst, hconst, verdict_file hs.findings, verdict_file hu.findings, check_congr hlive]
  parallel hview hview' := by
    obtain ⟨-, hfiles, hstores⟩ := yields_fileShown hs hview
    obtain ⟨-, hfiles', hstores'⟩ := yields_fileShown hu hview'
    exact hstores.parallel hfiles hfiles' hstores'

end Filing

/-! ## Evaluating -/

namespace Evaluation

variable {c : Circumstances} {t : Target} {v : Version} {r : Rule}

/-- The next identifiers of two stores are new, and the same versions have a finding about an entity
pending. -/
structure Agree (t : Target) (s u : Store) : Prop where
  left : s.Supplied
  right : u.Supplied
  pending : ∀ version, Pending s t version ↔ Pending u t version

theorem Agree.liveFinding? (h : Agree t s u) {inputs : Fields} {key : FindingKey}
    (hkey : Filing.keyOf (subject t v r inputs) = .ok key) :
    (s.liveFinding? key).isSome = (u.liveFinding? key).isSome := by
  have hyields : ∀ w : Store,
      Yields (Filing.key t.tenant v.id t.entityType t.entityId) w key w := by
    intro w
    rw [show Filing.key t.tenant v.id t.entityType t.entityId = _ from
      Filing.key_eq (subject t v r inputs)]
    exact yields_ofExcept.2 ⟨hkey, rfl⟩
  rw [Bool.eq_iff_iff, liveFinding?_isSome_iff (hyields s), liveFinding?_isSome_iff (hyields u)]
  exact h.pending v.id

theorem verdict_unlessDuplicate {α : Type} (x : Txn α) :
    verdict (unlessDuplicate x) s = match verdict x s with
      | .error (.duplicateFinding _) => .ok ()
      | outcome => outcome := by
  rw [Txn.verdict, Txn.verdict, unlessDuplicate, run_tryCatch, run_bind]
  rcases (x s : Except Failure α × Store) with ⟨e | a, s'⟩
  · cases e <;> rfl
  · rfl

theorem unlessDuplicate_endsAlike {x : Txn FindingView}
    (h : EndsAlike x (fun view => [view]) s u)
    (hundone : ∀ {w w' : Store} {key : FindingKey}, Fails x w (.duplicateFinding key) w' → w' = w) :
    EndsAlike (unlessDuplicate x) Option.toList s u where
  outcome := by rw [verdict_unlessDuplicate, verdict_unlessDuplicate, h.outcome]
  parallel hs hu := by
    rcases yields_unlessDuplicate hs with ⟨a, rfl, hx⟩ | ⟨rfl, key, hx⟩
    · rcases yields_unlessDuplicate hu with ⟨b, rfl, hy⟩ | ⟨rfl, key, hy⟩
      · exact h.parallel hx hy
      · cases hx.verdict.symm.trans (h.outcome.trans hy.verdict)
    · rcases yields_unlessDuplicate hu with ⟨b, rfl, hy⟩ | ⟨rfl, key, hy⟩
      · cases hx.verdict.symm.trans (h.outcome.trans hy.verdict)
      · obtain rfl := hundone hx
        obtain rfl := hundone hy
        exact .nil _ _

theorem fileHit_endsAlike (h : Agree t s u) (today : Date) (tree : Condition) :
    EndsAlike (fileHit today t v r tree) Option.toList s u := by
  refine .ofExcept_bind fun inputs _ => .ofExcept_bind fun plan _ => ?_
  refine unlessDuplicate_endsAlike ?_ fun hduplicate => (Filing.fileShown_duplicate hduplicate).1
  exact Filing.fileShown_endsAlike h.left h.right fun key hkey => h.liveFinding? hkey

theorem evaluateVersion_endsAlike (h : Agree t s u) :
    EndsAlike (evaluateVersion c t v r) Option.toList s u := by
  cases htree : Condition.ofValue c.policy v.conditionsOrNone with
  | error e =>
    rw [evaluateVersion_of_malformed htree]
    exact .pure rfl
  | ok tree =>
    rw [evaluateVersion_of_tree htree]
    refine .ofExcept_bind fun holds _ => ?_
    split
    · exact .pure rfl
    · split
      · exact fileHit_endsAlike h _ tree
      · rw [show Filing.key t.tenant v.id t.entityType t.entityId = _ from
          Filing.key_eq (subject t v r [])]
        refine .ofExcept_bind fun key hkey => ?_
        exact .look (h.liveFinding? hkey) (.pure rfl) (fileHit_endsAlike h _ tree)

/-- What is pending after an evaluation was pending before, or has been found. -/
theorem pending_iff_of_gains {found : List FindingView} (h : s.Gains s' found) (version : Uuid) :
    Pending s' t version ↔ Pending s t version ∨ ∃ view ∈ found.map FindingView.timeless,
      view.finding.status.isLive = true ∧ view.finding.tenant = t.tenant ∧
        Text.ofString view.finding.entityType = t.entityType ∧
        Text.ofString view.finding.entityId = t.entityId ∧ view.finding.version = version := by
  unfold Pending
  simp only [h.findings, List.mem_append, List.mem_map, or_and_right, exists_or]
  refine or_congr_right ?_
  constructor
  · rintro ⟨_, ⟨view, hview, rfl⟩, hlive⟩
    exact ⟨view.timeless, ⟨view, hview, rfl⟩, hlive⟩
  · rintro ⟨_, ⟨view, hview, rfl⟩, hlive⟩
    exact ⟨view.finding, ⟨view, hview, rfl⟩, hlive⟩

/-- Stores that agree agree again once the same has been found in both. -/
theorem Agree.after (h : Agree t s u) {found found' : List FindingView}
    (hruns : Parallel s s' u u' found found') (hs : s'.Supplied) (hu : u'.Supplied) :
    Agree t s' u' := by
  refine ⟨hs, hu, fun version => ?_⟩
  rw [pending_iff_of_gains hruns.left, pending_iff_of_gains hruns.right, h.pending,
    hruns.same (Uuid.reissue s.nextId u.nextId) fun k _ => Uuid.reissue_add k]
  refine or_congr_right ?_
  simp only [List.mem_map]
  constructor
  · rintro ⟨_, ⟨view, hview, rfl⟩, hlive⟩
    exact ⟨_, ⟨view, hview, rfl⟩, hlive⟩
  · rintro ⟨_, ⟨view, hview, rfl⟩, hlive⟩
    exact ⟨_, ⟨view, hview, rfl⟩, hlive⟩

/-- An evaluation of versions ends alike where the same of them are pending. -/
theorem evaluateVersions_endsAlike (h : Agree t s u) (listed : List (Version × Rule)) :
    EndsAlike (evaluateVersions c t listed) id s u := by
  induction listed generalizing s u with
  | nil => exact .pure rfl
  | cons hit rest ih =>
    obtain ⟨v, r⟩ := hit
    have hfirst : EndsAlike (evaluateVersion c t v r) Option.toList s u :=
      evaluateVersion_endsAlike h
    refine hfirst.bind fun {a b s₁ u₁} hs hu => ?_
    have hruns := hfirst.parallel hs hu
    have hrest := ih (h.after hruns (h.left.of_yields (evaluateVersion_changes t v r) hs)
      (h.right.of_yields (evaluateVersion_changes t v r) hu))
    refine ⟨?_, fun {c d s₂ u₂} hs hu => ?_⟩
    · rw [verdict_bind_pure, verdict_bind_pure]
      exact hrest.outcome
    · obtain ⟨more, _, hs, hpure⟩ := yields_bind.1 hs
      obtain ⟨rfl, rfl⟩ := yields_pure.1 hpure
      obtain ⟨more', _, hu, hpure⟩ := yields_bind.1 hu
      obtain ⟨rfl, rfl⟩ := yields_pure.1 hpure
      exact hruns.append (hrest.parallel hs hu)

/-- So does an evaluation where rules and versions are the same. -/
theorem evaluate_endsAlike {caller : Caller} {entityType : Text} {entity : Fields}
    (hrules : u.rules = s.rules) (hversions : u.versions = s.versions)
    (h : Agree { tenant := caller.tenant, entityType, entityId := (entity.getD "id").plain, entity }
      s u) : EndsAlike (evaluate c caller entityType entity) id s u := by
  refine .ofExcept_bind fun t ht => .ofExcept_bind fun name _ => ?_
  obtain rfl := Target.ofEntity_eq_ok ht
  refine (evaluateVersions_endsAlike h (s.activeVersions caller.tenant name)).of_runs rfl ?_
  rw [← Store.activeVersions_congr hrules hversions]
  rfl

end Evaluation

end Rulebook
