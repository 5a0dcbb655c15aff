import Rulebook.Proofs.ActiveVersion
import Rulebook.Proofs.CreationOrder
import Rulebook.Proofs.ParallelRuns

/-!
One active version gives way to another. Activating an approved version goes through, makes it the
active one of its rule in the place of the one that was, and touches nothing else (`Store.Swaps`).
So every listing of active versions is the one that it was, without the version that gave way and
with the new one at the place that the time of its making gives it (`Store.Swaps.listed_eq`), and
versions of other rules are evaluated as before.
-/
namespace Rulebook

open Txn

variable {s s' : Store} {v : Version} {r : Rule}

/-! ## What is active afterwards -/

/-- A version as it is once it has become active. -/
def Version.activated (v : Version) (t : Instant) : Version :=
  { v with status := .active, updatedAt := t }

namespace Store.Swaps

/-- Active are the new version and those of other rules. -/
theorem mem_active (h : s.Swaps s' v r) (hs : s.Intact) (hv : v ∈ s.versions)
    (hrule : v.rule = r.id) : ∃ t : Instant, ∀ w : Version,
      w ∈ s'.versions ∧ w.status = .active ↔
        w = v.activated t ∨ (w ∈ s.versions ∧ w.status = .active) ∧ w.rule ≠ r.id := by
  obtain ⟨t, u, hversions⟩ := h.versions
  refine ⟨t, fun w => ?_⟩
  rw [hversions, List.mem_map]
  constructor
  · rintro ⟨⟨q, hq, rfl⟩, hactive⟩
    by_cases hid : q.id = v.id
    · rw [if_pos hid, hs.versions.eq_of_id hq hv hid]
      exact Or.inl rfl
    · by_cases hold : q.rule = r.id ∧ q.status = .active
      · rw [if_neg hid, if_pos hold] at hactive
        cases hactive
      · rw [if_neg hid, if_neg hold] at hactive ⊢
        exact Or.inr ⟨⟨hq, hactive⟩, fun hqrule => hold ⟨hqrule, hactive⟩⟩
  · rintro (rfl | ⟨⟨hw, hactive⟩, hother⟩)
    · exact ⟨⟨v, hv, if_pos rfl⟩, rfl⟩
    · have hid : w.id ≠ v.id := fun heq => hother ((hs.versions.eq_of_id hw hv heq) ▸ hrule)
      exact ⟨⟨w, hw, by rw [if_neg hid, if_neg fun hold => hother hold.1]⟩, hactive⟩

/-- Other rules are as they were. -/
theorem mem_rules (h : s.Swaps s' v r) {q : Rule} (hother : q.id ≠ r.id) :
    q ∈ s'.rules ↔ q ∈ s.rules := by
  obtain ⟨t, hrules⟩ := h.rules
  rw [hrules, List.mem_map]
  constructor
  · rintro ⟨p, hp, rfl⟩
    split_ifs at hother ⊢ with hid
    · exact absurd hid hother
    · exact hp
  · exact fun hq => ⟨q, hq, if_neg hother⟩

/-- Each rule is about the types that it was about. -/
theorem covers_iff (h : s.Swaps s' v r) (id : Uuid) (name : String) :
    (∃ q ∈ s'.rules, q.id = id ∧ q.covers name = true) ↔
      ∃ q ∈ s.rules, q.id = id ∧ q.covers name = true := by
  obtain ⟨t, hrules⟩ := h.rules
  simp only [hrules, List.mem_map, exists_exists_and_eq_and]
  refine exists_congr fun q => and_congr_right fun _ => ?_
  split
  · rfl
  · rfl

/-- A listing afterwards: the versions of other rules that were listed, and the new one in the
order in which they were made, if its rule is about the type. -/
theorem listed_eq (h : s.Swaps s' v r) (hs : s.Intact) (hs' : s'.Intact) (hc : s.Chronological)
    (hc' : s'.Chronological) (hv : v ∈ s.versions) (hr : r ∈ s.rules) (hrule : v.rule = r.id) :
    ∃ t : Instant, ∀ name : String,
      let others := (s.listed v.tenant name).filter fun w => w.rule ≠ r.id
      s'.listed v.tenant name =
        if r.covers name then others.orderedInsert Version.MadeBefore (v.activated t)
        else others := by
  obtain ⟨t, hactive⟩ := h.mem_active hs hv hrule
  refine ⟨t, fun name => ?_⟩
  intro others
  have hothers : ∀ w ∈ others, w ∈ s.versions ∧ w.rule ≠ r.id := by
    intro w hw
    obtain ⟨hw, hother⟩ := List.mem_filter.1 hw
    exact ⟨(hs.mem_listed.1 hw).1.1, by simpa using hother⟩
  have hsorted : others.Pairwise Version.MadeBefore :=
    (hc.listed v.tenant name).sublist List.filter_sublist
  -- Both lists stand in the order of time, so it is enough that they have the same members.
  refine (hc'.listed v.tenant name).eq_of_mem_iff ?_ fun w => ?_
  · split
    · refine Version.pairwise_orderedInsert hsorted fun w hw => ?_
      obtain ⟨hw, hother⟩ := hothers w hw
      have hne : w.createdAt ≠ v.createdAt :=
        hc.createdAt_ne hw hv fun heq => hother (heq ▸ hrule)
      exact hne
    · exact hsorted
  · have hmem : w ∈ s'.listed v.tenant name ↔
        w = v.activated t ∧ r.covers name = true ∨ w ∈ others := by
      rw [hs'.mem_listed, hactive, h.covers_iff, or_and_right, List.mem_filter, hs.mem_listed]
      refine or_congr ⟨?_, ?_⟩ (by rw [decide_eq_true_eq, and_right_comm])
      · rintro ⟨rfl, -, q, hq, hid, hcovers⟩
        obtain rfl := hs.rules.eq_of_id hq hr (hid.trans hrule)
        exact ⟨rfl, hcovers⟩
      · rintro ⟨rfl, hcovers⟩
        exact ⟨rfl, rfl, r, hr, hrule.symm, hcovers⟩
    rw [hmem]
    split
    · next hcovers => simp only [hcovers, and_true, List.mem_orderedInsert]
    · next hcovers => exact or_iff_right fun hnew => hcovers hnew.2

/-- The active versions of other rules go on being visited, with the rules as they were. -/
theorem mem_activeVersions (h : s.Swaps s' v r) (hs : s.Intact) (hs' : s'.Intact)
    (hv : v ∈ s.versions) (hrule : v.rule = r.id) {tenant : Uuid} {name : String} {w : Version}
    {q : Rule} (hlisted : (w, q) ∈ s.activeVersions tenant name) (hother : q.id ≠ r.id) :
    (w, q) ∈ s'.activeVersions tenant name := by
  obtain ⟨hw, htenant, hactive, hq, hid, hcovers⟩ := hs.mem_activeVersions.1 hlisted
  obtain ⟨t, hmem⟩ := h.mem_active hs hv hrule
  obtain ⟨hw', -⟩ := (hmem w).2 (Or.inr ⟨⟨hw, hactive⟩, hid ▸ hother⟩)
  exact hs'.mem_activeVersions.2
    ⟨hw', htenant, hactive, (h.mem_rules hother).2 hq, hid, hcovers⟩

/-- Findings are left alone, so they are pending as before. -/
theorem agree (h : s.Swaps s' v r) (hs : s.Intact) (hs' : s'.Intact) (t : Evaluation.Target) :
    Evaluation.Agree t s s' := by
  refine ⟨hs.supplied, hs'.supplied, fun version => ?_⟩
  rw [h.frame]
  rfl

end Store.Swaps

/-! ## Evaluations -/

theorem FindingView.rename_id (view : FindingView) : view.rename id = view :=
  congrArg (FindingView.mk view.finding) (List.map_id _)

/-- Where findings and the supply of identifiers are the same, an evaluation of a version ends the
same way and finds the same, times apart. -/
theorem Evaluation.evaluateVersion_same {c : Circumstances} {t : Target} (h : Agree t s s')
    (hid : s'.nextId = s.nextId) (w : Version) (q : Rule) :
    verdict (evaluateVersion c t w q) s' = verdict (evaluateVersion c t w q) s ∧
      ∀ found found' u u', Yields (evaluateVersion c t w q) s found u →
        Yields (evaluateVersion c t w q) s' found' u' →
        found'.map FindingView.timeless = found.map FindingView.timeless := by
  have halike : EndsAlike (evaluateVersion c t w q) Option.toList s s' :=
    evaluateVersion_endsAlike h
  refine ⟨halike.outcome.symm, fun found found' u u' hrun hrun' => ?_⟩
  have hsame := (halike.parallel hrun hrun').same id fun k _ => by rw [hid]; rfl
  simp only [FindingView.rename_id] at hsame
  have hhead := congrArg List.head? hsame
  rwa [← Option.toList_map, ← Option.toList_map, Option.head?_toList, Option.head?_toList] at hhead

/-- In every history without forced writes, an approved version can be activated by its tenant.
Afterwards the version is active, the version of its rule that was active, of which there is at most
one, is retired, and the rule points at the new one; nothing else differs, times apart. Each listing
of active versions shows what it showed before, without the version that has given way, and the new
one in the order in which versions were made if its rule is about the type. The active versions of
other rules, of any tenant, are visited as before, and evaluating one of them ends as before. -/
theorem activation_swaps_versions (source : EntitySource) (clock : Instant) (nextId : Nat)
    (moves : List Move) (hmoves : ∀ m ∈ moves, m.work ≠ .forcing) :
    let s := ((Engine.fresh source clock nextId).after moves).store
    ∀ caller : Caller, ∀ v ∈ s.versions, v.tenant = caller.tenant → v.status = .approved →
      ∃ r ∈ s.rules, r.id = v.rule ∧
        (s.versions.filter fun w => w.rule == r.id && w.isActive).length ≤ 1 ∧
        ∃ view s', Yields (Lifecycle.activateVersion caller v.id) s view s' ∧ s.Swaps s' v r ∧
          (∃ t : Instant, ∀ name : String, ∃ before,
            Yields (Authoring.listActive caller name) s before s ∧
            let others := before.filter fun w => w.rule ≠ r.id
            Yields (Authoring.listActive caller name) s'
              (if r.covers name then others.orderedInsert Version.MadeBefore (v.activated t)
              else others) s') ∧
          ∀ tenant name w q, (w, q) ∈ s.activeVersions tenant name → q.id ≠ r.id →
            (w, q) ∈ s'.activeVersions tenant name ∧
            ∀ c t, verdict (Evaluation.evaluateVersion c t w q) s' =
                verdict (Evaluation.evaluateVersion c t w q) s ∧
              ∀ found found' u u', Yields (Evaluation.evaluateVersion c t w q) s found u →
                Yields (Evaluation.evaluateVersion c t w q) s' found' u' →
                found'.map FindingView.timeless = found.map FindingView.timeless := by
  intro s caller v hv htenant hstatus
  have hfresh := Engine.fresh_intact source clock nextId
  have hs : s.Intact := Engine.after_intact hfresh moves
  have hauthored : ∀ w ∈ s.versions, w.Authored := Engine.after_authored hfresh nofun hmoves
  have hc : s.Chronological := Engine.after_chronological source clock nextId moves
  obtain ⟨view, s', hrun⟩ := Lifecycle.activateVersion_goes_through hs hauthored hv htenant hstatus
  obtain ⟨v', hv', r, hr, hid, -, -, hrule, hswaps⟩ := Lifecycle.activateVersion_swaps hs hrun
  obtain rfl := hs.versions.eq_of_id hv' hv hid
  have hchanges : Changes { source := .absent } .lifecycle s s' :=
    .of_yields (Lifecycle.activateVersion_changes hs _) hrun
  have hs' := hchanges.intact hs
  have hc' : s'.Chronological := hchanges.chronological hs hc
  refine ⟨r, hr, hrule, hs.one_active r.id, view, s', hrun, hswaps, ?_, ?_⟩
  · obtain ⟨t, hlisted⟩ := hswaps.listed_eq hs hs' hc hc' hv hr hrule.symm
    refine ⟨t, fun name => ⟨_, Authoring.listActive_yields s caller name, ?_⟩⟩
    have hyields := Authoring.listActive_yields s' caller name
    rw [← htenant, hlisted name, htenant] at hyields
    exact hyields
  · intro tenant name w q hlisted hother
    refine ⟨hswaps.mem_activeVersions hs hs' hv hrule.symm hlisted hother, fun c t => ?_⟩
    refine Evaluation.evaluateVersion_same (hswaps.agree hs hs' t) ?_ w q
    rw [hswaps.frame]

/-- After the second version of a rule has been approved, another rule about loans is activated. -/
def renewalBesides : List Move :=
  let caller : Caller := { tenant := ⟨100⟩ }
  renewal ++ [.call {} caller (.createRule { pack := ⟨0⟩, name := "Rate" } {}),
    .call {} caller (.submitRule ⟨4⟩), .call {} caller (.approveVersion ⟨5⟩),
    .call {} caller (.activateVersion ⟨5⟩)]

/-- The second version takes its place before that of the other rule, which was made later. -/
theorem activation_swaps_versions_besides :
    let s := ((Engine.fresh .absent default 0).after renewalBesides).store
    let caller : Caller := { tenant := ⟨100⟩ }
    ∃ view s' before after, Yields (Lifecycle.activateVersion caller ⟨3⟩) s view s' ∧
      Yields (Authoring.listActive caller "loan") s before s ∧
      before.map (fun v => v.id) = [⟨2⟩, ⟨5⟩] ∧
      Yields (Authoring.listActive caller "loan") s' after s' ∧
      after.map (fun v => v.id) = [⟨3⟩, ⟨5⟩] := by
  intro s caller
  have hversions : ((Engine.fresh .absent default 0).after renewalBesides).store.versions.map
      (fun v => (v.id, v.tenant, v.status)) =
        [(⟨2⟩, ⟨100⟩, .active), (⟨3⟩, ⟨100⟩, .approved), (⟨5⟩, ⟨100⟩, .active)] := by cbv
  have hmem : ((⟨3⟩, ⟨100⟩, .approved) : Uuid × Uuid × VersionStatus) ∈
      s.versions.map fun v => (v.id, v.tenant, v.status) := by
    rw [show s.versions.map _ = _ from hversions]
    simp
  obtain ⟨v, hv, heq⟩ := List.mem_map.1 hmem
  obtain ⟨hid, htenant, hstatus⟩ : v.id = ⟨3⟩ ∧ v.tenant = ⟨100⟩ ∧ v.status = .approved := by
    simpa using heq
  obtain ⟨r, -, -, -, view, s', hrun, -, ⟨t, hlisted⟩, -⟩ := activation_swaps_versions .absent
    default 0 renewalBesides (by decide) caller v hv htenant hstatus
  rw [hid] at hrun
  obtain ⟨before, hbefore, hafter⟩ := hlisted "loan"
  have hanswer : ((do
      discard <| Lifecycle.activateVersion { tenant := ⟨100⟩ } ⟨3⟩
      Authoring.listActive { tenant := ⟨100⟩ } "loan" : Txn (List Version))
        ((Engine.fresh .absent default 0).after renewalBesides).store :
          Except Failure (List Version) × Store).1.toOption.map
        (fun vs => vs.map fun v => v.id) = some [⟨3⟩, ⟨5⟩] := by cbv
  have hshown : ((Authoring.listActive { tenant := ⟨100⟩ } "loan"
      ((Engine.fresh .absent default 0).after renewalBesides).store :
          Except Failure (List Version) × Store).1.toOption.map
        (fun vs => vs.map fun v => v.id)) = some [⟨2⟩, ⟨5⟩] := by cbv
  obtain ⟨after, _, hboth, hids'⟩ := yields_of_answer hanswer
  obtain ⟨_, s₁, hactivated, hshow'⟩ := yields_bind.1 hboth
  obtain ⟨_, hactivated⟩ := yields_discard.1 hactivated
  obtain ⟨shown, _, hshow, hids⟩ := yields_of_answer hshown
  obtain ⟨-, rfl⟩ := hrun.unique hactivated
  obtain ⟨rfl, -⟩ := hbefore.unique hshow
  obtain ⟨rfl, -⟩ := hafter.unique hshow'
  exact ⟨view, s₁, shown, _, hrun, hbefore, hids, hafter, hids'⟩

end Rulebook
