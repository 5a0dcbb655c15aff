import Mathlib
import Rulebook.Proofs.Activation
import Rulebook.Proofs.History

/-!
The active version of a rule. It is stored three times: in the status of the version, in the pointer
of the rule and in the status of the rule. `Store.Coherent` says that the three agree. Authoring
never makes a version active or points a rule at one; the four calls in the life of a version change
the three together (`submit_coherent`, `approve_coherent`, `activate_coherent`,
`retire_coherent`). Where failures are undone and nothing is forced, every store of a history is
coherent, and an approved version can be activated.
-/
namespace Rulebook

open Txn

variable {c : Impact.Circumstances} {w : Work} {s s' : Store}

/-! ## Coherent stores -/

/-- A rule points at its active version, and is active itself, exactly if it has one. -/
structure Rule.PointsRight (versions : List Version) (r : Rule) : Prop where
  active_iff : ∀ v ∈ versions, v.rule = r.id → (v.status = .active ↔ r.currentVersion = some v.id)
  pointed : ∀ id, r.currentVersion = some id → ∃ v ∈ versions, v.id = id ∧ v.rule = r.id
  status_iff : r.status = .active ↔ r.currentVersion ≠ none

def Store.Coherent (s : Store) : Prop := ∀ r ∈ s.rules, r.PointsRight s.versions

/-- The pointer is right whatever the times. -/
theorem Rule.PointsRight.of_untimed {vs ws : List Version} {r q : Rule} (h : r.PointsRight vs)
    (hversions : ws.map Version.untimed = vs.map Version.untimed) (hrule : q.untimed = r.untimed) :
    q.PointsRight ws := by
  obtain ⟨hid, hcurrent, hstatus⟩ := Rule.same_of_untimed hrule
  constructor
  · intro w hw hwrule
    have hmem : w.untimed ∈ vs.map Version.untimed := hversions ▸ List.mem_map_of_mem hw
    obtain ⟨v, hv, heq⟩ := List.mem_map.1 hmem
    obtain ⟨hvid, hvrule, hvstatus⟩ := Version.same_of_untimed heq
    rw [← hvstatus, ← hvid, hcurrent]
    exact h.active_iff v hv (hvrule.trans (hwrule.trans hid))
  · intro id hpointed
    obtain ⟨v, hv, hvid, hvrule⟩ := h.pointed id (hcurrent ▸ hpointed)
    have hmem : v.untimed ∈ ws.map Version.untimed := hversions ▸ List.mem_map_of_mem hv
    obtain ⟨w, hw, heq⟩ := List.mem_map.1 hmem
    obtain ⟨hwid, hwrule, -⟩ := Version.same_of_untimed heq
    exact ⟨w, hw, hwid.trans hvid, hwrule.trans (hvrule.trans hid.symm)⟩
  · rw [hstatus, hcurrent]
    exact h.status_iff

/-- To see that a move ends in a coherent store, look at each rule as it becomes. -/
theorem Store.Moves.coherent {g : Version → Version} {k : Rule → Rule} (h : s.Moves s' g k)
    (hpoints : ∀ r ∈ s.rules, (k r).PointsRight (s.versions.map g)) : s'.Coherent := by
  intro q hq
  obtain ⟨r, hr, heq⟩ := h.rule_of hq
  refine (hpoints r hr).of_untimed ?_ heq
  rw [h.versions, List.map_map]
  rfl

/-- Versions may change in all but identity and activity. -/
theorem Rule.PointsRight.of_map {vs : List Version} {r : Rule} {g : Version → Version}
    (h : r.PointsRight vs) (hid : ∀ v ∈ vs, (g v).id = v.id) (hrule : ∀ v ∈ vs, (g v).rule = v.rule)
    (hactive : ∀ v ∈ vs, v.rule = r.id → ((g v).status = .active ↔ v.status = .active)) :
    r.PointsRight (vs.map g) := by
  refine ⟨fun w hw hwrule => ?_, fun id hpointed => ?_, h.status_iff⟩
  · obtain ⟨v, hv, rfl⟩ := List.mem_map.1 hw
    rw [hrule v hv] at hwrule
    rw [hactive v hv hwrule, hid v hv]
    exact h.active_iff v hv hwrule
  · obtain ⟨v, hv, hvid, hvrule⟩ := h.pointed id hpointed
    exact ⟨g v, List.mem_map_of_mem hv, (hid v hv).trans hvid, (hrule v hv).trans hvrule⟩

/-! ## Authoring -/

/-- A new version belongs to no pointer yet. -/
theorem Store.Intact.pointed_lt (hs : s.Intact) {r : Rule} (h : r.PointsRight s.versions)
    {id : Uuid} (hpointed : r.currentVersion = some id) : id.number < s.nextId := by
  obtain ⟨v, hv, hid, -⟩ := h.pointed id hpointed
  rw [← hid]
  exact hs.versions.below v hv

namespace Store.Coherent

theorem ruleAdded (hs : s.Intact) (h : s.Coherent) {r : Rule} (hid : r.id = ⟨s.nextId⟩)
    (hidle : r.currentVersion = none ∧ r.status = .draft) (n : Nat) (t : Instant) :
    ({ s with rules := s.rules ++ [r], nextId := n, clock := t } : Store).Coherent := by
  intro q hq
  rcases List.mem_append.1 hq with hq | hq
  · exact h q hq
  · rw [List.mem_singleton.1 hq]
    refine ⟨fun v hv hrule => ?_, fun id hpointed => ?_, ?_⟩
    · exact absurd (hrule.trans hid) (hs.rules.owned_ne_next (hs.versionRule v hv))
    · rw [hidle.1] at hpointed
      cases hpointed
    · rw [hidle.1, hidle.2]
      simp

theorem versionAdded (hs : s.Intact) (h : s.Coherent) {v : Version} (hid : v.id = ⟨s.nextId⟩)
    (hdraft : v.status = .draft) (n : Nat) (t : Instant) :
    ({ s with versions := s.versions ++ [v], nextId := n, clock := t } : Store).Coherent := by
  intro r hr
  have hr := h r hr
  refine ⟨fun q hq hrule => ?_, fun i hpointed => ?_, hr.status_iff⟩
  · rcases List.mem_append.1 hq with hq | hq
    · exact hr.active_iff q hq hrule
    · rw [List.mem_singleton.1 hq, hdraft]
      refine ⟨fun hactive => (by cases hactive), fun hpointed => ?_⟩
      have hlt := hs.pointed_lt hr hpointed
      rw [hid] at hlt
      exact absurd hlt (Nat.lt_irrefl _)
  · obtain ⟨q, hq, hqid, hrule⟩ := hr.pointed i hpointed
    exact ⟨q, List.mem_append_left _ hq, hqid, hrule⟩

/-- What is changed of a draft leaves it a draft. -/
theorem draftSaved (hs : s.Intact) (h : s.Coherent) {v new : Version} (hv : v ∈ s.versions)
    (hdraft : v.status = .draft) (hid : new.id = v.id) (hrule : new.rule = v.rule)
    (hstatus : new.status = .draft) (t : Instant) :
    ({ s with versions := replaceRow s.versions new, clock := t } : Store).Coherent := by
  have hmoves : s.Moves { s with versions := replaceRow s.versions new, clock := t }
      (fun q => if q.id = v.id then new else q) id := by
    refine ⟨rfl, hs.versions.map_replaceRow hv hid ?_ fun q _ hne => ?_, rfl⟩
    · rw [if_pos rfl]
    · rw [if_neg (show q.id ≠ v.id from hne)]
  have hsame : ∀ q ∈ s.versions, (if q.id = v.id then new else q).id = q.id ∧
      (if q.id = v.id then new else q).rule = q.rule ∧
      ((if q.id = v.id then new else q).status = .active ↔ q.status = .active) := by
    intro q hq
    by_cases heq : q.id = v.id
    · rw [if_pos heq, hs.versions.eq_of_id hq hv heq, hstatus, hdraft]
      exact ⟨hid, hrule, Iff.rfl⟩
    · rw [if_neg heq]
      exact ⟨rfl, rfl, Iff.rfl⟩
  refine hmoves.coherent fun r hr => (h r hr).of_map ?_ ?_ ?_
  · exact fun q hq => (hsame q hq).1
  · exact fun q hq => (hsame q hq).2.1
  · exact fun q hq _ => (hsame q hq).2.2

end Store.Coherent

theorem Change.coherent_authoring (hc : Change c .authoring s s') (hs : s.Intact)
    (h : s.Coherent) : s'.Coherent := by
  cases hc with
  | passed later => exact h
  | ruleAdded id idle pack => exact h.ruleAdded hs id idle _ _
  | versionAdded id rule draft authored unique => exact h.versionAdded hs id draft.1 _ _
  | @versionSaved _ _ v _ _ edit old lawful unique =>
    cases lawful with
    | content draft kept conditions actions =>
      refine h.draftSaved hs old draft ?_ ?_ ?_ _
      · rfl
      · rfl
      · show (edit.applyTo v).status = .draft
        rw [VersionEdit.applyTo, kept.2.1]
        exact draft

theorem Changes.coherent_authoring (hc : Changes c .authoring s s') (hs : s.Intact)
    (h : s.Coherent) : s'.Coherent :=
  hc.keep hs h fun ht hcoherent last => last.coherent_authoring ht hcoherent

/-! ## The life of versions -/

namespace Lifecycle

variable {caller : Caller}

theorem submit_coherent (hs : s.Intact) (h : s.Coherent) {id : Uuid} {a : RuleView}
    (hrun : Yields (submitRule caller id) s a s') : s'.Coherent := by
  obtain ⟨r, hr, -, -, hmoves⟩ := yields_submitRule hs hrun
  refine hmoves.coherent fun q hq => ?_
  have hq : q.PointsRight (s.versions.map fun v =>
      if v.rule = r.id ∧ v.status = .draft then { v with status := .inReview } else v) := by
    refine (h q hq).of_map (fun v _ => ?_) (fun v _ => ?_) fun v _ _ => ?_
    · split <;> rfl
    · split <;> rfl
    · split
      · next hdraft => simp [hdraft.2]
      · exact Iff.rfl
  -- A rule that goes to review points at no version, so it was not active before.
  split
  · next hidle =>
    refine ⟨hq.active_iff, hq.pointed, ?_⟩
    simp [hidle.2]
  · exact hq

theorem approve_coherent (hs : s.Intact) (h : s.Coherent) {version : Uuid} {a : Version}
    (hrun : Yields (approveVersion caller version) s a s') : s'.Coherent := by
  obtain ⟨⟨v, hv, hid, -, hstatus⟩, hmoves⟩ := yields_approveVersion hs hrun
  refine hmoves.coherent fun q hq => ?_
  refine (h q hq).of_map (fun w _ => ?_) (fun w _ => ?_) fun w hw _ => ?_
  · split <;> rfl
  · split <;> rfl
  · split
    · next heq => simp [hs.versions.eq_of_id hw hv (heq.trans hid.symm), hstatus]
    · exact Iff.rfl

theorem activate_coherent (hs : s.Intact) (h : s.Coherent) {version : Uuid} {a : RuleView}
    (hrun : Yields (activateVersion caller version) s a s') : s'.Coherent := by
  obtain ⟨v, hv, r, hr, hid, -, -, hrule, hmoves⟩ := yields_activateVersion hs hrun
  have hversion : ∀ q ∈ s.versions, q.id = version → q = v := fun q hq heq =>
    hs.versions.eq_of_id hq hv (heq.trans hid.symm)
  refine hmoves.coherent fun q hq => ?_
  by_cases heq : q.id = r.id
  · rw [if_pos heq]
    refine ⟨fun w hw hwrule => ?_, fun i hpointed => ?_, by simp⟩
    · obtain ⟨p, hp, rfl⟩ := List.mem_map.1 hw
      by_cases hpid : p.id = version
      · simp [hpid]
      · by_cases hactive : p.rule = r.id ∧ p.status = .active
        · rw [if_neg hpid, if_pos hactive]
          exact iff_of_false (fun h => by cases h) fun h => hpid (Option.some.inj h).symm
        · rw [if_neg hpid, if_neg hactive] at hwrule ⊢
          have hidle : p.status ≠ .active := fun hp => hactive ⟨hwrule.trans heq, hp⟩
          exact iff_of_false hidle fun h => hpid (Option.some.inj h).symm
    · obtain rfl : version = i := Option.some.inj hpointed
      refine ⟨_, List.mem_map_of_mem hv, ?_, ?_⟩
      · rw [if_pos hid]
        exact hid
      · rw [if_pos hid]
        exact hrule.symm.trans heq.symm
  · rw [if_neg heq]
    refine (h q hq).of_map (fun w _ => ?_) (fun w _ => ?_) fun w hw hwrule => ?_
    · split
      · rfl
      · split <;> rfl
    · split
      · rfl
      · split <;> rfl
    · have hother : w.rule ≠ r.id := fun hw => heq (hwrule.symm.trans hw)
      have hne : w.id ≠ version := fun hwid => hother (by rw [hversion w hw hwid, hrule])
      simp [hne, hother]

theorem retire_coherent (hs : s.Intact) (h : s.Coherent) {version : Uuid} {a : Version}
    (hrun : Yields (retireVersion caller version) s a s') : s'.Coherent := by
  obtain ⟨v, hv, hid, -, hdone, hmoves⟩ := yields_retireVersion hs hrun
  have hversion : ∀ q ∈ s.versions, q.id = version → q = v := fun q hq heq =>
    hs.versions.eq_of_id hq hv (heq.trans hid.symm)
  refine hmoves.coherent fun q hq => ?_
  have hpoints := h q hq
  by_cases hcleared : q.id = v.rule ∧ v.status = .active ∧ q.currentVersion = some version
  · rw [if_pos hcleared]
    refine ⟨fun w hw hwrule => ?_, fun i hpointed => (by cases hpointed), by simp⟩
    obtain ⟨p, hp, rfl⟩ := List.mem_map.1 hw
    by_cases hpid : p.id = version
    · simp [hpid]
    · rw [if_neg hpid] at hwrule ⊢
      rw [hpoints.active_iff p hp hwrule, hcleared.2.2]
      exact iff_of_false (fun h => hpid (Option.some.inj h).symm) fun h => by cases h
  · rw [if_neg hcleared]
    refine hpoints.of_map (fun w _ => ?_) (fun w _ => ?_) fun w hw hwrule => ?_
    · split <;> rfl
    · split <;> rfl
    · split
      · next heq =>
        -- The rule would have been cleared if the retired version had been its active one.
        have hidle : w.status ≠ .active := by
          intro hactive
          have hpointed := (hpoints.active_iff w hw hwrule).1 hactive
          rw [hversion w hw heq] at hwrule hactive hpointed
          exact hcleared ⟨hwrule.symm, hactive, hid ▸ hpointed⟩
        simp [hidle]
      · exact Iff.rfl

end Lifecycle

/-! ## Histories -/

namespace Engine

variable {e : Engine} {m : Move}

theorem move_coherent (hs : e.store.Intact) (h : e.store.Coherent) (hatomic : m.isAtomic = true)
    (hforce : m.work ≠ .forcing) : (e.move m).store.Coherent := by
  have hchanges := move_changes hs m
  cases hw : m.work with
  | forcing => exact absurd hw hforce
  | authoring =>
    rw [hw] at hchanges
    exact hchanges.coherent_authoring hs h
  | lifecycle =>
    -- Only here does coherence break between the writes of one call, so failures must be undone.
    cases m with
    | call settings caller call =>
      have hundone : settings.statementwise = false := by
        simpa [Move.isAtomic] using hatomic
      cases call with
      | submitRule rule =>
        exact answer_keeps hundone h fun _ _ => Lifecycle.submit_coherent hs h
      | approveVersion version =>
        exact answer_keeps hundone h fun _ _ => Lifecycle.approve_coherent hs h
      | activateVersion version =>
        exact answer_keeps hundone h fun _ _ => Lifecycle.activate_coherent hs h
      | retireVersion version =>
        exact answer_keeps hundone h fun _ _ => Lifecycle.retire_coherent hs h
      | _ => cases hw
    | _ => cases hw
  | _ =>
    rw [hw] at hchanges
    obtain ⟨hrules, hversions⟩ := hchanges.rules_versions rfl
    unfold Store.Coherent
    rw [hrules, hversions]
    exact h

/-- Without forced writes and with failures undone, every store of a history is coherent. -/
theorem after_coherent {moves : List Move} (hs : e.store.Intact) (h : e.store.Coherent)
    (hmoves : ∀ m ∈ moves, m.isAtomic = true ∧ m.work ≠ .forcing) :
    (e.after moves).store.Coherent := by
  refine after_keeps hs h fun d hd hcoherent m hm => ?_
  obtain ⟨hatomic, hforce⟩ := hmoves m hm
  exact move_coherent hd hcoherent hatomic hforce

/-- Without forced writes, every stored version is such as authoring lets through. -/
theorem after_authored {moves : List Move} (hs : e.store.Intact)
    (h : ∀ v ∈ e.store.versions, v.Authored) (hmoves : ∀ m ∈ moves, m.work ≠ .forcing) :
    ∀ v ∈ (e.after moves).store.versions, v.Authored :=
  after_keeps (P := fun s => ∀ v ∈ s.versions, v.Authored) hs h fun _ hd hauthored m hm =>
    (move_changes hd m).authored (hmoves m hm) hauthored

end Engine

/-! ## The active version -/

/-- The store itself keeps a rule from having two active versions. -/
theorem Store.Intact.one_active (hs : s.Intact) (rule : Uuid) :
    (s.versions.filter fun v => v.rule == rule && v.isActive).length ≤ 1 := by
  refine hs.versions.length_filter_le_one fun v hv q hq hpv hpq => ?_
  simp only [Version.isActive, Bool.and_eq_true, beq_iff_eq] at hpv hpq
  by_contra hne
  exact (Version.not_clashes_iff.1 (hs.noClash v hv q hq) hne (hpv.1.trans hpq.1.symm)).2
    ⟨hpv.2, hpq.2⟩

/-- After calls of any kind but forced writes, each undone if it fails, a rule has at most one
active version, points at it and is active with it, and an approved version can be activated by its
tenant. Whatever happens from there on, forced writes included, a rule never has two active
versions, and a forced write that would make a second one active is refused. -/
theorem one_active_version (source : EntitySource) (clock : Instant) (nextId : Nat)
    (moves : List Move) (hmoves : ∀ m ∈ moves, m.isAtomic = true ∧ m.work ≠ .forcing)
    (further : List Move) :
    let s := ((Engine.fresh source clock nextId).after moves).store
    let t := ((Engine.fresh source clock nextId).after (moves ++ further)).store
    (∀ r ∈ s.rules, (s.versions.filter fun v => v.rule == r.id && v.isActive).length ≤ 1 ∧
      (∀ v ∈ s.versions, v.rule = r.id → v.status = .active →
        r.currentVersion = some v.id ∧ r.status = .active) ∧
      ((∀ v ∈ s.versions, v.rule = r.id → v.status ≠ .active) →
        r.currentVersion = none ∧ r.status ≠ .active)) ∧
    (∀ caller, ∀ v ∈ s.versions, v.status = .approved →
      (v.tenant = caller.tenant →
        ∃ view s', Yields (Lifecycle.activateVersion caller v.id) s view s') ∧
      (v.tenant ≠ caller.tenant →
        Fails (Lifecycle.activateVersion caller v.id) s (.notFound .version v.id) s)) ∧
    (∀ r ∈ t.rules, (t.versions.filter fun v => v.rule == r.id && v.isActive).length ≤ 1) ∧
    ∀ caller, ∀ v ∈ t.versions, v.tenant = caller.tenant → ∀ w ∈ t.versions, w.status = .active →
      v.rule = w.rule → v.id ≠ w.id → ∀ write : VersionWrite, write.Storable →
      write.status = some (Text.ofString "active") →
      Authoring.forceVersion caller v.id write t =
        ((.error .versionClash, t) : Except Failure Version × Store) := by
  intro s t
  have hfresh := Engine.fresh_intact source clock nextId
  have hs : s.Intact := Engine.after_intact hfresh moves
  have ht : t.Intact := Engine.after_intact hfresh (moves ++ further)
  have hcoherent : s.Coherent := Engine.after_coherent hfresh (fun r hr => by cases hr) hmoves
  have hauthored : ∀ v ∈ s.versions, v.Authored :=
    Engine.after_authored hfresh (fun v hv => by cases hv) fun m hm => (hmoves m hm).2
  refine ⟨fun r hr => ⟨hs.one_active r.id, fun v hv hrule hactive => ?_, fun hnone => ?_⟩,
    fun caller v hv happroved => ⟨fun htenant => ?_, fun hforeign => ?_⟩,
    fun r _ => ht.one_active r.id, ?_⟩
  · have hpointed := ((hcoherent r hr).active_iff v hv hrule).1 hactive
    refine ⟨hpointed, (hcoherent r hr).status_iff.2 ?_⟩
    rw [hpointed]
    exact Option.some_ne_none v.id
  · have hidle : r.currentVersion = none := by
      cases hpointed : r.currentVersion with
      | none => rfl
      | some id =>
        obtain ⟨v, hv, hid, hrule⟩ := (hcoherent r hr).pointed id hpointed
        rw [← hid] at hpointed
        exact absurd (((hcoherent r hr).active_iff v hv hrule).2 hpointed) (hnone v hv hrule)
    exact ⟨hidle, fun hactive => (hcoherent r hr).status_iff.1 hactive hidle⟩
  · exact Lifecycle.activateVersion_goes_through hs hauthored hv htenant happroved
  · exact Lifecycle.activateVersion_foreign hs hv hforeign
  · intro caller v hv htenant w hw hactive hrule hid write hwrite hstatus
    exact Authoring.forceVersion_clash ht hv htenant hw hactive hrule hid hwrite hstatus

/-- A rule whose first version is active while its second one is approved. -/
def renewal : List Move :=
  let caller : Caller := { tenant := ⟨100⟩ }
  [.call {} caller (.createPack { name := "Lending", authority := "Board" }),
    .call {} caller (.createRule { pack := ⟨0⟩, name := "Risk" } {}),
    .call {} caller (.submitRule ⟨1⟩), .call {} caller (.approveVersion ⟨2⟩),
    .call {} caller (.activateVersion ⟨2⟩), .call {} caller (.createVersion ⟨1⟩ {}),
    .call {} caller (.submitRule ⟨1⟩), .call {} caller (.approveVersion ⟨3⟩)]

/-- In that history the rule points at its active version while the approved one waits. -/
theorem one_active_version_renewal :
    let s := ((Engine.fresh .absent default 0).after renewal).store
    s.versions.map (fun v => v.status) = [.active, .approved] ∧
      ∀ r ∈ s.rules, ∀ v ∈ s.versions, v.rule = r.id → v.status = .active →
        r.currentVersion = some v.id ∧ r.status = .active :=
  ⟨by cbv, fun r hr =>
    ((one_active_version .absent default 0 renewal (by decide) []).1 r hr).2.1⟩

end Rulebook
