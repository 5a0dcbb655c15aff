import Rulebook.Lifecycle
import Rulebook.Proofs.Store.Saving

/-!
What the calls of the life of a version do to the store: the changes they make whatever their
outcome, and what they leave where they go through. Times apart, a call that goes through moves
certain versions to another status and sets the pointer and the status of one rule.
-/
namespace Rulebook

open Txn

variable {c : Impact.Circumstances} {s s' : Store} {caller : Caller}

/-! ## Rows but for the times -/

/-- A version without the time of its last change. -/
def Version.untimed (v : Version) : Version := { v with updatedAt := v.createdAt }

/-- A rule without the time of its last change. -/
def Rule.untimed (r : Rule) : Rule := { r with updatedAt := r.createdAt }

theorem Version.same_of_untimed {v w : Version} (h : v.untimed = w.untimed) :
    v.id = w.id ∧ v.rule = w.rule ∧ v.status = w.status := by
  have hid := congrArg (fun v : Version => v.id) h
  have hrule := congrArg Version.rule h
  have hstatus := congrArg Version.status h
  exact ⟨hid, hrule, hstatus⟩

theorem Rule.same_of_untimed {r q : Rule} (h : r.untimed = q.untimed) :
    r.id = q.id ∧ r.currentVersion = q.currentVersion ∧ r.status = q.status := by
  have hid := congrArg (fun r : Rule => r.id) h
  have hcurrent := congrArg Rule.currentVersion h
  have hstatus := congrArg Rule.status h
  exact ⟨hid, hcurrent, hstatus⟩

/-- Times apart, a store differs from an earlier one by what has become of the versions and of the
rules. -/
structure Store.Moves (s s' : Store) (g : Version → Version) (k : Rule → Rule) : Prop where
  frame : s' = { s with versions := s'.versions, rules := s'.rules, clock := s'.clock }
  versions : s'.versions.map Version.untimed = s.versions.map fun v => (g v).untimed
  rules : s'.rules.map Rule.untimed = s.rules.map fun r => (k r).untimed

/-- The store once a version has become the active one of its rule: the version is active, the one
that was is retired, and the rule points at the version. All else is as it was, but for the time
that the clock shows. -/
structure Store.Swaps (s s' : Store) (v : Version) (r : Rule) : Prop where
  frame : s' = { s with versions := s'.versions, rules := s'.rules, clock := s'.clock }
  versions : ∃ t u : Instant, s'.versions = s.versions.map fun q =>
    if q.id = v.id then { q with status := .active, updatedAt := t }
    else if q.rule = r.id ∧ q.status = .active then { q with status := .retired, updatedAt := u }
    else q
  rules : ∃ t : Instant, s'.rules = s.rules.map fun q =>
    if q.id = r.id then { q with currentVersion := some v.id, status := .active, updatedAt := t }
    else q

/-- The version once those with some identifiers have moved to a status. -/
def Version.moved (status : VersionStatus) (ids : List Uuid) (v : Version) : Version :=
  if v.id ∈ ids then { v with status } else v

/-- Setting the pointer and the status of one rule does not look at the times. -/
theorem Rule.untimed_set (id : Uuid) (current : Option Uuid) (status : RuleStatus) (q : Rule) :
    (if q.id = id then { q with currentVersion := current, status } else q : Rule).untimed =
      (if q.untimed.id = id then { q.untimed with currentVersion := current, status }
        else q.untimed : Rule).untimed := by
  show _ = (if q.id = id then _ else _ : Rule).untimed
  split
  · rfl
  · rfl

/-- Putting one version in the place of those with an identifier does not look at the times. -/
theorem Version.untimed_put (id : Uuid) (v q : Version) :
    (if q.id = id then v else q).untimed =
      (if q.untimed.id = id then v else q.untimed).untimed := by
  show _ = (if q.id = id then _ else _ : Version).untimed
  split
  · rfl
  · rfl

theorem Version.untimed_moved (status : VersionStatus) (ids : List Uuid) (v : Version) :
    (v.moved status ids).untimed = v.untimed.moved status ids := by
  unfold Version.moved
  show (if v.id ∈ ids then _ else _ : Version).untimed = if v.id ∈ ids then _ else _
  split
  · rfl
  · rfl

namespace Store.Moves

variable {t : Store} {g g' g'' : Version → Version} {k k' k'' : Rule → Rule}

/-- What two moves in a row make of the rows, where the second does not look at the times. -/
theorem comp (h : s.Moves t g k) (h' : t.Moves s' g' k')
    (hg : ∀ v, (g' v).untimed = (g' v.untimed).untimed)
    (hk : ∀ r, (k' r).untimed = (k' r.untimed).untimed)
    (hversions : ∀ v ∈ s.versions, g' (g v) = g'' v) (hrules : ∀ r ∈ s.rules, k' (k r) = k'' r) :
    s.Moves s' g'' k'' := by
  constructor
  · rw [h'.frame, h.frame]
  · calc s'.versions.map Version.untimed
        = (t.versions.map Version.untimed).map fun v => (g' v).untimed := by
          rw [h'.versions, List.map_map]
          exact List.map_congr_left fun v _ => hg v
      _ = s.versions.map fun v => (g'' v).untimed := by
          rw [h.versions, List.map_map]
          refine List.map_congr_left fun v hv => ?_
          rw [Function.comp_apply, ← hg, hversions v hv]
  · calc s'.rules.map Rule.untimed
        = (t.rules.map Rule.untimed).map fun r => (k' r).untimed := by
          rw [h'.rules, List.map_map]
          exact List.map_congr_left fun r _ => hk r
      _ = s.rules.map fun r => (k'' r).untimed := by
          rw [h.rules, List.map_map]
          refine List.map_congr_left fun r hr => ?_
          rw [Function.comp_apply, ← hk, hrules r hr]

theorem congr (h : s.Moves s' g k) (hversions : ∀ v ∈ s.versions, g v = g' v)
    (hrules : ∀ r ∈ s.rules, k r = k' r) : s.Moves s' g' k' := by
  refine ⟨h.frame, h.versions.trans ?_, h.rules.trans ?_⟩
  · exact List.map_congr_left fun v hv => by rw [hversions v hv]
  · exact List.map_congr_left fun r hr => by rw [hrules r hr]

theorem version_of (h : s.Moves s' g k) {q : Version} (hq : q ∈ s'.versions) :
    ∃ v ∈ s.versions, q.untimed = (g v).untimed := by
  have hmem : q.untimed ∈ s'.versions.map Version.untimed := List.mem_map_of_mem hq
  rw [h.versions] at hmem
  obtain ⟨v, hv, heq⟩ := List.mem_map.1 hmem
  exact ⟨v, hv, heq.symm⟩

theorem rule_of (h : s.Moves s' g k) {q : Rule} (hq : q ∈ s'.rules) :
    ∃ r ∈ s.rules, q.untimed = (k r).untimed := by
  have hmem : q.untimed ∈ s'.rules.map Rule.untimed := List.mem_map_of_mem hq
  rw [h.rules] at hmem
  obtain ⟨r, hr, heq⟩ := List.mem_map.1 hmem
  exact ⟨r, hr, heq.symm⟩

end Store.Moves

theorem VersionEdit.applyTo_of_not_changes {edit : VersionEdit} {v : Version}
    (hconditions : edit.conditions = none) (hactions : edit.actions = none)
    (h : edit.changes v = false) : edit.applyTo v = v := by
  simp only [VersionEdit.changes, Bool.or_eq_false_iff, bne_eq_false_iff_eq] at h
  obtain ⟨⟨⟨⟨⟨⟨⟨⟨-, -⟩, hnumber⟩, hstatus⟩, hseverity⟩, hnote⟩, hdate⟩, hby⟩, hat⟩ := h
  have happly : edit.applyTo v = { v with
      number := (edit.applyTo v).number, status := (edit.applyTo v).status
      severity := (edit.applyTo v).severity, changeNote := (edit.applyTo v).changeNote
      effectiveDate := (edit.applyTo v).effectiveDate, approvedBy := (edit.applyTo v).approvedBy
      approvedAt := (edit.applyTo v).approvedAt } := by
    simp only [VersionEdit.applyTo, hconditions, hactions, Option.getD_none]
  rw [happly, ← hnumber, ← hstatus, ← hseverity, ← hnote, ← hdate, ← hby, ← hat]

namespace Txn

/-- An edit that leaves the JSON alone, where it goes through. -/
theorem yields_saveVersion_plain {v a : Version} {edit : VersionEdit} {n : Nat}
    (hconditions : edit.conditions = none) (hactions : edit.actions = none)
    (hkeyed : Keyed s.versions n) (hv : v ∈ s.versions)
    (h : Yields (saveVersion v edit) s a s') :
    a.untimed = (edit.applyTo v).untimed ∧ Keyed s'.versions n ∧
      (∀ q ∈ s.versions, q.id ≠ v.id → q ∈ s'.versions) ∧ s'.rules = s.rules ∧
      s.Moves s' (fun q => if q.id = v.id then edit.applyTo v else q) id := by
  rcases yields_saveVersion.1 h with ⟨hsame, rfl, rfl⟩ | ⟨-, -, rfl, rfl⟩
  · refine ⟨rfl, hkeyed, fun q hq _ => hq, rfl, rfl, ?_, rfl⟩
    refine List.map_congr_left fun q hq => ?_
    split
    · next heq =>
      rw [VersionEdit.applyTo_of_not_changes hconditions hactions hsame, hkeyed.eq_of_id hq hv heq]
    · rfl
  · refine ⟨rfl, hkeyed.replace, fun q hq hne => mem_replaceRow_of_ne hq hne, rfl, rfl, ?_, rfl⟩
    refine hkeyed.map_replaceRow hv rfl ?_ fun q _ hne => ?_
    · have hsettle : edit.settle v = edit := by
        cases edit
        cases hconditions
        cases hactions
        rfl
      rw [hsettle, if_pos rfl]
      rfl
    · rw [if_neg (show q.id ≠ v.id from hne)]

/-- Moving one version to another status, down to the times. -/
theorem yields_saveVersion_moved {v a : Version} {status : VersionStatus} {n : Nat}
    (hkeyed : Keyed s.versions n) (hv : v ∈ s.versions) (hmoves : v.status ≠ status)
    (h : Yields (saveVersion v { status := some status }) s a s') :
    s' = { s with
      versions := s.versions.map fun q =>
        if q.id = v.id then { q with status, updatedAt := s.clock } else q
      clock := s.clock.next } := by
  rcases yields_saveVersion.1 h with ⟨hsame, -⟩ | ⟨-, -, -, rfl⟩
  · have happly := VersionEdit.applyTo_of_not_changes rfl rfl hsame
    exact absurd (congrArg Version.status happly).symm hmoves
  · have hversions := hkeyed.map_replaceRow (f := id)
      (g := fun q => if q.id = v.id then { q with status, updatedAt := s.clock } else q)
      (r := { (VersionEdit.settle { status := some status } v).applyTo v with updatedAt := s.clock })
      hv rfl (if_pos rfl).symm fun q _ hne => (if_neg hne).symm
    rw [← hversions, List.map_id]

/-- Moving versions that are stored, all different, to a status. -/
theorem yields_saveVersionStatus {status : VersionStatus} {vs : List Version} {u : Unit} {n : Nat}
    (hkeyed : Keyed s.versions n) (hmem : ∀ v ∈ vs, v ∈ s.versions)
    (hnodup : (vs.map fun v => v.id).Nodup)
    (h : Yields (saveVersionStatus status vs) s u s') :
    Keyed s'.versions n ∧ (∀ q ∈ s.versions, q.id ∉ vs.map (fun v => v.id) → q ∈ s'.versions) ∧
      s'.rules = s.rules ∧ s.Moves s' (Version.moved status (vs.map fun v => v.id)) id := by
  induction vs generalizing s with
  | nil =>
    obtain ⟨-, rfl⟩ := yields_pure.1 h
    exact ⟨hkeyed, fun q hq _ => hq, rfl, rfl, by simp [Version.moved], rfl⟩
  | cons v vs ih =>
    obtain ⟨_, t, hhead, hrest⟩ := yields_bind.1 h
    obtain ⟨_, hhead⟩ := yields_discard.1 hhead
    have hvmem := hmem v (List.mem_cons_self ..)
    obtain ⟨-, ht, hkept, hrules, hfirst⟩ := yields_saveVersion_plain rfl rfl hkeyed hvmem hhead
    obtain ⟨hv, hnodup⟩ := List.nodup_cons.1 hnodup
    have hne : ∀ q ∈ vs, q.id ≠ v.id := by
      intro q hq heq
      exact hv (List.mem_map.2 ⟨q, hq, heq⟩)
    obtain ⟨hs', hkept', hrules', hlast⟩ := ih ht
      (fun q hq => hkept q (hmem q (List.mem_cons_of_mem _ hq)) (hne q hq)) hnodup hrest
    refine ⟨hs', fun q hq hout => ?_, hrules'.trans hrules, ?_⟩
    · rw [List.map_cons, List.mem_cons, not_or] at hout
      exact hkept' q (hkept q hq hout.1) hout.2
    · refine hfirst.comp hlast (fun q => ?_) (fun _ => rfl) ?_ fun _ _ => rfl
      · rw [Version.untimed_moved, Version.untimed_moved]
        rfl
      · intro q hq
        rw [List.map_cons]
        split
        · next heq =>
          rw [hkeyed.eq_of_id hq hvmem heq]
          simp [Version.moved, VersionEdit.applyTo, hv]
        · next hout => simp [Version.moved, hout]

/-- Setting the pointer and the status of a stored rule. -/
theorem yields_saveRule_plain {r a : Rule} {current : Option Uuid} {status : RuleStatus} {n : Nat}
    (hkeyed : Keyed s.rules n) (hr : r ∈ s.rules)
    (h : Yields (saveRule r { r with currentVersion := current, status := status }) s a s') :
    s.Moves s' id
      (fun q => if q.id = r.id then { q with currentVersion := current, status } else q) := by
  rcases yields_saveRule.1 h with ⟨hsame, rfl, rfl⟩ | ⟨-, rfl, rfl⟩
  · refine ⟨rfl, rfl, List.map_congr_left fun q hq => ?_⟩
    split
    · next heq => rw [hkeyed.eq_of_id hq hr heq, hsame]
    · rfl
  · refine ⟨rfl, rfl, hkeyed.map_replaceRow hr rfl ?_ fun q _ hne => ?_⟩
    · rw [if_pos rfl]
      rfl
    · rw [if_neg (show q.id ≠ r.id from hne)]

end Txn

/-! ## The versions of a rule -/

theorem mem_versionsOf {v : Version} {rule : Uuid} :
    v ∈ s.versionsOf rule ↔ v ∈ s.versions ∧ v.rule = rule := by
  simp [Store.versionsOf, List.mem_mergeSort]

/-- A rule's versions belong to the tenant of the rule. -/
theorem tenant_of_rule (hs : s.Intact) {v : Version} {r : Rule} (hv : v ∈ s.versions)
    (hr : r ∈ s.rules) (hrule : v.rule = r.id) : v.tenant = r.tenant := by
  obtain ⟨q, hq, hid, htenant⟩ := mem_owned.1 (hs.versionRule v hv)
  rw [hs.rules.eq_of_id hq hr (hid.trans hrule)] at htenant
  exact htenant.symm

/-- The versions of a rule that belong to a tenant and stand at a status; calls move them
together. -/
def Store.versionsAt (s : Store) (tenant rule : Uuid) (status : VersionStatus) : List Version :=
  (s.versionsOf rule).filter fun v => v.tenant == tenant && v.status == status

theorem mem_versionsAt {v : Version} {tenant rule : Uuid} {status : VersionStatus} :
    v ∈ s.versionsAt tenant rule status ↔
      v ∈ s.versions ∧ v.rule = rule ∧ v.tenant = tenant ∧ v.status = status := by
  simp only [Store.versionsAt, List.mem_filter, mem_versionsOf, Bool.and_eq_true, beq_iff_eq,
    and_assoc]

theorem nodup_versionsAt (hs : s.Intact) (tenant rule : Uuid) (status : VersionStatus) :
    ((s.versionsAt tenant rule status).map fun v => v.id).Nodup := by
  have hall : ((s.versionsOf rule).map fun v => v.id).Nodup := by
    have hperm := (List.mergeSort_perm (s.versions.filter (·.rule == rule))
      fun v w => decide (v.number ≤ w.number)).map fun v => v.id
    rw [Store.versionsOf, hperm.nodup_iff]
    exact hs.versions.nodup.sublist (List.filter_sublist.map _)
  exact hall.sublist (List.filter_sublist.map _)

section VersionsAt

variable {tenant : Uuid} {r : Rule} {start status : VersionStatus}

theorem id_mem_versionsAt (hs : s.Intact) (hr : r ∈ s.rules) (htenant : r.tenant = tenant)
    {v : Version} (hv : v ∈ s.versions) :
    v.id ∈ (s.versionsAt tenant r.id start).map (fun v => v.id) ↔
      v.rule = r.id ∧ v.status = start := by
  constructor
  · intro hin
    obtain ⟨w, hw, hid⟩ := List.mem_map.1 hin
    obtain ⟨hw, hrule, -, hstatus⟩ := mem_versionsAt.1 hw
    rw [← hs.versions.eq_of_id hw hv hid]
    exact ⟨hrule, hstatus⟩
  · rintro ⟨hrule, hstatus⟩
    have hown : v.tenant = tenant := (tenant_of_rule hs hv hr hrule).trans htenant
    exact List.mem_map.2 ⟨v, mem_versionsAt.2 ⟨hv, hrule, hown, hstatus⟩, rfl⟩

/-- Moving all versions of a rule that stand at a status to another one. -/
theorem yields_moveVersionsAt (hs : s.Intact) (hr : r ∈ s.rules) (htenant : r.tenant = tenant)
    {u : Unit} (h : Yields (saveVersionStatus status (s.versionsAt tenant r.id start)) s u s') :
    Keyed s'.versions s.nextId ∧
      (∀ v ∈ s.versions, v.status ≠ start → v ∈ s'.versions) ∧ s'.rules = s.rules ∧
      s.Moves s'
        (fun v => if v.rule = r.id ∧ v.status = start then { v with status } else v) id := by
  obtain ⟨hkeyed, hkept, hrules, hmoves⟩ := yields_saveVersionStatus hs.versions
    (fun v hv => (mem_versionsAt.1 hv).1) (nodup_versionsAt hs tenant r.id start) h
  refine ⟨hkeyed, fun v hv hother => ?_, hrules, hmoves.congr (fun v hv => ?_) fun _ _ => rfl⟩
  · exact hkept v hv fun hin => hother ((id_mem_versionsAt hs hr htenant hv).1 hin).2
  · simp only [Version.moved, id_mem_versionsAt hs hr htenant hv]

/-- Retiring the active versions of a rule retires the one that there is, if any. -/
theorem yields_retireActive (hs : s.Intact) (hr : r ∈ s.rules) (htenant : r.tenant = tenant)
    {u : Unit} (h : Yields (saveVersionStatus .retired (s.versionsAt tenant r.id .active)) s u s') :
    ∃ t : Instant, s' = { s with
      versions := s.versions.map fun q => if q.rule = r.id ∧ q.status = .active then
        { q with status := .retired, updatedAt := t } else q
      clock := s'.clock } := by
  have hin (v : Version) (hv : v ∈ s.versions) :
      v.id ∈ (s.versionsAt tenant r.id .active).map (fun v => v.id) ↔
        v.rule = r.id ∧ v.status = .active :=
    id_mem_versionsAt hs hr htenant hv
  have hnodup := nodup_versionsAt hs tenant r.id .active
  have hmem (v : Version) : v ∈ s.versionsAt tenant r.id .active ↔
      v ∈ s.versions ∧ v.rule = r.id ∧ v.tenant = tenant ∧ v.status = .active :=
    mem_versionsAt
  rcases hactive : s.versionsAt tenant r.id .active with _ | ⟨w, _ | ⟨w', rest⟩⟩ <;>
    rw [hactive] at h hin hnodup hmem
  · obtain ⟨-, rfl⟩ := yields_pure.1 h
    refine ⟨default, ?_⟩
    rw [List.map_congr_left fun q hq => if_neg fun hq' => ?_, List.map_id']
    exact absurd ((hin q hq).2 hq') (List.not_mem_nil)
  · obtain ⟨hw, -, -, hstatus⟩ := (hmem w).1 (List.mem_singleton_self w)
    obtain ⟨_, t, hsaved, hpure⟩ := yields_bind.1 h
    obtain ⟨-, rfl⟩ := yields_pure.1 hpure
    obtain ⟨a, hsaved⟩ := yields_discard.1 hsaved
    have hmoves : w.status ≠ .retired := by rw [hstatus]; exact nofun
    refine ⟨s.clock, ?_⟩
    rw [yields_saveVersion_moved hs.versions hw hmoves hsaved]
    refine congrArg (fun versions => { s with versions, clock := s.clock.next }) ?_
    refine List.map_congr_left fun q hq => if_congr ?_ rfl rfl
    rw [← hin q hq, List.map_singleton, List.mem_singleton]
  · -- Two active versions of one rule clash.
    obtain ⟨hw, hrule, -, hstatus⟩ := (hmem w).1 (List.mem_cons_self ..)
    obtain ⟨hw', hrule', -, hstatus'⟩ :=
      (hmem w').1 (List.mem_cons_of_mem _ (List.mem_cons_self ..))
    have hne : w.id ≠ w'.id := fun heq => by simp [heq] at hnodup
    exact absurd ⟨hstatus, hstatus'⟩ (Version.not_clashes_iff.1 (hs.noClash w hw w' hw') hne
      (hrule.trans hrule'.symm)).2

end VersionsAt

/-! ## Changes -/

theorem Changes.saveVersionStatus {w : Work} {status : VersionStatus} {vs : List Version}
    (hmem : ∀ v ∈ vs, v ∈ s.versions) (hnodup : (vs.map fun v => v.id).Nodup)
    (hlawful : ∀ v ∈ vs, VersionEdit.Lawful w v { status := some status }) :
    Changes c w s ((Txn.saveVersionStatus status vs) s).2 := by
  induction vs generalizing s with
  | nil => exact refl s
  | cons v vs ih =>
    have hvmem := hmem v (List.mem_cons_self ..)
    refine bind (discard (saveVersion hvmem (hlawful v (List.mem_cons_self ..)))) fun _ t ht _ => ?_
    obtain ⟨hv, hnodup⟩ := List.nodup_cons.1 hnodup
    refine ih (fun q hq => ?_) hnodup fun q hq => hlawful q (List.mem_cons_of_mem _ hq)
    have hqmem := hmem q (List.mem_cons_of_mem _ hq)
    have hne : q.id ≠ v.id := fun heq => hv (List.mem_map.2 ⟨q, hq, heq⟩)
    obtain ⟨_, ht⟩ := yields_discard.1 ht
    rcases yields_saveVersion.1 ht with ⟨-, -, rfl⟩ | ⟨-, -, -, rfl⟩
    · exact hqmem
    · exact mem_replaceRow_of_ne hqmem hne

theorem Changes.saveVersionsAt (hs : s.Intact) (tenant rule : Uuid) {start status : VersionStatus}
    (hlawful : ∀ {v : Version}, v.status = start →
      VersionEdit.Lawful .lifecycle v { status := some status }) :
    Changes c .lifecycle s ((Txn.saveVersionStatus status (s.versionsAt tenant rule start)) s).2 :=
  saveVersionStatus (fun _ hv => (mem_versionsAt.1 hv).1) (nodup_versionsAt hs tenant rule start)
    fun _ hv => hlawful (mem_versionsAt.1 hv).2.2.2

namespace Lifecycle

theorem reads_readyVersion (id : Uuid) (step : VersionStep) :
    Reads (readyVersion caller id step) := by
  refine (reads_own _ _ _ _).bind fun v => ?_
  dsimp only
  split
  · exact (reads_throw _).bind fun _ => reads_pure v
  · exact reads_pure v

theorem yields_readyVersion {id : Uuid} {step : VersionStep} {v : Version} :
    Yields (readyVersion caller id step) s v s' ↔
      findOwn s.versions caller.tenant id = some v ∧ v.status = step.source ∧ s' = s := by
  unfold readyVersion
  rw [yields_bind]
  constructor
  · rintro ⟨w, _, hown, h⟩
    obtain ⟨hfound, rfl⟩ := yields_own.1 hown
    obtain ⟨hstatus, hpure⟩ := yields_guard.1 h
    obtain ⟨rfl, rfl⟩ := yields_pure.1 hpure
    exact ⟨hfound, not_not.1 hstatus, rfl⟩
  · rintro ⟨hfound, hstatus, rfl⟩
    refine ⟨v, s', yields_own.2 ⟨hfound, rfl⟩, yields_guard.2 ⟨not_not.2 hstatus, ?_⟩⟩
    exact yields_pure.2 ⟨rfl, rfl⟩

theorem submitRule_changes (hs : s.Intact) (id : Uuid) :
    Changes c .lifecycle s (submitRule caller id s).2 := by
  unfold submitRule
  refine .own fun r hr _ htenant => .read reads_get fun t ht => ?_
  obtain ⟨rfl, -⟩ := yields_get.1 ht
  refine .guard fun _ => ?_
  refine .bind (.saveVersionsAt hs caller.tenant r.id fun hdraft => .submit hdraft)
    fun _ s' hs' _ => ?_
  obtain ⟨-, -, hrules, -⟩ := yields_moveVersionsAt hs hr htenant hs'
  rw [← hrules] at hr
  dsimp only
  split
  · exact .bind_reads (.saveRule r.currentVersion .inReview hr) reads_showRule
  · exact .bind_reads (.refl s') reads_showRule

theorem approveVersion_changes (id : Uuid) :
    Changes c .lifecycle s (approveVersion caller id s).2 := by
  unfold approveVersion
  refine .read (reads_readyVersion id .approve) fun v hv => ?_
  obtain ⟨hfound, hstatus, -⟩ := yields_readyVersion.1 hv
  refine .bind (.passed (Nat.le_refl _) s.ticks_next) fun t s' hs' _ => ?_
  refine .bind_reads (.saveVersion ?_ (.approve caller.user t hstatus)) reads_showVersion
  obtain ⟨-, rfl⟩ := yields_now.1 hs'
  exact (findOwn_eq_some hfound).1

theorem activateVersion_changes (hs : s.Intact) (id : Uuid) :
    Changes c .lifecycle s (activateVersion caller id s).2 := by
  unfold activateVersion
  refine .read (reads_readyVersion id .activate) fun v hv => ?_
  obtain ⟨hfound, hstatus, -⟩ := yields_readyVersion.1 hv
  refine .own fun r hr _ htenant => .read reads_get fun t ht => ?_
  obtain ⟨rfl, -⟩ := yields_get.1 ht
  refine .bind (.saveVersionsAt hs caller.tenant r.id fun hactive => .retire (Or.inl hactive))
    fun _ s₁ hs₁ _ => ?_
  obtain ⟨hkeyed, hkept, hrules, -⟩ := yields_moveVersionsAt hs hr htenant hs₁
  -- The version to be activated is approved, so it is not among those that were retired.
  have hv₁ : v ∈ s₁.versions :=
    hkept v (findOwn_eq_some hfound).1 fun hactive => by rw [hstatus] at hactive; cases hactive
  refine .bind (.discard (.saveVersion hv₁ (.activate hstatus))) fun _ s₂ hs₂ _ => ?_
  obtain ⟨a, ha⟩ := yields_discard.1 hs₂
  obtain ⟨-, -, -, hrules₂, -⟩ := yields_saveVersion_plain rfl rfl hkeyed hv₁ ha
  refine .bind_reads (.saveRule (some v.id) .active ?_) reads_showRule
  rw [hrules₂, hrules]
  exact hr

theorem retireVersion_changes (id : Uuid) :
    Changes c .lifecycle s (retireVersion caller id s).2 := by
  unfold retireVersion
  refine .own fun v hv _ _ => .guard fun hstatus => ?_
  have hdone : v.status = .active ∨ v.status = .approved := by
    by_cases hactive : v.status = .active
    · exact Or.inl hactive
    · exact Or.inr (not_not.1 fun happroved => hstatus ⟨hactive, happroved⟩)
  refine .bind (.saveVersion hv (.retire hdone)) fun retired t _ _ => ?_
  dsimp only
  split
  · refine .own fun r hr _ _ => ?_
    split
    · exact .bind_reads (.discard (.saveRule none .draft hr)) fun _ => reads_showVersion _
    · exact .reads (reads_showVersion _) t
  · exact .reads (reads_showVersion _) t

/-! ## Calls that go through -/

/-- All drafts of the rule go to review; the rule does if it points at no version. -/
theorem yields_submitRule (hs : s.Intact) {id : Uuid} {a : RuleView}
    (h : Yields (submitRule caller id) s a s') :
    ∃ r ∈ s.rules, r.id = id ∧ r.tenant = caller.tenant ∧
      s.Moves s' (fun v => if v.rule = r.id ∧ v.status = .draft then { v with status := .inReview }
          else v)
        (fun q => if q.id = r.id ∧ q.currentVersion = none then { q with status := .inReview }
          else q) := by
  unfold submitRule at h
  obtain ⟨r, hfound, h⟩ := yields_own_bind.1 h
  obtain ⟨hr, hid, htenant⟩ := findOwn_eq_some hfound
  obtain ⟨-, h⟩ := yields_guard.1 (yields_get_bind.1 h)
  obtain ⟨_, s₁, hmoved, h⟩ := yields_bind.1 h
  obtain ⟨-, -, hrules, hversions⟩ := yields_moveVersionsAt hs hr htenant hmoved
  have hrule : ∀ q ∈ s.rules, q.id = r.id → q = r := fun q hq heq => hs.rules.eq_of_id hq hr heq
  refine ⟨r, hr, hid, htenant, ?_⟩
  dsimp only at h
  split at h
  · next hnone =>
    obtain ⟨q, s₂, hsaved, h⟩ := yields_bind.1 h
    have hset := yields_saveRule_plain (hrules ▸ hs.rules) (hrules ▸ hr) hsaved
    obtain rfl := (reads_showRule q).yields h
    refine hversions.comp hset (fun _ => rfl) (Rule.untimed_set r.id r.currentVersion .inReview)
      (fun _ _ => rfl) fun q hq => ?_
    by_cases heq : q.id = r.id
    · rw [hrule q hq heq]
      simp [Option.isNone_iff_eq_none.1 hnone]
    · simp [heq]
  · next hsome =>
    obtain ⟨q, _, hpure, h⟩ := yields_bind.1 h
    obtain ⟨-, ht⟩ := yields_pure.1 hpure
    rw [(reads_showRule q).yields h, ht]
    refine hversions.congr (fun _ _ => rfl) fun q hq => (if_neg ?_).symm
    rintro ⟨heq, hnone⟩
    rw [hrule q hq heq] at hnone
    exact hsome (Option.isNone_iff_eq_none.2 hnone)

/-- Approval names the user and the time. -/
theorem yields_approveVersion (hs : s.Intact) {version : Uuid} {a : Version}
    (h : Yields (approveVersion caller version) s a s') :
    (∃ v ∈ s.versions, v.id = version ∧ v.tenant = caller.tenant ∧ v.status = .inReview) ∧
      s.Moves s' (fun v => if v.id = version then { v with
          status := .approved, approvedBy := caller.user
          approvedAt := some s.clock } else v) id := by
  unfold approveVersion at h
  obtain ⟨v, hv, h⟩ := (reads_readyVersion version .approve).yields_bind.1 h
  obtain ⟨hfound, hstatus, -⟩ := yields_readyVersion.1 hv
  obtain ⟨hv, hid, htenant⟩ := findOwn_eq_some hfound
  rw [yields_now_bind] at h
  obtain ⟨w, t, hsaved, h⟩ := yields_bind.1 h
  rw [(reads_showVersion w).yields h]
  obtain ⟨-, -, -, -, hmoves⟩ := yields_saveVersion_plain (s := { s with clock := s.clock.next })
    rfl rfl hs.versions hv hsaved
  refine ⟨⟨v, hv, hid, htenant, hstatus⟩, hmoves.frame, ?_, hmoves.rules⟩
  refine hmoves.versions.trans (List.map_congr_left fun q hq => ?_)
  rw [← hid]
  by_cases heq : q.id = v.id
  · rw [hs.versions.eq_of_id hq hv heq]
    simp [VersionEdit.applyTo]
  · simp [heq]

/-- The version is active afterwards, the one that was is retired, and the rule points at the
version. -/
theorem activateVersion_swaps (hs : s.Intact) {version : Uuid} {a : RuleView}
    (h : Yields (activateVersion caller version) s a s') :
    ∃ v ∈ s.versions, ∃ r ∈ s.rules, v.id = version ∧ v.tenant = caller.tenant ∧
      v.status = .approved ∧ r.id = v.rule ∧ s.Swaps s' v r := by
  unfold activateVersion at h
  obtain ⟨v, hv, h⟩ := (reads_readyVersion version .activate).yields_bind.1 h
  obtain ⟨hfound, hstatus, -⟩ := yields_readyVersion.1 hv
  obtain ⟨hv, hvid, hvtenant⟩ : v ∈ s.versions ∧ v.id = version ∧ v.tenant = caller.tenant :=
    findOwn_eq_some hfound
  obtain ⟨r, hfound, h⟩ := yields_own_bind.1 h
  obtain ⟨hr, hid, htenant⟩ : r ∈ s.rules ∧ r.id = v.rule ∧ r.tenant = caller.tenant :=
    findOwn_eq_some hfound
  rw [yields_get_bind] at h
  obtain ⟨_, s₁, hretired, h⟩ := yields_bind.1 h
  obtain ⟨hkeyed, hkept, -, -⟩ := yields_moveVersionsAt hs hr htenant hretired
  obtain ⟨u, hs₁⟩ := yields_retireActive hs hr htenant hretired
  obtain ⟨_, s₂, hactivated, h⟩ := yields_bind.1 h
  obtain ⟨_, hactivated⟩ := yields_discard.1 hactivated
  have hv₁ : v ∈ s₁.versions :=
    hkept v hv fun hactive => by rw [hstatus] at hactive; cases hactive
  have hs₂ := yields_saveVersion_moved hkeyed hv₁ (by rw [hstatus]; exact nofun) hactivated
  obtain ⟨q, s₃, hsaved, h⟩ := yields_bind.1 h
  rw [(reads_showRule q).yields h]
  have hversions : s₂.versions = s.versions.map fun q =>
      if q.id = v.id then { q with status := .active, updatedAt := s₁.clock }
      else if q.rule = r.id ∧ q.status = .active then { q with status := .retired, updatedAt := u }
      else q := by
    rw [hs₂, hs₁, List.map_map]
    refine List.map_congr_left fun q hq => ?_
    -- The version itself was approved, so it is not the one that is retired.
    by_cases heq : q.id = v.id
    · rw [hs.versions.eq_of_id hq hv heq]
      simp [hstatus, VersionStep.source]
    · by_cases hactive : q.rule = r.id ∧ q.status = .active
      · simp [heq, hactive]
      · simp [heq, hactive]
  have hrules : s₂.rules = s.rules := by rw [hs₂, hs₁]
  have hframe : s₂ = { s with versions := s₂.versions, clock := s₂.clock } := by rw [hs₂, hs₁]
  refine ⟨v, hv, r, hr, hvid, hvtenant, hstatus, hid, ?_⟩
  rcases yields_saveRule.1 hsaved with ⟨hsame, -, rfl⟩ | ⟨-, rfl, rfl⟩
  · refine ⟨?_, ⟨_, u, hversions⟩, r.updatedAt, ?_⟩
    · rw [hrules]
      exact hframe
    · rw [hrules, List.map_congr_left fun q hq => ?_, List.map_id']
      split
      · next heq => rw [hs.rules.eq_of_id hq hr heq, ← hsame]
      · rfl
  · refine ⟨?_, ⟨_, u, hversions⟩, s₂.clock, ?_⟩
    · rw [hframe]
    · rw [hrules]
      refine List.map_congr_left fun q hq => ?_
      split
      · next heq =>
        obtain rfl := hs.rules.eq_of_id hq hr heq
        exact (if_pos rfl).symm
      · next hne => exact (if_neg hne).symm

/-- So it is, times apart. -/
theorem yields_activateVersion (hs : s.Intact) {version : Uuid} {a : RuleView}
    (h : Yields (activateVersion caller version) s a s') :
    ∃ v ∈ s.versions, ∃ r ∈ s.rules, v.id = version ∧ v.tenant = caller.tenant ∧
      v.status = .approved ∧ r.id = v.rule ∧
      s.Moves s'
        (fun q => if q.id = version then { q with status := .active }
          else if q.rule = r.id ∧ q.status = .active then { q with status := .retired } else q)
        (fun q => if q.id = r.id then { q with currentVersion := some version, status := .active }
          else q) := by
  obtain ⟨v, hv, r, hr, rfl, htenant, hstatus, hrule, hswaps⟩ := activateVersion_swaps hs h
  obtain ⟨t, u, hversions⟩ := hswaps.versions
  obtain ⟨t', hrules⟩ := hswaps.rules
  refine ⟨v, hv, r, hr, rfl, htenant, hstatus, hrule, hswaps.frame, ?_, ?_⟩
  · rw [hversions, List.map_map]
    refine List.map_congr_left fun q _ => ?_
    simp only [Function.comp_apply]
    split_ifs <;> rfl
  · rw [hrules, List.map_map]
    refine List.map_congr_left fun q _ => ?_
    simp only [Function.comp_apply]
    split_ifs <;> rfl

/-- The version is retired; the rule that points at it becomes a draft without a version. -/
theorem yields_retireVersion (hs : s.Intact) {version : Uuid} {a : Version}
    (h : Yields (retireVersion caller version) s a s') :
    ∃ v ∈ s.versions, v.id = version ∧ v.tenant = caller.tenant ∧
      (v.status = .active ∨ v.status = .approved) ∧
      s.Moves s' (fun q => if q.id = version then { q with status := .retired } else q)
        (fun q => if q.id = v.rule ∧ v.status = .active ∧ q.currentVersion = some version then
          { q with currentVersion := none, status := .draft } else q) := by
  unfold retireVersion at h
  obtain ⟨v, hfound, h⟩ := yields_own_bind.1 h
  obtain ⟨hv, hvid, htenant⟩ : v ∈ s.versions ∧ v.id = version ∧ v.tenant = caller.tenant :=
    findOwn_eq_some hfound
  obtain ⟨hstatus, h⟩ := yields_guard.1 h
  have hdone : v.status = .active ∨ v.status = .approved := by
    by_cases hactive : v.status = .active
    · exact Or.inl hactive
    · exact Or.inr (not_not.1 fun happroved => hstatus ⟨hactive, happroved⟩)
  obtain ⟨w, t, hsaved, h⟩ := yields_bind.1 h
  obtain ⟨-, -, -, hrules, hmoves⟩ := yields_saveVersion_plain rfl rfl hs.versions hv hsaved
  have hretired : s.Moves t (fun q => if q.id = version then { q with status := .retired } else q)
      fun r => r := by
    refine hmoves.congr (fun q hq => ?_) fun _ _ => rfl
    rw [← hvid]
    by_cases heq : q.id = v.id
    · rw [hs.versions.eq_of_id hq hv heq]
      simp [VersionEdit.applyTo]
    · simp [heq]
  refine ⟨v, hv, hvid, htenant, hdone, ?_⟩
  dsimp only at h
  split at h
  · next hactive =>
    have hactive : v.status = .active := beq_iff_eq.1 hactive
    obtain ⟨r, hfound, h⟩ := yields_own_bind.1 h
    obtain ⟨hr, hid, -⟩ : r ∈ t.rules ∧ r.id = v.rule ∧ r.tenant = caller.tenant :=
      findOwn_eq_some hfound
    have hrule : ∀ q ∈ s.rules, q.id = v.rule → q = r := fun q hq heq =>
      hs.rules.eq_of_id hq (hrules ▸ hr) (heq.trans hid.symm)
    split at h
    · next hcurrent =>
      obtain ⟨_, u, hsaved, h⟩ := yields_bind.1 h
      obtain ⟨_, hsaved⟩ := yields_discard.1 hsaved
      rw [(reads_showVersion w).yields h]
      have hcleared := yields_saveRule_plain (hrules ▸ hs.rules) hr hsaved
      refine hretired.comp hcleared (fun _ => rfl) (Rule.untimed_set r.id none .draft)
        (fun _ _ => rfl) fun q hq => ?_
      by_cases heq : q.id = v.rule
      · rw [hrule q hq heq]
        simp [hid, hactive, hcurrent, hvid]
      · simp [heq, hid]
    · next hother =>
      rw [(reads_showVersion w).yields h]
      refine hretired.congr (fun _ _ => rfl) fun q hq => (if_neg ?_).symm
      rintro ⟨heq, -, hcurrent⟩
      rw [hrule q hq heq, ← hvid] at hcurrent
      exact hother hcurrent
  · next happroved =>
    rw [(reads_showVersion w).yields h]
    refine hretired.congr (fun _ _ => rfl) fun q _ => (if_neg ?_).symm
    rintro ⟨-, hactive, -⟩
    exact happroved (beq_iff_eq.2 hactive)

end Lifecycle

end Rulebook
