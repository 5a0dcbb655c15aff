import Rulebook.Proofs.Calls.Authoring
import Rulebook.Proofs.Calls.Lifecycle
import Rulebook.Proofs.Store.Columns
import Rulebook.Proofs.Store.Frame

/-!
Activating an approved version goes through (`activateVersion_goes_through`): in a store in order no
save of the call clashes, as the versions that were active are retired before the new one becomes
active; and what authoring has checked can be shown. No other order would do, since the store
refuses a second active version (`forceVersion_clash`).
-/
namespace Rulebook

open Txn

variable {s s' : Store} {caller : Caller}

/-! ## Showing versions -/

theorem Condition.isObject_of_authored {v : Value} {tree : Condition}
    (h : Condition.authored v = .ok tree) : v.isObject = true := by
  cases v with
  | object fields => rfl
  | _ => cases h

/-- What authoring has checked can be shown. -/
theorem Version.Authored.shown {v : Version} (h : v.Authored) : ∃ w, v.shown = .ok w := by
  obtain ⟨⟨tree, htree⟩, items, hitems⟩ := h
  have hconditions : v.conditionsOrNone.isObject = true := by
    unfold Version.conditionsOrNone Value.orElse
    split
    · exact Condition.isObject_of_authored htree
    · rfl
  have hactions : ∃ entries, Directive.entries v.actions = .ok entries := by
    rw [(Directive.check_eq_ok hitems).1]
    unfold Directive.entries
    split
    · exact ⟨items, rfl⟩
    · exact ⟨[], rfl⟩
  obtain ⟨entries, hentries⟩ := hactions
  refine ⟨{ v with conditions := v.conditionsOrNone, actions := .list entries }, ?_⟩
  unfold Version.shown
  rw [hentries]
  show (if v.conditionsOrNone.isObject then _ else _ : Except Failure Version) = _
  rw [if_pos hconditions]
  rfl

/-- Showing a version completes its conditions and actions and touches nothing else. -/
theorem Version.eq_of_shown {v w : Version} (h : v.shown = .ok w) :
    w = { v with conditions := w.conditions, actions := w.actions } := by
  obtain ⟨actions, -, h⟩ := Except.bind_eq_ok.1 h
  dsimp only at h
  split at h
  · cases h
    rfl
  · cases h

theorem showRule_goes_through (h : ∀ v ∈ s.versions, v.Authored) (r : Rule) :
    ∃ view, Yields (showRule r) s view s := by
  obtain ⟨versions, hversions⟩ : ∃ ws, (s.versionsOf r.id).mapM Version.shown = .ok ws :=
    Except.exists_mapM.mpr fun v hv => (h v (mem_versionsOf.1 hv).1).shown
  refine ⟨{ rule := r, versions }, ?_⟩
  unfold showRule
  rw [yields_get_bind, yields_ofExcept]
  refine ⟨?_, rfl⟩
  unfold Store.ruleView
  rw [hversions]
  rfl

/-- Moves that keep conditions and actions keep them checked. -/
theorem Store.Moves.authored {g : Version → Version} {k : Rule → Rule} (h : s.Moves s' g k)
    (hg : ∀ v ∈ s.versions, (g v).Authored) : ∀ q ∈ s'.versions, q.Authored := by
  intro q hq
  obtain ⟨v, hv, heq⟩ := h.version_of hq
  have hconditions : q.conditions = (g v).conditions := by
    have hconditions := congrArg Version.conditions heq
    exact hconditions
  have hactions : q.actions = (g v).actions := by
    have hactions := congrArg Version.actions heq
    exact hactions
  unfold Version.Authored
  rw [hconditions, hactions]
  exact hg v hv

/-! ## Saves that do not clash -/

/-- A version whose edit clashes with none is saved. -/
theorem saveVersion_goes_through {v : Version} {edit : VersionEdit}
    (h : ∀ q ∈ s.versions, (edit.applyTo v).clashes q = false) :
    ∃ a s', Yields (saveVersion v edit) s a s' := by
  cases hchanges : edit.changes v with
  | false => exact ⟨_, _, yields_saveVersion.2 (Or.inl ⟨hchanges, rfl, rfl⟩)⟩
  | true => exact ⟨_, _, yields_saveVersion.2 (Or.inr ⟨hchanges, h, rfl, rfl⟩)⟩

/-- In a store in order a version that does not become active clashes with none. -/
theorem status_clashes_none (hs : s.Intact) {v : Version} (hv : v ∈ s.versions)
    {status : VersionStatus} (hstatus : status ≠ .active) :
    ∀ q ∈ s.versions, (VersionEdit.applyTo { status := some status } v).clashes q = false := by
  intro q hq
  rw [Version.not_clashes_iff]
  intro hid hrule
  exact ⟨(Version.not_clashes_iff.1 (hs.noClash v hv q hq) hid hrule).1, fun h => hstatus h.1⟩

theorem saveVersionStatus_goes_through {status : VersionStatus} (hstatus : status ≠ .active)
    {vs : List Version} (hs : s.Intact) (hmem : ∀ v ∈ vs, v ∈ s.versions)
    (hnodup : (vs.map fun v => v.id).Nodup) :
    ∃ u s', Yields (saveVersionStatus status vs) s u s' := by
  induction vs generalizing s with
  | nil => exact ⟨(), s, yields_pure.2 ⟨rfl, rfl⟩⟩
  | cons v vs ih =>
    have hv := hmem v (List.mem_cons_self ..)
    obtain ⟨a, t, hsaved⟩ := saveVersion_goes_through (status_clashes_none hs hv hstatus)
    have hchanges : Changes { source := .absent } .forcing s t :=
      .of_yields (.saveVersion hv (.force ⟨rfl, rfl⟩)) hsaved
    have ht := hchanges.intact hs
    obtain ⟨hout, hnodup⟩ := List.nodup_cons.1 hnodup
    obtain ⟨-, -, hkept, -⟩ := yields_saveVersion_plain rfl rfl hs.versions hv hsaved
    obtain ⟨u, s', hrest⟩ := ih ht (fun q hq => hkept q (hmem q (List.mem_cons_of_mem _ hq))
      fun heq => hout (List.mem_map.2 ⟨q, hq, heq⟩)) hnodup
    exact ⟨u, s', yields_bind.2 ⟨(), t, yields_discard.2 ⟨a, hsaved⟩, hrest⟩⟩

theorem saveRule_goes_through (old new : Rule) : ∃ r s', Yields (saveRule old new) s r s' := by
  by_cases h : new = old
  · exact ⟨_, _, yields_saveRule.2 (Or.inl ⟨h, rfl, rfl⟩)⟩
  · exact ⟨_, _, yields_saveRule.2 (Or.inr ⟨h, rfl, rfl⟩)⟩

/-! ## Activation -/

/-- Once the active versions of its rule have been retired, making a version active clashes with
none. -/
theorem active_clashes_none {t : Store} (ht : t.Intact) {v : Version} (hv : v ∈ t.versions)
    (hidle : ∀ q ∈ t.versions, q.rule = v.rule → q.status ≠ .active) :
    ∀ q ∈ t.versions, (VersionEdit.applyTo { status := some .active } v).clashes q = false := by
  intro q hq
  rw [Version.not_clashes_iff]
  intro hid hrule
  exact ⟨(Version.not_clashes_iff.1 (ht.noClash v hv q hq) hid hrule).1,
    fun h => hidle q hq (Eq.symm hrule) h.2⟩

/-- Retiring the active versions of a rule goes through and leaves none. -/
theorem retireActive_goes_through (hs : s.Intact) {r : Rule} (hr : r ∈ s.rules) {tenant : Uuid}
    (htenant : r.tenant = tenant) :
    ∃ u t, Yields (saveVersionStatus .retired (s.versionsAt tenant r.id .active)) s u t ∧ t.Intact ∧
      ∀ q ∈ t.versions, q.rule = r.id → q.status ≠ .active := by
  have hmem : ∀ v ∈ s.versionsAt tenant r.id .active, v ∈ s.versions :=
    fun v hv => (mem_versionsAt.1 hv).1
  have hnodup := nodup_versionsAt hs tenant r.id .active
  have hretired : VersionStatus.retired ≠ .active := fun h => by cases h
  obtain ⟨u, t, hrun⟩ := saveVersionStatus_goes_through hretired hs hmem hnodup
  obtain ⟨-, -, -, hmoves⟩ := yields_moveVersionsAt hs hr htenant hrun
  refine ⟨u, t, hrun, ?_, fun q hq hrule hactive => ?_⟩
  · have hchanges : Changes { source := .absent } .lifecycle s t :=
      .of_yields (.saveVersionsAt hs tenant r.id fun hactive => .retire (Or.inl hactive)) hrun
    exact hchanges.intact hs
  · obtain ⟨p, -, heq⟩ := hmoves.version_of hq
    obtain ⟨-, hqrule, hqstatus⟩ := Version.same_of_untimed heq
    split at hqstatus
    · rw [hactive] at hqstatus
      cases hqstatus
    · next hout =>
      rw [if_neg hout] at hqrule
      exact hout ⟨hqrule.symm.trans hrule, hqstatus.symm.trans hactive⟩

namespace Lifecycle

/-- An approved version of the caller can be activated. -/
theorem activateVersion_goes_through (hs : s.Intact) (hauthored : ∀ v ∈ s.versions, v.Authored)
    {v : Version} (hv : v ∈ s.versions) (htenant : v.tenant = caller.tenant)
    (hstatus : v.status = .approved) : ∃ a s', Yields (activateVersion caller v.id) s a s' := by
  have hfound : findOwn s.versions caller.tenant v.id = some v := by
    rw [← htenant]
    exact hs.versions.findOwn_eq hv
  obtain ⟨r, hr, hrid, hrtenant, hrfound⟩ := findOwn_of_owned hs.rules (hs.versionRule v hv)
  have hrtenant : r.tenant = caller.tenant := Eq.trans hrtenant htenant
  rw [htenant] at hrfound
  obtain ⟨_, s₁, hretired, hs₁, hidle⟩ := retireActive_goes_through hs hr hrtenant
  obtain ⟨hkeyed, hkept, -, hmoves⟩ := yields_moveVersionsAt hs hr hrtenant hretired
  have hv₁ : v ∈ s₁.versions :=
    hkept v hv fun hactive => by rw [hstatus] at hactive; cases hactive
  obtain ⟨w, s₂, hactivated⟩ := saveVersion_goes_through
    (active_clashes_none hs₁ hv₁ fun q hq hrule => hidle q hq (hrule.trans (Eq.symm hrid)))
  obtain ⟨-, -, -, -, hmoves₂⟩ := yields_saveVersion_plain rfl rfl hkeyed hv₁ hactivated
  obtain ⟨q, s₃, hsaved⟩ := saveRule_goes_through (s := s₂) r
    { r with currentVersion := some v.id, status := .active }
  -- None of the three saves touches what authoring has checked, so the rule can be shown.
  have hauthored₁ : ∀ q ∈ s₁.versions, q.Authored := by
    refine hmoves.authored fun p hp => ?_
    split
    · exact hauthored p hp
    · exact hauthored p hp
  have hauthored₂ : ∀ q ∈ s₂.versions, q.Authored := by
    refine hmoves₂.authored fun p hp => ?_
    split
    · exact hauthored v hv
    · exact hauthored₁ p hp
  have hauthored₃ : ∀ q ∈ s₃.versions, q.Authored := by
    rcases yields_saveRule.1 hsaved with ⟨-, -, h⟩ | ⟨-, -, h⟩
    · rw [h]
      exact hauthored₂
    · rw [h]
      exact hauthored₂
  obtain ⟨view, hview⟩ := showRule_goes_through hauthored₃ q
  refine ⟨view, s₃, ?_⟩
  unfold activateVersion
  rw [(reads_readyVersion _ _).yields_bind]
  refine ⟨v, yields_readyVersion.2 ⟨hfound, hstatus, rfl⟩, ?_⟩
  refine yields_own_bind.2 ⟨r, hrfound, yields_get_bind.2 (yields_bind.2 ⟨_, s₁, hretired, ?_⟩)⟩
  refine yields_bind.2 ⟨(), s₂, yields_discard.2 ⟨w, hactivated⟩, ?_⟩
  exact yields_bind.2 ⟨q, s₃, hsaved, hview⟩

/-- A version of another tenant is not found. -/
theorem activateVersion_foreign (hs : s.Intact) {v : Version} (hv : v ∈ s.versions)
    (hforeign : v.tenant ≠ caller.tenant) :
    Fails (activateVersion caller v.id) s (.notFound .version v.id) s := by
  have hmissing : findOwn s.versions caller.tenant v.id = none := by
    cases hfound : findOwn s.versions caller.tenant v.id with
    | none => rfl
    | some w =>
      obtain ⟨hw, hid, htenant⟩ := findOwn_eq_some hfound
      have heq : w = v := hs.versions.eq_of_id hw hv hid
      exact absurd (heq ▸ htenant) hforeign
  have hown : Fails (ownVersion caller.tenant v.id) s (.notFound .version v.id) s :=
    fails_own.2 ⟨hmissing, rfl, rfl⟩
  unfold activateVersion readyVersion
  exact fails_bind.2 (Or.inl (fails_bind.2 (Or.inl hown)))

end Lifecycle

/-! ## Forcing -/

/-- Whether the columns of a write can hold what is to be written. -/
structure VersionWrite.Storable (write : VersionWrite) : Prop where
  number : ∀ n ∈ write.number, -0x8000000000000000 ≤ n ∧ n < 0x8000000000000000
  status : ∀ t ∈ write.status, t.string?.isSome = true
  severity : ∀ t ∈ write.severity, t.string?.isSome = true
  changeNote : ∀ note ∈ write.changeNote, ∀ t ∈ note, t.string?.isSome = true

theorem run_saveVersion_clash {v : Version} {edit : VersionEdit} (hchanges : edit.changes v = true)
    (hclash : s.versions.any (edit.applyTo v).clashes = true) :
    saveVersion v edit s = ((.error .versionClash, s) : Except Failure Version × Store) := by
  unfold saveVersion
  dsimp only
  rw [hchanges]
  show (if s.versions.any (edit.applyTo v).clashes = true then _ else _ : Txn Version) s = _
  rw [if_pos hclash]
  rfl

namespace Authoring

/-- Forcing a second version of a rule to be active is refused as a clash and writes nothing. -/
theorem forceVersion_clash (hs : s.Intact) {v w : Version} {write : VersionWrite}
    (hv : v ∈ s.versions) (htenant : v.tenant = caller.tenant) (hw : w ∈ s.versions)
    (hactive : w.status = .active) (hrule : v.rule = w.rule) (hid : v.id ≠ w.id)
    (hwrite : write.Storable) (hstatus : write.status = some (Text.ofString "active")) :
    forceVersion caller v.id write s =
      ((.error .versionClash, s) : Except Failure Version × Store) := by
  have hown : Yields (ownVersion caller.tenant v.id) s v s := by
    rw [← htenant]
    exact yields_own.2 ⟨hs.versions.findOwn_eq hv, rfl⟩
  have hnumber : Yields (write.number.mapM column) s (write.number.map fun n => n) s :=
    optionMapM_goes_through fun n hn => column_goes_through (hwrite.number n hn)
  have hnote : Yields (write.changeNote.mapM encoded?) s
      (write.changeNote.map fun note => note.bind Text.string?) s :=
    optionMapM_goes_through fun note hnote => encoded?_goes_through (hwrite.changeNote note hnote)
  unfold forceVersion
  rw [hown.run_bind, hnumber.run_bind, (encoded?_goes_through hwrite.status).run_bind,
    (encoded?_goes_through hwrite.severity).run_bind, hnote.run_bind]
  by_cases hclears : write.clearsRequired = true
  · rw [if_pos hclears]
    rfl
  · rw [if_neg hclears]
    -- The version is not active yet, as the other one is; so the edit moves it, into the clash.
    have hidle : v.status ≠ .active := fun h =>
      (Version.not_clashes_iff.1 (hs.noClash v hv w hw) hid hrule).2 ⟨h, hactive⟩
    have hlabel : (write.status.bind Text.string?).map VersionStatus.ofLabel = some .active := by
      rw [hstatus]
      show (Text.string? (Text.ofString "active")).map VersionStatus.ofLabel = _
      rw [Text.string?_ofString]
      rfl
    rw [hlabel]
    dsimp only
    rw [run_bind, run_saveVersion_clash]
    · simp [VersionEdit.changes, VersionEdit.applyTo, hidle]
    · refine List.any_eq_true.2 ⟨w, hw, ?_⟩
      simp [Version.clashes, Version.isActive, VersionEdit.applyTo, hid, hrule, hactive]

end Authoring

end Rulebook
