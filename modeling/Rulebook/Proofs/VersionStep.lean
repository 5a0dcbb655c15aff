import Rulebook.Proofs.History
import Rulebook.Proofs.Store.Frame

/-!
What a move makes of the versions, whatever its outcome. `Version.Step` lists, move by move, what
may become of a version: a draft is edited or submitted, a version under review is approved, an approved
one activated or retired, the active one retired, each by one kind of call of its own tenant and
in no other status. `Store.Advances` says that all versions of a store have taken such a step and
that those added are new drafts. A call that breaks off after some of its writes has advanced the
versions that it had come to, so no failure has to be undone for this
(`Engine.move_advances`).
-/
namespace Rulebook

open Txn

/-! ## Steps -/

/-- The statuses that may follow directly. -/
def VersionStatus.successors : VersionStatus → List VersionStatus
  | draft => [inReview]
  | inReview => [approved]
  | approved => [active, retired]
  | active => [retired]
  | retired | unlisted _ => []

namespace Version

/-- What is authored of a version. -/
def content (v : Version) : Value × Value × String × Option String × Option Date :=
  (v.conditions, v.actions, v.severity, v.changeNote, v.effectiveDate)

/-- A version as authoring adds it: a draft that nobody has approved. -/
def IsNew (v : Version) : Prop :=
  v.status = .draft ∧ v.approvedBy = none ∧ v.approvedAt = none

/-- What a move may make of a version. -/
inductive Step : Move → Version → Version → Prop
  | kept {m v} : Step m v v
  | edited {settings caller change v w} (draft : v.status = .draft) (own : v.tenant = caller.tenant)
      (rest : w = { v with
        conditions := w.conditions, actions := w.actions, severity := w.severity
        changeNote := w.changeNote, effectiveDate := w.effectiveDate, updatedAt := w.updatedAt }) :
      Step (.call settings caller (.updateVersion v.id change)) v w
  | submitted {settings caller v} (draft : v.status = .draft) (own : v.tenant = caller.tenant)
      (u : Instant) :
      Step (.call settings caller (.submitRule v.rule)) v
        { v with status := .inReview, updatedAt := u }
  | approved {settings caller v} (inReview : v.status = .inReview)
      (own : v.tenant = caller.tenant) (t u : Instant) :
      Step (.call settings caller (.approveVersion v.id)) v
        { v with
          status := .approved, approvedBy := caller.user, approvedAt := some t, updatedAt := u }
  | activated {settings caller v} (approved : v.status = .approved)
      (own : v.tenant = caller.tenant) (u : Instant) :
      Step (.call settings caller (.activateVersion v.id)) v
        { v with status := .active, updatedAt := u }
  /-- Another version of the rule is activated in its place. -/
  | replaced {settings caller v other} (active : v.status = .active)
      (own : v.tenant = caller.tenant) (ne : v.id ≠ other) (u : Instant) :
      Step (.call settings caller (.activateVersion other)) v
        { v with status := .retired, updatedAt := u }
  | retired {settings caller v} (done : v.status = .active ∨ v.status = .approved)
      (own : v.tenant = caller.tenant) (u : Instant) :
      Step (.call settings caller (.retireVersion v.id)) v
        { v with status := .retired, updatedAt := u }

variable {m : Move} {v w x : Version}

theorem Step.id_eq (h : Step m v w) : w.id = v.id := by
  cases h with
  | edited draft own rest => rw [rest]
  | _ => rfl

/-- A version keeps its status or takes one that may follow. -/
theorem Step.status (h : Step m v w) : w.status = v.status ∨ w.status ∈ v.status.successors := by
  cases h with
  | kept => exact Or.inl rfl
  | edited draft own rest =>
    left
    rw [rest]
  | submitted h | approved h | activated h | replaced h =>
    exact Or.inr (by simp [h, VersionStatus.successors])
  | retired h =>
    refine Or.inr ?_
    rcases h with h | h <;> simp [h, VersionStatus.successors]

end Version

/-! ## What becomes of the versions -/

/-- Each version of a store has become another one by a step, and those added are new drafts. -/
def Store.Advances (step : Version → Version → Prop) (s s' : Store) : Prop :=
  ∃ g new, s'.versions = s.versions.map g ++ new ∧ (∀ v ∈ s.versions, step v (g v)) ∧
    ∀ v ∈ new, v.IsNew

variable {s s' : Store} {step : Version → Version → Prop} {α β : Type} {n : Nat} {m : Move}

theorem Store.Advances.of_map {g : Version → Version} (h : s'.versions = s.versions.map g)
    (hg : ∀ v ∈ s.versions, step v (g v)) : s.Advances step s' :=
  ⟨g, [], h.trans (List.append_nil _).symm, hg, fun v hv => by cases hv⟩

theorem Store.Advances.of_eq (h : s'.versions = s.versions) : s.Advances (Version.Step m) s' :=
  .of_map (h.trans (List.map_id _).symm) fun _ _ => .kept

/-- Adding drafts leaves the versions that are there alone. -/
def Store.AddsDrafts (s s' : Store) : Prop :=
  ∃ new, s'.versions = s.versions ++ new ∧ ∀ v ∈ new, v.IsNew

theorem Store.AddsDrafts.of_eq (h : s'.versions = s.versions) : s.AddsDrafts s' :=
  ⟨[], by rw [h, List.append_nil], fun v hv => by cases hv⟩

instance : IsPreorder Store Store.AddsDrafts where
  refl _ := .of_eq rfl
  trans s t u := by
    rintro ⟨new, ht, hnew⟩ ⟨more, hu, hmore⟩
    refine ⟨new ++ more, by rw [hu, ht, List.append_assoc], fun v hv => ?_⟩
    rcases List.mem_append.1 hv with hv | hv
    · exact hnew v hv
    · exact hmore v hv

theorem Store.AddsDrafts.advances (h : s.AddsDrafts s') : s.Advances (Version.Step m) s' := by
  obtain ⟨new, hversions, hnew⟩ := h
  exact ⟨id, new, by rw [hversions, List.map_id], fun _ _ => .kept, hnew⟩

/-- The versions are as they were. -/
def Store.SameVersions (s s' : Store) : Prop := s'.versions = s.versions

instance : IsPreorder Store Store.SameVersions where
  refl _ := rfl
  trans _ _ _ h h' := h'.trans h

namespace Txn

theorem within_saveRule (old new : Rule) : Within Store.SameVersions (saveRule old new) := by
  intro s
  unfold saveRule
  split
  · rfl
  · rfl

theorem within_addVersion {v : Version} (h : v.IsNew) : Within Store.AddsDrafts (addVersion v) := by
  intro s
  unfold addVersion
  refine reads_get.ends_bind (refl s) fun t ht => ?_
  obtain ⟨rfl, -⟩ := yields_get.1 ht
  refine ends_guard (refl t) fun _ => ⟨[v], rfl, fun q hq => ?_⟩
  rw [List.mem_singleton.1 hq]
  exact h

theorem fails_saveVersion {v : Version} {edit : VersionEdit} {e : Failure}
    (h : Fails (saveVersion v edit) s e s') : s' = s := by
  unfold saveVersion at h
  dsimp only at h
  split at h
  · exact absurd h not_fails_pure
  · rcases reads_get.fails_bind.1 h with ⟨-, hsame⟩ | ⟨t, -, h⟩
    · exact hsame
    · rcases fails_guard.1 h with ⟨-, -, hsame⟩ | ⟨-, h⟩
      · exact hsame
      · cases h

/-- A save edits the version or leaves all as it is. -/
theorem saveVersion_ends (v : Version) (edit : VersionEdit) (s : Store) :
    (saveVersion v edit s).2.versions = s.versions ∨ ∃ u, (saveVersion v edit s).2.versions =
      replaceRow s.versions { (edit.settle v).applyTo v with updatedAt := u } := by
  rcases yields_or_fails (saveVersion v edit) s with ⟨a, t, h⟩ | ⟨e, t, h⟩
  · rw [show saveVersion v edit s = (.ok a, t) from h]
    rcases yields_saveVersion.1 h with ⟨-, -, rfl⟩ | ⟨-, -, -, rfl⟩
    · exact Or.inl rfl
    · exact Or.inr ⟨s.clock, rfl⟩
  · rw [show saveVersion v edit s = (.error e, t) from h, fails_saveVersion h]
    exact Or.inl rfl

/-- So it does to every version a step, if the edit is one. -/
theorem saveVersion_advances (step : Version → Version → Prop) {v : Version} (edit : VersionEdit)
    (hkeyed : Keyed s.versions n) (hv : v ∈ s.versions)
    (hstep : ∀ u, step v { (edit.settle v).applyTo v with updatedAt := u })
    (hkept : ∀ q, step q q) :
    Keyed (saveVersion v edit s).2.versions n ∧ ∃ g,
      (saveVersion v edit s).2.versions = s.versions.map g ∧ (∀ q ∈ s.versions, step q (g q)) ∧
        ∀ q ∈ s.versions, q.id ≠ v.id → g q = q := by
  rcases saveVersion_ends v edit s with h | ⟨u, h⟩
  · rw [h]
    exact ⟨hkeyed, id, (List.map_id _).symm, fun q _ => hkept q, fun _ _ _ => rfl⟩
  · rw [h]
    refine ⟨hkeyed.replace, _, rfl, fun q hq => ?_, fun q _ hne => if_neg hne⟩
    split
    · next heq =>
      rw [hkeyed.eq_of_id hq hv heq]
      exact hstep u
    · exact hkept q

/-- Moving versions to a status, as far as it gets. -/
theorem saveVersionStatus_ends (status : VersionStatus) {vs : List Version}
    (hkeyed : Keyed s.versions n) (hmem : ∀ v ∈ vs, v ∈ s.versions)
    (hnodup : (vs.map fun v => v.id).Nodup) :
    Keyed (saveVersionStatus status vs s).2.versions n ∧ ∃ g,
      (saveVersionStatus status vs s).2.versions = s.versions.map g ∧
        ∀ q ∈ s.versions, g q = q ∨
          q ∈ vs ∧ ∃ u, g q = { q with status, updatedAt := u } := by
  induction vs generalizing s with
  | nil => exact ⟨hkeyed, id, (List.map_id _).symm, fun _ _ => Or.inl rfl⟩
  | cons v vs ih =>
    have hvmem := hmem v (List.mem_cons_self ..)
    obtain ⟨hv, hnodup⟩ := List.nodup_cons.1 hnodup
    obtain ⟨hkeyed₁, g₁, hg₁, hstep₁, hother₁⟩ := saveVersion_advances
      (fun p q => q = p ∨ p = v ∧ ∃ u, q = { p with status, updatedAt := u })
      { status := some status } hkeyed hvmem (fun u => Or.inr ⟨rfl, u, rfl⟩)
      fun _ => Or.inl rfl
    refine ends_bind (P := fun t => Keyed t.versions n ∧ ∃ g, t.versions = s.versions.map g ∧
      ∀ q ∈ s.versions, g q = q ∨ q ∈ v :: vs ∧ ∃ u, g q = { q with status, updatedAt := u })
      (fun e t ht => ?_) fun a t ht => ?_
    · rw [← ht.left, left_discard]
      refine ⟨hkeyed₁, g₁, hg₁, fun q hq => (hstep₁ q hq).imp_right ?_⟩
      rintro ⟨rfl, hmoved⟩
      exact ⟨List.mem_cons_self .., hmoved⟩
    · have ht : t = (saveVersion v { status := some status } s).2 := by
        rw [← ht.left, left_discard]
      rw [← ht] at hkeyed₁ hg₁
      have hrest : ∀ q ∈ vs, q ∈ t.versions := by
        intro q hq
        have hne : q.id ≠ v.id := fun heq => hv (List.mem_map.2 ⟨q, hq, heq⟩)
        have hqmem := hmem q (List.mem_cons_of_mem _ hq)
        rw [hg₁, ← hother₁ q hqmem hne]
        exact List.mem_map_of_mem hqmem
      obtain ⟨hkeyed₂, g₂, hg₂, hstep₂⟩ := ih hkeyed₁ hrest hnodup
      refine ⟨hkeyed₂, g₂ ∘ g₁, by rw [hg₂, hg₁, List.map_map], fun q hq => ?_⟩
      have hq₁ : g₁ q ∈ t.versions := by
        rw [hg₁]
        exact List.mem_map_of_mem hq
      -- A version is moved by the first save or by a later one, not by both.
      rw [Function.comp_apply]
      rcases hstep₂ (g₁ q) hq₁ with hsame | ⟨hin, hmoved⟩ <;>
        rcases hstep₁ q hq with hfirst | ⟨rfl, u, hfirst⟩
      · exact Or.inl (hsame.trans hfirst)
      · exact Or.inr ⟨List.mem_cons_self .., u, hsame.trans hfirst⟩
      · rw [hfirst] at hin hmoved ⊢
        exact Or.inr ⟨List.mem_cons_of_mem _ hin, hmoved⟩
      · exact absurd (List.mem_map_of_mem hin) (by rw [hfirst]; exact hv)

end Txn

/-! ## Authoring -/

namespace Authoring

variable {caller : Caller} {settings : Settings}

theorem within_addDraft (rule : Uuid) (number : Int) (draft : VersionDraft) :
    Within Store.AddsDrafts (addDraft caller rule number draft) := by
  unfold addDraft
  refine (reads_column _).within.bind fun number _ _ _ => ?_
  refine (reads_encoded _).within.bind fun severity _ _ _ => ?_
  refine (reads_encoded? _).within.bind fun changeNote _ _ _ => ?_
  refine .newRow_bind (fun s => Store.AddsDrafts.of_eq rfl) fun row _ => ?_
  exact (within_addVersion ⟨rfl, rfl, rfl⟩).bind fun _ _ _ _ => (reads_pure _).within

theorem within_createRule (draft : RuleDraft) (first : VersionDraft) :
    Within Store.AddsDrafts (createRule caller draft first) := by
  unfold createRule
  refine (reads_checkDraft _).within.bind fun first _ _ _ => ?_
  refine (reads_own _ _ _ _).discard.within.bind fun _ _ _ _ => ?_
  refine (reads_encoded _).within.bind fun name _ _ _ => ?_
  refine (reads_encoded? _).within.bind fun appliesTo _ _ _ => ?_
  refine .newRow_bind (fun s => Store.AddsDrafts.of_eq rfl) fun row _ => ?_
  refine .bind (fun s => .of_eq rfl) fun _ _ _ _ => ?_
  exact (within_addDraft _ _ _).discard.bind fun _ _ _ _ => (reads_showRule _).within

theorem within_createVersion (rule : Uuid) (draft : VersionDraft) :
    Within Store.AddsDrafts (createVersion caller rule draft) := by
  unfold createVersion
  refine (reads_checkDraft _).within.bind fun draft _ _ _ => ?_
  refine (reads_own _ _ _ _).within.bind fun r _ _ _ => ?_
  refine reads_get.within.bind fun t _ _ _ => ?_
  exact (within_addDraft _ _ _).bind fun v _ _ _ => (reads_showVersion v).within

theorem updateVersion_advances (hs : s.Intact) (id : Uuid) (change : VersionChange) :
    s.Advances (Version.Step (.call settings caller (.updateVersion id change)))
      (updateVersion caller id change s).2 := by
  unfold updateVersion
  refine ends_own_bind (.of_eq rfl) fun v hv hid htenant => ends_guard (.of_eq rfl) fun hdraft => ?_
  refine (reads_optionForM reads_checkConditions _).ends_bind (.of_eq rfl) fun _ _ => ?_
  refine (reads_optionForM (fun a => (reads_checkActions a).discard) _).ends_bind (.of_eq rfl)
    fun _ _ => ?_
  refine (reads_encoded? _).ends_bind (.of_eq rfl) fun severity _ => ?_
  refine (reads_encoded? _).ends_bind (.of_eq rfl) fun changeNote _ => ?_
  rw [← show v.id = id from hid]
  obtain ⟨-, g, hg, hstep, -⟩ := saveVersion_advances
    (Version.Step (.call settings caller (.updateVersion v.id change)))
    { conditions := change.conditions, actions := change.actions, severity
      changeNote := changeNote.map some, effectiveDate := change.effectiveDate.map some }
    hs.versions hv (fun u => .edited (not_not.1 hdraft) htenant rfl) fun _ => .kept
  refine .of_map ?_ hstep
  rw [← hg]
  exact Within.from_bind (R := Store.SameVersions) (fun v => (reads_showVersion v).within) s

end Authoring

/-! ## The life of versions -/

namespace Lifecycle

variable {caller : Caller} {settings : Settings}

theorem submitRule_advances (hs : s.Intact) (id : Uuid) :
    s.Advances (Version.Step (.call settings caller (.submitRule id)))
      (submitRule caller id s).2 := by
  unfold submitRule
  refine ends_own_bind (.of_eq rfl) fun r hr hid htenant => ?_
  refine reads_get.ends_bind (.of_eq rfl) fun t ht => ?_
  obtain ⟨rfl, -⟩ := yields_get.1 ht
  refine ends_guard (.of_eq rfl) fun _ => ?_
  obtain ⟨-, g, hg, hstep⟩ := saveVersionStatus_ends .inReview hs.versions
    (fun _ hv => (mem_versionsAt.1 hv).1) (nodup_versionsAt hs caller.tenant r.id .draft)
  refine .of_map (g := g) ?_ fun q hq => ?_
  · rw [← hg]
    refine Within.from_bind (R := Store.SameVersions) (fun _ => ?_) t
    split
    · exact (within_saveRule _ _).bind fun r _ _ _ => (reads_showRule r).within
    · exact (reads_pure _).within.bind fun r _ _ _ => (reads_showRule r).within
  · rcases hstep q hq with hsame | ⟨hin, u, hmoved⟩
    · rw [hsame]
      exact .kept
    · obtain ⟨-, hrule, hown, hdraft⟩ := mem_versionsAt.1 hin
      rw [hmoved, ← show r.id = id from hid, ← hrule]
      exact .submitted hdraft hown u

theorem approveVersion_advances (hs : s.Intact) (id : Uuid) :
    s.Advances (Version.Step (.call settings caller (.approveVersion id)))
      (approveVersion caller id s).2 := by
  unfold approveVersion
  refine (reads_readyVersion id .approve).ends_bind (.of_eq rfl) fun v hready => ?_
  obtain ⟨hfound, hstatus, -⟩ := yields_readyVersion.1 hready
  obtain ⟨hv, rfl, hown⟩ : v ∈ s.versions ∧ v.id = id ∧ v.tenant = caller.tenant :=
    findOwn_eq_some hfound
  rw [run_now_bind]
  obtain ⟨-, g, hg, hstep, -⟩ := saveVersion_advances (s := { s with clock := s.clock.next })
    (Version.Step (.call settings caller (.approveVersion v.id)))
    { status := some .approved, approvedBy := some caller.user, approvedAt := some s.clock }
    hs.versions hv (fun u => .approved hstatus hown s.clock u) fun _ => .kept
  refine .of_map ?_ hstep
  rw [← hg]
  exact Within.from_bind (R := Store.SameVersions) (fun v => (reads_showVersion v).within) _

/-- Retiring the active versions of a rule, as far as it gets, leaves an approved version alone: the
others are kept or give way to it. -/
theorem retireActive_replaces (settings : Settings) (caller : Caller) (hs : s.Intact) {v : Version}
    (hv : v ∈ s.versions) (hstatus : v.status = .approved) (rule : Uuid) :
    let t := (saveVersionStatus .retired (s.versionsAt caller.tenant rule .active) s).2
    Keyed t.versions s.nextId ∧ ∃ g, t.versions = s.versions.map g ∧ g v = v ∧
      ∀ q ∈ s.versions, g q = q ∨
        g q ≠ v ∧ Version.Step (.call settings caller (.activateVersion v.id)) q (g q) := by
  intro t
  obtain ⟨hkeyed, g, hg, hstep⟩ := saveVersionStatus_ends .retired hs.versions
    (fun _ hv => (mem_versionsAt.1 hv).1) (nodup_versionsAt hs caller.tenant rule .active)
  refine ⟨hkeyed, g, hg, ?_, fun q hq => (hstep q hq).imp_right ?_⟩
  · refine (hstep v hv).resolve_right ?_
    rintro ⟨hin, -⟩
    rw [(mem_versionsAt.1 hin).2.2.2] at hstatus
    cases hstatus
  · rintro ⟨hin, u, hmoved⟩
    obtain ⟨-, -, hqown, hactive⟩ := mem_versionsAt.1 hin
    rw [hmoved]
    refine ⟨fun heq => ?_, .replaced hactive hqown (fun heq => ?_) u⟩
    · rw [← heq] at hstatus
      cases hstatus
    · rw [hs.versions.eq_of_id hq hv heq, hstatus] at hactive
      cases hactive

theorem activateVersion_advances (hs : s.Intact) (id : Uuid) :
    s.Advances (Version.Step (.call settings caller (.activateVersion id)))
      (activateVersion caller id s).2 := by
  unfold activateVersion
  refine (reads_readyVersion id .activate).ends_bind (.of_eq rfl) fun v hready => ?_
  obtain ⟨hfound, hstatus, -⟩ := yields_readyVersion.1 hready
  obtain ⟨hv, rfl, hown⟩ : v ∈ s.versions ∧ v.id = id ∧ v.tenant = caller.tenant :=
    findOwn_eq_some hfound
  refine ends_own_bind (.of_eq rfl) fun r hr _ htenant => ?_
  refine reads_get.ends_bind (.of_eq rfl) fun t ht => ?_
  obtain ⟨rfl, -⟩ := yields_get.1 ht
  obtain ⟨hkeyed, g, hg, hsame, hreplaced⟩ :=
    retireActive_replaces settings caller hs hv hstatus r.id
  refine ends_bind (P := t.Advances _) (fun e t' ht => ?_) fun _ t' ht => ?_
  · refine .of_map ((congrArg Store.versions ht.left.symm).trans hg) fun q hq => ?_
    rcases hreplaced q hq with hkept | ⟨-, hreplaced⟩
    · rw [hkept]
      exact .kept
    · exact hreplaced
  · rw [show (saveVersionStatus .retired (t.versionsAt caller.tenant r.id .active) t).2 = t' from
      ht.left] at hkeyed hg
    have hmem : ∀ q ∈ t.versions, g q ∈ t'.versions := fun q hq => hg ▸ List.mem_map_of_mem hq
    obtain ⟨-, k, hk, hactivated, -⟩ := saveVersion_advances
      (fun p q => q = p ∨ p = v ∧ ∃ u, q = { p with status := .active, updatedAt := u })
      { status := some .active } hkeyed (hsame ▸ hmem v hv) (fun u => Or.inr ⟨rfl, u, rfl⟩)
      fun _ => Or.inl rfl
    refine .of_map (g := k ∘ g) ?_ fun q hq => ?_
    · rw [← List.map_map, ← hg, ← hk]
      refine (Within.from_bind (R := Store.SameVersions) (fun _ => ?_) t').trans
        (congrArg Store.versions (left_discard _ t'))
      exact (within_saveRule _ _).bind fun r _ _ _ => (reads_showRule r).within
    -- A version is retired or activated, not both.
    · rw [Function.comp_apply]
      rcases hactivated (g q) (hmem q hq) with hkept | ⟨heq, u, hmoved⟩
      · rw [hkept]
        exact (hreplaced q hq).elim (fun h => h.symm ▸ .kept) And.right
      · obtain rfl : q = v := ((hreplaced q hq).resolve_right fun h => h.1 heq).symm.trans heq
        rw [hmoved, hsame]
        exact .activated hstatus hown u

theorem retireVersion_advances (hs : s.Intact) (id : Uuid) :
    s.Advances (Version.Step (.call settings caller (.retireVersion id)))
      (retireVersion caller id s).2 := by
  unfold retireVersion
  refine ends_own_bind (.of_eq rfl) fun v hv hid hown => ends_guard (.of_eq rfl) fun hstatus => ?_
  obtain rfl : v.id = id := hid
  have hdone : v.status = .active ∨ v.status = .approved := by
    by_cases hactive : v.status = .active
    · exact Or.inl hactive
    · exact Or.inr (not_not.1 fun happroved => hstatus ⟨hactive, happroved⟩)
  obtain ⟨-, g, hg, hstep, -⟩ := saveVersion_advances
    (Version.Step (.call settings caller (.retireVersion v.id)))
    { status := some .retired }
    hs.versions hv (fun u => .retired hdone hown u) fun _ => .kept
  refine .of_map ?_ hstep
  rw [← hg]
  refine Within.from_bind (R := Store.SameVersions) (fun retired => ?_) s
  dsimp only
  split
  · refine (reads_own _ _ _ _).within.bind fun r _ _ _ => ?_
    split
    · exact (within_saveRule _ _).discard.bind fun _ _ _ _ => (reads_showVersion _).within
    · exact (reads_showVersion _).within
  · exact (reads_showVersion _).within

end Lifecycle

/-! ## Moves -/

namespace Engine

variable {e : Engine}

/-- Without forcing, a move takes each version a step further and adds none but drafts. -/
theorem move_advances (hs : e.store.Intact) (hforce : m.work ≠ .forcing) :
    e.store.Advances (Version.Step m) (e.move m).store := by
  have hchanges := move_changes hs m
  cases hwrites : m.work.writesVersions with
  | false => exact .of_eq (hchanges.rules_versions hwrites).2
  | true =>
    cases m with
    | call settings caller call =>
      cases call with
      | createRule draft first =>
        exact answer_ends (.of_eq rfl) (Authoring.within_createRule draft first e.store).advances
      | createVersion rule draft =>
        exact answer_ends (.of_eq rfl) (Authoring.within_createVersion rule draft e.store).advances
      | updateVersion version change =>
        exact answer_ends (.of_eq rfl) (Authoring.updateVersion_advances hs version change)
      | submitRule rule =>
        exact answer_ends (.of_eq rfl) (Lifecycle.submitRule_advances hs rule)
      | approveVersion version =>
        exact answer_ends (.of_eq rfl) (Lifecycle.approveVersion_advances hs version)
      | activateVersion version =>
        exact answer_ends (.of_eq rfl) (Lifecycle.activateVersion_advances hs version)
      | retireVersion version =>
        exact answer_ends (.of_eq rfl) (Lifecycle.retireVersion_advances hs version)
      | forceVersion => exact absurd rfl hforce
      | listRules | nextNumber | listVersions | listActive =>
        exact .of_eq (congrArg Store.versions (perform_of_looksUp rfl))
      | _ => cases hwrites
    | _ => cases hwrites

end Engine

end Rulebook
