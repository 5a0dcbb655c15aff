import Mathlib
import Rulebook.Proofs.ActiveVersion
import Rulebook.Proofs.VersionStep

/-!
The life of versions. Step by step (`Engine.move_advances`) a version moves along draft, in review,
approved, active, retired, where only active may be left out; what is authored of it settles when it
leaves draft, its approval when it is approved, and all of it when it is retired. `Version.Follows`
says this of two times however far apart.
-/
namespace Rulebook

/-! ## Statuses and steps -/

namespace VersionStatus

/-- A status follows another one in the end. -/
def Reaches : VersionStatus → VersionStatus → Prop :=
  Relation.ReflTransGen fun a b => b ∈ a.successors

variable {a b : VersionStatus}

theorem Reaches.eq_of_retired (h : Reaches a b) (ha : a = retired) : b = a := by
  induction h with
  | refl => rfl
  | tail _ last ih =>
    rw [ih, ha] at last
    cases last

/-- No version becomes a draft again. -/
theorem Reaches.ne_draft (h : Reaches a b) (ha : a ≠ draft) : b ≠ draft := by
  cases h with
  | refl => exact ha
  | @tail d _ _ last =>
    rintro rfl
    cases d <;> simp [successors] at last

end VersionStatus

namespace Version

variable {m : Move} {v w x : Version}

/-- A version is approved exactly from the time of its approval on. -/
structure InLife (v : Version) : Prop where
  listed : v.status ∈ [.draft, .inReview, .approved, .active, .retired]
  approved_iff : v.approvedAt ≠ none ↔ v.status ∈ [.approved, .active, .retired]
  unapproved : v.approvedAt = none → v.approvedBy = none

theorem IsNew.inLife (h : v.IsNew) : v.InLife := by
  obtain ⟨hstatus, hby, hat⟩ := h
  constructor <;> simp [hstatus, hby, hat]

/-- Moving to a status that is no less and no more approved. -/
theorem InLife.moved (h : v.InLife) {status : VersionStatus} (u : Instant)
    (hlisted : status ∈ [.draft, .inReview, .approved, .active, .retired])
    (hsame : v.status ∈ [.approved, .active, .retired] ↔ status ∈ [.approved, .active, .retired]) :
    ({ v with status, updatedAt := u } : Version).InLife :=
  ⟨hlisted, h.approved_iff.trans hsame, h.unapproved⟩

theorem Step.inLife (h : Step m v w) (hv : v.InLife) : w.InLife := by
  cases h with
  | kept => exact hv
  | edited draft own rest =>
    rw [rest]
    exact ⟨hv.listed, hv.approved_iff, hv.unapproved⟩
  | submitted draft own u => exact hv.moved u (by decide) (by rw [draft]; decide)
  | approved inReview => exact ⟨by simp, by simp, fun hnone => by cases hnone⟩
  | activated approved own u => exact hv.moved u (by decide) (by rw [approved]; decide)
  | replaced active own ne u => exact hv.moved u (by decide) (by rw [active]; decide)
  | retired done own u =>
    refine hv.moved u (by decide) ?_
    rcases done with h | h <;> rw [h] <;> decide

/-- `w` is `v` at a later time. -/
structure Follows (v w : Version) : Prop where
  id_eq : w.id = v.id
  reaches : v.status.Reaches w.status
  content_eq : v.status ≠ .draft → w.content = v.content
  approval_eq : v.approvedAt ≠ none → w.approvedBy = v.approvedBy ∧ w.approvedAt = v.approvedAt
  eq_of_retired : v.status = .retired → w = v

theorem Follows.refl (v : Version) : v.Follows v :=
  ⟨rfl, .refl, fun _ => rfl, fun _ => ⟨rfl, rfl⟩, fun _ => rfl⟩

theorem Follows.trans (h : v.Follows w) (h' : w.Follows x) : v.Follows x := by
  constructor
  · exact h'.id_eq.trans h.id_eq
  · exact Relation.ReflTransGen.trans h.reaches h'.reaches
  · intro hstatus
    exact (h'.content_eq (h.reaches.ne_draft hstatus)).trans (h.content_eq hstatus)
  · intro happroved
    obtain ⟨hby, hat⟩ := h.approval_eq happroved
    obtain ⟨hby', hat'⟩ := h'.approval_eq (by rw [hat]; exact happroved)
    exact ⟨hby'.trans hby, hat'.trans hat⟩
  · intro hretired
    obtain rfl := h.eq_of_retired hretired
    exact h'.eq_of_retired hretired

theorem Step.follows (h : Step m v w) (hv : v.InLife) : v.Follows w := by
  have hreaches : v.status.Reaches w.status := by
    rcases h.status with hsame | hnext
    · rw [hsame]
      exact .refl
    · exact .single hnext
  refine ⟨h.id_eq, hreaches, fun hstatus => ?_, fun happroved => ?_, fun hretired => ?_⟩
  · cases h with
    | edited draft => exact absurd draft hstatus
    | _ => rfl
  · cases h with
    | edited draft own rest =>
      rw [rest]
      exact ⟨rfl, rfl⟩
    | approved inReview =>
      rw [hv.approved_iff, inReview] at happroved
      exact absurd happroved (by decide)
    | _ => exact ⟨rfl, rfl⟩
  · cases h with
    | kept => rfl
    | edited h | submitted h | approved h | activated h | replaced h =>
      rw [hretired] at h
      cases h
    | retired h =>
      rw [hretired] at h
      rcases h with h | h <;> cases h

end Version

/-! ## Histories -/

namespace Store.Advances

variable {s s' : Store} {m : Move} {v w : Version}

theorem next (h : s.Advances (Version.Step m) s') (hv : v ∈ s.versions) :
    ∃ w ∈ s'.versions, v.Step m w := by
  obtain ⟨g, new, hversions, hstep, -⟩ := h
  refine ⟨g v, ?_, hstep v hv⟩
  rw [hversions]
  exact List.mem_append_left _ (List.mem_map_of_mem hv)

theorem origin (h : s.Advances (Version.Step m) s') (hw : w ∈ s'.versions) :
    (∃ v ∈ s.versions, v.Step m w) ∨ w.IsNew := by
  obtain ⟨g, new, hversions, hstep, hnew⟩ := h
  rw [hversions] at hw
  rcases List.mem_append.1 hw with hw | hw
  · obtain ⟨v, hv, rfl⟩ := List.mem_map.1 hw
    exact Or.inl ⟨v, hv, hstep v hv⟩
  · exact Or.inr (hnew w hw)

theorem inLife (h : s.Advances (Version.Step m) s') (hs : ∀ v ∈ s.versions, v.InLife) :
    ∀ w ∈ s'.versions, w.InLife := by
  intro w hw
  rcases h.origin hw with ⟨v, hv, hstep⟩ | hnew
  · exact hstep.inLife (hs v hv)
  · exact hnew.inLife

end Store.Advances

namespace Engine

variable {e : Engine} {moves : List Move} {v : Version}

theorem after_inLife (hs : e.store.Intact) (h : ∀ v ∈ e.store.versions, v.InLife)
    (hforce : ∀ m ∈ moves, m.work ≠ .forcing) :
    ∀ v ∈ (e.after moves).store.versions, v.InLife :=
  after_keeps (P := fun s => ∀ v ∈ s.versions, v.InLife) hs h fun _ hd hlife m hm =>
    (move_advances hd (hforce m hm)).inLife hlife

/-- A version is found after any moves again, further on in its life. -/
theorem after_follows (hs : e.store.Intact) (h : ∀ v ∈ e.store.versions, v.InLife)
    (hforce : ∀ m ∈ moves, m.work ≠ .forcing) (hv : v ∈ e.store.versions) :
    ∃ w ∈ (e.after moves).store.versions, v.Follows w := by
  have hboth : (∀ q ∈ (e.after moves).store.versions, q.InLife) ∧
      ∃ w ∈ (e.after moves).store.versions, v.Follows w := by
    refine after_keeps (P := fun s => (∀ q ∈ s.versions, q.InLife) ∧ ∃ w ∈ s.versions, v.Follows w)
      hs ⟨h, v, hv, .refl v⟩ ?_
    rintro d hd ⟨hlife, w, hw, hfollows⟩ m hm
    have hadvances := move_advances hd (hforce m hm)
    obtain ⟨x, hx, hstep⟩ := hadvances.next hw
    exact ⟨hadvances.inLife hlife, x, hx, hfollows.trans (hstep.follows (hlife w hw))⟩
  exact hboth.2

end Engine

/-- Without forced writes, after any moves: a version has one of the five statuses, and has a time
of approval exactly while it is approved, active or retired. The next move, whichever it is and
however it ends, takes each version at most one step further, by the call that the step belongs to,
and adds none but unapproved drafts. Whatever happens from there on, a version stays where it is or
moves forward along a path of steps; what is authored of it does not change once it is no draft, nor
its approval once it is approved, nor anything once it is retired. -/
theorem versions_move_forward (source : EntitySource) (clock : Instant) (nextId : Nat)
    (before later : List Move) (hforce : ∀ m ∈ before ++ later, m.work ≠ .forcing) :
    let e := Engine.fresh source clock nextId
    let s := (e.after before).store
    let t := (e.after (before ++ later)).store
    (∀ v ∈ s.versions, v.status ∈ [.draft, .inReview, .approved, .active, .retired] ∧
      (v.approvedAt ≠ none ↔ v.status ∈ [.approved, .active, .retired]) ∧
      (v.approvedAt = none → v.approvedBy = none)) ∧
    (∀ m : Move, m.work ≠ .forcing → let s' := (e.after (before ++ [m])).store
      (∀ v ∈ s.versions, ∃ w ∈ s'.versions, (∀ q ∈ s'.versions, q.id = v.id → q = w) ∧
        v.Step m w ∧ (w.status = v.status ∨ w.status ∈ v.status.successors)) ∧
      ∀ w ∈ s'.versions, (∀ v ∈ s.versions, v.id ≠ w.id) → w.IsNew) ∧
    ∀ v ∈ s.versions, ∃ w ∈ t.versions, (∀ q ∈ t.versions, q.id = v.id → q = w) ∧
      v.status.Reaches w.status ∧ (v.status ≠ .draft → w.content = v.content) ∧
      (v.approvedAt ≠ none → w.approvedBy = v.approvedBy ∧ w.approvedAt = v.approvedAt) ∧
      (v.status = .retired → w = v) := by
  intro e s t
  have hfresh := Engine.fresh_intact source clock nextId
  have hs : s.Intact := Engine.after_intact hfresh before
  have ht : t.Intact := Engine.after_intact hfresh (before ++ later)
  have hlife : ∀ v ∈ s.versions, v.InLife :=
    Engine.after_inLife hfresh (fun v hv => by cases hv) fun m hm =>
      hforce m (List.mem_append_left _ hm)
  refine ⟨fun v hv => ?_, fun m hm => ?_, fun v hv => ?_⟩
  · exact ⟨(hlife v hv).listed, (hlife v hv).approved_iff, (hlife v hv).unapproved⟩
  · rw [Engine.after_concat]
    have hadvances := Engine.move_advances hs hm
    have hs' := (Engine.move_changes hs m).intact hs
    refine ⟨fun v hv => ?_, fun w hw hother => ?_⟩
    · obtain ⟨w, hw, hstep⟩ := hadvances.next hv
      refine ⟨w, hw, fun q hq hid => ?_, hstep, hstep.status⟩
      exact hs'.versions.eq_of_id hq hw (hid.trans hstep.id_eq.symm)
    · rcases hadvances.origin hw with ⟨v, hv, hstep⟩ | hnew
      · exact absurd hstep.id_eq.symm (hother v hv)
      · exact hnew
  · obtain ⟨w, hw, hfollows⟩ := Engine.after_follows hs hlife
      (fun m hm => hforce m (List.mem_append_right before hm)) hv
    rw [← Engine.after_append] at hw
    refine ⟨w, hw, fun q hq hid => ?_, hfollows.reaches, hfollows.content_eq, hfollows.approval_eq,
      hfollows.eq_of_retired⟩
    exact ht.versions.eq_of_id hq hw (hid.trans hfollows.id_eq.symm)

/-- When the second version of a rule is activated, the first one is retired as it was authored. -/
theorem versions_move_forward_renewal :
    let e := Engine.fresh .absent default 0
    let activation : List Move := [.call {} { tenant := ⟨100⟩ } (.activateVersion ⟨3⟩)]
    (e.after (renewal ++ activation)).store.versions.map (fun v => v.status) =
        [.retired, .active] ∧
      ∀ v ∈ (e.after renewal).store.versions, v.status ≠ .draft →
        ∃ w ∈ (e.after (renewal ++ activation)).store.versions,
          v.status.Reaches w.status ∧ w.content = v.content := by
  refine ⟨by cbv, fun v hv hstatus => ?_⟩
  obtain ⟨w, hw, -, hreaches, hcontent, -⟩ := (versions_move_forward .absent default 0 renewal
    [.call {} { tenant := ⟨100⟩ } (.activateVersion ⟨3⟩)] (by decide)).2.2 v hv
  exact ⟨w, hw, hreaches, hcontent hstatus⟩

end Rulebook
