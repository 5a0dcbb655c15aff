import Rulebook.Proofs.Store.Chain

/-!
Writing rows, operation by operation: when a write goes through and what it then leaves
(`yields_saveVersion` and the like), and which change it makes whatever its outcome
(`Changes.saveVersion` and the like).
-/
namespace Rulebook

open Txn

variable {c : Impact.Circumstances} {w : Work} {s s' : Store}

/-! ## Adding rows -/

namespace Txn

theorem any_eq_false_iff {α : Type} {p : α → Bool} {rows : List α} :
    ¬ rows.any p = true ↔ ∀ q ∈ rows, p q = false := by
  simp

theorem yields_addVersion {v : Version} {u : Unit} : Yields (addVersion v) s u s' ↔
    (∀ q ∈ s.versions, v.clashes q = false) ∧ s' = { s with versions := s.versions ++ [v] } := by
  unfold addVersion
  rw [yields_bind]
  constructor
  · rintro ⟨_, _, hget, h⟩
    obtain ⟨rfl, rfl⟩ := yields_get.1 hget
    obtain ⟨hnone, hadd⟩ := yields_guard.1 h
    exact ⟨any_eq_false_iff.1 hnone, yields_modify.1 hadd⟩
  · rintro ⟨hnone, rfl⟩
    refine ⟨s, s, yields_get.2 ⟨rfl, rfl⟩, yields_guard.2 ⟨any_eq_false_iff.2 hnone, ?_⟩⟩
    exact yields_modify.2 rfl

theorem fails_addVersion {v : Version} {e : Failure} (h : Fails (addVersion v) s e s') :
    e = .constraint ∧ ∃ q ∈ s.versions, v.clashes q = true := by
  unfold addVersion at h
  rcases fails_guard.1 (fails_get_bind.1 h) with ⟨hclash, rfl, -⟩ | ⟨-, h⟩
  · exact ⟨rfl, List.any_eq_true.1 hclash⟩
  · cases h

theorem yields_addFinding {f : Finding} {u : Unit} : Yields (addFinding f) s u s' ↔
    (∀ g ∈ s.findings, f.clashes g = false) ∧ s' = { s with findings := s.findings ++ [f] } := by
  unfold addFinding
  rw [yields_bind]
  constructor
  · rintro ⟨_, _, hget, h⟩
    obtain ⟨rfl, rfl⟩ := yields_get.1 hget
    obtain ⟨hnone, hadd⟩ := yields_guard.1 h
    exact ⟨any_eq_false_iff.1 hnone, yields_modify.1 hadd⟩
  · rintro ⟨hnone, rfl⟩
    refine ⟨s, s, yields_get.2 ⟨rfl, rfl⟩, yields_guard.2 ⟨any_eq_false_iff.2 hnone, ?_⟩⟩
    exact yields_modify.2 rfl

/-! ## Saving rows -/

theorem yields_saveRule {old new r : Rule} : Yields (saveRule old new) s r s' ↔
    (new = old ∧ r = old ∧ s' = s) ∨
      (new ≠ old ∧ r = { new with updatedAt := s.clock } ∧
        s' = { s with rules := replaceRow s.rules r, clock := s.clock.next }) := by
  unfold saveRule
  split
  · next heq => simp [yields_pure, heq]
  · next hne =>
    simp only [hne, false_and, ne_eq, not_false_eq_true, true_and, false_or]
    constructor
    · rintro ⟨⟩
      exact ⟨rfl, rfl⟩
    · rintro ⟨rfl, rfl⟩
      rfl

theorem yields_saveVersion {v a : Version} {edit : VersionEdit} :
    Yields (saveVersion v edit) s a s' ↔
      (edit.changes v = false ∧ a = edit.applyTo v ∧ s' = s) ∨
        (edit.changes v = true ∧ (∀ q ∈ s.versions, (edit.applyTo v).clashes q = false) ∧
          a = { edit.applyTo v with updatedAt := s.clock } ∧
          s' = { s with
            versions := replaceRow s.versions
              { (edit.settle v).applyTo v with updatedAt := s.clock }
            clock := s.clock.next }) := by
  unfold saveVersion
  dsimp only
  cases hchanges : edit.changes v with
  | false =>
    simp only [Bool.not_false, if_true, yields_pure, true_and, Bool.false_eq_true, false_and,
      or_false]
  | true =>
    simp only [Bool.not_true, Bool.false_eq_true, if_false, false_and, false_or, true_and,
      reduceCtorEq]
    rw [yields_bind]
    constructor
    · rintro ⟨_, _, hget, h⟩
      obtain ⟨rfl, rfl⟩ := yields_get.1 hget
      obtain ⟨hnone, hsave⟩ := yields_guard.1 h
      refine ⟨any_eq_false_iff.1 hnone, ?_⟩
      cases hsave
      exact ⟨rfl, rfl⟩
    · rintro ⟨hnone, rfl, rfl⟩
      refine ⟨s, s, yields_get.2 ⟨rfl, rfl⟩, yields_guard.2 ⟨any_eq_false_iff.2 hnone, rfl⟩⟩

theorem yields_saveFindingStatus {f a : Finding} {status : FindingStatus} :
    Yields (saveFindingStatus f status) s a s' ↔
      (f.status = status ∧ a = f ∧ s' = s) ∨
        (f.status ≠ status ∧
          (∀ g ∈ s.findings, ({ f with status := status } : Finding).clashes g = false) ∧
          a = { f with status, updatedAt := s.clock } ∧
          s' = { s with findings := replaceRow s.findings a, clock := s.clock.next }) := by
  unfold saveFindingStatus
  dsimp only
  split
  · next heq => simp [yields_pure, heq]
  · next hne =>
    simp only [hne, false_and, ne_eq, not_false_eq_true, true_and, false_or]
    rw [yields_bind]
    constructor
    · rintro ⟨_, _, hget, h⟩
      obtain ⟨rfl, rfl⟩ := yields_get.1 hget
      obtain ⟨hnone, hsave⟩ := yields_guard.1 h
      refine ⟨any_eq_false_iff.1 hnone, ?_⟩
      cases hsave
      exact ⟨rfl, rfl⟩
    · rintro ⟨hnone, rfl, rfl⟩
      refine ⟨s, s, yields_get.2 ⟨rfl, rfl⟩, yields_guard.2 ⟨any_eq_false_iff.2 hnone, rfl⟩⟩

end Txn

/-- What is settled of a lawful edit is lawful. -/
theorem VersionEdit.Lawful.settle {v : Version} {edit : VersionEdit} (h : edit.Lawful w v) :
    (edit.settle v).Lawful w v := by
  cases h with
  | content draft kept conditions actions =>
    refine .content draft kept (fun k hk => conditions k ?_) (fun k hk => actions k ?_)
    · exact (Option.mem_filter_iff.1 hk).1
    · exact (Option.mem_filter_iff.1 hk).1
  | submit draft => exact .submit draft
  | approve user t inReview => exact .approve user t inReview
  | activate approved => exact .activate approved
  | retire done => exact .retire done
  | force kept => exact .force kept

namespace Changes

theorem addRule {r : Rule} (hid : r.id = ⟨s.nextId⟩)
    (hidle : r.currentVersion = none ∧ r.status = .draft)
    (hpack : (r.pack, r.tenant) ∈ owned s.packs) :
    Changes c .authoring s ((Txn.addRule r) s.pastRow).2 :=
  single (.ruleAdded hid hidle hpack s.ticks_pastRow.later)

/-- A new version is added, or refused for a clash once it has used up an identifier. -/
theorem addVersion {v : Version} (hid : v.id = ⟨s.nextId⟩)
    (hrule : (v.rule, v.tenant) ∈ owned s.rules)
    (hdraft : v.status = .draft ∧ v.approvedBy = none ∧ v.approvedAt = none)
    (hauthored : v.Authored) (hmade : v.createdAt = s.clock) :
    Changes c .authoring s ((Txn.addVersion v) s.pastRow).2 := by
  by_cases hclash : s.versions.any v.clashes = true
  · have hrun : Txn.addVersion v s.pastRow = ((.error .constraint, s.pastRow) : _ × Store) := by
      unfold Txn.addVersion
      show (if s.versions.any v.clashes = true then _ else _ : Txn Unit) s.pastRow = _
      rw [if_pos hclash]
      rfl
    rw [hrun]
    exact pastRow s
  · have hnone := any_eq_false_iff.1 hclash
    have hrun : Yields (Txn.addVersion v) s.pastRow () _ := yields_addVersion.2 ⟨hnone, rfl⟩
    rw [show Txn.addVersion v s.pastRow = _ from hrun]
    refine single (.versionAdded hid hrule hdraft hauthored hnone ?_)
    exact hmade ▸ s.ticks_pastRow

theorem savePack {old new : Pack} (hold : old ∈ s.packs)
    (hsame : new.id = old.id ∧ new.tenant = old.tenant) (hmade : new.createdAt = old.createdAt) :
    Changes c .catalogue s ((Txn.savePack old new) s).2 := by
  unfold Txn.savePack
  split
  · exact refl s
  · exact single (.packSaved hold hsame hmade s.ticks_next)

theorem saveRule {r : Rule} (current : Option Uuid) (status : RuleStatus) (hr : r ∈ s.rules) :
    Changes c .lifecycle s
      ((Txn.saveRule r { r with currentVersion := current, status := status }) s).2 := by
  unfold Txn.saveRule
  split
  · exact refl s
  · exact single (Change.ruleSaved (r := r) hr s.ticks_next)

theorem saveVersion {v : Version} {edit : VersionEdit} (hv : v ∈ s.versions)
    (hlawful : edit.Lawful w v) : Changes c w s ((Txn.saveVersion v edit) s).2 := by
  unfold Txn.saveVersion
  dsimp only
  split
  · exact refl s
  · refine read reads_get fun t ht => ?_
    obtain ⟨rfl, -⟩ := yields_get.1 ht
    refine guard fun hnone => single ?_
    exact .versionSaved hv hlawful.settle (any_eq_false_iff.1 hnone) t.ticks_next

theorem saveFindingStatus {f : Finding} {status : FindingStatus} (hf : f ∈ s.findings)
    (hnext : f.status = status ∨ status ∈ f.status.successors) :
    Changes c .review s ((Txn.saveFindingStatus f status) s).2 := by
  unfold Txn.saveFindingStatus
  dsimp only
  split
  · exact refl s
  · next hne =>
    refine read reads_get fun t ht => ?_
    obtain ⟨rfl, -⟩ := yields_get.1 ht
    refine guard fun hnone => single ?_
    exact .findingMoved hf (hnext.resolve_left hne) (any_eq_false_iff.1 hnone) t.ticks_next

end Changes

end Rulebook
