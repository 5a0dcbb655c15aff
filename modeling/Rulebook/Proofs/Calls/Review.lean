import Rulebook.Proofs.Store.Saving
import Rulebook.Review

/-!
What reviewing does to the store: findings move forward, and overrides are recorded.
-/
namespace Rulebook.Review

open Txn

variable {c : Impact.Circumstances} {s s' : Store} {caller : Caller}

/-- The status that an override asks for follows every status that is not final, or is it. -/
theorem ofOverride_follows {status : FindingStatus} (action : String)
    (h : status.successors ≠ []) :
    status = .ofOverride action ∨ .ofOverride action ∈ status.successors := by
  unfold FindingStatus.ofOverride
  by_cases hdismiss : action = "dismiss"
  · cases status <;> simp_all [FindingStatus.successors]
  · by_cases hwaive : action = "waive"
    · cases status <;> simp_all [FindingStatus.successors]
    · cases status <;> simp_all [FindingStatus.successors]

theorem updateStatus_changes (id : Uuid) (label : Text) :
    Changes c .review s (updateStatus caller id label s).2 := by
  unfold updateStatus
  cases label.string?.bind FindingStatus.ofLabel? with
  | none => exact .refl s
  | some status =>
    refine .own fun f hf _ _ => ?_
    split
    · next hnext =>
      have hnext : status ∈ f.status.successors := List.contains_iff_mem.1 hnext
      exact .bind_reads (.saveFindingStatus hf (Or.inr hnext)) reads_showFinding
    · exact .refl s

theorem override_changes (id : Uuid) (draft : OverrideDraft) :
    Changes c .review s (override caller id draft s).2 := by
  unfold override
  refine .own fun f hf hid htenant => .guard fun hopen => ?_
  refine .read (reads_encoded _) fun action _ => .read (reads_encoded? _) fun code _ => ?_
  refine .read (reads_encoded? _) fun reason _ => ?_
  rw [run_now_bind, run_newRow_bind]
  have htime : Ticks s.clock s.clock.next.next.next [s.clock] :=
    ⟨Nat.le_refl _, Nat.le_add_right _ 2⟩
  refine .bind (.single (.overridden rfl ?_ htime)) fun _ t ht _ => ?_
  · show (f.id, caller.tenant) ∈ owned s.findings
    rw [← htenant]
    exact mem_owned_self hf
  · rw [yields_modify.1 ht]
    refine .bind_reads (.saveFindingStatus hf ?_) fun moved => ?_
    · exact ofOverride_follows action fun hnone => hopen (by rw [hnone]; rfl)
    · exact (reads_showFinding moved).bind fun _ => reads_pure _

theorem reads_listOverrides (id : Uuid) : Reads (listOverrides caller id) :=
  (reads_own _ _ _ _).discard.bind fun _ => reads_get.bind fun _ => reads_pure _

theorem reads_listFindings (limit : Int) (filter : FindingFilter) :
    Reads (listFindings limit caller filter) := by
  refine (reads_listForM (fun wish => (reads_encoded? wish).discard) _).bind fun _ => ?_
  exact (reads_column limit).bind fun _ => reads_get.bind fun _ => reads_pure _

end Rulebook.Review
