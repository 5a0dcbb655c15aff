import Rulebook.Proofs.Store.Frame
import Rulebook.Proofs.Tasks
import Rulebook.Proofs.Tenancy.Twins

/-!
The schedule of background tasks keeps to the tenants: a task executes a run of the tenant of its
caller (`Engine.after_scheduled`). So when a run is cancelled together with its task, the task ends
that run and no other, and what becomes of the run does not depend on whether there was a task.
-/
namespace Rulebook

open Txn

variable {caller : Caller} {settings : Settings} {e : Engine}

/-- Every background task executes a run of the tenant of its caller. -/
def Engine.Scheduled (e : Engine) : Prop :=
  ∀ task ∈ e.schedule, (task.run, task.caller.tenant) ∈ owned e.store.runs

namespace Engine

/-- What is scheduled after a call was scheduled before, or executes a run that the call has
started. -/
theorem perform_scheduled (call : Call) :
    ∀ task ∈ (e.perform settings caller call).2.schedule,
      (∃ old ∈ e.schedule, task.run = old.run ∧ task.caller = old.caller) ∨
        (task.run, task.caller.tenant) ∈ owned (e.perform settings caller call).2.store.runs := by
  intro task htask
  have hstep : ScheduleStep settings caller e call _ := perform_schedule call
  cases hstep with
  | kept hafter =>
    rw [hafter] at htask
    exact Or.inl ⟨task, htask, rfl, rfl⟩
  | begun hafter =>
    rw [hafter] at htask
    obtain ⟨old, hold, rfl⟩ := List.mem_map.1 htask
    exact Or.inl ⟨old, hold, rfl, rfl⟩
  | submitted version q hcall hcreated hafter =>
    rw [hafter] at htask
    rcases List.mem_append.1 htask with hold | hnew
    · exact Or.inl ⟨task, hold, rfl, rfl⟩
    · rw [List.mem_singleton.1 hnew]
      exact Or.inr (Impact.owned_createRun hcreated)
  | released run hcall hafter | cancelled run hcall hafter
  | runCancelled run withSchedule q hcall hq hafter =>
    rw [hafter] at htask
    exact Or.inl ⟨task, (Impact.Schedule.mem_drop.1 htask).1, rfl, rfl⟩
  | emptied hcall hafter =>
    rw [hafter] at htask
    cases htask

theorem move_scheduled (hs : e.store.Intact) (h : e.Scheduled) (m : Move) :
    (e.move m).Scheduled := by
  have hkept (task : Impact.BackgroundTask) (htask : task ∈ e.schedule) :
      (task.run, task.caller.tenant) ∈ owned (e.move m).store.runs :=
    (move_changes hs m).owned_runs hs (h task htask)
  intro task htask
  cases m with
  | call settings caller call =>
    rcases perform_scheduled call task htask with ⟨old, hold, hrun, hcaller⟩ | hnew
    · rw [hrun, hcaller]
      exact hkept old hold
    · exact hnew
  | file | wait | supply => exact hkept task htask

theorem after_scheduled (source : EntitySource) (clock : Instant) (nextId : Nat)
    (moves : List Move) : ((fresh source clock nextId).after moves).Scheduled := by
  have hboth : ((fresh source clock nextId).after moves).store.Intact ∧
      ((fresh source clock nextId).after moves).Scheduled := by
    refine after_induction (P := fun e => e.store.Intact ∧ e.Scheduled)
      ⟨fresh_intact source clock nextId, fun _ h => by cases h⟩ fun e he m _ => ?_
    exact ⟨(move_changes he.1 m).intact he.1, move_scheduled he.1 he.2 m⟩
  exact hboth.2

/-! ## Cancelling -/

/-- Cancelling the task of a run of the tenant ends that run or does nothing. -/
theorem cancelTask_store (hs : e.store.Intact) (hscheduled : e.Scheduled) {run : Uuid}
    (hrun : (run, caller.tenant) ∈ owned e.store.runs) :
    (e.cancelTask settings run).2.store = e.store ∨
      (e.cancelTask settings run).2.store =
        Impact.ended caller.tenant run .cancelled e.store := by
  unfold cancelTask
  cases htask : e.schedule.task? run with
  | none => exact Or.inl rfl
  | some task =>
    obtain ⟨hmem, hfor⟩ := Impact.Schedule.task?_eq_some htask
    have hown := hscheduled task hmem
    rw [hfor] at hown
    have htenant : task.caller.tenant = caller.tenant := hs.runs.owner_unique hown hrun
    show (e.transact settings task.cancel).2.store = _ ∨
      (e.transact settings task.cancel).2.store = _
    cases hphase : task.phase with
    | waiting =>
      have hnothing := Impact.BackgroundTask.yields_cancel_waiting (s := e.store) hphase
      exact Or.inl (congrArg (fun r => r.2.store) (transact_of_yields hnothing))
    | begun =>
      have hended := Impact.BackgroundTask.yields_cancel_begun (s := e.store) hphase
      rw [htenant, hfor] at hended
      exact Or.inr (congrArg (fun r => r.2.store) (transact_of_yields hended))

/-- Whatever is scheduled, a run that can be cancelled ends and is answered; only the clock tells
whether its task was cancelled first. -/
theorem cancelRun_of_cancellable (settings : Settings) (hs : e.store.Intact)
    (hscheduled : e.Scheduled) {run : Uuid} (withSchedule : Bool) {q : ImpactRun}
    (hq : Yields (Impact.cancellableRun caller run) e.store q e.store) :
    ∃ p s' clock, Yields (Impact.cancelRun caller run) e.store p s' ∧
      (e.cancelRun settings caller run withSchedule).1 = .ok (.run p) ∧
      (e.cancelRun settings caller run withSchedule).2.store = { s' with clock := clock } := by
  obtain ⟨q, hfound, -⟩ := yields_own_bind.1 hq
  obtain ⟨hqmem, hqid, hqtenant⟩ := findOwn_eq_some hfound
  have hrun : (run, caller.tenant) ∈ owned e.store.runs := mem_owned.2 ⟨q, hqmem, hqid, hqtenant⟩
  -- The run is still there once it has ended.
  have hchanges : Changes { source := .absent } .impact e.store
      (Impact.ended caller.tenant run .cancelled e.store) :=
    Impact.ended_changes caller.tenant run e.store
  obtain ⟨p, -, -, -, hp⟩ :=
    findOwn_of_owned (hchanges.intact hs).runs (hchanges.owned_runs hs hrun)
  have hcancel : Yields (Impact.cancelRun caller run) e.store p
      (Impact.ended caller.tenant run .cancelled e.store) :=
    yields_bind.2 ⟨(), _, Impact.yields_discard_finish.2 rfl, yields_own.2 ⟨hp, rfl⟩⟩
  have hagain : Yields (Impact.cancelRun caller run)
      (Impact.ended caller.tenant run .cancelled e.store) p _ :=
    yields_bind.2 ⟨(), _, Impact.yields_discard_finish.2 (Impact.ended_ended _ _ _ _ _).symm,
      yields_own.2 ⟨hp, rfl⟩⟩
  have hanswer {e' : Engine} {u s' : Store} (hu : e'.store = u)
      (h : Yields (Impact.cancelRun caller run) u p s') :
      e'.answer settings .run (Impact.cancelRun caller run) =
        (.ok (.run p), { e' with store := s' }) := by
    subst hu
    exact transact_of_yields (yields_map.2 ⟨p, h, rfl⟩)
  have hcall : e.cancelRun settings caller run withSchedule =
      (if withSchedule then (e.cancelTask settings run).2 else e).answer settings .run
        (Impact.cancelRun caller run) := by
    rw [cancelRun, transact_of_yields hq]
  have hstore : (if withSchedule then (e.cancelTask settings run).2 else e).store = e.store ∨
      (if withSchedule then (e.cancelTask settings run).2 else e).store =
        Impact.ended caller.tenant run .cancelled e.store := by
    cases withSchedule with
    | false => exact Or.inl rfl
    | true => exact cancelTask_store hs hscheduled hrun
  rw [hcall]
  rcases hstore with hstore | hstore
  · rw [hanswer hstore hcancel]
    exact ⟨p, _, _, hcancel, rfl, rfl⟩
  · rw [hanswer hstore hagain]
    exact ⟨p, _, _, hcancel, rfl, rfl⟩

end Engine

end Rulebook
