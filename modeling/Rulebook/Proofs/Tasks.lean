import Rulebook.Proofs.History

/-!
What calls do to the schedule of background tasks (`Engine.perform_schedule`). Only `submitRun` adds
a task, the one of the run that it creates; tasks are taken off by executing them, by cancelling
them and by cancelling their runs.
-/
namespace Rulebook

open Txn

variable {run : Uuid} {caller : Caller} {settings : Settings} {e : Engine}

/-! ## Schedules -/

namespace Impact.Schedule

variable {tasks : Schedule} {task : BackgroundTask}

/-- The runs that there are tasks for. -/
def runs (tasks : Schedule) : List Uuid := tasks.map fun t => t.run

theorem task?_eq_some (h : tasks.task? run = some task) : task ∈ tasks ∧ task.run = run := by
  have hfor := List.find?_some (p := fun t : BackgroundTask => t.run == run) h
  exact ⟨List.mem_of_find?_eq_some h, eq_of_beq hfor⟩

theorem task?_eq_none : tasks.task? run = none ↔ run ∉ tasks.runs := by
  simp [task?, runs]

theorem isRunning_eq_true : tasks.isRunning run = true ↔ run ∈ tasks.runs := by
  rw [isRunning, ← Option.ne_none_iff_isSome, ne_eq, task?_eq_none, not_not]

theorem isRunning_eq_false : tasks.isRunning run = false ↔ run ∉ tasks.runs := by
  rw [← Bool.not_eq_true, isRunning_eq_true]

theorem exists_task (h : run ∈ tasks.runs) : ∃ task, tasks.task? run = some task :=
  Option.ne_none_iff_exists'.1 fun hnone => task?_eq_none.1 hnone h

theorem runs_submit (tasks : Schedule) (caller : Caller) (run : Uuid) :
    (tasks.submit caller run).runs = tasks.runs ++ [run] := by
  rw [submit, runs, List.map_append]
  rfl

theorem runs_begin (tasks : Schedule) : tasks.begin.runs = tasks.runs := by
  rw [begin, runs, List.map_map]
  rfl

theorem mem_drop : task ∈ tasks.drop run ↔ task ∈ tasks ∧ task.run ≠ run := by
  simp [drop]

theorem runs_drop_sublist (tasks : Schedule) (run : Uuid) :
    (tasks.drop run).runs.Sublist tasks.runs :=
  List.filter_sublist.map _

theorem mem_runs_drop {other : Uuid} (h : other ∈ tasks.runs) (hne : other ≠ run) :
    other ∈ (tasks.drop run).runs := by
  obtain ⟨task, htask, rfl⟩ := List.mem_map.1 h
  exact List.mem_map_of_mem (mem_drop.2 ⟨htask, hne⟩)

theorem not_mem_runs_drop (tasks : Schedule) (run : Uuid) : run ∉ (tasks.drop run).runs := by
  intro h
  obtain ⟨task, htask, hrun⟩ := List.mem_map.1 h
  exact (mem_drop.1 htask).2 hrun

/-- There is nothing to drop where there is no task. -/
theorem drop_of_task?_none (h : tasks.task? run = none) : tasks.drop run = tasks := by
  refine List.filter_eq_self.2 fun task htask => ?_
  have hne : task.run ≠ run := fun heq =>
    task?_eq_none.1 h (List.mem_map.2 ⟨task, htask, heq⟩)
  simpa using hne

end Impact.Schedule

/-! ## Calls -/

namespace Engine

theorem cancelTask_schedule (run : Uuid) :
    (e.cancelTask settings run).2.schedule = e.schedule.drop run := by
  unfold cancelTask
  cases h : e.schedule.task? run with
  | none => exact (Impact.Schedule.drop_of_task?_none h).symm
  | some task => rfl

theorem releaseRun_schedule (run : Uuid) :
    (e.releaseRun settings run).2.schedule = e.schedule.drop run := by
  unfold releaseRun
  cases h : e.schedule.task? run with
  | none => exact (Impact.Schedule.drop_of_task?_none h).symm
  | some task => rfl

/-- Cancelling a run takes a task off only together with the run. -/
theorem cancelRun_schedule (run : Uuid) (withSchedule : Bool) :
    (e.cancelRun settings caller run withSchedule).2.schedule = e.schedule ∨
      (e.cancelRun settings caller run withSchedule).2.schedule = e.schedule.drop run ∧
        ∃ q, Yields (Impact.cancellableRun caller run) e.store q e.store := by
  have hread : e.transact settings (Impact.cancellableRun caller run) =
      ((Impact.cancellableRun caller run e.store).1, e) :=
    transact_of_reads (Impact.reads_cancellableRun run)
  unfold cancelRun
  rw [hread]
  cases h : (Impact.cancellableRun caller run e.store).1 with
  | error f => exact Or.inl rfl
  | ok q =>
    have hcan : Yields (Impact.cancellableRun caller run) e.store q e.store :=
      Prod.ext h (Impact.reads_cancellableRun run e.store)
    cases withSchedule with
    | false => exact Or.inl rfl
    | true => exact Or.inr ⟨cancelTask_schedule run, q, hcan⟩

/-- Handing a run over adds a task for it. -/
theorem submitRun_schedule (version : Uuid) :
    (∃ f, (e.submitRun settings caller version).1 = .error f) ∧
        (e.submitRun settings caller version).2.schedule = e.schedule ∨
      ∃ q, Yields (Impact.createRun caller version) e.store q
          (e.submitRun settings caller version).2.store ∧
        (e.submitRun settings caller version).1 = .ok (.runStarted q) ∧
        (e.submitRun settings caller version).2.schedule = e.schedule.submit caller q.id := by
  unfold submitRun
  rcases h : e.transact settings (Impact.createRun caller version) with ⟨f | q, e'⟩
  · exact Or.inl ⟨⟨f, rfl⟩, congrArg (fun r => r.2.schedule) h.symm⟩
  · have hsame : e'.schedule = e.schedule := congrArg (fun r => r.2.schedule) h.symm
    have hcreated : Yields (Impact.createRun caller version) e.store q e'.store :=
      yields_of_transact h
    refine Or.inr ⟨q, hcreated, rfl, ?_⟩
    rw [← hsame]

/-- What a call does to the schedule, leading to tasks `after`. -/
inductive ScheduleStep (settings : Settings) (caller : Caller) (e : Engine) (call : Call)
    (after : Impact.Schedule) : Prop where
  | kept (after_eq : after = e.schedule)
  | begun (after_eq : after = e.schedule.begin)
  | submitted (version : Uuid) (q : ImpactRun) (call_eq : call = .submitRun version)
      (created : Yields (Impact.createRun caller version) e.store q
        (e.perform settings caller call).2.store)
      (after_eq : after = e.schedule.submit caller q.id)
  | released (run : Uuid) (call_eq : call = .releaseRun run)
      (after_eq : after = e.schedule.drop run)
  | cancelled (run : Uuid) (call_eq : call = .cancelTask run)
      (after_eq : after = e.schedule.drop run)
  | runCancelled (run : Uuid) (withSchedule : Bool) (q : ImpactRun)
      (call_eq : call = .cancelRun run withSchedule)
      (cancellable : Yields (Impact.cancellableRun caller run) e.store q e.store)
      (after_eq : after = e.schedule.drop run)
  | emptied (call_eq : call = .shutdown) (after_eq : after = [])

theorem perform_schedule (call : Call) :
    ScheduleStep settings caller e call (e.perform settings caller call).2.schedule := by
  cases call with
  | submitRun version =>
    rcases submitRun_schedule version with ⟨-, hkept⟩ | ⟨q, hcreated, -, hadded⟩
    · exact .kept hkept
    · exact .submitted version q rfl hcreated hadded
  | cancelRun run withSchedule =>
    rcases cancelRun_schedule run withSchedule with hkept | ⟨hdropped, q, hq⟩
    · exact .kept hkept
    · exact .runCancelled run withSchedule q rfl hq hdropped
  | beginTasks => exact .begun rfl
  | releaseRun run => exact .released run rfl (releaseRun_schedule run)
  | cancelTask run => exact .cancelled run rfl (cancelTask_schedule run)
  | shutdown => exact .emptied rfl rfl
  | _ => exact .kept rfl

/-- After a call there are tasks for no other runs than before, or for one new run. -/
theorem perform_taskRuns (call : Call) :
    (e.perform settings caller call).2.schedule.runs.Sublist e.schedule.runs ∨
      (e.perform settings caller call).2.schedule.runs = e.schedule.runs ++ [⟨e.store.nextId⟩] := by
  have hstep : ScheduleStep settings caller e call _ := perform_schedule call
  cases hstep with
  | kept hafter =>
    rw [hafter]
    exact Or.inl (.refl _)
  | begun hafter =>
    rw [hafter, Impact.Schedule.runs_begin]
    exact Or.inl (.refl _)
  | submitted version q hcall hcreated hafter =>
    rw [hafter, Impact.Schedule.runs_submit, (Impact.mem_createRun hcreated).2.1]
    exact Or.inr rfl
  | released run hcall hafter | cancelled run hcall hafter
  | runCancelled run withSchedule q hcall hq hafter =>
    rw [hafter]
    exact Or.inl (Impact.Schedule.runs_drop_sublist _ run)
  | emptied hcall hafter =>
    rw [hafter]
    exact Or.inl (List.nil_sublist _)

theorem move_taskRuns (m : Move) :
    (e.move m).schedule.runs.Sublist e.schedule.runs ∨
      (e.move m).schedule.runs = e.schedule.runs ++ [⟨e.store.nextId⟩] := by
  cases m with
  | call settings caller call => exact perform_taskRuns call
  | file | wait | supply => exact Or.inl (.refl _)

end Engine

end Rulebook
