import Rulebook.Proofs.RunLife
import Rulebook.Proofs.Tenancy.Schedule

/-!
The life of background tasks. Moves are made one after another, and each is through before the next
begins: a task is cancelled while it waits or while it has begun, but not a second time while it
winds up after a first cancellation. Among such moves a run that is handed over has a task until the
task is executed or cancelled, and has ended by then, with one exception: a task that is cancelled
before it has begun does nothing about its run (`Move.Abandons`). So a run that still counts as
running has no task exactly if some move has abandoned it (`running_without_task_iff`).
-/
namespace Rulebook

open Txn Impact

variable {c : Circumstances} {s s' : Store} {run tenant : Uuid} {e : Engine} {settings : Settings}
  {caller : Caller}

/-! ## What becomes of a run -/

namespace Impact

theorem ended_ends (hs : s.Intact) (hown : (run, tenant) ∈ owned s.runs) :
    (ended tenant run .cancelled s).Ended run := by
  have h : Changes { source := .absent } .impact s (ended tenant run .cancelled s) :=
    ended_changes tenant run s
  exact .of_owned (h.intact hs) (h.owned_runs hs hown) fun q hq => ended_not_running hq

namespace BackgroundTask

variable {task : BackgroundTask}

theorem execute_ends (hs : s.Intact) (hown : (task.run, task.caller.tenant) ∈ owned s.runs) :
    ∃ s', Yields (task.execute c) s () s' ∧ s'.Ended task.run := by
  obtain ⟨r, hr, hid, htenant⟩ := mem_owned.1 hown
  obtain ⟨today, htoday⟩ : ∃ today, Yields Txn.today s today s := ⟨_, rfl⟩
  obtain ⟨q, s', hexecuted, hq, hqid, hended⟩ :=
    executeRun_ends (c := c) hs hr htenant today false
  have hid : r.id = task.run := hid
  rw [hid] at hexecuted hqid
  refine ⟨s', yields_bind.2 ⟨today, s, htoday, ?_⟩, q, hq, hqid, hended⟩
  exact yields_bind.2 ⟨q, s', hexecuted, yields_pure.2 ⟨rfl, rfl⟩⟩

/-- Cancelling a task ends its run if the task has begun, and leaves all other runs alone. -/
theorem cancel_spec (task : BackgroundTask) (hs : s.Intact)
    (hown : (task.run, task.caller.tenant) ∈ owned s.runs) :
    ∃ s', Yields task.cancel s () s' ∧ (task.phase = .begun → s'.Ended task.run) ∧
      ∀ q ∈ s.runs, (q.id = task.run → task.phase = .waiting) → q ∈ s'.runs := by
  cases hphase : task.phase with
  | waiting => exact ⟨s, yields_cancel_waiting hphase, fun h => (by cases h), fun q hq _ => hq⟩
  | begun =>
    refine ⟨_, yields_cancel_begun hphase, fun _ => ended_ends hs hown, fun q hq h => ?_⟩
    exact mem_ended_of_ne hq fun heq => by cases h heq

end BackgroundTask

/-- Cancelling all tasks ends the runs of those that have begun. A run whose task waits is left
alone. -/
theorem cancelAll_spec {tasks : Schedule} (hs : s.Intact)
    (hown : ∀ task ∈ tasks, (task.run, task.caller.tenant) ∈ owned s.runs) :
    ∃ s', Yields (cancelAll tasks) s () s' ∧
      (∀ task ∈ tasks, task.phase = .begun → s'.Ended task.run) ∧
      ∀ q ∈ s.runs, (∀ task ∈ tasks, q.id = task.run → task.phase = .waiting) → q ∈ s'.runs := by
  induction tasks generalizing s with
  | nil => exact ⟨s, yields_pure.2 ⟨rfl, rfl⟩, fun _ h => (by cases h), fun q hq _ => hq⟩
  | cons task rest ih =>
    obtain ⟨t, hcancel, hfirst, hkept⟩ :=
      task.cancel_spec hs (hown task (List.mem_cons_self ..))
    have hchanges : Changes { source := .absent } .impact s t :=
      .of_yields task.cancel_changes hcancel
    obtain ⟨s', hrest, hall, hkept'⟩ := ih (hchanges.intact hs) fun other hother =>
      hchanges.owned_runs hs (hown other (List.mem_cons_of_mem _ hother))
    have hlater : Changes { source := .absent } .impact t s' :=
      .of_yields (cancelAll_changes rest) hrest
    refine ⟨s', yields_bind.2 ⟨(), t, hcancel, hrest⟩, fun other hother hphase => ?_, ?_⟩
    · rcases List.mem_cons.1 hother with rfl | hother
      · exact hlater.ended (hchanges.intact hs) (hfirst hphase)
      · exact hall other hother hphase
    · intro q hq hwaits
      refine hkept' q (hkept q hq (hwaits task (List.mem_cons_self ..))) fun other hother => ?_
      exact hwaits other (List.mem_cons_of_mem _ hother)

end Impact

/-! ## Tasks in order -/

/-- A move cancels the task of a run that still waits for its turn. -/
def Move.Abandons (m : Move) (run : Uuid) (e : Engine) : Prop :=
  (∃ settings caller, m = .call settings caller (.cancelTask run) ∨
    m = .call settings caller .shutdown) ∧
  ∃ task, e.schedule.task? run = some task ∧ task.phase = .waiting

namespace Engine

/-- Every task executes a stored run of its caller's tenant, and no two tasks execute one run. -/
structure TasksInOrder (e : Engine) : Prop where
  intact : e.store.Intact
  scheduled : e.Scheduled
  nodup : e.schedule.runs.Nodup

namespace TasksInOrder

theorem fresh (source : EntitySource) (clock : Instant) (nextId : Nat) :
    (fresh source clock nextId).TasksInOrder :=
  ⟨fresh_intact source clock nextId, fun _ h => (by cases h), List.nodup_nil⟩

theorem owned_run (h : e.TasksInOrder) (hrun : run ∈ e.schedule.runs) :
    ∃ tenant, (run, tenant) ∈ owned e.store.runs := by
  obtain ⟨task, htask, rfl⟩ := List.mem_map.1 hrun
  exact ⟨task.caller.tenant, h.scheduled task htask⟩

/-- A task found for a run is the only one. -/
theorem eq_of_run (h : e.TasksInOrder) {task other : BackgroundTask}
    (htask : e.schedule.task? run = some task) (hother : other ∈ e.schedule)
    (hrun : other.run = run) : other = task := by
  obtain ⟨hmem, hid⟩ := Schedule.task?_eq_some htask
  exact List.inj_on_of_nodup_map h.nodup hother hmem (hrun.trans hid.symm)

end TasksInOrder

/-- A run that is stored gets no new task. -/
theorem move_taskless (hs : e.store.Intact) (hown : (run, tenant) ∈ owned e.store.runs)
    (h : run ∉ e.schedule.runs) (m : Move) : run ∉ (e.move m).schedule.runs := by
  intro hrun
  rcases move_taskRuns m with hsub | hadded
  · exact h (hsub.subset hrun)
  · rw [hadded] at hrun
    rcases List.mem_append.1 hrun with hrun | hnew
    · exact h hrun
    · exact hs.runs.owned_ne_next hown (List.mem_singleton.1 hnew)

theorem TasksInOrder.move (h : e.TasksInOrder) (m : Move) : (e.move m).TasksInOrder := by
  refine ⟨(move_changes h.intact m).intact h.intact, move_scheduled h.intact h.scheduled m, ?_⟩
  rcases move_taskRuns m with hsub | hadded
  · exact h.nodup.sublist hsub
  · rw [hadded, List.nodup_append]
    refine ⟨h.nodup, List.nodup_singleton _, fun run hrun new hnew heq => ?_⟩
    obtain ⟨tenant, hown⟩ := h.owned_run hrun
    exact h.intact.runs.owned_ne_next hown (heq.trans (List.mem_singleton.1 hnew))

theorem TasksInOrder.after (h : e.TasksInOrder) (moves : List Move) :
    (e.after moves).TasksInOrder :=
  after_induction (P := TasksInOrder) h fun _ hd m _ => hd.move m

/-! ## One move -/

/-- What is found to be cancellable is ended by cancelling it, with or without its task. -/
theorem cancelRun_ends (h : e.TasksInOrder) {withSchedule : Bool} {q : ImpactRun}
    (hq : Yields (cancellableRun caller run) e.store q e.store) :
    (e.cancelRun settings caller run withSchedule).2.store.Ended run := by
  obtain ⟨p, s', clock, hp, -, hstore⟩ :=
    cancelRun_of_cancellable settings h.intact h.scheduled withSchedule hq
  obtain ⟨_, t, hended, hp⟩ := yields_bind.1 hp
  obtain ⟨hfound, rfl⟩ := yields_own.1 hp
  obtain ⟨hmem, hid, -⟩ := findOwn_eq_some hfound
  rw [yields_discard_finish.1 hended] at hfound
  rw [hstore]
  exact ⟨p, hmem, hid, ended_not_running hfound⟩

theorem releaseRun_ends (h : e.TasksInOrder) {task : BackgroundTask}
    (htask : e.schedule.task? run = some task) :
    (e.releaseRun settings run).2.store.Ended run := by
  obtain ⟨hmem, hid⟩ := Schedule.task?_eq_some htask
  obtain ⟨s', hexecuted, hended⟩ := task.execute_ends
    (c := { policy := settings.policy, source := e.source }) h.intact (h.scheduled task hmem)
  rw [releaseRun, htask]
  dsimp only
  rw [transact_of_yields hexecuted, ← hid]
  exact hended

theorem cancelTask_ends (h : e.TasksInOrder) {task : BackgroundTask}
    (htask : e.schedule.task? run = some task) (hphase : task.phase = .begun) :
    (e.cancelTask settings run).2.store.Ended run := by
  obtain ⟨hmem, hid⟩ := Schedule.task?_eq_some htask
  obtain ⟨s', hcancelled, hended, -⟩ := task.cancel_spec h.intact (h.scheduled task hmem)
  rw [cancelTask, htask]
  dsimp only
  rw [transact_of_yields hcancelled, ← hid]
  exact hended hphase

theorem shutdown_ends (h : e.TasksInOrder) {task : BackgroundTask}
    (htask : e.schedule.task? run = some task) (hphase : task.phase = .begun) :
    (e.perform settings caller .shutdown).2.store.Ended run := by
  obtain ⟨hmem, hid⟩ := Schedule.task?_eq_some htask
  obtain ⟨s', hcancelled, hended, -⟩ := cancelAll_spec h.intact h.scheduled
  show (e.transact settings (cancelAll e.schedule)).2.store.Ended run
  rw [transact_of_yields hcancelled, ← hid]
  exact hended task hmem hphase

/-- A run that loses its task in a move has ended, or the move has abandoned it. -/
theorem move_tasked (h : e.TasksInOrder) (hrun : run ∈ e.schedule.runs) (m : Move) :
    run ∈ (e.move m).schedule.runs ∨ (e.move m).store.Ended run ∨ m.Abandons run e := by
  obtain ⟨task, htask⟩ := Schedule.exists_task hrun
  cases m with
  | file | wait | supply => exact Or.inl hrun
  | call settings caller call =>
    show run ∈ (e.perform settings caller call).2.schedule.runs ∨
      (e.perform settings caller call).2.store.Ended run ∨ _
    have hstep : ScheduleStep settings caller e call _ := perform_schedule call
    cases hstep with
    | kept hafter =>
      rw [hafter]
      exact Or.inl hrun
    | begun hafter =>
      rw [hafter, Schedule.runs_begin]
      exact Or.inl hrun
    | submitted version q hcall hcreated hafter =>
      rw [hafter, Schedule.runs_submit]
      exact Or.inl (List.mem_append_left _ hrun)
    | released other hcall hafter =>
      subst hcall
      by_cases heq : run = other
      · subst heq
        exact Or.inr (Or.inl (releaseRun_ends h htask))
      · rw [hafter]
        exact Or.inl (Schedule.mem_runs_drop hrun heq)
    | cancelled other hcall hafter =>
      subst hcall
      by_cases heq : run = other
      · subst heq
        cases hphase : task.phase with
        | waiting => exact Or.inr (Or.inr ⟨⟨settings, caller, Or.inl rfl⟩, task, htask, hphase⟩)
        | begun => exact Or.inr (Or.inl (cancelTask_ends h htask hphase))
      · rw [hafter]
        exact Or.inl (Schedule.mem_runs_drop hrun heq)
    | runCancelled other withSchedule q hcall hq hafter =>
      subst hcall
      by_cases heq : run = other
      · subst heq
        exact Or.inr (Or.inl (cancelRun_ends h hq))
      · rw [hafter]
        exact Or.inl (Schedule.mem_runs_drop hrun heq)
    | emptied hcall hafter =>
      subst hcall
      cases hphase : task.phase with
      | waiting => exact Or.inr (Or.inr ⟨⟨settings, caller, Or.inr rfl⟩, task, htask, hphase⟩)
      | begun => exact Or.inr (Or.inl (shutdown_ends h htask hphase))

/-- A move that abandons a run takes its task off and leaves the run as it is. -/
theorem move_abandons (h : e.TasksInOrder) {m : Move} (hm : m.Abandons run e) :
    run ∉ (e.move m).schedule.runs ∧
      ∀ q ∈ e.store.runs, q.id = run → q ∈ (e.move m).store.runs := by
  obtain ⟨⟨settings, caller, rfl | rfl⟩, task, htask, hphase⟩ := hm
  · have hnothing : e.transact settings task.cancel = (.ok (), e) :=
      transact_of_yields (BackgroundTask.yields_cancel_waiting hphase)
    constructor
    · show run ∉ (e.cancelTask settings run).2.schedule.runs
      rw [cancelTask_schedule]
      exact Schedule.not_mem_runs_drop _ run
    · intro q hq _
      show q ∈ (e.cancelTask settings run).2.store.runs
      rw [cancelTask, htask]
      dsimp only
      rw [hnothing]
      exact hq
  · obtain ⟨s', hcancelled, -, hkept⟩ := cancelAll_spec h.intact h.scheduled
    refine ⟨List.not_mem_nil, fun q hq hid => ?_⟩
    show q ∈ (e.transact settings (cancelAll e.schedule)).2.store.runs
    rw [transact_of_yields hcancelled]
    refine hkept q hq fun other hother hrun => ?_
    rw [h.eq_of_run htask hother (hrun.symm.trans hid)]
    exact hphase

/-! ## Histories -/

/-- Some move among these has abandoned the run. -/
def Abandoned (e : Engine) (moves : List Move) (run : Uuid) : Prop :=
  ∃ done m rest, moves = done ++ m :: rest ∧ m.Abandons run (e.after done)

theorem Abandoned.append {moves : List Move} (h : e.Abandoned moves run) (more : List Move) :
    e.Abandoned (moves ++ more) run := by
  obtain ⟨done, m, rest, rfl, hm⟩ := h
  exact ⟨done, m, rest ++ more, by simp, hm⟩

/-- A run with a task keeps it until the run has ended, or it is abandoned. -/
theorem after_tasked (h : e.TasksInOrder) (hrun : run ∈ e.schedule.runs) (moves : List Move) :
    run ∈ (e.after moves).schedule.runs ∨ (e.after moves).store.Ended run ∨
      e.Abandoned moves run := by
  induction moves using List.reverseRecOn with
  | nil => exact Or.inl hrun
  | append_singleton moves m ih =>
    have hd := h.after moves
    rw [after_concat]
    rcases ih with htasked | hended | habandoned
    · refine (move_tasked hd htasked m).imp_right (Or.imp_right fun hm => ?_)
      exact ⟨moves, m, [], rfl, hm⟩
    · exact Or.inr (Or.inl ((move_changes hd.intact m).ended hd.intact hended))
    · exact Or.inr (Or.inr (habandoned.append [m]))

/-- A run that is abandoned never gets a task again. -/
theorem Abandoned.taskless (h : e.TasksInOrder) {moves : List Move}
    (ha : e.Abandoned moves run) : run ∉ (e.after moves).schedule.runs := by
  obtain ⟨done, m, rest, rfl, hm⟩ := ha
  have hd := h.after done
  obtain ⟨hnone, hkept⟩ := move_abandons hd hm
  obtain ⟨-, task, htask, -⟩ := hm
  obtain ⟨hmem, rfl⟩ := Schedule.task?_eq_some htask
  obtain ⟨r, hr, hid, -⟩ := mem_owned.1 (hd.scheduled task hmem)
  have hown : (task.run, r.tenant) ∈ owned ((e.after done).move m).store.runs :=
    mem_owned.2 ⟨r, hkept r hr hid, hid, rfl⟩
  rw [after_append]
  have hall : (((e.after done).move m).after rest).TasksInOrder ∧
      (task.run, r.tenant) ∈ owned (((e.after done).move m).after rest).store.runs ∧
      task.run ∉ (((e.after done).move m).after rest).schedule.runs := by
    refine after_induction (P := fun d => d.TasksInOrder ∧
      (task.run, r.tenant) ∈ owned d.store.runs ∧ task.run ∉ d.schedule.runs)
      ⟨hd.move m, hown, hnone⟩ ?_
    rintro d ⟨hd, hown, hnone⟩ m -
    refine ⟨hd.move m, (move_changes hd.intact m).owned_runs hd.intact hown, ?_⟩
    exact move_taskless hd.intact hown hnone m
  exact hall.2.2

end Engine

/-! ## Runs without a task -/

/-- A run that has been handed over is stored from there on. As long as it counts as running, it is
without a task exactly if a move has abandoned it since; and a move that abandons it leaves it as it
is, without a task. This holds of moves that are made one after another. A second cancellation that
reaches a task while it still winds up after the first is no move of its own. -/
theorem running_without_task_iff (source : EntitySource) (clock : Instant) (nextId : Nat)
    (before later : List Move) (settings : Settings) (caller : Caller) (version : Uuid)
    (run : ImpactRun)
    (h : (((Engine.fresh source clock nextId).after before).perform settings caller
      (.submitRun version)).1 = .ok (.runStarted run)) :
    let start := ((Engine.fresh source clock nextId).after before).move
      (.call settings caller (.submitRun version))
    let e := start.after later
    ∃ q ∈ e.store.runs, q.id = run.id ∧ (∀ p ∈ e.store.runs, p.id = run.id → p = q) ∧
      (q.status = .running →
        (e.schedule.isRunning run.id = false ↔ start.Abandoned later run.id)) ∧
      ∀ m : Move, m.Abandons run.id e →
        q ∈ (e.move m).store.runs ∧ (e.move m).schedule.isRunning run.id = false := by
  intro start e
  have hbefore : ((Engine.fresh source clock nextId).after before).TasksInOrder :=
    (Engine.TasksInOrder.fresh source clock nextId).after before
  have hstart : start.TasksInOrder := hbefore.move _
  have he : e.TasksInOrder := hstart.after later
  obtain ⟨htask, hown⟩ : run.id ∈ start.schedule.runs ∧
      (run.id, caller.tenant) ∈ owned start.store.runs := by
    rcases Engine.submitRun_schedule version with ⟨⟨f, hf⟩, -⟩ | ⟨q, hcreated, hq, hadded⟩
    · cases hf.symm.trans h
    · cases hq.symm.trans h
      refine ⟨?_, owned_createRun hcreated⟩
      show run.id ∈ (Engine.submitRun _ _ _ _).2.schedule.runs
      rw [hadded, Schedule.runs_submit]
      exact List.mem_append_right _ (List.mem_singleton_self _)
  have hkept : (run.id, caller.tenant) ∈ owned e.store.runs :=
    Engine.after_keeps (P := fun s => (run.id, caller.tenant) ∈ owned s.runs) hstart.intact hown
      fun d hd hrun m _ => (Engine.move_changes hd m).owned_runs hd hrun
  obtain ⟨q, hq, hid, -⟩ := mem_owned.1 hkept
  have hid : q.id = run.id := hid
  have honly (p : ImpactRun) (hp : p ∈ e.store.runs) (hpid : p.id = run.id) : p = q :=
    he.intact.runs.eq_of_id hp hq (hpid.trans hid.symm)
  refine ⟨q, hq, hid, honly, fun hrunning => ?_, fun m hm => ?_⟩
  · rw [Schedule.isRunning_eq_false]
    refine ⟨fun hnone => ?_, Engine.Abandoned.taskless hstart⟩
    rcases Engine.after_tasked hstart htask later with htasked | ⟨p, hp, hpid, hended⟩ | habandoned
    · exact absurd htasked hnone
    · rw [honly p hp hpid] at hended
      exact absurd hrunning hended
    · exact habandoned
  · obtain ⟨hnone, hsame⟩ := Engine.move_abandons he hm
    exact ⟨hsame q hq hid, Schedule.isRunning_eq_false.2 hnone⟩

/-- Someone of the tenant whose loan the source holds. -/
def lender : Caller := { tenant := ⟨100⟩ }

/-- A version is made. -/
def oneVersion : List Move :=
  [.call {} lender (.createPack { name := "Lending", authority := "Board" }),
    .call {} lender (.createRule { pack := ⟨0⟩, name := "Risk" }
      { conditions := .object [("all", .list [])] })]

/-- Its dry run is handed over, and has not begun. -/
def handedOver : Engine := (oneLoan.after oneVersion).move (.call {} lender (.submitRun ⟨2⟩))

/-- Where the task is cancelled at once, or the schedule is shut down, the run is left running
without a task. -/
theorem early_cancellation_leaves_running :
    ((handedOver.move (.call {} lender (.cancelTask ⟨3⟩))).schedule.isRunning ⟨3⟩ = false ∧
      (handedOver.move (.call {} lender (.cancelTask ⟨3⟩))).store.runs.map
        (fun run => (run.id, run.status)) = [(⟨3⟩, .running)]) ∧
    (handedOver.move (.call {} lender .shutdown)).schedule.isRunning ⟨3⟩ = false ∧
      (handedOver.move (.call {} lender .shutdown)).store.runs.map
        (fun run => (run.id, run.status)) = [(⟨3⟩, .running)] := by
  refine ⟨⟨?_, ?_⟩, ?_, ?_⟩
  · cbv
  · cbv
  · cbv
  · cbv

theorem handedOver_cancelled :
    (handedOver.after [.call {} lender (.cancelTask ⟨3⟩)]).schedule.isRunning ⟨3⟩ = false ∧
      (handedOver.after [.call {} lender (.cancelTask ⟨3⟩)]).store.runs.map
        (fun run => run.status) = [.running] := by
  constructor
  · cbv
  · cbv

/-- Cancelling the task at once abandons the run. -/
theorem running_without_task_iff_at_once :
    handedOver.Abandoned [.call {} lender (.cancelTask ⟨3⟩)] ⟨3⟩ := by
  obtain ⟨run, hanswer, hid⟩ : ∃ run : ImpactRun,
      ((oneLoan.after oneVersion).perform {} lender (.submitRun ⟨2⟩)).1 = .ok (.runStarted run) ∧
        run.id = ⟨3⟩ :=
    ⟨{ id := ⟨3⟩, tenant := ⟨100⟩, createdAt := ⟨6⟩, updatedAt := ⟨7⟩, pack := some ⟨0⟩,
       version := ⟨2⟩, status := .running, summary := none, error := none, createdBy := none,
       completedAt := none }, by cbv, rfl⟩
  obtain ⟨q, hq, -, -, hiff, -⟩ := running_without_task_iff _ _ _ oneVersion
    [.call {} lender (.cancelTask ⟨3⟩)] {} lender ⟨2⟩ run hanswer
  obtain ⟨hnone, hstatuses⟩ := handedOver_cancelled
  have hq : q ∈ (handedOver.after [.call {} lender (.cancelTask ⟨3⟩)]).store.runs := hq
  have hstatus := List.mem_map_of_mem (f := fun run : ImpactRun => run.status) hq
  rw [hstatuses, List.mem_singleton] at hstatus
  rw [hid] at hiff
  exact (hiff hstatus).1 hnone

end Rulebook
