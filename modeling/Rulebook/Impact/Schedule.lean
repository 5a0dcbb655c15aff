import Rulebook.Impact.Run

/-!
The schedule of runs that are executed in the background. A task waits for its turn, then begins and
executes its run. Cancelling a task that has begun also ends its run; a task cancelled before it
begins never gets as far as doing anything about its run.
-/
namespace Rulebook.Impact

inductive Phase where
  | waiting
  | begun
  deriving DecidableEq, Repr, Inhabited

/-- A task that executes a run on behalf of a caller. -/
structure BackgroundTask where
  caller : Caller
  run : Uuid
  phase : Phase
  deriving DecidableEq, Repr, Inhabited

/-- The tasks that are not done. -/
abbrev Schedule := List BackgroundTask

namespace Schedule

def task? (s : Schedule) (run : Uuid) : Option BackgroundTask := s.find? (·.run == run)

/-- Whether there is a task for a run that is not done. -/
def isRunning (s : Schedule) (run : Uuid) : Bool := (s.task? run).isSome

/-- Adds a task that waits for its turn. -/
def submit (s : Schedule) (caller : Caller) (run : Uuid) : Schedule :=
  s ++ [{ caller, run, phase := .waiting }]

/-- Gives every waiting task its turn. -/
def begin (s : Schedule) : Schedule := s.map fun t => { t with phase := .begun }

/-- The schedule without the task for a run. -/
def drop (s : Schedule) (run : Uuid) : Schedule := s.filter (·.run != run)

end Schedule

namespace BackgroundTask

/-- What cancelling a task does to the store. -/
def cancel (t : BackgroundTask) : Txn Unit :=
  match t.phase with
  | .waiting => pure ()
  | .begun => discard <| finish t.caller.tenant t.run .cancelled

/-- What a task does once it goes on. -/
def execute (c : Circumstances) (t : BackgroundTask) : Txn Unit := do
  discard <| executeRun c t.caller t.run (← Txn.today) false

end BackgroundTask

/-- What cancelling all tasks does to the store. -/
def cancelAll : Schedule → Txn Unit
  | [] => pure ()
  | t :: rest => do
    t.cancel
    cancelAll rest

end Rulebook.Impact
