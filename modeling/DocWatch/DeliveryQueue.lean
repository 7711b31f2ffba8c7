/-!
# The delivery queue

Tasks are run by workers, which take them in order and finish them in any order. A queue without
workers runs each task at once on the thread that submits it. After the shutdown of a queue with
workers, each task gets a thread of its own. A task that fails takes nothing else down; it is
counted.

- `DeliveryQueue.submit`: what becomes of a new task.
- `DeliveryQueue.take`, `DeliveryQueue.finish`: the steps of workers.
- `DeliveryQueue.settle`: all steps that can be made, for tasks that do not block.
-/

namespace DocWatch

/-- Something to run, and whether it fails. -/
structure Task (α : Type) where
  work : α
  panics : Bool
deriving DecidableEq, Repr

/-- How a task was accepted. -/
inductive Scheduled where
  | queued
  /-- The task has been run. -/
  | inline
deriving DecidableEq, Repr

/-- A queue and its counters. -/
structure DeliveryQueue (α : Type) where
  workers : Nat
  isShutDown : Bool
  waiting : List (Task α)
  running : List (Task α)
  /-- The tasks that have been run, in the order in which they ended. -/
  ended : List (Task α)
  completed : Nat
  panicked : Nat
  inlineRuns : Nat

namespace DeliveryQueue

variable {α : Type}

/-- A queue with a number of workers. -/
def create (workers : Nat) : DeliveryQueue α := ⟨workers, false, [], [], [], 0, 0, 0⟩

/-- Counts a task that has been run. -/
def record (task : Task α) (q : DeliveryQueue α) : DeliveryQueue α :=
  { q with
    ended := q.ended ++ [task]
    completed := q.completed + 1
    panicked := q.panicked + if task.panics then 1 else 0 }

/-- Accepts a task. -/
def submit (task : Task α) (q : DeliveryQueue α) : Scheduled × DeliveryQueue α :=
  if q.workers = 0 then (.inline, ({ q with inlineRuns := q.inlineRuns + 1 }).record task)
  else if q.isShutDown then (.queued, { q with running := q.running ++ [task] })
  else (.queued, { q with waiting := q.waiting ++ [task] })

/-- Accepts tasks in order. -/
def submitAll : List (Task α) → DeliveryQueue α → List Scheduled × DeliveryQueue α
  | [], q => ([], q)
  | task :: rest, q =>
    let (how, q) := q.submit task
    let (hows, q) := submitAll rest q
    (how :: hows, q)

/-- A worker takes the first waiting task. -/
def take (q : DeliveryQueue α) : Option (DeliveryQueue α) :=
  match q.waiting with
  | [] => none
  | task :: rest => some { q with waiting := rest, running := q.running ++ [task] }

/-- The running task at a place ends. -/
def finish (i : Nat) (q : DeliveryQueue α) : Option (DeliveryQueue α) :=
  match q.running[i]? with
  | none => none
  | some task => some (({ q with running := q.running.eraseIdx i }).record task)

/-- No task is waiting or running. -/
def isDrained (q : DeliveryQueue α) : Bool := q.waiting.isEmpty && q.running.isEmpty

/-- No more tasks are taken by workers that stay. Those that were submitted are still run. -/
def shutDown (q : DeliveryQueue α) : DeliveryQueue α := { q with isShutDown := true }

/-- All waiting tasks are taken, and all running ones end that do not block. -/
def settle (blocks : α → Bool) (q : DeliveryQueue α) : DeliveryQueue α :=
  let started := q.running ++ q.waiting
  (started.filter fun task => !blocks task.work).foldl (fun q task => q.record task)
    { q with waiting := [], running := started.filter fun task => blocks task.work }

/-- How many workers stay when there is nothing to do. -/
def idleWorkers (q : DeliveryQueue α) : Nat := if q.isShutDown then 0 else q.workers

end DeliveryQueue
end DocWatch
