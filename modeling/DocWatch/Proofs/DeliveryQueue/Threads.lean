import Mathlib.Data.Multiset.Count
import Mathlib.Data.Multiset.Bind
import DocWatch.Proofs.DeliveryQueue.Runs

/-!
# The threads behind a delivery queue

The steps of a queue are made by threads, each in several moves. A worker looks for a task under the
lock and sleeps if there is none; when it has run a task it notes a failure, counts the task, and
then only takes it out of the active ones. The last one to do so wakes the callers that wait for a
drain. Workers beyond those that stay are started when there are more waiting tasks than workers
free for them; they go when they find nothing to do for a while, and the system may refuse to start
them.

A move is what a thread does under one hold of the lock or with one atomic counter. Moves of threads
and calls mix in any order. A caller that has left the lock may be overtaken before it has started
or woken a worker, and callers do not wait for a shutdown to end, so more can happen here than with
callers that do. What is taken for granted: workers that stay are started, and so are the threads of
late tasks; tasks end; threads see memory in one order. The counters are natural numbers: one of 64
bits would come round only after `2 ^ 64` additions, and no run makes so many.

- `DeliveryQueue.Pool`: a queue, its threads, and the counters that they share.
- `DeliveryQueue.Advance`: the moves of one thread.
- `DeliveryQueue.Pool.Works`: the moves that are made without a further call.
- `DeliveryQueue.Pool.Reached`: the pools that calls and moves lead to.
-/

namespace DocWatch.DeliveryQueue

variable {α : Type}

/-- What a thread was started for. -/
inductive Role where
  /-- To work until the shutdown. -/
  | core
  /-- To work until there is nothing to do for a while. -/
  | extra
  /-- To run one task that was submitted after the shutdown. -/
  | late
deriving DecidableEq, Repr

/-- Where a thread stands between two moves. -/
inductive Phase (α : Type) where
  /-- The system was asked for the thread. -/
  | spawning
  | starting
  /-- On its way to the lock. -/
  | searching
  | parked
  | woken
  /-- Nothing has come while it was parked. -/
  | expired
  | holding (task : Task α)
  | ran (task : Task α)
  /-- A failure of the task was noted. -/
  | noted
  | counted
  /-- The task is no longer active, and it may have been the last one. -/
  | released (last : Bool)
  /-- About to wake the callers that wait for a drain. -/
  | telling
  | gone
deriving DecidableEq, Repr

structure Thread (α : Type) where
  role : Role
  phase : Phase α
deriving DecidableEq, Repr

namespace Phase

/-- The next move is to look for a task. -/
def looks : Phase α → Bool
  | .starting | .searching | .woken | .expired => true
  | _ => false

/-- Counted as a worker that waits. -/
def isIdle : Phase α → Bool
  | .parked | .woken | .expired => true
  | _ => false

/-- Counted as a worker that starts. -/
def isStarting : Phase α → Bool
  | .spawning | .starting => true
  | _ => false

/-- Counted as a task that is active. -/
def isActive : Phase α → Bool
  | .holding _ | .ran _ | .noted | .counted => true
  | _ => false

/-- Has run a task that is not yet counted. -/
def isUncounted : Phase α → Bool
  | .ran _ | .noted => true
  | _ => false

/-- Has run a task whose failure is not yet noted. -/
def isUnnoted : Phase α → Bool
  | .ran task => task.panics
  | _ => false

/-- What is still to be run. -/
def tasks : Phase α → Multiset (Task α)
  | .holding task => {task}
  | _ => 0

/-- What being woken does. -/
def wake : Phase α → Phase α
  | .parked => .woken
  | phase => phase

end Phase

/-- Where a thread goes on after a task. -/
def Role.next : Role → Phase α
  | .core | .extra => .searching
  | .late => .gone

/-- What threads and callers share. -/
structure Shared (α : Type) where
  /-- The tasks by where they are. Each is counted here at the moment it ends. -/
  queue : DeliveryQueue α
  log : List (Event α)
  idle : Nat
  starting : Nat
  depth : Nat
  active : Nat
  completed : Nat
  panicked : Nat
  inlineRuns : Nat
  /-- Workers that callers are about to start. -/
  startsDue : Nat
  /-- Workers that callers are about to wake. -/
  wakesDue : Nat
  /-- Shutdowns that are about to wake all workers. -/
  broadcastsDue : Nat
  /-- Drains that wait to be woken. -/
  drainsParked : Nat
  /-- Drains that are about to look again. -/
  drainsWoken : Nat

/-- A worker that has come to the lock neither starts nor waits. -/
def Shared.enter (phase : Phase α) (s : Shared α) : Shared α :=
  { s with
    idle := s.idle - phase.isIdle.toNat
    starting := s.starting - phase.isStarting.toNat }

/-- The moves of one thread. -/
inductive Advance : Role → Shared α → Phase α → Shared α → Phase α → Prop
  | spawn {role s} : Advance role s .spawning s .starting
  /-- No thread is to be had, and the caller wakes a worker instead. -/
  | refuse {s} : Advance .extra s .spawning
      { s with starting := s.starting - 1, wakesDue := s.wakesDue + 1 } .gone
  | take {role s phase task q} (hlooks : phase.looks = true)
      (hhead : s.queue.waiting.head? = some task) (htake : s.queue.take = some q) :
      Advance role s phase
        { s.enter phase with queue := q, depth := s.depth - 1, active := s.active + 1 }
        (.holding task)
  | leave {role s phase} (hlooks : phase.looks = true) (hwaiting : s.queue.waiting = [])
      (hleave : s.queue.isShutDown = true ∨ phase = .expired) :
      Advance role s phase (s.enter phase) .gone
  | park {role s phase} (hlooks : phase.looks = true) (hwaiting : s.queue.waiting = [])
      (hstays : s.queue.isShutDown = false) (hphase : phase ≠ .expired) :
      Advance role s phase { s.enter phase with idle := (s.enter phase).idle + 1 } .parked
  | expire {s} : Advance .extra s .parked s .expired
  | run {role s task q} {i : Nat} (hget : s.queue.running[i]? = some task)
      (hfinish : s.queue.finish i = some q) :
      Advance role s (.holding task) { s with queue := q } (.ran task)
  | note {role s task} : Advance role s (.ran task)
      { s with panicked := s.panicked + if task.panics then 1 else 0 } .noted
  | count {role s} : Advance role s .noted { s with completed := s.completed + 1 } .counted
  /-- Whether the task was the last active one is told by the counter itself. Whether another one
  waits is looked at only afterwards. -/
  | release {role s} : Advance role s .counted { s with active := s.active - 1 }
      (.released (s.active == 1))
  | pass {role s last} (hpass : last = false ∨ s.depth ≠ 0) :
      Advance role s (.released last) s role.next
  | notice {role s} (hdepth : s.depth = 0) : Advance role s (.released true) s .telling
  | tell {role s} : Advance role s .telling
      { s with drainsParked := 0, drainsWoken := s.drainsWoken + s.drainsParked } role.next

/-- A queue with its threads. -/
structure Pool (α : Type) extends Shared α where
  threads : Multiset (Thread α)

namespace Pool

/-! ### Calls -/

/-- A queue whose workers have been started. -/
def create (workers : Nat) : Pool α where
  queue := DeliveryQueue.create workers
  log := []
  idle := 0
  starting := workers
  depth := 0
  active := 0
  completed := 0
  panicked := 0
  inlineRuns := 0
  startsDue := 0
  wakesDue := 0
  broadcastsDue := 0
  drainsParked := 0
  drainsWoken := 0
  threads := Multiset.replicate workers ⟨.core, .starting⟩

/-- A task becomes one of the queue. -/
def accept (task : Task α) (p : Pool α) : Pool α :=
  { p with
    queue := (p.queue.submit task).2
    log := p.log ++ [.submitted task (p.queue.submit task).1] }

/-- The caller runs a task. -/
def runInline (task : Task α) (p : Pool α) : Pool α :=
  { p with
    inlineRuns := p.inlineRuns + 1
    panicked := p.panicked + if task.panics then 1 else 0
    completed := p.completed + 1 }

/-- A task gets a thread of its own. -/
def runDetached (task : Task α) (p : Pool α) : Pool α :=
  { p with
    active := p.active + 1
    threads := ⟨.late, .holding task⟩ ::ₘ p.threads }

/-- Each waiting task needs a free worker of its own. If there is none for the last one, the caller
starts one. -/
def callWorker (p : Pool α) : Pool α :=
  if p.queue.waiting.length > p.idle + p.starting then
    { p with depth := p.depth + 1, startsDue := p.startsDue + 1 }
  else { p with depth := p.depth + 1, wakesDue := p.wakesDue + 1 }

/-- Accepts a task. -/
def submit (task : Task α) (p : Pool α) : Scheduled × Pool α :=
  ((p.queue.submit task).1,
    if p.queue.workers = 0 then (p.accept task).runInline task
    else if p.queue.isShutDown then (p.accept task).runDetached task
    else (p.accept task).callWorker)

/-- The three ways of a task. -/
theorem submit_cases (task : Task α) (p : Pool α) :
    (p.queue.workers = 0 ∧ (p.submit task).2 = (p.accept task).runInline task) ∨
    (p.queue.workers ≠ 0 ∧ p.queue.isShutDown = true ∧
      (p.submit task).2 = (p.accept task).runDetached task) ∨
    (p.queue.workers ≠ 0 ∧ p.queue.isShutDown = false ∧
      (p.submit task).2 = (p.accept task).callWorker) := by
  by_cases hworkers : p.queue.workers = 0
  · exact .inl ⟨hworkers, if_pos hworkers⟩
  · rcases Bool.eq_false_or_eq_true p.queue.isShutDown with hshutDown | hopen
    · exact .inr (.inl ⟨hworkers, hshutDown, (if_neg hworkers).trans (if_pos hshutDown)⟩)
    · exact .inr (.inr ⟨hworkers, hopen,
        (if_neg hworkers).trans (if_neg (hopen ▸ Bool.false_ne_true))⟩)

def shutDown (p : Pool α) : Pool α :=
  { p with
    queue := p.queue.shutDown
    log := p.log ++ [.shutDown]
    broadcastsDue := p.broadcastsDue + 1 }

/-- A drain that looks at the counters, and returns or waits. -/
def drain (p : Pool α) : Pool α :=
  if p.depth = 0 ∧ p.active = 0 then { p with log := p.log ++ [.drained] }
  else { p with drainsParked := p.drainsParked + 1 }

/-! ### Runs -/

/-- The moves that are made without a further call: those of threads, what callers have still to do
after they left the lock, and drains that were woken. -/
inductive Works : Pool α → Pool α → Prop
  | thread {role s s' phase phase'} (rest : Multiset (Thread α))
      (hmove : Advance role s phase s' phase') :
      Works ⟨s, ⟨role, phase⟩ ::ₘ rest⟩ ⟨s', ⟨role, phase'⟩ ::ₘ rest⟩
  | start {s threads} {due : Nat} (hdue : s.startsDue = due + 1) :
      Works ⟨s, threads⟩
        ⟨{ s with startsDue := due, starting := s.starting + 1 }, ⟨.extra, .spawning⟩ ::ₘ threads⟩
  | wake {role s} (rest : Multiset (Thread α)) {due : Nat} (hdue : s.wakesDue = due + 1) :
      Works ⟨s, ⟨role, .parked⟩ ::ₘ rest⟩ ⟨{ s with wakesDue := due }, ⟨role, .woken⟩ ::ₘ rest⟩
  | wakeNone {s threads} {due : Nat} (hdue : s.wakesDue = due + 1)
      (hnone : ∀ t ∈ threads, t.phase ≠ .parked) :
      Works ⟨s, threads⟩ ⟨{ s with wakesDue := due }, threads⟩
  | wakeAll {s threads} {due : Nat} (hdue : s.broadcastsDue = due + 1) :
      Works ⟨s, threads⟩
        ⟨{ s with broadcastsDue := due }, threads.map fun t => ⟨t.role, t.phase.wake⟩⟩
  | drainReturns {s threads} {woken : Nat} (hwoken : s.drainsWoken = woken + 1)
      (hdepth : s.depth = 0) (hactive : s.active = 0) :
      Works ⟨s, threads⟩ ⟨{ s with drainsWoken := woken, log := s.log ++ [.drained] }, threads⟩
  | drainParks {s threads} {woken : Nat} (hwoken : s.drainsWoken = woken + 1)
      (hbusy : s.depth ≠ 0 ∨ s.active ≠ 0) :
      Works ⟨s, threads⟩
        ⟨{ s with drainsWoken := woken, drainsParked := s.drainsParked + 1 }, threads⟩

/-- The pools with a number of workers that calls and moves lead to. -/
inductive Reached (workers : Nat) : Pool α → Prop
  | create : Reached workers (create workers)
  | submit {p} (task : Task α) (h : Reached workers p) : Reached workers (p.submit task).2
  | shutDown {p} (h : Reached workers p) : Reached workers p.shutDown
  | drain {p} (h : Reached workers p) : Reached workers p.drain
  | works {p p'} (h : Reached workers p) (hworks : Works p p') : Reached workers p'

end Pool

/-! ### Counting threads -/

/-- How many threads are in a phase of some kind. -/
def count (kind : Phase α → Bool) (threads : Multiset (Thread α)) : Nat :=
  threads.countP fun t => kind t.phase = true

/-- The tasks that threads are to run. -/
def held (threads : Multiset (Thread α)) : Multiset (Task α) :=
  threads.bind fun t => t.phase.tasks

theorem count_cons (kind : Phase α → Bool) (t : Thread α) (threads : Multiset (Thread α)) :
    count kind (t ::ₘ threads) = (kind t.phase).toNat + count kind threads := by
  rw [count, Multiset.countP_cons, Nat.add_comm]
  cases kind t.phase <;> rfl

theorem count_cons_of_false {kind : Phase α → Bool} {t : Thread α} (h : kind t.phase = false)
    (threads : Multiset (Thread α)) : count kind (t ::ₘ threads) = count kind threads := by
  rw [count_cons, h]
  exact Nat.zero_add _

theorem held_cons (t : Thread α) (threads : Multiset (Thread α)) :
    held (t ::ₘ threads) = t.phase.tasks + held threads :=
  Multiset.cons_bind ..

end DocWatch.DeliveryQueue
