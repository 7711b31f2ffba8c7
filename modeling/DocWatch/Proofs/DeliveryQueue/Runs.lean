import Mathlib.Data.List.Perm.Basic
import DocWatch.Proofs.DeliveryQueue

/-!
# The accounts of a delivery queue

A queue goes through submissions, drains and a shutdown, in any order, and between them workers take
waiting tasks and end running ones, in any order as well. The log keeps what callers have seen. At
each moment the log and the queue agree: what was submitted has ended, is running or is waiting, and
the counters are those of the tasks that have ended.

- `DeliveryQueue.Event`: what callers see.
- `DeliveryQueue.Reached`: the queues that calls and workers lead to, each with its log.
- `DeliveryQueue.Accounts`, `DeliveryQueue.Reached.accounts`: log and queue agree.
- `DeliveryQueue.Reached.settle`: settling is one way for workers to go on.
-/

namespace DocWatch.DeliveryQueue

variable {α : Type}

/-- What callers of a queue see. -/
inductive Event (α : Type) where
  /-- A task was submitted, with the answer. -/
  | submitted (task : Task α) (how : Scheduled)
  /-- A drain has returned. -/
  | drained
  | shutDown
deriving DecidableEq, Repr

/-! ### Logs -/

/-- The task that an event submits. -/
def Event.task? : Event α → Option (Task α)
  | .submitted task _ => some task
  | _ => none

/-- The tasks that were submitted, in order. -/
def submissions (log : List (Event α)) : List (Task α) := log.filterMap Event.task?

/-- Whether a drain has returned and nothing was submitted since, after an event. -/
def Event.drains (before : Bool) : Event α → Bool
  | .submitted _ _ => false
  | .drained => true
  | .shutDown => before

/-- A drain has returned, and nothing was submitted since. -/
def drainsLast (log : List (Event α)) : Bool := log.foldl Event.drains false

theorem submissions_submitted (log : List (Event α)) (task : Task α) (how : Scheduled) :
    submissions (log ++ [.submitted task how]) = submissions log ++ [task] :=
  List.filterMap_append

theorem submissions_other {event : Event α} (h : event.task? = none) (log : List (Event α)) :
    submissions (log ++ [event]) = submissions log := by
  rw [submissions, List.filterMap_append, List.filterMap_cons_none h]
  exact List.append_nil _

theorem drainsLast_append (log : List (Event α)) (event : Event α) :
    drainsLast (log ++ [event]) = event.drains (drainsLast log) :=
  List.foldl_append

theorem not_drainsLast_submitted (log : List (Event α)) (task : Task α) (how : Scheduled) :
    ¬ drainsLast (log ++ [.submitted task how]) = true := by
  rw [drainsLast_append]
  exact Bool.false_ne_true

/-! ### Runs -/

/-- The queues with a number of workers that calls and the steps of workers lead to. -/
inductive Reached (workers : Nat) : List (Event α) → DeliveryQueue α → Prop
  | create : Reached workers [] (create workers)
  | submit {log q} (task : Task α) (h : Reached workers log q) :
      Reached workers (log ++ [.submitted task (q.submit task).1]) (q.submit task).2
  | shutDown {log q} (h : Reached workers log q) :
      Reached workers (log ++ [.shutDown]) q.shutDown
  | drain {log q} (h : Reached workers log q) (hdrained : q.isDrained = true) :
      Reached workers (log ++ [.drained]) q
  | take {log q q'} (h : Reached workers log q) (htake : q.take = some q') : Reached workers log q'
  | finish {log q q'} {i : Nat} (h : Reached workers log q) (hfinish : q.finish i = some q') :
      Reached workers log q'

section Submit

variable {q : DeliveryQueue α}

theorem submit_of_noWorkers (hworkers : q.workers = 0) (task : Task α) :
    q.submit task = (.inline, ({ q with inlineRuns := q.inlineRuns + 1 }).record task) :=
  if_pos hworkers

theorem submit_of_shutDown (hworkers : q.workers ≠ 0) (hshutDown : q.isShutDown = true)
    (task : Task α) : q.submit task = (.queued, { q with running := q.running ++ [task] }) :=
  (if_neg hworkers).trans (if_pos hshutDown)

theorem submit_of_open (hworkers : q.workers ≠ 0) (hopen : q.isShutDown = false)
    (task : Task α) : q.submit task = (.queued, { q with waiting := q.waiting ++ [task] }) :=
  (if_neg hworkers).trans (if_neg (hopen ▸ Bool.false_ne_true))

end Submit

/-- What a worker that takes a task does. -/
theorem take_eq_some_iff {q q' : DeliveryQueue α} :
    q.take = some q' ↔ ∃ task rest, q.waiting = task :: rest ∧
      q' = { q with waiting := rest, running := q.running ++ [task] } := by
  unfold take
  cases hwaiting : q.waiting with
  | nil => simp
  | cons task rest => simp [eq_comm]

/-- What a task that ends does. -/
theorem finish_eq_some_iff {q q' : DeliveryQueue α} {i : Nat} :
    q.finish i = some q' ↔ ∃ task, q.running[i]? = some task ∧
      q' = ({ q with running := q.running.eraseIdx i }).record task := by
  unfold finish
  cases q.running[i]? with
  | none => simp
  | some task => simp [eq_comm]

theorem isDrained_iff {q : DeliveryQueue α} :
    q.isDrained = true ↔ q.waiting = [] ∧ q.running = [] := by
  rw [isDrained, Bool.and_eq_true, List.isEmpty_iff, List.isEmpty_iff]

/-! ### Accounts -/

/-- The log and the queue agree. -/
structure Accounts (workers : Nat) (log : List (Event α)) (q : DeliveryQueue α) : Prop where
  workers_eq : q.workers = workers
  /-- What was submitted has ended, is running or is waiting. -/
  accepted : q.accepted.Perm (submissions log)
  completed : q.completed = q.ended.length
  panicked : q.panicked = q.ended.countP (·.panics)
  inlineRuns : q.inlineRuns = if workers = 0 then (submissions log).length else 0
  /-- Without workers, all tasks have been run, in the order of the submissions. -/
  inOrder : workers = 0 → q.ended = submissions log ∧ q.running = [] ∧ q.waiting = []
  /-- Tasks are run on the submitting thread when there are no workers, and only then. -/
  answers : ∀ task how, .submitted task how ∈ log → (how = .inline ↔ workers = 0)
  drained : drainsLast log = true → q.isDrained = true

namespace Accounts

variable {workers : Nat} {log : List (Event α)} {q q' : DeliveryQueue α}

theorem create : Accounts workers ([] : List (Event α)) (create workers) where
  workers_eq := rfl
  accepted := List.Perm.refl _
  completed := rfl
  panicked := rfl
  inlineRuns := by
    show 0 = if workers = 0 then 0 else 0
    rw [ite_self]
  inOrder := fun _ => ⟨rfl, rfl, rfl⟩
  answers := fun _ _ hmem => absurd hmem List.not_mem_nil
  drained := fun h => absurd h Bool.false_ne_true

/-- The answer to a submission says whether there are workers. -/
theorem submit_fst (h : Accounts workers log q) (task : Task α) :
    (q.submit task).1 = .inline ↔ workers = 0 := by
  rw [← h.workers_eq, DeliveryQueue.submit]
  split
  · rename_i hworkers
    exact iff_of_true rfl hworkers
  · rename_i hworkers
    split <;> exact iff_of_false nofun hworkers

theorem submit (h : Accounts workers log q) (task : Task α) :
    Accounts workers (log ++ [.submitted task (q.submit task).1]) (q.submit task).2 := by
  have haccepted : (q.submit task).2.accepted.Perm
      (submissions (log ++ [.submitted task (q.submit task).1])) := by
    rw [submissions_submitted]
    exact (submit_accepted task q).trans (h.accepted.append_right [task])
  have hanswers : ∀ task' how, .submitted task' how ∈ log ++ [.submitted task (q.submit task).1] →
      (how = .inline ↔ workers = 0) := by
    intro task' how hmem
    rcases List.mem_append.mp hmem with hold | hnew
    · exact h.answers task' how hold
    · obtain ⟨rfl, rfl⟩ : task' = task ∧ how = (q.submit task).1 := by simpa using hnew
      exact h.submit_fst _
  -- The three places a task can go to differ in the counters only.
  by_cases hworkers : workers = 0
  · obtain ⟨hended, hrunning, hwaiting⟩ := h.inOrder hworkers
    rw [submit_of_noWorkers (h.workers_eq.trans hworkers)] at haccepted hanswers ⊢
    refine ⟨h.workers_eq, haccepted, ?_, ?_, ?_, ?_, hanswers, ?_⟩
    · show q.completed + 1 = (q.ended ++ [task]).length
      rw [h.completed, List.length_append]
      rfl
    · show q.panicked + (if task.panics then 1 else 0) = (q.ended ++ [task]).countP (·.panics)
      rw [h.panicked, List.countP_append, List.countP_singleton]
    · show q.inlineRuns + 1 = _
      rw [h.inlineRuns, if_pos hworkers, if_pos hworkers, submissions_submitted, List.length_append]
      rfl
    · intro _
      refine ⟨?_, hrunning, hwaiting⟩
      show q.ended ++ [task] = _
      rw [hended, submissions_submitted]
    · exact fun hlast => (not_drainsLast_submitted _ _ _ hlast).elim
  · have hsubmit : ∃ running waiting,
        q.submit task = (.queued, { q with running := running, waiting := waiting }) := by
      have hsome : q.workers ≠ 0 := h.workers_eq ▸ hworkers
      rcases Bool.eq_false_or_eq_true q.isShutDown with hshutDown | hopen
      · exact ⟨_, _, submit_of_shutDown hsome hshutDown task⟩
      · exact ⟨_, _, submit_of_open hsome hopen task⟩
    obtain ⟨running, waiting, hsubmit⟩ := hsubmit
    rw [hsubmit] at haccepted hanswers ⊢
    refine ⟨h.workers_eq, haccepted, h.completed, h.panicked, ?_, ?_, hanswers, ?_⟩
    · show q.inlineRuns = _
      rw [h.inlineRuns, if_neg hworkers, if_neg hworkers]
    · exact fun hnone => absurd hnone hworkers
    · exact fun hlast => (not_drainsLast_submitted _ _ _ hlast).elim

/-- An event that submits nothing, with nothing left to do if it is a drain that returns. -/
theorem other (h : Accounts workers log q) {event : Event α} (htask : event.task? = none)
    (hdrained : event.drains (drainsLast log) = true → q.isDrained = true) :
    Accounts workers (log ++ [event]) q where
  workers_eq := h.workers_eq
  accepted := by
    rw [submissions_other htask]
    exact h.accepted
  completed := h.completed
  panicked := h.panicked
  inlineRuns := by
    rw [submissions_other htask]
    exact h.inlineRuns
  inOrder := by
    rw [submissions_other htask]
    exact h.inOrder
  answers := by
    intro task how hmem
    rcases List.mem_append.mp hmem with hold | hnew
    · exact h.answers task how hold
    · obtain rfl := List.mem_singleton.mp hnew
      exact nomatch htask
  drained := by
    rw [drainsLast_append]
    exact hdrained

theorem shutDown (h : Accounts workers log q) :
    Accounts workers (log ++ [.shutDown]) q.shutDown :=
  { (h.other rfl h.drained : Accounts workers (log ++ [.shutDown]) q) with }

theorem drain (h : Accounts workers log q) (hdrained : q.isDrained = true) :
    Accounts workers (log ++ [.drained]) q :=
  h.other rfl fun _ => hdrained

theorem take (h : Accounts workers log q) (htake : q.take = some q') :
    Accounts workers log q' := by
  obtain ⟨task, rest, hwaiting, rfl⟩ := take_eq_some_iff.mp htake
  have hmoved : (q.running ++ [task]) ++ rest = q.running ++ q.waiting := by
    rw [hwaiting, List.append_assoc]
    rfl
  refine ⟨h.workers_eq, ?_, h.completed, h.panicked, h.inlineRuns, ?_, h.answers, ?_⟩
  · show (q.ended ++ ((q.running ++ [task]) ++ rest)).Perm _
    rw [hmoved]
    exact h.accepted
  · intro hworkers
    have hnone := (h.inOrder hworkers).2.2
    rw [hwaiting] at hnone
    exact absurd hnone (List.cons_ne_nil _ _)
  · intro hlast
    have hnone := (isDrained_iff.mp (h.drained hlast)).1
    rw [hwaiting] at hnone
    exact absurd hnone (List.cons_ne_nil _ _)

theorem finish {i : Nat} (h : Accounts workers log q) (hfinish : q.finish i = some q') :
    Accounts workers log q' := by
  obtain ⟨task, hget, rfl⟩ := finish_eq_some_iff.mp hfinish
  obtain ⟨hi, htask⟩ := List.getElem?_eq_some_iff.mp hget
  have hrunning : (task :: q.running.eraseIdx i).Perm q.running := by
    rw [← htask]
    exact List.getElem_cons_eraseIdx_perm hi
  refine ⟨h.workers_eq, ?_, ?_, ?_, h.inlineRuns, ?_, h.answers, ?_⟩
  · show ((q.ended ++ [task]) ++ (q.running.eraseIdx i ++ q.waiting)).Perm _
    rw [List.append_assoc]
    exact ((hrunning.append_right q.waiting).append_left q.ended).trans h.accepted
  · show q.completed + 1 = (q.ended ++ [task]).length
    rw [h.completed, List.length_append]
    rfl
  · show q.panicked + (if task.panics then 1 else 0) = (q.ended ++ [task]).countP (·.panics)
    rw [h.panicked, List.countP_append, List.countP_singleton]
  · intro hworkers
    have hnone := (h.inOrder hworkers).2.1
    rw [hnone] at hget
    exact absurd hget nofun
  · intro hlast
    have hnone := (isDrained_iff.mp (h.drained hlast)).2
    rw [hnone] at hget
    exact absurd hget nofun

/-- A drained queue has run what was submitted. -/
theorem ended_perm (h : Accounts workers log q) (hdrained : q.isDrained = true) :
    q.ended.Perm (submissions log) := by
  obtain ⟨hwaiting, hrunning⟩ := isDrained_iff.mp hdrained
  have haccepted := h.accepted
  rw [DeliveryQueue.accepted, hrunning, hwaiting, List.append_nil, List.append_nil] at haccepted
  exact haccepted

end Accounts

/-- Log and queue agree after each run. -/
theorem Reached.accounts {workers : Nat} {log : List (Event α)} {q : DeliveryQueue α}
    (h : Reached workers log q) : Accounts workers log q := by
  induction h with
  | create => exact .create
  | submit task _ ih => exact ih.submit task
  | shutDown _ ih => exact ih.shutDown
  | drain _ hdrained ih => exact ih.drain hdrained
  | take _ htake ih => exact ih.take htake
  | finish _ hfinish ih => exact ih.finish hfinish

/-! ### Settling -/

theorem Reached.takeAll {workers : Nat} {log : List (Event α)} {q : DeliveryQueue α}
    (h : Reached workers log q) :
    Reached workers log { q with waiting := [], running := q.running ++ q.waiting } := by
  generalize hwaiting : q.waiting = waiting
  induction waiting generalizing q with
  | nil =>
    rw [List.append_nil, ← hwaiting]
    exact h
  | cons task rest ih =>
    have hnext := ih (h.take (take_eq_some_iff.mpr ⟨task, rest, hwaiting, rfl⟩)) rfl
    rw [List.append_assoc] at hnext
    exact hnext

/-- The running tasks after some place end in order, but for those that block. -/
theorem Reached.finishAll {workers : Nat} {log : List (Event α)} (blocks : α → Bool)
    (stay rest : List (Task α)) {q : DeliveryQueue α} (hrunning : q.running = stay ++ rest)
    (h : Reached workers log q) :
    Reached workers log ((rest.filter fun task => !blocks task.work).foldl
      (fun q task => q.record task)
      { q with running := stay ++ rest.filter fun task => blocks task.work }) := by
  induction rest generalizing stay q with
  | nil =>
    show Reached workers log { q with running := stay ++ [] }
    rw [← hrunning]
    exact h
  | cons task rest ih =>
    cases hblocks : blocks task.work with
    | true =>
      have hnext := ih (stay ++ [task]) (by rw [hrunning, List.append_assoc]; rfl) h
      rw [List.append_assoc] at hnext
      simp only [List.filter_cons, hblocks, Bool.not_true, Bool.false_eq_true, ↓reduceIte]
      exact hnext
    | false =>
      have hget : q.running[stay.length]? = some task := by
        rw [hrunning, List.getElem?_append_right (Nat.le_refl _), Nat.sub_self]
        rfl
      have herase : q.running.eraseIdx stay.length = stay ++ rest := by
        rw [hrunning, List.eraseIdx_append_of_length_le (Nat.le_refl _), Nat.sub_self]
        rfl
      have hnext := ih stay (by exact herase)
        (h.finish (finish_eq_some_iff.mpr ⟨task, hget, rfl⟩))
      simp only [List.filter_cons, hblocks, Bool.not_false, Bool.false_eq_true, ↓reduceIte]
      exact hnext

/-- Settling is one way for workers to go on. -/
theorem Reached.settle {workers : Nat} {log : List (Event α)} {q : DeliveryQueue α}
    (h : Reached workers log q) (blocks : α → Bool) : Reached workers log (q.settle blocks) :=
  h.takeAll.finishAll blocks [] (q.running ++ q.waiting) rfl

end DocWatch.DeliveryQueue
