import DocWatch.Proofs.DeliveryQueue.Attended

/-!
# Every submitted task is run

What threads do by themselves does not go on for ever: each move takes a task further, or brings a
thread without a task nearer to its end. When no move is left, nothing waits, because what waits is
attended to. So all tasks are run, in whatever order the moves are made, and each of them once.

- `Pool.Works.decreases`: each move leaves less to do.
- `Pool.Reached.atRest`: without a move left, all tasks have been run.
- `Pool.Inevitable`, `Pool.Reached.inevitable`: all ways to go on lead there.
- `Pool.runs_each_once`: what a delivery queue guarantees.
-/

namespace DocWatch.DeliveryQueue

variable {α : Type}

namespace Phase

/-- What is left to do for a task. -/
def work : Phase α → Nat
  | .holding _ => 7
  | .ran _ => 6
  | .noted => 5
  | .counted => 4
  | .released _ => 3
  | .telling => 2
  | _ => 0

/-- What is left to do before a thread without a task is gone. -/
def unrest : Phase α → Nat
  | .spawning => 5
  | .starting | .searching | .woken => 3
  | .parked => 2
  | .expired => 1
  | _ => 0

end Phase

/-- What threads have left to do, together. -/
def total (weight : Phase α → Nat) (threads : Multiset (Thread α)) : Nat :=
  (threads.map fun t => weight t.phase).sum

theorem total_cons (weight : Phase α → Nat) (t : Thread α) (threads : Multiset (Thread α)) :
    total weight (t ::ₘ threads) = weight t.phase + total weight threads := by
  rw [total, Multiset.map_cons, Multiset.sum_cons]
  rfl

theorem total_wake {weight : Phase α → Nat} (h : weight .parked = weight .woken)
    (threads : Multiset (Thread α)) :
    total weight (threads.map fun t => ⟨t.role, t.phase.wake⟩) = total weight threads := by
  rw [total, Multiset.map_map]
  refine congrArg Multiset.sum (Multiset.map_congr rfl fun t _ => ?_)
  show weight t.phase.wake = weight t.phase
  cases t.phase with
  | parked => exact h.symm
  | _ => rfl

namespace Shared

/-- What is left to do for tasks that no thread has. -/
def work (s : Shared α) : Nat := 8 * s.queue.waiting.length + s.broadcastsDue

/-- What callers are left to do. -/
def unrest (s : Shared α) : Nat := 6 * s.startsDue + 2 * s.wakesDue + s.drainsWoken

end Shared

/-! ### Moves of a thread -/

namespace Advance

variable {role : Role} {s s' : Shared α} {phase phase' : Phase α}

/-- A thread that neither sleeps nor is gone can move. -/
theorem exists_of_awake (role : Role) (s : Shared α) (phase : Phase α)
    (hheld : ∀ task, phase = .holding task → task ∈ s.queue.running)
    (hparked : phase ≠ .parked) (hgone : phase ≠ .gone) :
    ∃ s' phase', Advance role s phase s' phase' := by
  have hlook (hlooks : phase.looks = true) : ∃ s' phase', Advance role s phase s' phase' := by
    cases hwaiting : s.queue.waiting with
    | cons task rest =>
      have hhead : s.queue.waiting.head? = some task := congrArg List.head? hwaiting
      exact ⟨_, _, .take hlooks hhead (take_eq_some_iff.mpr ⟨task, rest, hwaiting, rfl⟩)⟩
    | nil =>
      by_cases hleave : s.queue.isShutDown = true ∨ phase = .expired
      · exact ⟨_, _, .leave hlooks hwaiting hleave⟩
      · obtain ⟨hopen, hphase⟩ := not_or.mp hleave
        exact ⟨_, _, .park hlooks hwaiting (Bool.eq_false_iff.mpr hopen) hphase⟩
  cases phase with
  | spawning => exact ⟨_, _, .spawn⟩
  | starting | searching | woken | expired => exact hlook rfl
  | parked => exact absurd rfl hparked
  | holding task =>
    obtain ⟨i, hget⟩ := List.mem_iff_getElem?.mp (hheld task rfl)
    exact ⟨_, _, .run hget (finish_eq_some_iff.mpr ⟨task, hget, rfl⟩)⟩
  | ran task => exact ⟨_, _, .note⟩
  | noted => exact ⟨_, _, .count⟩
  | counted => exact ⟨_, _, .release⟩
  | released last =>
    by_cases hpass : last = false ∨ s.depth ≠ 0
    · exact ⟨_, _, .pass hpass⟩
    · obtain ⟨hlast, hdepth⟩ := not_or.mp hpass
      obtain rfl : last = true := Bool.not_eq_false _ |>.mp hlast
      exact ⟨_, _, .notice (not_not.mp hdepth)⟩
  | telling => exact ⟨_, _, .tell⟩
  | gone => exact absurd rfl hgone

/-- A move takes a task further, or brings a thread without one nearer to its end. -/
theorem decreases (h : Advance role s phase s' phase') :
    s'.work + phase'.work < s.work + phase.work ∨
      s'.work + phase'.work = s.work + phase.work ∧
        s'.unrest + phase'.unrest < s.unrest + phase.unrest := by
  cases h with
  | spawn =>
    right
    refine ⟨rfl, ?_⟩
    show s.unrest + 3 < s.unrest + 5
    omega
  | refuse =>
    right
    refine ⟨rfl, ?_⟩
    show 6 * s.startsDue + 2 * (s.wakesDue + 1) + s.drainsWoken + 0 <
      6 * s.startsDue + 2 * s.wakesDue + s.drainsWoken + 5
    omega
  | take hlooks _ htake =>
    obtain ⟨task, rest, hwaiting, rfl⟩ := take_eq_some_iff.mp htake
    left
    rw [Shared.work, Shared.work, hwaiting]
    show 8 * rest.length + s.broadcastsDue + 7 <
      8 * (rest.length + 1) + s.broadcastsDue + phase.work
    omega
  | leave hlooks =>
    right
    rcases looks_cases hlooks with rfl | rfl | rfl | rfl <;>
      exact ⟨rfl, Nat.lt_add_of_pos_right (Nat.succ_pos _)⟩
  | park hlooks _ _ hphase =>
    right
    rcases looks_cases hlooks with rfl | rfl | rfl | rfl
    · exact ⟨rfl, Nat.lt_succ_self (s.unrest + 2)⟩
    · exact ⟨rfl, Nat.lt_succ_self (s.unrest + 2)⟩
    · exact ⟨rfl, Nat.lt_succ_self (s.unrest + 2)⟩
    · exact absurd rfl hphase
  | expire =>
    right
    exact ⟨rfl, Nat.lt_succ_self (s.unrest + 1)⟩
  | run _ hfinish =>
    obtain ⟨task, _, rfl⟩ := finish_eq_some_iff.mp hfinish
    left
    exact Nat.lt_succ_self (s.work + 6)
  | note =>
    left
    exact Nat.lt_succ_self (s.work + 5)
  | count =>
    left
    exact Nat.lt_succ_self (s.work + 4)
  | release =>
    left
    exact Nat.lt_succ_self (s.work + 3)
  | notice =>
    left
    exact Nat.lt_succ_self (s.work + 2)
  | pass | tell =>
    left
    rcases next_cases (α := α) role with hnext | hnext <;> rw [hnext] <;>
      exact Nat.lt_add_of_pos_right (Nat.succ_pos _)

end Advance

namespace Pool

/-! ### Rest -/

/-- What is left to do for tasks. -/
def work (p : Pool α) : Nat := p.toShared.work + total Phase.work p.threads

/-- What is left to do before threads without a task are gone. -/
def unrest (p : Pool α) : Nat := p.toShared.unrest + total Phase.unrest p.threads

theorem work_mk (s : Shared α) (threads : Multiset (Thread α)) :
    work ⟨s, threads⟩ = s.work + total Phase.work threads := rfl

theorem unrest_mk (s : Shared α) (threads : Multiset (Thread α)) :
    unrest ⟨s, threads⟩ = s.unrest + total Phase.unrest threads := rfl

/-- Each move leaves less to do. -/
theorem Works.decreases {p p' : Pool α} (h : Works p p') :
    p'.work < p.work ∨ p'.work = p.work ∧ p'.unrest < p.unrest := by
  cases h with
  | @thread role s s' phase phase' rest hmove =>
    have hmove := hmove.decreases
    rw [work_mk, work_mk, unrest_mk, unrest_mk, total_cons, total_cons, total_cons, total_cons]
    show s'.work + (phase'.work + _) < s.work + (phase.work + _) ∨
      s'.work + (phase'.work + _) = s.work + (phase.work + _) ∧
        s'.unrest + (phase'.unrest + _) < s.unrest + (phase.unrest + _)
    omega
  | @start s threads due hdue =>
    right
    rw [work_mk, work_mk, unrest_mk, unrest_mk, total_cons, total_cons, Shared.unrest,
      Shared.unrest, hdue]
    refine ⟨congrArg (s.work + ·) (Nat.zero_add _), ?_⟩
    show 6 * due + 2 * s.wakesDue + s.drainsWoken + (5 + total Phase.unrest threads) <
      6 * (due + 1) + 2 * s.wakesDue + s.drainsWoken + total Phase.unrest threads
    omega
  | @wake role s rest due hdue =>
    right
    rw [work_mk, work_mk, unrest_mk, unrest_mk, total_cons, total_cons, total_cons, total_cons,
      Shared.unrest, Shared.unrest, hdue]
    refine ⟨rfl, ?_⟩
    show 6 * s.startsDue + 2 * due + s.drainsWoken + (3 + total Phase.unrest rest) <
      6 * s.startsDue + 2 * (due + 1) + s.drainsWoken + (2 + total Phase.unrest rest)
    omega
  | @wakeNone s threads due hdue _ =>
    right
    rw [unrest_mk, unrest_mk, Shared.unrest, Shared.unrest, hdue]
    refine ⟨rfl, ?_⟩
    show 6 * s.startsDue + 2 * due + s.drainsWoken + total Phase.unrest threads <
      6 * s.startsDue + 2 * (due + 1) + s.drainsWoken + total Phase.unrest threads
    omega
  | @wakeAll s threads due hdue =>
    left
    rw [work_mk, work_mk, total_wake rfl, Shared.work, Shared.work, hdue]
    show 8 * s.queue.waiting.length + due + total Phase.work threads <
      8 * s.queue.waiting.length + (due + 1) + total Phase.work threads
    omega
  | @drainReturns s threads woken hwoken _ _ | @drainParks s threads woken hwoken _ =>
    right
    rw [unrest_mk, unrest_mk, Shared.unrest, Shared.unrest, hwoken]
    refine ⟨rfl, ?_⟩
    show 6 * s.startsDue + 2 * s.wakesDue + woken + total Phase.unrest threads <
      6 * s.startsDue + 2 * s.wakesDue + (woken + 1) + total Phase.unrest threads
    omega

/-- All tasks have been run, no drain waits, and after the shutdown all threads are gone. -/
structure AtRest (p : Pool α) : Prop where
  ended : p.queue.ended.Perm (submissions p.log)
  drains : p.drainsParked = 0 ∧ p.drainsWoken = 0
  gone : p.queue.isShutDown = true → ∀ t ∈ p.threads, t.phase = .gone

/-- However moves are made, after some of them a pool is of some kind. -/
inductive Inevitable (P : Pool α → Prop) : Pool α → Prop
  | now {p} (h : P p) : Inevitable P p
  | later {p} (hmove : ∃ p', Works p p') (h : ∀ p', Works p p' → Inevitable P p') : Inevitable P p

section Rest

variable {workers : Nat} {p : Pool α}

/-- At rest, threads sleep or are gone. -/
theorem parked_or_gone_of_rest (hbalanced : p.Balanced) (hrest : ¬ ∃ p', Works p p') :
    ∀ t ∈ p.threads, t.phase = .parked ∨ t.phase = .gone := by
  intro t ht
  by_contra hawake
  obtain ⟨hparked, hgone⟩ := not_or.mp hawake
  obtain ⟨rest, hthreads⟩ := Multiset.exists_cons_of_mem ht
  have hheld : ∀ task, t.phase = .holding task → task ∈ p.queue.running := by
    intro task hphase
    have hmem : task ∈ held p.threads := by
      rw [hthreads, held_cons, hphase]
      exact Multiset.mem_add.mpr (.inl (Multiset.mem_singleton_self task))
    rw [hbalanced.held] at hmem
    exact hmem
  obtain ⟨s', phase', hmove⟩ :=
    Advance.exists_of_awake t.role p.toShared t.phase hheld hparked hgone
  refine hrest ⟨⟨s', ⟨t.role, phase'⟩ ::ₘ rest⟩, ?_⟩
  have hpool : p = ⟨p.toShared, ⟨t.role, t.phase⟩ ::ₘ rest⟩ := by
    rw [← hthreads]
  rw [hpool]
  exact .thread rest hmove

/-- At rest, callers are left with nothing to do. -/
theorem nothing_due_of_rest (hrest : ¬ ∃ p', Works p p') :
    p.startsDue = 0 ∧ p.wakesDue = 0 ∧ p.broadcastsDue = 0 ∧ p.drainsWoken = 0 := by
  refine ⟨?_, ?_, ?_, ?_⟩
  · cases hdue : p.startsDue with
    | zero => rfl
    | succ due => exact absurd ⟨_, .start hdue⟩ hrest
  · cases hdue : p.wakesDue with
    | zero => rfl
    | succ due =>
      by_cases hnone : ∀ t ∈ p.threads, t.phase ≠ .parked
      · exact absurd ⟨_, .wakeNone hdue hnone⟩ hrest
      · obtain ⟨t, ht, hparked⟩ := not_forall₂.mp hnone
        obtain ⟨rest, hthreads⟩ := Multiset.exists_cons_of_mem ht
        have hpool : p = ⟨p.toShared, ⟨t.role, .parked⟩ ::ₘ rest⟩ := by
          rw [← not_not.mp hparked, ← hthreads]
        rw [hpool] at hrest
        exact absurd ⟨_, .wake rest hdue⟩ hrest
  · cases hdue : p.broadcastsDue with
    | zero => rfl
    | succ due => exact absurd ⟨_, .wakeAll hdue⟩ hrest
  · cases hwoken : p.drainsWoken with
    | zero => rfl
    | succ woken =>
      by_cases hidle : p.depth = 0 ∧ p.active = 0
      · exact absurd ⟨_, .drainReturns hwoken hidle.1 hidle.2⟩ hrest
      · exact absurd ⟨_, .drainParks hwoken (not_and_or.mp hidle)⟩ hrest

/-- At rest, no task waits. -/
theorem waiting_eq_nil_of_rest (h : Reached workers p) (hrest : ¬ ∃ p', Works p p') :
    p.queue.waiting = [] := by
  have hasleep := parked_or_gone_of_rest h.balanced hrest
  obtain ⟨hstarts, hwakes, _, _⟩ := nothing_due_of_rest hrest
  have hcomes : count Phase.comes p.threads = 0 := by
    refine count_eq_zero_iff.mpr fun t ht => ?_
    rcases hasleep t ht with hphase | hphase <;> rw [hphase] <;> rfl
  by_cases hparked : count Phase.isParked p.threads = 0
  · -- All threads are gone, so also the workers that would stay for a waiting task.
    by_contra hsome
    rcases h.attended.stays (.inr hsome) with hworkers | ⟨phase, hmem, hphase⟩
    · have hnone := h.queue.accounts.workers_eq.symm.trans hworkers
      exact hsome (h.queue.accounts.inOrder hnone).2.2
    · rcases hasleep _ hmem with hsleeps | hgone
      · exact count_isParked_eq_zero.mp hparked _ hmem hsleeps
      · exact hphase hgone
  · have hrescued := h.attended.rescued hparked
    rw [hcomes, hstarts, hwakes] at hrescued
    exact List.eq_nil_of_length_eq_zero (Nat.le_zero.mp hrescued)

/-- A pool that cannot move has run its tasks. -/
theorem Reached.atRest (h : Reached workers p) (hrest : ¬ ∃ p', Works p p') : p.AtRest := by
  have hasleep := parked_or_gone_of_rest h.balanced hrest
  have hwaiting := waiting_eq_nil_of_rest h hrest
  obtain ⟨_, _, hbroadcasts, hwoken⟩ := nothing_due_of_rest hrest
  have hactive : count Phase.isActive p.threads = 0 := by
    refine count_eq_zero_iff.mpr fun t ht => ?_
    rcases hasleep t ht with hphase | hphase <;> rw [hphase] <;> rfl
  have htells : count Phase.tells p.threads = 0 := by
    refine count_eq_zero_iff.mpr fun t ht => ?_
    rcases hasleep t ht with hphase | hphase <;> rw [hphase] <;> rfl
  have hrunning : p.queue.running = [] := by
    have hheld := h.balanced.held
    rw [held_eq_zero hactive] at hheld
    exact (Multiset.coe_eq_zero _).mp hheld.symm
  refine ⟨?_, ⟨?_, hwoken⟩, ?_⟩
  · exact h.queue.accounts.ended_perm (isDrained_iff.mpr ⟨hwaiting, hrunning⟩)
  · by_contra hparked
    rcases h.attended.told hparked with hdepth | hbusy | htelling
    · rw [h.balanced.depth, hwaiting] at hdepth
      exact hdepth rfl
    · exact hbusy (h.balanced.active.trans hactive)
    · exact htelling htells
  · intro hshutDown t ht
    have hnone := (h.attended.broadcast hshutDown).resolve_left fun hdue => hdue hbroadcasts
    exact (hasleep t ht).resolve_left (count_isParked_eq_zero.mp hnone t ht)

end Rest

/-- All ways to go on lead to a pool at rest. -/
theorem Reached.inevitable {workers : Nat} {p : Pool α} (h : Reached workers p) :
    Inevitable AtRest p := by
  by_cases hmove : ∃ p', Works p p'
  · exact .later hmove fun p' hworks => (h.works hworks).inevitable
  · exact .now (h.atRest hmove)
termination_by (p.work, p.unrest)
decreasing_by exact Prod.lex_def.mpr hworks.decreases

/-! ### What a delivery queue guarantees -/

/-- Each submitted task is run once, and after a drain the counters say so. -/
structure RunsEachOnce (workers : Nat) (p : Pool α) : Prop where
  /-- A submitted task was run, is to be run by a thread, or waits, and only one of these. -/
  once : (p.queue.ended : Multiset (Task α)) + held p.threads +
    (p.queue.waiting : Multiset (Task α)) = (submissions p.log : Multiset (Task α))
  /-- However threads go on, all tasks are run. -/
  inevitable : Inevitable AtRest p
  /-- Tasks are run by the caller when there are no workers, and only then. -/
  answers : ∀ task how, .submitted task how ∈ p.log → (how = .inline ↔ workers = 0)
  /-- What the caller runs has been run when the call returns, in the order of the calls. -/
  inOrder : workers = 0 → p.queue.ended = submissions p.log
  /-- A task that comes after the shutdown gets a thread of its own. -/
  late : workers ≠ 0 → p.queue.isShutDown = true → ∀ task : Task α,
    (p.submit task).2.threads = ⟨.late, .holding task⟩ ::ₘ p.threads
  /-- A drain has returned, and nothing was submitted since. -/
  counters : drainsLast p.log = true →
    p.depth = 0 ∧ p.active = 0 ∧ p.completed = (submissions p.log).length ∧
      p.panicked = (submissions p.log).countP (·.panics) ∧
      p.inlineRuns = if workers = 0 then (submissions p.log).length else 0
  /-- The queue behind the threads makes its own steps only. -/
  queue : DeliveryQueue.Reached workers p.log p.queue

section Counters

variable {workers : Nat} {p : Pool α}

theorem Reached.once (h : Reached workers p) :
    (p.queue.ended : Multiset (Task α)) + held p.threads + (p.queue.waiting : Multiset (Task α)) =
      (submissions p.log : Multiset (Task α)) := by
  rw [h.balanced.held, Multiset.coe_add, Multiset.coe_add, List.append_assoc]
  exact Multiset.coe_eq_coe.mpr h.queue.accounts.accepted

/-- When no task is active, nothing is left to be counted. -/
theorem count_eq_zero_of_isActive {kind : Phase α → Bool} {threads : Multiset (Thread α)}
    (hkind : ∀ phase, kind phase = true → phase.isActive = true)
    (h : count Phase.isActive threads = 0) : count kind threads = 0 := by
  refine count_eq_zero_iff.mpr fun t ht => Bool.eq_false_iff.mpr fun hcounts => ?_
  have hidle := count_eq_zero_iff.mp h t ht
  rw [hkind _ hcounts] at hidle
  exact Bool.false_ne_true hidle.symm

theorem isActive_of_isUncounted (phase : Phase α) (h : phase.isUncounted = true) :
    phase.isActive = true := by
  cases phase with
  | ran | noted => rfl
  | _ => exact nomatch h

theorem isActive_of_isUnnoted (phase : Phase α) (h : phase.isUnnoted = true) :
    phase.isActive = true := by
  cases phase with
  | ran => rfl
  | _ => exact nomatch h

theorem Reached.counters (h : Reached workers p) (hlast : drainsLast p.log = true) :
    p.depth = 0 ∧ p.active = 0 ∧ p.completed = (submissions p.log).length ∧
      p.panicked = (submissions p.log).countP (·.panics) ∧
      p.inlineRuns = if workers = 0 then (submissions p.log).length else 0 := by
  obtain ⟨hdepth, hactive⟩ := h.balanced.drained hlast
  have haccounts := h.queue.accounts
  have hended := haccounts.ended_perm (haccounts.drained hlast)
  have hnone := h.balanced.active.symm.trans hactive
  refine ⟨hdepth, hactive, ?_, ?_, h.balanced.inlineRuns.trans haccounts.inlineRuns⟩
  · calc p.completed
      _ = p.queue.completed := by
        rw [h.balanced.completed, count_eq_zero_of_isActive isActive_of_isUncounted hnone,
          Nat.add_zero]
      _ = p.queue.ended.length := haccounts.completed
      _ = (submissions p.log).length := hended.length_eq
  · calc p.panicked
      _ = p.queue.panicked := by
        rw [h.balanced.panicked, count_eq_zero_of_isActive isActive_of_isUnnoted hnone,
          Nat.add_zero]
      _ = p.queue.ended.countP (·.panics) := haccounts.panicked
      _ = (submissions p.log).countP (·.panics) := hended.countP_eq _

end Counters

/-- Whatever callers do, and in whatever order threads make their moves, a delivery queue runs each
submitted task once. -/
theorem runs_each_once {workers : Nat} {p : Pool α} (h : Reached workers p) :
    p.RunsEachOnce workers where
  once := h.once
  inevitable := h.inevitable
  answers := h.queue.accounts.answers
  inOrder := fun hworkers => (h.queue.accounts.inOrder hworkers).1
  late := by
    intro hworkers hshutDown task
    have hsome : p.queue.workers ≠ 0 := h.queue.accounts.workers_eq ▸ hworkers
    have hsubmit : (p.submit task).2 = (p.accept task).runDetached task :=
      (if_neg hsome).trans (if_pos hshutDown)
    rw [hsubmit]
    rfl
  counters := h.counters
  queue := h.queue

/-- A worker runs a task that fails, and a drain returns. -/
theorem runs_each_once_failure : ∃ p : Pool Unit, Reached 1 p ∧ drainsLast p.log = true ∧
    p.completed = 1 ∧ p.panicked = 1 ∧ p.inlineRuns = 0 := by
  have hsubmitted : Reached 1 ((create 1).submit ⟨(), true⟩).2 := .submit _ .create
  have hholding := hsubmitted.works (.thread 0 (.take rfl rfl rfl))
  have hran := hholding.works (.thread 0 (.run (i := 0) rfl rfl))
  have hcounted := (hran.works (.thread 0 .note)).works (.thread 0 .count)
  have hreleased := (hcounted.works (.thread 0 .release)).works (.thread 0 (.notice rfl))
  have hdrained := (hreleased.works (.thread 0 .tell)).drain
  obtain ⟨_, _, hcompleted, hpanicked, hinline⟩ := (runs_each_once hdrained).counters rfl
  exact ⟨_, hdrained, rfl, hcompleted, hpanicked, hinline⟩

end Pool
end DocWatch.DeliveryQueue
