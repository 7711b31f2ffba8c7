import DocWatch.Proofs.DeliveryQueue.Threads

/-!
# The counters of a delivery queue beside its threads

A counter of a pool and the threads that are about to change it are always right together. A task
stays active until it is counted, so when nothing waits and nothing is active, nothing is left to be
counted either, and a drain that returns at that moment shows callers what the queue itself knows.

- `Advance.active`, `Advance.completed`, `Advance.held`: one move, counter by counter.
- `Pool.Balanced`, `Pool.Reached.balanced`: all counters, after every run.
- `Pool.Reached.queue`: the queue behind a pool makes its own steps only.
-/

namespace DocWatch.DeliveryQueue

variable {α : Type}

/-! ### Moves of a thread -/

theorem looks_cases {phase : Phase α} (h : phase.looks = true) :
    phase = .starting ∨ phase = .searching ∨ phase = .woken ∨ phase = .expired := by
  cases phase with
  | starting => exact .inl rfl
  | searching => exact .inr (.inl rfl)
  | woken => exact .inr (.inr (.inl rfl))
  | expired => exact .inr (.inr (.inr rfl))
  | _ => exact nomatch h

theorem next_cases (role : Role) :
    (role.next : Phase α) = .searching ∨ (role.next : Phase α) = .gone := by
  cases role with
  | core | extra => exact .inl rfl
  | late => exact .inr rfl

theorem ite_eq_toNat (b : Bool) : (if b then 1 else 0) = b.toNat := by
  cases b <;> rfl

namespace Advance

variable {role : Role} {s s' : Shared α} {phase phase' : Phase α} {others : Nat}

theorem depth (h : Advance role s phase s' phase') (hs : s.depth = s.queue.waiting.length) :
    s'.depth = s'.queue.waiting.length := by
  cases h with
  | take _ _ htake =>
    obtain ⟨task, rest, hwaiting, rfl⟩ := take_eq_some_iff.mp htake
    show s.depth - 1 = rest.length
    rw [hs, hwaiting]
    rfl
  | run _ hfinish =>
    obtain ⟨task, _, rfl⟩ := finish_eq_some_iff.mp hfinish
    exact hs
  | _ => exact hs

theorem active (h : Advance role s phase s' phase')
    (hs : s.active = phase.isActive.toNat + others) :
    s'.active = phase'.isActive.toNat + others := by
  cases h with
  | take hlooks =>
    have hs : s.active = 0 + others := by
      rcases looks_cases hlooks with rfl | rfl | rfl | rfl <;> exact hs
    show s.active + 1 = 1 + others
    omega
  | leave hlooks | park hlooks =>
    rcases looks_cases hlooks with rfl | rfl | rfl | rfl <;> exact hs
  | release =>
    have hs : s.active = 1 + others := hs
    show s.active - 1 = 0 + others
    omega
  | pass | tell =>
    rcases next_cases (α := α) role with hnext | hnext <;> rw [hnext] <;> exact hs
  | _ => exact hs

theorem idle (h : Advance role s phase s' phase') (hs : s.idle = phase.isIdle.toNat + others) :
    s'.idle = phase'.isIdle.toNat + others := by
  cases h with
  | take | leave =>
    show s.idle - phase.isIdle.toNat = 0 + others
    omega
  | park =>
    show s.idle - phase.isIdle.toNat + 1 = 1 + others
    omega
  | pass | tell =>
    rcases next_cases (α := α) role with hnext | hnext <;> rw [hnext] <;> exact hs
  | _ => exact hs

theorem starting (h : Advance role s phase s' phase')
    (hs : s.starting = phase.isStarting.toNat + others) :
    s'.starting = phase'.isStarting.toNat + others := by
  cases h with
  | take | leave | park =>
    show s.starting - phase.isStarting.toNat = 0 + others
    omega
  | refuse =>
    have hs : s.starting = 1 + others := hs
    show s.starting - 1 = 0 + others
    omega
  | pass | tell =>
    rcases next_cases (α := α) role with hnext | hnext <;> rw [hnext] <;> exact hs
  | _ => exact hs

theorem completed (h : Advance role s phase s' phase')
    (hs : s.queue.completed = s.completed + (phase.isUncounted.toNat + others)) :
    s'.queue.completed = s'.completed + (phase'.isUncounted.toNat + others) := by
  cases h with
  | take hlooks _ htake =>
    obtain ⟨task, rest, _, rfl⟩ := take_eq_some_iff.mp htake
    rcases looks_cases hlooks with rfl | rfl | rfl | rfl <;> exact hs
  | leave hlooks | park hlooks =>
    rcases looks_cases hlooks with rfl | rfl | rfl | rfl <;> exact hs
  | run _ hfinish =>
    obtain ⟨task, _, rfl⟩ := finish_eq_some_iff.mp hfinish
    have hs : s.queue.completed = s.completed + (0 + others) := hs
    show s.queue.completed + 1 = s.completed + (1 + others)
    omega
  | count =>
    have hs : s.queue.completed = s.completed + (1 + others) := hs
    show s.queue.completed = s.completed + 1 + (0 + others)
    omega
  | pass | tell =>
    rcases next_cases (α := α) role with hnext | hnext <;> rw [hnext] <;> exact hs
  | _ => exact hs

theorem panicked (h : Advance role s phase s' phase')
    (hs : s.queue.panicked = s.panicked + (phase.isUnnoted.toNat + others)) :
    s'.queue.panicked = s'.panicked + (phase'.isUnnoted.toNat + others) := by
  cases h with
  | take hlooks _ htake =>
    obtain ⟨task, rest, _, rfl⟩ := take_eq_some_iff.mp htake
    rcases looks_cases hlooks with rfl | rfl | rfl | rfl <;> exact hs
  | leave hlooks | park hlooks =>
    rcases looks_cases hlooks with rfl | rfl | rfl | rfl <;> exact hs
  | @run _ _ task _ _ hget hfinish =>
    obtain ⟨task', hget', rfl⟩ := finish_eq_some_iff.mp hfinish
    obtain rfl : task = task' := Option.some.inj (hget.symm.trans hget')
    have hs : s.queue.panicked = s.panicked + (0 + others) := hs
    show s.queue.panicked + (if task.panics then 1 else 0) =
      s.panicked + (task.panics.toNat + others)
    rw [ite_eq_toNat]
    omega
  | @note _ _ task =>
    have hs : s.queue.panicked = s.panicked + (task.panics.toNat + others) := hs
    show s.queue.panicked = s.panicked + (if task.panics then 1 else 0) + (0 + others)
    rw [ite_eq_toNat]
    omega
  | pass | tell =>
    rcases next_cases (α := α) role with hnext | hnext <;> rw [hnext] <;> exact hs
  | _ => exact hs

theorem inlineRuns (h : Advance role s phase s' phase') (hs : s.inlineRuns = s.queue.inlineRuns) :
    s'.inlineRuns = s'.queue.inlineRuns := by
  cases h with
  | take _ _ htake =>
    obtain ⟨task, rest, _, rfl⟩ := take_eq_some_iff.mp htake
    exact hs
  | run _ hfinish =>
    obtain ⟨task, _, rfl⟩ := finish_eq_some_iff.mp hfinish
    exact hs
  | _ => exact hs

/-- A move neither submits nor drains. -/
theorem log (h : Advance role s phase s' phase') : s'.log = s.log := by
  cases h with
  | _ => rfl

theorem held {m : Multiset (Task α)} (h : Advance role s phase s' phase')
    (hs : phase.tasks + m = (s.queue.running : Multiset (Task α))) :
    phase'.tasks + m = (s'.queue.running : Multiset (Task α)) := by
  cases h with
  | @take _ _ _ task _ hlooks hhead htake =>
    obtain ⟨task', rest, hwaiting, rfl⟩ := take_eq_some_iff.mp htake
    rw [hwaiting] at hhead
    obtain rfl : task' = task := Option.some.inj hhead
    have hs : 0 + m = (s.queue.running : Multiset (Task α)) := by
      rcases looks_cases hlooks with rfl | rfl | rfl | rfl <;> exact hs
    show {task'} + m = ((s.queue.running ++ [task'] : List (Task α)) : Multiset (Task α))
    rw [← Multiset.coe_add, ← hs, zero_add, add_comm]
    rfl
  | leave hlooks | park hlooks =>
    rcases looks_cases hlooks with rfl | rfl | rfl | rfl <;> exact hs
  | @run _ _ task _ i hget hfinish =>
    obtain ⟨task', hget', rfl⟩ := finish_eq_some_iff.mp hfinish
    obtain ⟨hi, htask⟩ := List.getElem?_eq_some_iff.mp hget
    have herase : {task} + ((s.queue.running.eraseIdx i : List (Task α)) : Multiset (Task α)) =
        (s.queue.running : Multiset (Task α)) := by
      rw [← htask]
      exact Multiset.coe_eq_coe.mpr (List.getElem_cons_eraseIdx_perm hi)
    show 0 + m = ((s.queue.running.eraseIdx i : List (Task α)) : Multiset (Task α))
    rw [zero_add]
    exact add_left_cancel (hs.trans herase.symm)
  | pass | tell =>
    rcases next_cases (α := α) role with hnext | hnext <;> rw [hnext] <;> exact hs
  | _ => exact hs

/-- A move with nothing waiting and nothing active leaves it so. -/
theorem drained (h : Advance role s phase s' phase') (hdepth : s.depth = s.queue.waiting.length)
    (hs : s.depth = 0 ∧ s.active = 0) : s'.depth = 0 ∧ s'.active = 0 := by
  cases h with
  | take _ _ htake =>
    obtain ⟨task, rest, hwaiting, rfl⟩ := take_eq_some_iff.mp htake
    rw [hwaiting, hs.1] at hdepth
    exact absurd hdepth.symm (Nat.succ_ne_zero _)
  | release =>
    show s.depth = 0 ∧ s.active - 1 = 0
    omega
  | _ => exact hs

end Advance

/-! ### Pools -/

/-- A thread with a task to run is active. -/
theorem held_eq_zero {threads : Multiset (Thread α)} (h : count Phase.isActive threads = 0) :
    held threads = 0 := by
  induction threads using Multiset.induction_on with
  | empty => rfl
  | cons t threads ih =>
    rw [count_cons] at h
    rw [held_cons, ih (by omega), add_zero]
    cases hphase : t.phase with
    | holding task =>
      rw [hphase] at h
      have h : 1 + count Phase.isActive threads = 0 := h
      omega
    | _ => rfl

/-- Waking threads keeps a count that takes parked and woken ones alike. -/
theorem count_wake {kind : Phase α → Bool} (h : kind .parked = kind .woken)
    (threads : Multiset (Thread α)) :
    count kind (threads.map fun t => ⟨t.role, t.phase.wake⟩) = count kind threads := by
  induction threads using Multiset.induction_on with
  | empty => rfl
  | cons t threads ih =>
    rw [Multiset.map_cons, count_cons, count_cons, ih]
    cases hphase : t.phase with
    | parked =>
      show (kind .woken).toNat + _ = _
      rw [h]
    | _ => rfl

theorem count_woken {kind : Phase α → Bool} (h : kind .parked = kind .woken) (role : Role)
    (rest : Multiset (Thread α)) :
    count kind (⟨role, .woken⟩ ::ₘ rest) = count kind (⟨role, .parked⟩ ::ₘ rest) := by
  rw [count_cons, count_cons, h]

theorem held_wake (threads : Multiset (Thread α)) :
    held (threads.map fun t => ⟨t.role, t.phase.wake⟩) = held threads := by
  induction threads using Multiset.induction_on with
  | empty => rfl
  | cons t threads ih =>
    rw [Multiset.map_cons, held_cons, held_cons, ih]
    cases hphase : t.phase with
    | _ => rfl

namespace Pool

/-- Every counter is right together with the threads that are about to change it. -/
structure Balanced (p : Pool α) : Prop where
  depth : p.depth = p.queue.waiting.length
  active : p.active = count Phase.isActive p.threads
  idle : p.idle = count Phase.isIdle p.threads
  starting : p.starting = count Phase.isStarting p.threads
  completed : p.queue.completed = p.completed + count Phase.isUncounted p.threads
  panicked : p.queue.panicked = p.panicked + count Phase.isUnnoted p.threads
  inlineRuns : p.inlineRuns = p.queue.inlineRuns
  held : held p.threads = p.queue.running
  /-- After a drain nothing waits and nothing is active, until the next submission. -/
  drained : drainsLast p.log = true → p.depth = 0 ∧ p.active = 0

namespace Balanced

variable {p p' : Pool α}

theorem create (workers : Nat) : (Pool.create workers : Pool α).Balanced := by
  have hcount (kind : Phase α → Bool) : count kind (Pool.create workers : Pool α).threads =
      (kind .starting).toNat * workers := by
    show count kind (Multiset.replicate workers ⟨.core, .starting⟩) = _
    induction workers with
    | zero => rfl
    | succ workers ih => rw [Multiset.replicate_succ, count_cons, ih, Nat.mul_succ, Nat.add_comm]
  have hnone (kind : Phase α → Bool) (hkind : kind .starting = false) :
      count kind (Pool.create workers : Pool α).threads = 0 := by
    rw [hcount, hkind]
    exact Nat.zero_mul _
  exact {
    depth := rfl
    active := (hnone Phase.isActive rfl).symm
    idle := (hnone Phase.isIdle rfl).symm
    starting := by
      rw [hcount]
      exact (Nat.one_mul _).symm
    completed := by
      rw [hnone Phase.isUncounted rfl]
      rfl
    panicked := by
      rw [hnone Phase.isUnnoted rfl]
      rfl
    inlineRuns := rfl
    held := held_eq_zero (hnone Phase.isActive rfl)
    drained := fun hlast => absurd hlast Bool.false_ne_true }

theorem runInline (h : p.Balanced) (task : Task α) (hworkers : p.queue.workers = 0) :
    ((p.accept task).runInline task).Balanced := by
  rw [accept, submit_of_noWorkers hworkers]
  exact {
    depth := h.depth
    active := h.active
    idle := h.idle
    starting := h.starting
    completed := by
      show p.queue.completed + 1 = p.completed + 1 + count Phase.isUncounted p.threads
      rw [h.completed, Nat.add_right_comm]
    panicked := by
      show p.queue.panicked + _ = p.panicked + _ + count Phase.isUnnoted p.threads
      rw [h.panicked, Nat.add_right_comm]
    inlineRuns := congrArg (· + 1) h.inlineRuns
    held := h.held
    drained := fun hlast => (not_drainsLast_submitted _ _ _ hlast).elim }

theorem runDetached (h : p.Balanced) (task : Task α) (hworkers : p.queue.workers ≠ 0)
    (hshutDown : p.queue.isShutDown = true) : ((p.accept task).runDetached task).Balanced := by
  rw [accept, submit_of_shutDown hworkers hshutDown]
  exact {
    depth := h.depth
    active := by
      show p.active + 1 = count Phase.isActive (_ ::ₘ p.threads)
      rw [count_cons, h.active, Nat.add_comm]
      rfl
    idle := h.idle.trans (count_cons_of_false rfl p.threads).symm
    starting := h.starting.trans (count_cons_of_false rfl p.threads).symm
    completed := by
      show p.queue.completed = p.completed + count Phase.isUncounted (_ ::ₘ p.threads)
      rw [count_cons_of_false rfl]
      exact h.completed
    panicked := by
      show p.queue.panicked = p.panicked + count Phase.isUnnoted (_ ::ₘ p.threads)
      rw [count_cons_of_false rfl]
      exact h.panicked
    inlineRuns := h.inlineRuns
    held := by
      show DeliveryQueue.held (_ ::ₘ p.threads) =
        ((p.queue.running ++ [task] : List (Task α)) : Multiset (Task α))
      rw [held_cons, h.held, add_comm, ← Multiset.coe_add]
      rfl
    drained := fun hlast => (not_drainsLast_submitted _ _ _ hlast).elim }

theorem callWorker (h : p.Balanced) (task : Task α) (hworkers : p.queue.workers ≠ 0)
    (hopen : p.queue.isShutDown = false) : (p.accept task).callWorker.Balanced := by
  unfold Pool.callWorker
  rw [accept, submit_of_open hworkers hopen]
  have hdepth : p.depth + 1 = (p.queue.waiting ++ [task]).length := by
    rw [h.depth, List.length_append]
    rfl
  split <;> exact {
    depth := hdepth
    active := h.active
    idle := h.idle
    starting := h.starting
    completed := h.completed
    panicked := h.panicked
    inlineRuns := h.inlineRuns
    held := h.held
    drained := fun hlast => (not_drainsLast_submitted _ _ _ hlast).elim }

theorem submit (h : p.Balanced) (task : Task α) : (p.submit task).2.Balanced := by
  rcases submit_cases task p with
    ⟨hworkers, hsubmit⟩ | ⟨hworkers, hshutDown, hsubmit⟩ | ⟨hworkers, hopen, hsubmit⟩
  · rw [hsubmit]
    exact h.runInline task hworkers
  · rw [hsubmit]
    exact h.runDetached task hworkers hshutDown
  · rw [hsubmit]
    exact h.callWorker task hworkers hopen

theorem shutDown (h : p.Balanced) : p.shutDown.Balanced :=
  { h with
    drained := by
      show drainsLast (p.log ++ [.shutDown]) = true → _
      rw [drainsLast_append]
      exact h.drained }

theorem drain (h : p.Balanced) : p.drain.Balanced := by
  unfold Pool.drain
  split
  · rename_i hzero
    exact { h with drained := fun _ => hzero }
  · exact { h with }

theorem thread {role : Role} {s s' : Shared α} {phase phase' : Phase α}
    {rest : Multiset (Thread α)} (h : Balanced ⟨s, ⟨role, phase⟩ ::ₘ rest⟩)
    (hmove : Advance role s phase s' phase') : Balanced ⟨s', ⟨role, phase'⟩ ::ₘ rest⟩ where
  depth := hmove.depth h.depth
  active := by
    have hactive := h.active
    rw [count_cons] at hactive ⊢
    exact hmove.active hactive
  idle := by
    have hidle := h.idle
    rw [count_cons] at hidle ⊢
    exact hmove.idle hidle
  starting := by
    have hstarting := h.starting
    rw [count_cons] at hstarting ⊢
    exact hmove.starting hstarting
  completed := by
    have hcompleted := h.completed
    rw [count_cons] at hcompleted ⊢
    exact hmove.completed hcompleted
  panicked := by
    have hpanicked := h.panicked
    rw [count_cons] at hpanicked ⊢
    exact hmove.panicked hpanicked
  inlineRuns := hmove.inlineRuns h.inlineRuns
  held := (held_cons ..).trans (hmove.held ((held_cons ..).symm.trans h.held))
  drained := by
    show drainsLast s'.log = true → _
    rw [hmove.log]
    exact fun hlast => hmove.drained h.depth (h.drained hlast)

theorem start {s : Shared α} {threads : Multiset (Thread α)} (h : Balanced ⟨s, threads⟩) :
    Balanced ⟨{ s with starting := s.starting + 1 }, ⟨.extra, .spawning⟩ ::ₘ threads⟩ where
  depth := h.depth
  active := h.active.trans (count_cons_of_false rfl threads).symm
  idle := h.idle.trans (count_cons_of_false rfl threads).symm
  starting := by
    show s.starting + 1 = _
    rw [count_cons, Nat.add_comm]
    exact congrArg (1 + ·) h.starting
  completed := by
    rw [count_cons_of_false rfl]
    exact h.completed
  panicked := by
    rw [count_cons_of_false rfl]
    exact h.panicked
  inlineRuns := h.inlineRuns
  held := ((held_cons ..).trans (zero_add _)).trans h.held
  drained := h.drained

/-- Waking threads changes no counter. -/
theorem woken {s : Shared α} {threads threads' : Multiset (Thread α)} (h : Balanced ⟨s, threads⟩)
    (hcount : ∀ kind : Phase α → Bool, kind .parked = kind .woken →
      count kind threads' = count kind threads)
    (hheld : DeliveryQueue.held threads' = DeliveryQueue.held threads) :
    Balanced ⟨s, threads'⟩ where
  depth := h.depth
  active := h.active.trans (hcount Phase.isActive rfl).symm
  idle := h.idle.trans (hcount Phase.isIdle rfl).symm
  starting := h.starting.trans (hcount Phase.isStarting rfl).symm
  completed := h.completed.trans (congrArg (s.completed + ·) (hcount Phase.isUncounted rfl).symm)
  panicked := h.panicked.trans (congrArg (s.panicked + ·) (hcount Phase.isUnnoted rfl).symm)
  inlineRuns := h.inlineRuns
  held := hheld.trans h.held
  drained := h.drained

theorem works (h : p.Balanced) (hworks : p.Works p') : p'.Balanced := by
  cases hworks with
  | thread rest hmove => exact h.thread hmove
  | start hdue => exact { h.start with }
  | @wake role s rest due hdue =>
    have hwoken : Balanced ⟨s, ⟨role, .woken⟩ ::ₘ rest⟩ :=
      h.woken (fun kind hkind => count_woken hkind role rest)
        ((held_cons ..).trans (held_cons ⟨role, .parked⟩ rest).symm)
    exact { hwoken with }
  | wakeNone hdue hnone => exact { h with }
  | wakeAll hdue =>
    have hwoken := h.woken (fun kind hkind => count_wake hkind _) (held_wake _)
    exact { hwoken with }
  | drainReturns hwoken hdepth hactive => exact { h with drained := fun _ => ⟨hdepth, hactive⟩ }
  | drainParks hwoken hbusy => exact { h with }

end Balanced

/-- The counters are balanced in every run. -/
theorem Reached.balanced {workers : Nat} {p : Pool α} (h : Reached workers p) : p.Balanced := by
  induction h with
  | create => exact .create workers
  | submit task _ ih => exact ih.submit task
  | shutDown _ ih => exact ih.shutDown
  | drain _ ih => exact ih.drain
  | works _ hworks ih => exact ih.works hworks

theorem callWorker_log (p : Pool α) : p.callWorker.log = p.log := by
  unfold callWorker
  split <;> rfl

theorem callWorker_queue (p : Pool α) : p.callWorker.queue = p.queue := by
  unfold callWorker
  split <;> rfl

theorem submit_log (task : Task α) (p : Pool α) :
    (p.submit task).2.log = p.log ++ [.submitted task (p.queue.submit task).1] := by
  rcases submit_cases task p with ⟨_, hsubmit⟩ | ⟨_, _, hsubmit⟩ | ⟨_, _, hsubmit⟩
  · rw [hsubmit]
    rfl
  · rw [hsubmit]
    rfl
  · rw [hsubmit, callWorker_log]
    rfl

theorem submit_queue (task : Task α) (p : Pool α) :
    (p.submit task).2.queue = (p.queue.submit task).2 := by
  rcases submit_cases task p with ⟨_, hsubmit⟩ | ⟨_, _, hsubmit⟩ | ⟨_, _, hsubmit⟩
  · rw [hsubmit]
    rfl
  · rw [hsubmit]
    rfl
  · rw [hsubmit, callWorker_queue]
    rfl

/-- A drain returns when all tasks have ended. -/
theorem Balanced.isDrained {p : Pool α} (h : p.Balanced) (hdepth : p.depth = 0)
    (hactive : p.active = 0) : p.queue.isDrained = true := by
  have hheld := held_eq_zero (h.active.symm.trans hactive)
  have hrunning : (p.queue.running : Multiset (Task α)) = 0 := h.held.symm.trans hheld
  exact isDrained_iff.mpr ⟨List.eq_nil_of_length_eq_zero (h.depth.symm.trans hdepth),
    Multiset.coe_eq_zero _ |>.mp hrunning⟩

/-- Behind a pool is a queue that makes its own steps only. -/
theorem Reached.queue {workers : Nat} {p : Pool α} (h : Reached workers p) :
    DeliveryQueue.Reached workers p.log p.queue := by
  induction h with
  | create => exact .create
  | submit task _ ih =>
    rw [submit_log, submit_queue]
    exact ih.submit task
  | shutDown _ ih => exact ih.shutDown
  | @drain p hp ih =>
    unfold Pool.drain
    split
    · rename_i hzero
      exact ih.drain (hp.balanced.isDrained hzero.1 hzero.2)
    · exact ih
  | @works p p' hp hworks ih =>
    cases hworks with
    | thread rest hmove =>
      cases hmove with
      | take _ _ htake => exact ih.take htake
      | run _ hfinish => exact ih.finish hfinish
      | _ => exact ih
    | drainReturns _ hdepth hactive => exact ih.drain (hp.balanced.isDrained hdepth hactive)
    | _ => exact ih

end Pool

end DocWatch.DeliveryQueue
