import DocWatch.Proofs.DeliveryQueue.Balance

/-!
# Nothing that waits is forgotten

No wake-up gets lost. As long as a worker sleeps, every waiting task has a worker that looks for
one or is about to be called. Workers that stay do so until the queue is shut down and empty, and
the shutdown wakes all that sleep. As long as a drain sleeps, there is a task to run, or a thread
that is about to wake the drain.

- `Advance.rescued`, `Advance.stays`, `Advance.told`: one move of a thread.
- `Pool.Attended`, `Pool.Reached.attended`: what waits is attended to, in every run.
-/

namespace DocWatch.DeliveryQueue

variable {α : Type}

namespace Phase

def isParked : Phase α → Bool
  | .parked => true
  | _ => false

/-- Looks for a task without being woken. -/
def comes : Phase α → Bool
  | .spawning | .starting | .searching | .woken | .expired => true
  | _ => false

/-- About to look whether drains are to be woken. -/
def tells : Phase α → Bool
  | .released last => last
  | .telling => true
  | _ => false

end Phase

/-! ### Moves of a thread -/

namespace Advance

variable {role : Role} {s s' : Shared α} {phase phase' : Phase α}

theorem isShutDown (h : Advance role s phase s' phase') :
    s'.queue.isShutDown = s.queue.isShutDown := by
  cases h with
  | take _ _ htake =>
    obtain ⟨task, rest, _, rfl⟩ := take_eq_some_iff.mp htake
    rfl
  | run _ hfinish =>
    obtain ⟨task, _, rfl⟩ := finish_eq_some_iff.mp hfinish
    rfl
  | _ => rfl

theorem workers (h : Advance role s phase s' phase') : s'.queue.workers = s.queue.workers := by
  cases h with
  | take _ _ htake =>
    obtain ⟨task, rest, _, rfl⟩ := take_eq_some_iff.mp htake
    rfl
  | run _ hfinish =>
    obtain ⟨task, _, rfl⟩ := finish_eq_some_iff.mp hfinish
    rfl
  | _ => rfl

/-- While a worker sleeps, a move leaves no waiting task without a worker to come. -/
theorem rescued {sleeping coming : Nat} (h : Advance role s phase s' phase')
    (hs : phase.isParked.toNat + sleeping ≠ 0 →
      s.queue.waiting.length ≤ phase.comes.toNat + coming + s.startsDue + s.wakesDue)
    (hsleeping : phase'.isParked.toNat + sleeping ≠ 0) :
    s'.queue.waiting.length ≤ phase'.comes.toNat + coming + s'.startsDue + s'.wakesDue := by
  cases h with
  | take hlooks _ htake =>
    obtain ⟨task, rest, hwaiting, rfl⟩ := take_eq_some_iff.mp htake
    rw [hwaiting] at hs
    have hs : 0 + sleeping ≠ 0 → rest.length + 1 ≤ 1 + coming + s.startsDue + s.wakesDue := by
      rcases looks_cases hlooks with rfl | rfl | rfl | rfl <;> exact hs
    have hs := hs hsleeping
    show rest.length ≤ 0 + coming + s.startsDue + s.wakesDue
    omega
  | leave _ hwaiting | park _ hwaiting =>
    show s.queue.waiting.length ≤ _
    rw [hwaiting]
    exact Nat.zero_le _
  | refuse =>
    have hs : s.queue.waiting.length ≤ 1 + coming + s.startsDue + s.wakesDue := hs hsleeping
    show s.queue.waiting.length ≤ 0 + coming + s.startsDue + (s.wakesDue + 1)
    omega
  | expire =>
    have hs : s.queue.waiting.length ≤ 0 + coming + s.startsDue + s.wakesDue := by
      refine hs ?_
      show 1 + sleeping ≠ 0
      omega
    show s.queue.waiting.length ≤ 1 + coming + s.startsDue + s.wakesDue
    omega
  | run _ hfinish =>
    obtain ⟨task, _, rfl⟩ := finish_eq_some_iff.mp hfinish
    exact hs hsleeping
  | pass | tell =>
    rcases next_cases (α := α) role with hnext | hnext <;> rw [hnext] at hsleeping ⊢
    · have hs : s.queue.waiting.length ≤ 0 + coming + s.startsDue + s.wakesDue := hs hsleeping
      show s.queue.waiting.length ≤ 1 + coming + s.startsDue + s.wakesDue
      omega
    · exact hs hsleeping
  | _ => exact hs hsleeping

/-- A worker that stays goes only when the queue is shut down and empty. -/
theorem stays (h : Advance .core s phase s' phase') (hexpired : phase ≠ .expired)
    (hs' : s'.queue.isShutDown = false ∨ s'.queue.waiting ≠ []) : phase' ≠ .gone := by
  cases h with
  | leave _ hwaiting hleave =>
    rcases hleave with hshutDown | hphase
    · rcases hs' with hopen | hsome
      · exact absurd (hshutDown.symm.trans hopen) (Bool.false_ne_true ∘ Eq.symm)
      · exact absurd hwaiting hsome
    · exact absurd hphase hexpired
  | _ => nofun

/-- Moves take tasks away only. -/
theorem waiting_ne_nil (h : Advance role s phase s' phase') (hs' : s'.queue.waiting ≠ []) :
    s.queue.waiting ≠ [] := by
  cases h with
  | take _ _ htake =>
    obtain ⟨task, rest, hwaiting, rfl⟩ := take_eq_some_iff.mp htake
    rw [hwaiting]
    exact List.cons_ne_nil _ _
  | run _ hfinish =>
    obtain ⟨task, _, rfl⟩ := finish_eq_some_iff.mp hfinish
    exact hs'
  | _ => exact hs'

/-- Only a worker beyond those that stay gives up waiting. -/
theorem expires (h : Advance role s phase s' phase') (hphase : phase' = .expired) :
    role = .extra := by
  cases h with
  | expire => rfl
  | pass | tell =>
    rcases next_cases (α := α) role with hnext | hnext <;> rw [hnext] at hphase <;>
      exact nomatch hphase
  | _ => exact nomatch hphase

/-- After the shutdown no worker goes to sleep. -/
theorem broadcast {sleeping : Nat} (h : Advance role s phase s' phase')
    (hs : s.queue.isShutDown = true → s.broadcastsDue ≠ 0 ∨ phase.isParked.toNat + sleeping = 0)
    (hs' : s'.queue.isShutDown = true) :
    s'.broadcastsDue ≠ 0 ∨ phase'.isParked.toNat + sleeping = 0 := by
  rw [h.isShutDown] at hs'
  cases h with
  | take hlooks | leave hlooks =>
    rcases looks_cases hlooks with rfl | rfl | rfl | rfl <;> exact hs hs'
  | park _ _ hopen => exact absurd (hopen.symm.trans hs') Bool.false_ne_true
  | expire =>
    have hs : s.broadcastsDue ≠ 0 ∨ 1 + sleeping = 0 := hs hs'
    exact hs.imp_right fun hnone => by omega
  | pass | tell =>
    rcases next_cases (α := α) role with hnext | hnext <;> rw [hnext] <;> exact hs hs'
  | _ => exact hs hs'

/-- As long as a drain sleeps, something is to be run or a thread is about to wake it. -/
theorem told {others telling : Nat} (h : Advance role s phase s' phase')
    (hactive : s.active = phase.isActive.toNat + others)
    (hs : s.drainsParked ≠ 0 → s.depth ≠ 0 ∨ s.active ≠ 0 ∨ phase.tells.toNat + telling ≠ 0)
    (hs' : s'.drainsParked ≠ 0) :
    s'.depth ≠ 0 ∨ s'.active ≠ 0 ∨ phase'.tells.toNat + telling ≠ 0 := by
  cases h with
  | take => exact .inr (.inl (Nat.succ_ne_zero _))
  | leave hlooks | park hlooks =>
    rcases looks_cases hlooks with rfl | rfl | rfl | rfl <;> exact hs hs'
  | release =>
    have hactive : s.active = 1 + others := hactive
    by_cases hlast : s.active = 1
    · refine .inr (.inr ?_)
      rw [hlast]
      show 1 + telling ≠ 0
      omega
    · refine .inr (.inl ?_)
      show s.active - 1 ≠ 0
      omega
  | @pass _ _ last hpass =>
    rcases hpass with rfl | hdepth
    · rcases next_cases (α := α) role with hnext | hnext <;> rw [hnext] <;> exact hs hs'
    · exact .inl hdepth
  | notice => exact hs hs'
  | tell => exact absurd rfl hs'
  | _ => exact hs hs'

end Advance

/-! ### Pools -/

theorem count_eq_zero_iff {kind : Phase α → Bool} {threads : Multiset (Thread α)} :
    count kind threads = 0 ↔ ∀ t ∈ threads, kind t.phase = false := by
  rw [count, Multiset.countP_eq_zero]
  exact forall₂_congr fun _ _ => iff_of_eq (Bool.not_eq_true _)

theorem isParked_eq_false {phase : Phase α} : phase.isParked = false ↔ phase ≠ .parked := by
  cases phase with
  | parked => exact iff_of_false nofun fun h => h rfl
  | _ => exact iff_of_true rfl nofun

theorem wake_ne_parked (phase : Phase α) : phase.wake ≠ .parked := by
  cases phase with
  | _ => nofun

theorem wake_eq_gone {phase : Phase α} : phase.wake = .gone ↔ phase = .gone := by
  cases phase with
  | parked => exact iff_of_false nofun nofun
  | _ => exact Iff.rfl

theorem wake_eq_expired {phase : Phase α} : phase.wake = .expired ↔ phase = .expired := by
  cases phase with
  | parked => exact iff_of_false nofun nofun
  | _ => exact Iff.rfl

theorem count_isParked_eq_zero {threads : Multiset (Thread α)} :
    count Phase.isParked threads = 0 ↔ ∀ t ∈ threads, t.phase ≠ .parked :=
  count_eq_zero_iff.trans (forall₂_congr fun _ _ => isParked_eq_false)

namespace Pool

/-- What waits is attended to. -/
structure Attended (p : Pool α) : Prop where
  /-- While a worker sleeps, each waiting task has a worker that comes or is about to be called. -/
  rescued : count Phase.isParked p.threads ≠ 0 →
    p.queue.waiting.length ≤ count Phase.comes p.threads + p.startsDue + p.wakesDue
  /-- A worker stays as long as a task waits or may still come. -/
  stays : p.queue.isShutDown = false ∨ p.queue.waiting ≠ [] →
    p.queue.workers = 0 ∨ ∃ phase, ⟨.core, phase⟩ ∈ p.threads ∧ phase ≠ .gone
  expires : ∀ t ∈ p.threads, t.phase = .expired → t.role = .extra
  /-- After the shutdown all sleeping workers are woken. -/
  broadcast : p.queue.isShutDown = true →
    p.broadcastsDue ≠ 0 ∨ count Phase.isParked p.threads = 0
  /-- While a drain sleeps, there is a task to run or a thread that is about to wake the drain. -/
  told : p.drainsParked ≠ 0 → p.depth ≠ 0 ∨ p.active ≠ 0 ∨ count Phase.tells p.threads ≠ 0

namespace Attended

variable {p p' : Pool α}

theorem create (workers : Nat) : (Pool.create workers : Pool α).Attended where
  rescued := fun _ => Nat.zero_le _
  stays := by
    intro _
    cases workers with
    | zero => exact .inl rfl
    | succ workers =>
      refine .inr ⟨.starting, ?_, nofun⟩
      exact Multiset.mem_replicate.mpr ⟨Nat.succ_ne_zero _, rfl⟩
  expires := by
    intro t ht hphase
    rw [Multiset.eq_of_mem_replicate ht] at hphase
    exact nomatch hphase
  broadcast := fun hshutDown => absurd hshutDown Bool.false_ne_true
  told := fun hparked => absurd rfl hparked

/-- A worker that stays is still there when a thread is started. -/
theorem stays_cons {nobody : Prop} {t : Thread α} {threads : Multiset (Thread α)}
    (h : nobody ∨ ∃ phase, ⟨.core, phase⟩ ∈ threads ∧ phase ≠ .gone) :
    nobody ∨ ∃ phase, ⟨.core, phase⟩ ∈ t ::ₘ threads ∧ phase ≠ .gone := by
  rcases h with hnobody | ⟨phase, hmem, hphase⟩
  · exact .inl hnobody
  · exact .inr ⟨phase, Multiset.mem_cons_of_mem hmem, hphase⟩

theorem runInline (h : p.Attended) (task : Task α) (hworkers : p.queue.workers = 0) :
    ((p.accept task).runInline task).Attended := by
  rw [accept, submit_of_noWorkers hworkers]
  exact { h with }

theorem runDetached (h : p.Attended) (task : Task α) (hworkers : p.queue.workers ≠ 0)
    (hshutDown : p.queue.isShutDown = true) : ((p.accept task).runDetached task).Attended := by
  rw [accept, submit_of_shutDown hworkers hshutDown]
  exact {
    rescued := by
      show count Phase.isParked (_ ::ₘ p.threads) ≠ 0 →
        p.queue.waiting.length ≤ count Phase.comes (_ ::ₘ p.threads) + _ + _
      rw [count_cons_of_false rfl, count_cons_of_false rfl]
      exact h.rescued
    stays := fun hmore => stays_cons (h.stays hmore)
    expires := by
      intro t ht hphase
      rcases Multiset.mem_cons.mp ht with rfl | hmem
      · cases hphase
      · exact h.expires t hmem hphase
    broadcast := by
      show _ → _ ∨ count Phase.isParked (_ ::ₘ p.threads) = 0
      rw [count_cons_of_false rfl]
      exact h.broadcast
    told := fun _ => .inr (.inl (Nat.succ_ne_zero _)) }

theorem callWorker (h : p.Attended) (task : Task α) (hworkers : p.queue.workers ≠ 0)
    (hopen : p.queue.isShutDown = false) : (p.accept task).callWorker.Attended := by
  unfold Pool.callWorker
  rw [accept, submit_of_open hworkers hopen]
  have hrescued (hsleeping : count Phase.isParked p.threads ≠ 0) :
      (p.queue.waiting ++ [task]).length ≤
        count Phase.comes p.threads + p.startsDue + p.wakesDue + 1 := by
    rw [List.length_append]
    exact Nat.succ_le_succ (h.rescued hsleeping)
  split
  · exact { h with
      rescued := by
        intro hsleeping
        have hrescued := hrescued hsleeping
        show (p.queue.waiting ++ [task]).length ≤
          count Phase.comes p.threads + (p.startsDue + 1) + p.wakesDue
        omega
      stays := fun _ => h.stays (.inl hopen)
      told := fun _ => .inl (Nat.succ_ne_zero _) }
  · exact { h with
      rescued := hrescued
      stays := fun _ => h.stays (.inl hopen)
      told := fun _ => .inl (Nat.succ_ne_zero _) }

theorem submit (h : p.Attended) (task : Task α) : (p.submit task).2.Attended := by
  rcases submit_cases task p with
    ⟨hworkers, hsubmit⟩ | ⟨hworkers, hshutDown, hsubmit⟩ | ⟨hworkers, hopen, hsubmit⟩
  · rw [hsubmit]
    exact h.runInline task hworkers
  · rw [hsubmit]
    exact h.runDetached task hworkers hshutDown
  · rw [hsubmit]
    exact h.callWorker task hworkers hopen

theorem shutDown (h : p.Attended) : p.shutDown.Attended :=
  { h with
    stays := fun hmore => h.stays (.inr (hmore.resolve_left (Bool.false_ne_true ∘ Eq.symm)))
    broadcast := fun _ => .inl (Nat.succ_ne_zero _) }

theorem drain (h : p.Attended) : p.drain.Attended := by
  unfold Pool.drain
  split
  · exact { h with }
  · rename_i hbusy
    exact { h with
      told := fun _ => (not_and_or.mp hbusy).imp_right .inl }

theorem thread {role : Role} {s s' : Shared α} {phase phase' : Phase α}
    {rest : Multiset (Thread α)} (h : Attended ⟨s, ⟨role, phase⟩ ::ₘ rest⟩)
    (hbalanced : Balanced ⟨s, ⟨role, phase⟩ ::ₘ rest⟩) (hmove : Advance role s phase s' phase') :
    Attended ⟨s', ⟨role, phase'⟩ ::ₘ rest⟩ where
  rescued := by
    have hrescued := h.rescued
    rw [count_cons, count_cons] at hrescued ⊢
    exact hmove.rescued hrescued
  stays := by
    intro hmore
    have hbefore : s.queue.isShutDown = false ∨ s.queue.waiting ≠ [] :=
      hmore.imp hmove.isShutDown.symm.trans hmove.waiting_ne_nil
    rcases h.stays hbefore with hworkers | ⟨phase'', hmem, hphase⟩
    · exact .inl (hmove.workers.trans hworkers)
    · right
      rcases Multiset.mem_cons.mp hmem with hhead | hrest
      · obtain ⟨rfl, rfl⟩ := Thread.mk.inj hhead
        refine ⟨phase', Multiset.mem_cons_self _ _, hmove.stays ?_ hmore⟩
        intro hexpired
        exact nomatch h.expires _ hmem hexpired
      · exact ⟨phase'', Multiset.mem_cons_of_mem hrest, hphase⟩
  expires := by
    intro t ht hphase
    rcases Multiset.mem_cons.mp ht with rfl | hmem
    · exact hmove.expires hphase
    · exact h.expires t (Multiset.mem_cons_of_mem hmem) hphase
  broadcast := by
    have hbroadcast := h.broadcast
    rw [count_cons] at hbroadcast ⊢
    exact hmove.broadcast hbroadcast
  told := by
    have hactive := hbalanced.active
    have htold := h.told
    rw [count_cons] at hactive htold ⊢
    exact hmove.told hactive htold

section Moves

variable {s : Shared α} {threads : Multiset (Thread α)} {due : Nat}

theorem start (h : Attended ⟨s, threads⟩) (hdue : s.startsDue = due + 1) :
    Attended ⟨{ s with startsDue := due, starting := s.starting + 1 },
      ⟨.extra, .spawning⟩ ::ₘ threads⟩ where
  rescued := by
    have hrescued : count Phase.isParked threads ≠ 0 →
        s.queue.waiting.length ≤ count Phase.comes threads + s.startsDue + s.wakesDue := h.rescued
    rw [count_cons_of_false rfl, count_cons]
    show count Phase.isParked threads ≠ 0 →
      s.queue.waiting.length ≤ 1 + count Phase.comes threads + due + s.wakesDue
    omega
  stays := fun hmore => stays_cons (h.stays hmore)
  expires := by
    intro t ht hphase
    rcases Multiset.mem_cons.mp ht with rfl | hmem
    · rfl
    · exact h.expires t hmem hphase
  broadcast := by
    rw [count_cons_of_false rfl]
    exact h.broadcast
  told := by
    rw [count_cons_of_false rfl]
    exact h.told

theorem wake {role : Role} {rest : Multiset (Thread α)}
    (h : Attended ⟨s, ⟨role, .parked⟩ ::ₘ rest⟩) (hdue : s.wakesDue = due + 1) :
    Attended ⟨{ s with wakesDue := due }, ⟨role, .woken⟩ ::ₘ rest⟩ where
  rescued := by
    have hrescued := h.rescued
    rw [count_cons, count_cons] at hrescued ⊢
    have hrescued : 1 + count Phase.isParked rest ≠ 0 →
      s.queue.waiting.length ≤ 0 + count Phase.comes rest + s.startsDue + s.wakesDue := hrescued
    show _ → s.queue.waiting.length ≤ 1 + count Phase.comes rest + s.startsDue + due
    omega
  stays := by
    intro hmore
    refine (h.stays hmore).imp_right ?_
    rintro ⟨phase, hmem, hphase⟩
    rcases Multiset.mem_cons.mp hmem with hhead | hrest
    · obtain ⟨rfl, rfl⟩ := Thread.mk.inj hhead
      exact ⟨.woken, Multiset.mem_cons_self _ _, nofun⟩
    · exact ⟨phase, Multiset.mem_cons_of_mem hrest, hphase⟩
  expires := by
    intro t ht hphase
    rcases Multiset.mem_cons.mp ht with rfl | hmem
    · exact nomatch hphase
    · exact h.expires t (Multiset.mem_cons_of_mem hmem) hphase
  broadcast := by
    have hbroadcast := h.broadcast
    rw [count_cons] at hbroadcast ⊢
    have hbroadcast : s.queue.isShutDown = true →
      s.broadcastsDue ≠ 0 ∨ 1 + count Phase.isParked rest = 0 := hbroadcast
    exact fun hshutDown => (hbroadcast hshutDown).imp_right fun hnone => by omega
  told := by
    have htold := h.told
    rw [count_cons] at htold ⊢
    exact htold

theorem wakeAll (h : Attended ⟨s, threads⟩) :
    Attended ⟨{ s with broadcastsDue := due }, threads.map fun t => ⟨t.role, t.phase.wake⟩⟩ := by
  have hnone : count Phase.isParked
      (threads.map fun t => (⟨t.role, t.phase.wake⟩ : Thread α)) = 0 := by
    refine count_isParked_eq_zero.mpr fun t ht => ?_
    obtain ⟨t, _, rfl⟩ := Multiset.mem_map.mp ht
    exact wake_ne_parked t.phase
  exact {
    rescued := fun hsleeping => absurd hnone hsleeping
    stays := by
      intro hmore
      refine (h.stays hmore).imp_right ?_
      rintro ⟨phase, hmem, hphase⟩
      exact ⟨phase.wake, Multiset.mem_map_of_mem _ hmem, wake_eq_gone.not.mpr hphase⟩
    expires := by
      intro t ht hphase
      obtain ⟨t, hmem, rfl⟩ := Multiset.mem_map.mp ht
      exact h.expires t hmem (wake_eq_expired.mp hphase)
    broadcast := fun _ => .inr hnone
    told := by
      rw [count_wake rfl]
      exact h.told }

end Moves

theorem works (h : p.Attended) (hbalanced : p.Balanced) (hworks : p.Works p') : p'.Attended := by
  cases hworks with
  | thread rest hmove => exact h.thread hbalanced hmove
  | start hdue => exact h.start hdue
  | wake rest hdue => exact h.wake hdue
  | wakeNone _ hnone =>
    exact { h with
      rescued := fun hsleeping => absurd (count_isParked_eq_zero.mpr hnone) hsleeping }
  | wakeAll _ => exact h.wakeAll
  | drainReturns => exact { h with }
  | drainParks _ hbusy => exact { h with told := fun _ => hbusy.imp_right .inl }

end Attended

theorem Reached.attended {workers : Nat} {p : Pool α} (h : Reached workers p) : p.Attended := by
  induction h with
  | create => exact .create workers
  | submit task _ ih => exact ih.submit task
  | shutDown _ ih => exact ih.shutDown
  | drain _ ih => exact ih.drain
  | works hp hworks ih => exact ih.works hp.balanced hworks

end Pool
end DocWatch.DeliveryQueue
