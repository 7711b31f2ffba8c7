import DocWatch.DeliveryQueue

/-!
# No accepted task is lost

A task that was accepted has ended, is running or is waiting. Submitting adds to these three lists
together, wherever the queue puts the task; settling moves everything to the tasks that have ended.

- `DeliveryQueue.accepted`: all tasks that were ever accepted.
- `DeliveryQueue.submitAll_accepted`: submitting tasks adds them.
- `DeliveryQueue.settle_ended`: when nothing blocks, settling ends all of them.
-/

namespace DocWatch.DeliveryQueue

variable {α : Type}

/-- The tasks that were accepted: those that have ended, then the running and the waiting ones. -/
def accepted (q : DeliveryQueue α) : List (Task α) := q.ended ++ (q.running ++ q.waiting)

/-- Submitting adds one task. -/
theorem submit_accepted (task : Task α) (q : DeliveryQueue α) :
    (q.submit task).2.accepted.Perm (q.accepted ++ [task]) := by
  unfold submit accepted
  split
  · show ((q.ended ++ [task]) ++ (q.running ++ q.waiting)).Perm _
    rw [List.append_assoc, List.append_assoc]
    exact List.Perm.append_left _ List.perm_append_comm
  · split
    · show (q.ended ++ ((q.running ++ [task]) ++ q.waiting)).Perm _
      rw [List.append_assoc q.running, List.append_assoc q.ended, List.append_assoc q.running]
      exact List.Perm.append_left _ (List.Perm.append_left _ List.perm_append_comm)
    · show (q.ended ++ (q.running ++ (q.waiting ++ [task]))).Perm _
      rw [List.append_assoc, List.append_assoc]

/-- Submitting tasks adds them. -/
theorem submitAll_accepted (tasks : List (Task α)) (q : DeliveryQueue α) :
    (submitAll tasks q).2.accepted.Perm (q.accepted ++ tasks) := by
  induction tasks generalizing q with
  | nil =>
    rw [List.append_nil]
    exact List.Perm.refl _
  | cons task rest ih =>
    have hrest := (ih (q.submit task).2).trans ((submit_accepted task q).append_right rest)
    rw [List.append_assoc] at hrest
    exact hrest

/-- Recording tasks appends them to those that have ended. -/
theorem foldl_record_ended (tasks : List (Task α)) (q : DeliveryQueue α) :
    (tasks.foldl (fun q task => q.record task) q).ended = q.ended ++ tasks := by
  induction tasks generalizing q with
  | nil => exact (List.append_nil _).symm
  | cons task rest ih =>
    rw [List.foldl_cons, ih]
    show (q.ended ++ [task]) ++ rest = _
    rw [List.append_assoc]
    rfl

/-- When no task blocks, settling ends every task that was accepted. -/
theorem settle_ended (q : DeliveryQueue α) : (q.settle fun _ => false).ended = q.accepted := by
  unfold settle
  rw [foldl_record_ended]
  show q.ended ++ (q.running ++ q.waiting).filter (fun _ => true) = _
  rw [List.filter_eq_self.mpr fun _ _ => rfl]
  rfl

end DocWatch.DeliveryQueue
