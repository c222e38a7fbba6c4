import Mathlib.Data.List.Basic

/-! `concurrent.futures.Future` and `queue.Queue`: the operations of each, atomic. -/

namespace PrismPipe.Python

universe u v

inductive Future (α : Type u) (ε : Type v)
  | pending
  | running
  | cancelled
  | cancelledAndNotified
  | finished (outcome : Except ε α)

namespace Future

variable {α : Type u} {ε : Type v}

/-- `cancel`: nothing happens to one that runs or is over. -/
def cancel : Future α ε → Future α ε
  | pending => cancelled
  | f => f

/-- `cancelled()`. -/
def isCancelled : Future α ε → Bool
  | cancelled | cancelledAndNotified => true
  | _ => false

/-- What it answers; `none` is "Future in unexpected state". -/
def setRunningOrNotifyCancel : Future α ε → Option (Bool × Future α ε)
  | pending => some (true, running)
  | cancelled => some (false, cancelledAndNotified)
  | _ => none

/-- `set_result` and `set_exception`; `none` is `InvalidStateError`. -/
def set (outcome : Except ε α) : Future α ε → Option (Future α ε)
  | pending | running => some (finished outcome)
  | _ => none

variable {f g : Future α ε}

theorem isCancelled_cancel (h : f.isCancelled = true) : f.cancel.isCancelled = true := by
  cases f <;> first | rfl | cases h

theorem isCancelled_setRunningOrNotifyCancel (h : f.isCancelled = true)
    (hset : f.setRunningOrNotifyCancel = some (b, g)) : g.isCancelled = true := by
  cases f <;> cases hset <;> first | rfl | cases h

theorem isCancelled_set (h : f.isCancelled = true) (hset : f.set outcome = some g) :
    g.isCancelled = true := by
  cases f <;> cases hset <;> cases h

end Future

structure Queue (α : Type u) where
  maxsize : Int
  queue : List α
  unfinishedTasks : Nat

namespace Queue

variable {α : Type u} {q r : Queue α}

/-- `Queue(maxsize)`. -/
def init (maxsize : Int) : Queue α where
  maxsize := maxsize
  queue := []
  unfinishedTasks := 0

/-- `none` is `Full`. -/
def putNowait (q : Queue α) (item : α) : Option (Queue α) :=
  if 0 < q.maxsize ∧ q.maxsize ≤ q.queue.length then none
  else some { q with queue := q.queue ++ [item], unfinishedTasks := q.unfinishedTasks + 1 }

/-- `none` is `Empty`. -/
def getNowait (q : Queue α) : Option (α × Queue α) :=
  match q.queue with
  | [] => none
  | item :: rest => some (item, { q with queue := rest })

/-- `none` is "task_done() called too many times". -/
def taskDone (q : Queue α) : Option (Queue α) :=
  match q.unfinishedTasks with
  | 0 => none
  | n + 1 => some { q with unfinishedTasks := n }

theorem putNowait_eq_some (h : q.putNowait item = some r) :
    ¬(0 < q.maxsize ∧ q.maxsize ≤ q.queue.length) ∧
      r = { q with queue := q.queue ++ [item], unfinishedTasks := q.unfinishedTasks + 1 } := by
  unfold putNowait at h
  split at h
  · cases h
  · exact ⟨‹_›, (Option.some.inj h).symm⟩

theorem getNowait_eq_some (h : q.getNowait = some (item, r)) :
    ∃ rest, q.queue = item :: rest ∧ r = { q with queue := rest } := by
  unfold getNowait at h
  split at h
  · cases h
  · cases h
    exact ⟨_, ‹_›, rfl⟩

theorem getNowait_eq_none (h : q.getNowait = none) : q.queue = [] := by
  unfold getNowait at h
  split at h
  · assumption
  · cases h

theorem taskDone_eq_some (h : q.taskDone = some r) :
    ∃ n, q.unfinishedTasks = n + 1 ∧ r = { q with unfinishedTasks := n } := by
  unfold taskDone at h
  split at h
  · cases h
  · cases h
    exact ⟨_, ‹_›, rfl⟩

theorem taskDone_eq_none (h : q.taskDone = none) : q.unfinishedTasks = 0 := by
  unfold taskDone at h
  split at h
  · assumption
  · cases h

end Queue

end PrismPipe.Python
