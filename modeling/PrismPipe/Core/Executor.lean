import Mathlib.Algebra.GroupWithZero.Nat
import Mathlib.Data.List.Count
import Mathlib.Logic.Function.Basic
import PrismPipe.Lib.Transition
import PrismPipe.Python.Futures

/-! `_BoundedDaemonExecutor`: its submitters, its worker threads, `shutdown`, and the callers that
cancel futures, interleaved.  Submissions are numbered by their futures, as these are made. -/

namespace PrismPipe.Executors

open Python Transition

universe u v

/-- Where a thread of `_threads` is, and the submission it has there. -/
inductive Worker
  | checking
  | getting
  | taken (i : Nat)
  | dropping (i : Nat)
  | starting (i : Nat)
  | running (i : Nat)
  /-- At `task_done`, with an exception on its way or without. -/
  | ending (raised : Bool)
  | exited
  deriving DecidableEq

/-- Who has `_submit_lock`: a `submit` past its check, or a `shutdown`. -/
inductive Holder
  | putting (i : Nat)
  | draining
  | dropping (i : Nat)
  | dropped
  deriving DecidableEq

inductive SubmitError
  /-- "Node execution resources are shut down" -/
  | shutDown
  /-- `NodeExecutionCapacityError`: "Synchronous node execution capacity exhausted" -/
  | capacityExhausted
  deriving DecidableEq

structure BoundedDaemonExecutor (α : Type u) (ε : Type v) where
  work : Queue Nat
  shutdown : Bool
  submitLock : Option Holder
  threads : List Worker
  futures : Nat → Future α ε
  created : Nat
  /-- The submissions whose `submit` put them. -/
  accepted : List Nat
  /-- The submissions whose `submit` raised. -/
  rejected : List (Nat × SubmitError)
  /-- The submissions whose function was called, one entry a call. -/
  called : List Nat
  /-- A `shutdown` returned. -/
  returned : Bool

variable {α : Type u} {ε : Type v}

def Worker.hand : Worker → List Nat
  | taken i | dropping i | starting i => [i]
  | _ => []

def Worker.call : Worker → List Nat
  | running i => [i]
  | _ => []

/-- The `task_done` it owes. -/
def Worker.owes : Worker → Nat
  | taken _ | dropping _ | starting _ | running _ | ending _ => 1
  | _ => 0

def Holder.hand : Holder → List Nat
  | dropping i => [i]
  | _ => []

def Holder.owes : Holder → Nat
  | dropping _ | dropped => 1
  | _ => 0

namespace BoundedDaemonExecutor

/-- `__init__`, with 32 for either by default. -/
def new (maxWorkers maxPending : Int) :
    Except String (BoundedDaemonExecutor α ε) :=
  if maxWorkers ≤ 0 ∨ maxPending ≤ 0 then
    .error "max_workers and max_pending must be positive"
  else
    .ok
      { work := .init maxPending
        shutdown := false
        submitLock := none
        threads := List.replicate maxWorkers.toNat .checking
        futures := fun _ => .pending
        created := 0
        accepted := []
        rejected := []
        called := []
        returned := false }

/-- The submissions taken from the queue, by a worker or a `shutdown`, and not begun. -/
def inHand (s : BoundedDaemonExecutor α ε) : List Nat :=
  s.submitLock.elim [] Holder.hand ++ s.threads.flatMap Worker.hand

def running (s : BoundedDaemonExecutor α ε) : List Nat := s.threads.flatMap Worker.call

/-- The `task_done`s that are owed. -/
def owed (s : BoundedDaemonExecutor α ε) : Nat :=
  s.submitLock.elim 0 Holder.owes + (s.threads.map Worker.owes).sum

def setFuture (s : BoundedDaemonExecutor α ε) (i : Nat) (f : Future α ε) :
    BoundedDaemonExecutor α ε :=
  { s with futures := Function.update s.futures i f }

def cancel (s : BoundedDaemonExecutor α ε) (i : Nat) : BoundedDaemonExecutor α ε :=
  s.setFuture i (s.futures i).cancel

inductive Step : BoundedDaemonExecutor α ε → Unit → BoundedDaemonExecutor α ε → Prop
  /-- `submit` gets the lock and finds the flag set. -/
  | submitShutDown : s.submitLock = none → s.shutdown = true →
      Step s ()
        { s with created := s.created + 1, rejected := s.rejected ++ [(s.created, .shutDown)] }
  | submit : s.submitLock = none → s.shutdown = false →
      Step s () { s with created := s.created + 1, submitLock := some (.putting s.created) }
  | submitFull : s.submitLock = some (.putting i) → s.work.putNowait i = none →
      Step s ()
        { s with submitLock := none, rejected := s.rejected ++ [(i, .capacityExhausted)] }
  | submitted : s.submitLock = some (.putting i) → s.work.putNowait i = some q →
      Step s () { s with submitLock := none, work := q, accepted := s.accepted ++ [i] }
  /-- `shutdown` gets the lock and sets the flag. -/
  | shutdown : s.submitLock = none →
      Step s () { s with submitLock := some .draining, shutdown := true }
  | drain : s.submitLock = some .draining → s.work.getNowait = some (i, q) →
      Step s () { s with submitLock := some (.dropping i), work := q }
  | drop : s.submitLock = some (.dropping i) →
      Step s () { s.cancel i with submitLock := some .dropped }
  | dropped : s.submitLock = some .dropped → s.work.taskDone = some q →
      Step s () { s with submitLock := some .draining, work := q }
  | droppedRaises : s.submitLock = some .dropped → s.work.taskDone = none →
      Step s () { s with submitLock := none }
  /-- What follows, the `join` of the threads, changes nothing. -/
  | shutdownReturns : s.submitLock = some .draining → s.work.getNowait = none →
      Step s () { s with submitLock := none, returned := true }
  | check : s.threads = before ++ .checking :: after →
      Step s ()
        { s with threads := before ++ (if s.shutdown then .exited else .getting) :: after }
  | get : s.threads = before ++ .getting :: after → s.work.getNowait = some (i, q) →
      Step s () { s with threads := before ++ .taken i :: after, work := q }
  | getEmpty : s.threads = before ++ .getting :: after → s.work.getNowait = none →
      Step s () { s with threads := before ++ .checking :: after }
  | look : s.threads = before ++ .taken i :: after →
      Step s ()
        { s with threads := before ++ (if s.shutdown then .dropping i else .starting i) :: after }
  | cancelTaken : s.threads = before ++ .dropping i :: after →
      Step s () { s.cancel i with threads := before ++ .ending false :: after }
  | start : s.threads = before ++ .starting i :: after →
      (s.futures i).setRunningOrNotifyCancel = some (true, f) →
      Step s ()
        { s.setFuture i f with
          threads := before ++ .running i :: after
          called := s.called ++ [i] }
  | notify : s.threads = before ++ .starting i :: after →
      (s.futures i).setRunningOrNotifyCancel = some (false, f) →
      Step s () { s.setFuture i f with threads := before ++ .ending false :: after }
  | startRaises : s.threads = before ++ .starting i :: after →
      (s.futures i).setRunningOrNotifyCancel = none →
      Step s () { s with threads := before ++ .ending true :: after }
  /-- The function returns or raises. -/
  | finish : s.threads = before ++ .running i :: after →
      (s.futures i).set outcome = some f →
      Step s () { s.setFuture i f with threads := before ++ .ending false :: after }
  /-- So does the handler's `set_exception`. -/
  | finishRaises : s.threads = before ++ .running i :: after →
      (s.futures i).set outcome = none →
      Step s () { s with threads := before ++ .ending true :: after }
  | taskDone : s.threads = before ++ .ending raised :: after → s.work.taskDone = some q →
      Step s ()
        { s with
          threads := before ++ (if raised then .exited else .checking) :: after
          work := q }
  | taskDoneRaises : s.threads = before ++ .ending raised :: after → s.work.taskDone = none →
      Step s () { s with threads := before ++ .exited :: after }
  | callerCancels : i ∈ s.accepted → Step s () (s.cancel i)

end BoundedDaemonExecutor

open BoundedDaemonExecutor

variable {s t : BoundedDaemonExecutor α ε}

def executor (α : Type u) (ε : Type v) (maxWorkers maxPending : Int) :
    System (BoundedDaemonExecutor α ε) Unit where
  init s := BoundedDaemonExecutor.new maxWorkers maxPending = .ok s
  step := Step

inductive Life
  | unsubmitted
  | waiting
  | taken
  | running
  | executed
  | dropped
  deriving DecidableEq

/-- One that is `executed` or `dropped` stays so. -/
inductive Life.Next : Life → Life → Prop
  | submit : Next unsubmitted waiting
  | take : Next waiting taken
  | start : Next taken running
  | finish : Next running executed
  | drop : Next taken dropped

def Life.Fits : Life → Future α ε → Prop
  | unsubmitted, f => f = .pending
  | waiting, f | taken, f => f = .pending ∨ f = .cancelled
  | running, f => f = .running
  | executed, f => ∃ outcome, f = .finished outcome
  | dropped, f => f.isCancelled = true

/-- Submission `i` is where its life says. -/
structure BoundedDaemonExecutor.At (s : BoundedDaemonExecutor α ε) (i : Nat) (l : Life) :
    Prop where
  queue : s.work.queue.count i = if l = .waiting then 1 else 0
  inHand : s.inHand.count i = if l = .taken then 1 else 0
  running : s.running.count i = if l = .running then 1 else 0
  called : s.called.count i = if l = .running ∨ l = .executed then 1 else 0
  accepted : i ∈ s.accepted ↔ l ≠ .unsubmitted
  future : l.Fits (s.futures i)

structure BoundedDaemonExecutor.Noted (s : BoundedDaemonExecutor α ε) (i : Nat) : Prop where
  rejected : ∀ e, (i, e) ∈ s.rejected → i ∉ s.accepted ∧ i < s.created
  putting : s.submitLock = some (.putting i) →
    i ∉ s.accepted ∧ i < s.created ∧ ∀ e, (i, e) ∉ s.rejected
  fresh : s.created ≤ i → i ∉ s.accepted

namespace BoundedDaemonExecutor

@[simp, grind =] theorem setFuture_futures (s : BoundedDaemonExecutor α ε) (i j : Nat)
    (f : Future α ε) : (s.setFuture j f).futures i = if i = j then f else s.futures i := by
  simp [setFuture, Function.update_apply]

@[simp, grind =] theorem cancel_futures (s : BoundedDaemonExecutor α ε) (i j : Nat) :
    (s.cancel j).futures i = if i = j then (s.futures i).cancel else s.futures i := by
  by_cases h : i = j <;> simp [cancel, h]

end BoundedDaemonExecutor

theorem Life.Fits.cancel {f : Future α ε} (h : Life.Fits l f) (hl : l ≠ .unsubmitted) :
    l.Fits f.cancel := by
  cases l <;> cases f <;> simp_all [Life.Fits, Future.cancel, Future.isCancelled]

theorem Life.Fits.dropped {f : Future α ε} (h : taken.Fits f) : Life.dropped.Fits f.cancel := by
  rcases h with rfl | rfl <;> rfl

theorem Life.Fits.start {f g : Future α ε} (h : taken.Fits f)
    (hset : f.setRunningOrNotifyCancel = some (b, g)) :
    (if b then Life.running else .dropped).Fits g := by
  rcases h with rfl | rfl <;> cases hset <;> rfl

theorem Life.Fits.start_ne_none {f : Future α ε} (h : taken.Fits f) :
    f.setRunningOrNotifyCancel ≠ none := by
  rcases h with rfl | rfl <;> exact Option.some_ne_none _

theorem Life.Fits.finish {f g : Future α ε} (h : running.Fits f) (hset : f.set outcome = some g) :
    executed.Fits g := by
  cases h
  cases hset
  exact ⟨_, rfl⟩

theorem Life.Fits.set_ne_none {f : Future α ε} (h : running.Fits f) : f.set outcome ≠ none := by
  cases h
  exact Option.some_ne_none _

section

attribute [local grind =] Worker.hand Worker.call Holder.hand BoundedDaemonExecutor.inHand
  BoundedDaemonExecutor.running BoundedDaemonExecutor.cancel BoundedDaemonExecutor.setFuture
  List.flatMap_append List.flatMap_cons List.count_append List.count_cons

theorem BoundedDaemonExecutor.Step.noted (st : Step s () t) (h : s.Noted i) : t.Noted i := by
  obtain ⟨hrejected, hputting, hfresh⟩ := h
  cases st <;> constructor <;> grind

theorem BoundedDaemonExecutor.Step.life (st : Step s () t) (hnoted : s.Noted i) (h : s.At i l) :
    ∃ l', (l' = l ∨ l.Next l') ∧ t.At i l' := by
  obtain ⟨hqueue, hhand, hrunning, hcalled, haccepted, hfuture⟩ := h
  cases st with
  | @submitted q _ j hlock hput =>
    obtain ⟨-, rfl⟩ := Queue.putNowait_eq_some hput
    by_cases hj : j = i
    · subst hj
      obtain rfl : l = .unsubmitted := by
        by_contra hl
        exact (hnoted.putting hlock).1 (haccepted.mpr hl)
      exact ⟨.waiting, .inr .submit, by constructor <;> grind [Life.Fits]⟩
    · exact ⟨l, .inl rfl, by constructor <;> grind⟩
  | @drain j q _ hlock hget | @get before after j q _ hthreads hget =>
    obtain ⟨rest, hq, rfl⟩ := Queue.getNowait_eq_some hget
    by_cases hj : j = i
    · subst hj
      obtain rfl : l = .waiting := by grind
      exact ⟨.taken, .inr .take, by constructor <;> grind [Life.Fits]⟩
    · exact ⟨l, .inl rfl, by constructor <;> grind⟩
  | @drop _ j hlock | @cancelTaken _ before after j hthreads =>
    by_cases hj : j = i
    · subst hj
      obtain rfl : l = .taken := by grind
      have := hfuture.dropped
      exact ⟨.dropped, .inr .drop, by constructor <;> grind⟩
    · exact ⟨l, .inl rfl, by constructor <;> grind⟩
  | @start f before after _ j hthreads hset =>
    by_cases hj : j = i
    · subst hj
      obtain rfl : l = .taken := by grind
      have := hfuture.start hset
      exact ⟨.running, .inr .start, by constructor <;> grind⟩
    · exact ⟨l, .inl rfl, by constructor <;> grind⟩
  | @notify f before after _ j hthreads hset =>
    by_cases hj : j = i
    · subst hj
      obtain rfl : l = .taken := by grind
      have := hfuture.start hset
      exact ⟨.dropped, .inr .drop, by constructor <;> grind⟩
    · exact ⟨l, .inl rfl, by constructor <;> grind⟩
  | @startRaises before after _ j hthreads hset =>
    by_cases hj : j = i
    · subst hj
      obtain rfl : l = .taken := by grind
      exact absurd hset hfuture.start_ne_none
    · exact ⟨l, .inl rfl, by constructor <;> grind⟩
  | @finish before after f _ j outcome hthreads hset =>
    by_cases hj : j = i
    · subst hj
      obtain rfl : l = .running := by grind
      have := hfuture.finish hset
      exact ⟨.executed, .inr .finish, by constructor <;> grind⟩
    · exact ⟨l, .inl rfl, by constructor <;> grind⟩
  | @finishRaises before after _ j outcome hthreads hset =>
    by_cases hj : j = i
    · subst hj
      obtain rfl : l = .running := by grind
      exact absurd hset hfuture.set_ne_none
    · exact ⟨l, .inl rfl, by constructor <;> grind⟩
  | dropped hlock hdone | taskDone hthreads hdone =>
    obtain ⟨n, hn, rfl⟩ := Queue.taskDone_eq_some hdone
    exact ⟨l, .inl rfl, by constructor <;> grind⟩
  | @callerCancels j hj =>
    have := fun hl => hfuture.cancel (l := l) hl
    exact ⟨l, .inl rfl, by constructor <;> grind⟩
  -- The others move no submission and touch no future.
  | _ => exact ⟨l, .inl rfl, by constructor <;> grind⟩

end

theorem new_eq_ok (h : BoundedDaemonExecutor.new maxWorkers maxPending = .ok s) :
    0 < maxWorkers ∧ 0 < maxPending ∧ s =
      { work := .init maxPending
        shutdown := false
        submitLock := none
        threads := List.replicate maxWorkers.toNat .checking
        futures := fun _ => .pending
        created := 0
        accepted := []
        rejected := []
        called := []
        returned := false } := by
  unfold BoundedDaemonExecutor.new at h
  split at h
  · cases h
  · cases h
    exact ⟨by omega, by omega, rfl⟩

theorem new_at (h : BoundedDaemonExecutor.new maxWorkers maxPending = .ok s) (i : Nat) :
    s.At i .unsubmitted := by
  obtain ⟨-, -, rfl⟩ := new_eq_ok h
  constructor <;> simp [Queue.init, BoundedDaemonExecutor.inHand, BoundedDaemonExecutor.running,
    Life.Fits, List.flatMap_replicate, Worker.hand, Worker.call]

theorem noted (hs : Reachable (executor α ε maxWorkers maxPending) s) (i : Nat) : s.Noted i := by
  induction hs with
  | init h =>
    obtain ⟨-, -, rfl⟩ := new_eq_ok h
    constructor <;> simp
  | step _ st ih => exact st.noted ih

theorem exists_life (hs : Reachable (executor α ε maxWorkers maxPending) s) (i : Nat) :
    ∃ l, s.At i l := by
  induction hs with
  | init h =>
    exact ⟨.unsubmitted, new_at h i⟩
  | step hs st ih =>
    obtain ⟨l, hl⟩ := ih
    obtain ⟨l', -, hl'⟩ := st.life (noted hs i) hl
    exact ⟨l', hl'⟩

structure BoundedDaemonExecutor.Kept (s : BoundedDaemonExecutor α ε)
    (maxWorkers maxPending : Int) : Prop where
  threads : s.threads.length = maxWorkers.toNat
  maxsize : s.work.maxsize = maxPending
  bounded : s.work.queue.length ≤ maxPending
  unfinished : s.work.unfinishedTasks = s.work.queue.length + s.owed
  holder : ∀ h, s.submitLock = some h → (s.shutdown = true ↔ ∀ i, h ≠ .putting i)
  returned : s.returned = true → s.shutdown = true ∧ s.work.queue = []

section

attribute [local grind =] Worker.owes Holder.owes BoundedDaemonExecutor.owed
  BoundedDaemonExecutor.cancel BoundedDaemonExecutor.setFuture List.map_append List.map_cons
  List.sum_append List.sum_cons List.length_append List.length_cons

namespace BoundedDaemonExecutor.Step

theorem length_threads (st : Step s () t) : t.threads.length = s.threads.length := by
  cases st <;> simp_all [setFuture, cancel]

theorem maxsize (st : Step s () t) : t.work.maxsize = s.work.maxsize := by
  cases st with
  | submitted hlock hput =>
    obtain ⟨-, rfl⟩ := Queue.putNowait_eq_some hput
    rfl
  | drain hlock hget | get hthread hget =>
    obtain ⟨rest, hq, rfl⟩ := Queue.getNowait_eq_some hget
    rfl
  | dropped hlock hdone | taskDone hthread hdone =>
    obtain ⟨n, hn, rfl⟩ := Queue.taskDone_eq_some hdone
    rfl
  | _ => rfl

theorem length_queue (st : Step s () t) (hpos : 0 < s.work.maxsize)
    (h : s.work.queue.length ≤ s.work.maxsize) : t.work.queue.length ≤ s.work.maxsize := by
  cases st with
  | submitted hlock hput =>
    obtain ⟨hfree, rfl⟩ := Queue.putNowait_eq_some hput
    simp only [List.length_append, List.length_singleton]
    omega
  | drain hlock hget | get hthread hget =>
    obtain ⟨rest, hq, rfl⟩ := Queue.getNowait_eq_some hget
    rw [hq, List.length_cons] at h
    change (rest.length : Int) ≤ _
    omega
  | dropped hlock hdone | taskDone hthread hdone =>
    obtain ⟨n, hn, rfl⟩ := Queue.taskDone_eq_some hdone
    exact h
  | _ => exact h

theorem unfinished (st : Step s () t)
    (h : s.work.unfinishedTasks = s.work.queue.length + s.owed) :
    t.work.unfinishedTasks = t.work.queue.length + t.owed := by
  cases st with
  | submitted hlock hput =>
    obtain ⟨-, rfl⟩ := Queue.putNowait_eq_some hput
    grind
  | drain hlock hget | get hthread hget =>
    obtain ⟨rest, hq, rfl⟩ := Queue.getNowait_eq_some hget
    grind
  | dropped hlock hdone | taskDone hthread hdone =>
    obtain ⟨n, hn, rfl⟩ := Queue.taskDone_eq_some hdone
    grind
  | droppedRaises hlock hdone | taskDoneRaises hthread hdone =>
    have := Queue.taskDone_eq_none hdone
    grind
  | _ => grind

theorem holder (st : Step s () t)
    (h : ∀ h, s.submitLock = some h → (s.shutdown = true ↔ ∀ i, h ≠ .putting i)) :
    ∀ h, t.submitLock = some h → (t.shutdown = true ↔ ∀ i, h ≠ .putting i) := by
  cases st <;> grind

theorem returned (st : Step s () t)
    (hholder : ∀ h, s.submitLock = some h → (s.shutdown = true ↔ ∀ i, h ≠ .putting i))
    (h : s.returned = true → s.shutdown = true ∧ s.work.queue = []) :
    t.returned = true → t.shutdown = true ∧ t.work.queue = [] := by
  cases st with
  | drain hlock hget | get hthread hget =>
    obtain ⟨rest, hq, rfl⟩ := Queue.getNowait_eq_some hget
    grind
  | dropped hlock hdone | taskDone hthread hdone =>
    obtain ⟨n, hn, rfl⟩ := Queue.taskDone_eq_some hdone
    exact h
  | shutdownReturns hlock hget =>
    have := Queue.getNowait_eq_none hget
    grind
  | _ => grind

theorem kept (hpos : 0 < maxPending) (h : s.Kept maxWorkers maxPending) (st : Step s () t) :
    t.Kept maxWorkers maxPending where
  threads := st.length_threads.trans h.threads
  maxsize := st.maxsize.trans h.maxsize
  bounded := by
    have := st.length_queue (h.maxsize ▸ hpos) (h.maxsize ▸ h.bounded)
    rwa [h.maxsize] at this
  unfinished := st.unfinished h.unfinished
  holder := st.holder h.holder
  returned := st.returned h.holder h.returned

end BoundedDaemonExecutor.Step

end

theorem new_kept (h : BoundedDaemonExecutor.new maxWorkers maxPending = .ok s) :
    s.Kept maxWorkers maxPending := by
  obtain ⟨-, hpos, rfl⟩ := new_eq_ok h
  constructor <;> simp [Queue.init, BoundedDaemonExecutor.owed, Worker.owes, Int.le_of_lt hpos]

theorem kept (hs : Reachable (executor α ε maxWorkers maxPending) s) :
    s.Kept maxWorkers maxPending := by
  obtain ⟨s₀, es, hinit, hr⟩ := hs.run
  obtain ⟨-, hpos, -⟩ := new_eq_ok hinit
  exact hr.keeps (I := fun s => s.Kept maxWorkers maxPending)
    (fun h st => Step.kept hpos h st) (new_kept hinit)

theorem length_calls (threads : List Worker) :
    (threads.flatMap Worker.call).length ≤ threads.length := by
  induction threads with
  | nil => exact Nat.le_refl _
  | cons w threads ih =>
    have : w.call.length ≤ 1 := by cases w <;> simp [Worker.call]
    simp only [List.flatMap_cons, List.length_append, List.length_cons]
    omega

theorem length_hands (threads : List Worker) :
    (threads.flatMap Worker.hand).length + (threads.flatMap Worker.call).length ≤
      (threads.map Worker.owes).sum := by
  induction threads with
  | nil => exact Nat.le_refl _
  | cons w threads ih =>
    have : w.hand.length + w.call.length ≤ w.owes := by
      cases w <;> simp [Worker.hand, Worker.call, Worker.owes]
    simp only [List.flatMap_cons, List.length_append, List.map_cons, List.sum_cons]
    omega

theorem BoundedDaemonExecutor.Kept.drained (h : s.Kept maxWorkers maxPending)
    (hdone : s.work.unfinishedTasks = 0) :
    s.work.queue = [] ∧ s.inHand = [] ∧ s.running = [] := by
  have hunfinished := h.unfinished
  have hlock : (s.submitLock.elim [] Holder.hand).length ≤ s.submitLock.elim 0 Holder.owes := by
    cases s.submitLock with
    | none => exact Nat.le_refl _
    | some holder => cases holder <;> simp [Holder.hand, Holder.owes]
  have hthreads := length_hands s.threads
  simp only [BoundedDaemonExecutor.owed] at hunfinished
  refine ⟨List.length_eq_zero_iff.mp (by omega), List.length_eq_zero_iff.mp ?_,
    List.length_eq_zero_iff.mp ?_⟩
  · simp only [BoundedDaemonExecutor.inHand, List.length_append]
    omega
  · simp only [BoundedDaemonExecutor.running]
    omega

structure BoundedDaemonExecutor.Accounted (s : BoundedDaemonExecutor α ε)
    (maxWorkers maxPending : Int) : Prop where
  once : ∀ i, s.called.count i ≤ 1
  called : ∀ i ∈ s.called, i ∈ s.accepted
  /-- A cancelled function never ran. -/
  cancelled : ∀ i, (s.futures i).isCancelled = true → i ∉ s.called
  /-- A submission that left the queue and the hand that took it was called, or is cancelled. -/
  settled : ∀ i ∈ s.accepted, i ∉ s.work.queue → i ∉ s.inHand →
    (i ∈ s.called ↔ (s.futures i).isCancelled = false)
  /-- Once all is done, every call is over. -/
  drained : s.work.unfinishedTasks = 0 → ∀ i ∈ s.accepted,
    (s.called.count i = 1 ∧ ∃ outcome, s.futures i = .finished outcome) ∨
      (s.called.count i = 0 ∧ (s.futures i).isCancelled = true)
  running : s.running.length ≤ maxWorkers
  waiting : s.work.queue.length ≤ maxPending
  rejected : ∀ i e, (i, e) ∈ s.rejected → i ∉ s.called
  returned : s.returned = true → s.work.queue = []

namespace BoundedDaemonExecutor.At

theorem count_called_le (h : s.At i l) : s.called.count i ≤ 1 := by
  rw [h.called]
  split <;> omega

theorem called_iff (h : s.At i l) : i ∈ s.called ↔ l = .running ∨ l = .executed := by
  rw [← List.count_pos_iff, h.called]
  split <;> simp [*]

theorem mem_queue_iff (h : s.At i l) : i ∈ s.work.queue ↔ l = .waiting := by
  rw [← List.count_pos_iff, h.queue]
  split <;> simp [*]

theorem mem_inHand_iff (h : s.At i l) : i ∈ s.inHand ↔ l = .taken := by
  rw [← List.count_pos_iff, h.inHand]
  split <;> simp [*]

theorem mem_running_iff (h : s.At i l) : i ∈ s.running ↔ l = .running := by
  rw [← List.count_pos_iff, h.running]
  split <;> simp [*]

theorem not_called (h : s.At i l) (hc : (s.futures i).isCancelled = true) : i ∉ s.called := by
  intro hi
  have hf := h.future
  rcases h.called_iff.mp hi with rfl | rfl
  · rw [hf] at hc
    cases hc
  · obtain ⟨outcome, hf⟩ := hf
    rw [hf] at hc
    cases hc

theorem settled (h : s.At i l) (hi : i ∈ s.accepted) (hqueue : i ∉ s.work.queue)
    (hhand : i ∉ s.inHand) : i ∈ s.called ↔ (s.futures i).isCancelled = false := by
  have hf := h.future
  have hl := h.accepted.mp hi
  rw [h.mem_queue_iff] at hqueue
  rw [h.mem_inHand_iff] at hhand
  rw [h.called_iff]
  cases l with
  | unsubmitted => exact absurd rfl hl
  | waiting => exact absurd rfl hqueue
  | taken => exact absurd rfl hhand
  | running => simp [show s.futures i = .running from hf, Future.isCancelled]
  | executed =>
    obtain ⟨outcome, hf⟩ := hf
    simp [hf, Future.isCancelled]
  | dropped => simp [show (s.futures i).isCancelled = true from hf]

theorem finished (h : s.At i l) (hc : i ∈ s.called) (hrunning : i ∉ s.running) :
    ∃ outcome, s.futures i = .finished outcome := by
  rw [h.mem_running_iff] at hrunning
  obtain rfl := (h.called_iff.mp hc).resolve_left hrunning
  exact h.future

end BoundedDaemonExecutor.At

theorem accounted (hs : Reachable (executor α ε maxWorkers maxPending) s) :
    s.Accounted maxWorkers maxPending := by
  have hkept := kept hs
  choose life hlife using exists_life hs
  refine ⟨fun i => (hlife i).count_called_le, fun i hi => ?_, fun i => (hlife i).not_called,
    fun i => (hlife i).settled,
    fun hdone i hi => ?_, ?_, hkept.bounded, fun i e he => ?_, fun hr => (hkept.returned hr).2⟩
  · rw [(hlife i).accepted]
    rcases (hlife i).called_iff.mp hi with h | h <;> simp [h]
  · obtain ⟨hqueue, hhand, hrunning⟩ := hkept.drained hdone
    have hiff := (hlife i).settled hi (by simp [hqueue]) (by simp [hhand])
    by_cases hc : i ∈ s.called
    · have hle := (hlife i).count_called_le
      have hpos := List.count_pos_iff.mpr hc
      exact .inl ⟨by omega, (hlife i).finished hc (by simp [hrunning])⟩
    · refine .inr ⟨List.count_eq_zero.mpr hc, ?_⟩
      simpa [hc] using hiff
  · have := length_calls s.threads
    have := hkept.threads
    obtain ⟨s₀, es, hinit, -⟩ := hs.run
    obtain ⟨hpos, -, -⟩ := new_eq_ok hinit
    simp only [BoundedDaemonExecutor.running]
    omega
  · have hl := mt (hlife i).accepted.mpr ((noted hs i).rejected e he).1
    rw [(hlife i).called_iff]
    simp_all

/-- No thread has an exception on its way, and none left but for a `shutdown`. -/
structure BoundedDaemonExecutor.Alive (s : BoundedDaemonExecutor α ε) : Prop where
  raised : .ending true ∉ s.threads
  exited : .exited ∈ s.threads → s.shutdown = true

theorem mem_inHand (h : s.threads = before ++ w :: after) (hi : i ∈ w.hand) : i ∈ s.inHand := by
  simp [BoundedDaemonExecutor.inHand, h, hi]

theorem mem_running (h : s.threads = before ++ w :: after) (hi : i ∈ w.call) : i ∈ s.running := by
  simp [BoundedDaemonExecutor.running, h, hi]

theorem BoundedDaemonExecutor.Step.alive (st : Step s () t) (hlife : ∀ i, ∃ l, s.At i l)
    (hdone : s.work.unfinishedTasks = s.work.queue.length + s.owed) (h : s.Alive) : t.Alive := by
  obtain ⟨hraised, hexited⟩ := h
  cases st with
  | @startRaises before after _ i hthread hset =>
    obtain ⟨l, hl⟩ := hlife i
    obtain rfl := hl.mem_inHand_iff.mp (mem_inHand hthread (List.mem_singleton_self i))
    exact absurd hset hl.future.start_ne_none
  | @finishRaises before after _ i outcome hthread hset =>
    obtain ⟨l, hl⟩ := hlife i
    obtain rfl := hl.mem_running_iff.mp (mem_running hthread (List.mem_singleton_self i))
    exact absurd hset hl.future.set_ne_none
  | taskDoneRaises hthread hset =>
    have hzero := Queue.taskDone_eq_none hset
    simp only [owed, hthread, List.map_append, List.map_cons, List.sum_append, List.sum_cons,
      Worker.owes] at hdone
    omega
  | shutdown => exact ⟨hraised, fun _ => rfl⟩
  | @check before after _ hthread =>
    rw [hthread] at hraised hexited
    constructor
    · intro hmem
      split at hmem <;> simp_all
    · intro hmem
      split at hmem
      · assumption
      · simp_all
  | @taskDone q _ before after raised hthread hset =>
    rw [hthread] at hraised hexited
    cases raised with
    | true => simp at hraised
    | false => constructor <;> simp_all
  | @look before after _ i hthread =>
    rw [hthread] at hraised hexited
    constructor <;> intro hmem <;> split at hmem <;> simp_all
  | _ => constructor <;> simp_all [setFuture, cancel]

theorem alive (hs : Reachable (executor α ε maxWorkers maxPending) s) : s.Alive := by
  induction hs with
  | init h =>
    obtain ⟨-, -, rfl⟩ := new_eq_ok h
    constructor <;> simp
  | step hs st ih => exact st.alive (exists_life hs) (kept hs).unfinished ih

/-- What a later state `t` owes to `s`. -/
structure BoundedDaemonExecutor.Later (s t : BoundedDaemonExecutor α ε) : Prop where
  accepted : ∀ i ∈ s.accepted, i ∈ t.accepted
  rejected : ∀ p ∈ s.rejected, p ∈ t.rejected
  cancelled : ∀ i, (s.futures i).isCancelled = true → (t.futures i).isCancelled = true
  created : s.created ≤ t.created
  returned : s.returned = true → t.returned = true
  /-- Once the flag is set by who has the lock, every `submit` raises. -/
  closed : s.shutdown = true → t.shutdown = true ∧ t.accepted = s.accepted ∧
    ∀ i, s.created ≤ i → i < t.created → (i, .shutDown) ∈ t.rejected

namespace BoundedDaemonExecutor.Later

theorem refl (s : BoundedDaemonExecutor α ε) : s.Later s where
  accepted _ h := h
  rejected _ h := h
  cancelled _ h := h
  created := Nat.le_refl _
  returned h := h
  closed h := ⟨h, rfl, fun _ hle hlt => absurd hlt (Nat.not_lt.mpr hle)⟩

theorem trans {u : BoundedDaemonExecutor α ε} (h : s.Later t) (k : t.Later u) : s.Later u where
  accepted i hi := k.accepted i (h.accepted i hi)
  rejected p hp := k.rejected p (h.rejected p hp)
  cancelled i hi := k.cancelled i (h.cancelled i hi)
  created := Nat.le_trans h.created k.created
  returned hs := k.returned (h.returned hs)
  closed hs := by
    obtain ⟨ht, hta, hts⟩ := h.closed hs
    obtain ⟨hu, hua, hus⟩ := k.closed ht
    refine ⟨hu, hua.trans hta, fun i hle hlt => ?_⟩
    by_cases hi : i < t.created
    · exact k.rejected _ (hts i hle hi)
    · exact hus i (Nat.le_of_not_lt hi) hlt

end BoundedDaemonExecutor.Later

section

attribute [local grind =] BoundedDaemonExecutor.cancel BoundedDaemonExecutor.setFuture
attribute [local grind →] Future.isCancelled_cancel Future.isCancelled_setRunningOrNotifyCancel
  Future.isCancelled_set

theorem BoundedDaemonExecutor.Step.later (h : s.Kept maxWorkers maxPending)
    (st : Step s () t) : s.Later t := by
  have := h.holder
  cases st <;> constructor <;> grind

end

theorem later (hs : Reachable (executor α ε maxWorkers maxPending) s)
    (hr : Run (executor α ε maxWorkers maxPending) s es t) : s.Later t := by
  induction hr with
  | nil => exact .refl _
  | cons st _ ih => exact (st.later (kept hs)).trans (ih (.step hs st))

/-- In every state reached each submission is called once or cancelled, within the bounds, and what
a state gave up or refused no later one calls; once a `shutdown` returned the queue is empty for
good, and each `submit` raises. -/
theorem executor_accounts (hs : Reachable (executor α ε maxWorkers maxPending) s) :
    s.Accounted maxWorkers maxPending ∧
    ∀ es t, Run (executor α ε maxWorkers maxPending) s es t →
      (∀ i, (s.futures i).isCancelled = true → i ∉ t.called) ∧
      (∀ i e, (i, e) ∈ s.rejected → i ∉ t.called) ∧
      (s.returned = true → t.work.queue = [] ∧ t.accepted = s.accepted ∧
        ∀ i, s.created ≤ i → i < t.created → (i, .shutDown) ∈ t.rejected) := by
  refine ⟨accounted hs, fun es t hr => ?_⟩
  have hlater := later hs hr
  have ht := accounted (hr.reachable hs)
  refine ⟨fun i hi => ht.cancelled i (hlater.cancelled i hi),
    fun i e he => ht.rejected i e (hlater.rejected _ he), fun hreturned => ?_⟩
  obtain ⟨-, haccepted, hsubmits⟩ := hlater.closed ((kept hs).returned hreturned).1
  exact ⟨ht.returned (hlater.returned hreturned), haccepted, hsubmits⟩

theorem shut_down_reachable :
    ∃ s, Reachable (executor Unit Unit 1 1) s ∧ s.returned = true ∧ s.accepted = [0, 1] ∧
      s.inHand = [0] ∧ (s.futures 1).isCancelled = true ∧ s.rejected = [(2, .shutDown)] := by
  have h := Reachable.init (S := executor Unit Unit 1 1) rfl
  have h := h.step (.submit rfl rfl)
  have h := h.step (.submitted rfl rfl)
  have h := h.step (.check (show _ = [] ++ _ :: [] from rfl))
  have h := h.step (.get (show _ = [] ++ _ :: [] from rfl) rfl)
  have h := h.step (.submit rfl rfl)
  have h := h.step (.submitted rfl rfl)
  have h := h.step (.shutdown rfl)
  have h := h.step (.drain rfl rfl)
  have h := h.step (.drop rfl)
  have h := h.step (.dropped rfl rfl)
  have h := h.step (.shutdownReturns rfl rfl)
  have h := h.step (.submitShutDown rfl rfl)
  exact ⟨_, h, rfl, rfl, rfl, rfl, rfl⟩

theorem executor_accounts_shut_down :
    ∃ s, s.accepted = [0, 1] ∧ s.Accounted 1 1 ∧
      ∀ es t, Run (executor Unit Unit 1 1) s es t →
        1 ∉ t.called ∧ 2 ∉ t.called ∧ t.work.queue = [] ∧ t.accepted = [0, 1] := by
  obtain ⟨s, hs, hreturned, haccepted, -, hcancelled, hrejected⟩ := shut_down_reachable
  have h := executor_accounts hs
  refine ⟨s, haccepted, h.1, fun es t hr => ?_⟩
  obtain ⟨hc, hr, hshut⟩ := h.2 es t hr
  obtain ⟨hqueue, hsame, -⟩ := hshut hreturned
  exact ⟨hc 1 hcancelled, hr 2 .shutDown (by simp [hrejected]), hqueue, hsame.trans haccepted⟩

end PrismPipe.Executors
