import Mathlib.Algebra.Field.Rat
import Mathlib.Algebra.Order.Ring.Unbundled.Rat
import Mathlib.Data.List.Perm.Subperm
import Mathlib.Logic.Function.Basic
import PrismPipe.Lib.Transition

/-! `CircuitBreaker` of `resilience.py`: the calls on one key as they begin, overlap and end, by any
clock that does not go back, over exact numbers. -/

namespace PrismPipe.Circuits

open Transition

structure CircuitState where
  failures : Int
  lastFailureTime : ℚ
  isOpen : Bool
  deriving DecidableEq

structure CircuitBreaker where
  failureThreshold : Int
  timeout : ℚ
  halfOpenAttempts : Int
  states : String → CircuitState
  halfOpenSuccesses : String → Int

namespace CircuitBreaker

/-- The defaults of the dictionaries' entries are those of `defaultdict`. -/
def new (failureThreshold : Int) (timeout : ℚ) (halfOpenAttempts : Int) : CircuitBreaker where
  failureThreshold := failureThreshold
  timeout := timeout
  halfOpenAttempts := halfOpenAttempts
  states _ := ⟨0, 0, false⟩
  halfOpenSuccesses _ := 0

def setState (self : CircuitBreaker) (key : String) (state : CircuitState) :
    CircuitBreaker :=
  { self with states := Function.update self.states key state }

/-- `_is_open`, which closes a circuit whose timeout is over. -/
def isOpen (self : CircuitBreaker) (key : String) (now : ℚ) : Bool × CircuitBreaker :=
  let state := self.states key
  if state.isOpen = false then (false, self)
  else if self.timeout ≤ now - state.lastFailureTime then
    (false, self.setState key { state with isOpen := false, failures := 0 })
  else (true, self)

def recordSuccess (self : CircuitBreaker) (key : String) : CircuitBreaker :=
  let state := self.states key
  if state.isOpen = true ∧ self.halfOpenAttempts ≤ self.halfOpenSuccesses key then
    { self.setState key { state with isOpen := false, failures := 0 } with
      halfOpenSuccesses := Function.update self.halfOpenSuccesses key 0 }
  else self.setState key { state with failures := max 0 (state.failures - 1) }

def recordFailure (self : CircuitBreaker) (key : String) (now : ℚ) : CircuitBreaker :=
  let state := self.states key
  let failures := state.failures + 1
  self.setState key
    { failures
      lastFailureTime := now
      isOpen := state.isOpen || self.failureThreshold ≤ failures }

end CircuitBreaker

/-- Where the discipline has the circuit: in a trial so many calls were admitted, and so many of
them succeeded. -/
inductive Phase
  | closed
  | opened
  | trial (admitted succeeded : Nat)
  deriving DecidableEq

/-- The calls on a key, numbered as they are admitted, beside what the discipline makes of them. -/
structure Calls where
  breaker : CircuitBreaker
  clock : ℚ
  admitted : Nat
  /-- Those that have not ended. -/
  active : List Nat
  phase : Phase
  /-- Those of `active` that are of the trial. -/
  trials : List Nat
  failedAt : ℚ

inductive Event
  | call (now : ℚ)
  | success (i : Nat)
  | failure (i : Nat) (now : ℚ)
  | cancelled (i : Nat)

namespace Calls

def init (breaker : CircuitBreaker) (clock : ℚ) : Calls where
  breaker := breaker
  clock := clock
  admitted := 0
  active := []
  phase := .closed
  trials := []
  failedAt := 0

def enter (s : Calls) : Calls :=
  let i := s.admitted
  let s := { s with admitted := i + 1, active := i :: s.active }
  match s.phase with
  | .closed => s
  | .opened => { s with phase := .trial 1 0, trials := [i] }
  | .trial n k => { s with phase := .trial (n + 1) k, trials := i :: s.trials }

/-- `call` up to its function; `CircuitOpenError` where the circuit is open. -/
def call (key : String) (s : Calls) (now : ℚ) : Calls :=
  let (rejected, breaker) := s.breaker.isOpen key now
  let s := { s with breaker, clock := now }
  if rejected then s else s.enter

def success (key : String) (s : Calls) (i : Nat) : Calls :=
  let t := { s with breaker := s.breaker.recordSuccess key, active := s.active.erase i }
  match s.phase with
  | .trial n k =>
    if i ∈ s.trials then
      if s.breaker.halfOpenAttempts ≤ k + 1 then { t with phase := .closed, trials := [] }
      else { t with phase := .trial n (k + 1), trials := s.trials.erase i }
    else t
  | _ => t

def failure (key : String) (s : Calls) (i : Nat) (now : ℚ) : Calls :=
  let breaker := s.breaker.recordFailure key now
  let t := { s with breaker, clock := now, active := s.active.erase i, failedAt := now }
  if (breaker.states key).isOpen = true ∨ i ∈ s.trials then
    { t with phase := .opened, trials := [] }
  else t

def cancelled (s : Calls) (i : Nat) : Calls :=
  { s with active := s.active.erase i, trials := s.trials.erase i }

inductive Step (key : String) : Calls → Event → Calls → Prop
  | call : s.clock ≤ now → Step key s (.call now) (s.call key now)
  | success : i ∈ s.active → Step key s (.success i) (s.success key i)
  | failure : i ∈ s.active → s.clock ≤ now → Step key s (.failure i now) (s.failure key i now)
  | cancelled : i ∈ s.active → Step key s (.cancelled i) (s.cancelled i)

def admits (key : String) (s : Calls) (now : ℚ) : Bool := !(s.breaker.isOpen key now).1

/-- The discipline: of an open circuit no call is admitted before the timeout is over, of a trial
no more than `half_open_attempts`; enough successes of a trial close the circuit, and a failure of
one opens it. -/
def Obeys (key : String) (s : Calls) : Event → Prop
  | .call now => s.admits key now = true →
    match s.phase with
    | .closed => True
    | .opened => s.breaker.timeout ≤ now - s.failedAt ∧ 1 ≤ s.breaker.halfOpenAttempts
    | .trial n _ => n < s.breaker.halfOpenAttempts
  | .success i => i ∈ s.trials → (s.success key i).phase = .closed →
    ((s.breaker.recordSuccess key).states key).isOpen = false
  | .failure i now => i ∈ s.trials →
    ((s.breaker.recordFailure key now).states key).isOpen = true
  | .cancelled _ => True

/-- A call finds `half_open_attempts` positive, or the circuit open and its timeout not over; one in
a trial finds fewer admitted; and a failure of a trial is the one that the threshold wants. -/
def Meets (key : String) (s : Calls) : Event → Prop
  | .call now =>
    match s.phase with
    | .closed => True
    | .opened => 1 ≤ s.breaker.halfOpenAttempts ∨
      (s.breaker.states key).isOpen = true ∧ ¬s.breaker.timeout ≤ now - s.failedAt
    | .trial n _ => n < s.breaker.halfOpenAttempts
  | .failure i _ => i ∈ s.trials →
    s.breaker.failureThreshold ≤ (s.breaker.states key).failures + 1
  | _ => True

end Calls

def calls (key : String) : System Calls Event where
  init s := ∃ failureThreshold timeout halfOpenAttempts clock,
    s = .init (.new failureThreshold timeout halfOpenAttempts) clock
  step := Calls.Step key

namespace CircuitBreaker

variable (self : CircuitBreaker) (key : String) (now : ℚ)

@[simp] theorem setState_states (state : CircuitState) :
    (self.setState key state).states key = state := Function.update_self ..

theorem isOpen_fst : (self.isOpen key now).1 = true ↔
    (self.states key).isOpen = true ∧ ¬self.timeout ≤ now - (self.states key).lastFailureTime := by
  simp only [isOpen]
  split
  · simp [*]
  · split <;> simp_all

@[simp] theorem isOpen_isOpen :
    ((self.isOpen key now).2.states key).isOpen = (self.isOpen key now).1 := by
  simp only [isOpen]
  split
  · assumption
  · split <;> simp_all

@[simp] theorem isOpen_lastFailureTime :
    ((self.isOpen key now).2.states key).lastFailureTime = (self.states key).lastFailureTime := by
  simp only [isOpen]
  split
  · rfl
  · split <;> simp

@[simp] theorem isOpen_halfOpenAttempts :
    (self.isOpen key now).2.halfOpenAttempts = self.halfOpenAttempts := by
  simp only [isOpen]
  split
  · rfl
  · split <;> rfl

@[simp] theorem isOpen_halfOpenSuccesses :
    (self.isOpen key now).2.halfOpenSuccesses = self.halfOpenSuccesses := by
  simp only [isOpen]
  split
  · rfl
  · split <;> rfl

@[simp] theorem isOpen_failureThreshold :
    (self.isOpen key now).2.failureThreshold = self.failureThreshold := by
  simp only [isOpen]
  split
  · rfl
  · split <;> rfl

theorem isOpen_failures (h : 0 ≤ (self.states key).failures) :
    0 ≤ ((self.isOpen key now).2.states key).failures := by
  simp only [isOpen]
  split
  · exact h
  · split <;> simp [h]

@[simp] theorem recordSuccess_halfOpenAttempts :
    (self.recordSuccess key).halfOpenAttempts = self.halfOpenAttempts := by
  simp only [recordSuccess]
  split <;> rfl

@[simp] theorem recordSuccess_halfOpenSuccesses (h : self.halfOpenSuccesses key = 0) :
    (self.recordSuccess key).halfOpenSuccesses key = 0 := by
  simp only [recordSuccess]
  split
  · exact Function.update_self ..
  · exact h

@[simp] theorem recordSuccess_lastFailureTime :
    ((self.recordSuccess key).states key).lastFailureTime =
      (self.states key).lastFailureTime := by
  simp only [recordSuccess]
  split <;> simp

@[simp] theorem recordSuccess_failureThreshold :
    (self.recordSuccess key).failureThreshold = self.failureThreshold := by
  simp only [recordSuccess]
  split <;> rfl

theorem recordSuccess_failures : 0 ≤ ((self.recordSuccess key).states key).failures := by
  simp only [recordSuccess]
  split <;> simp

theorem recordSuccess_isOpen : ((self.recordSuccess key).states key).isOpen =
    ((self.states key).isOpen && self.halfOpenSuccesses key < self.halfOpenAttempts) := by
  simp only [recordSuccess]
  split <;> simp_all

@[simp] theorem recordFailure_state : (self.recordFailure key now).states key =
    { failures := (self.states key).failures + 1
      lastFailureTime := now
      isOpen := (self.states key).isOpen ||
        self.failureThreshold ≤ (self.states key).failures + 1 } := by
  simp [recordFailure]

@[simp] theorem recordFailure_halfOpenAttempts :
    (self.recordFailure key now).halfOpenAttempts = self.halfOpenAttempts := rfl

@[simp] theorem recordFailure_halfOpenSuccesses :
    (self.recordFailure key now).halfOpenSuccesses = self.halfOpenSuccesses := rfl

end CircuitBreaker

variable {key : String} {s t : Calls}

namespace Calls

structure Sound (key : String) (s : Calls) : Prop where
  successes : s.breaker.halfOpenSuccesses key = 0
  failedAt : s.failedAt = (s.breaker.states key).lastFailureTime
  isOpen : s.phase ≠ .opened → (s.breaker.states key).isOpen = false
  opened : s.phase = .opened → 1 ≤ s.breaker.halfOpenAttempts →
    (s.breaker.states key).isOpen = true
  trials : (∀ n k, s.phase ≠ .trial n k) → s.trials = []

theorem init_sound (failureThreshold halfOpenAttempts : Int) (timeout clock : ℚ) :
    (init (.new failureThreshold timeout halfOpenAttempts) clock).Sound key where
  successes := rfl
  failedAt := rfl
  isOpen _ := rfl
  opened h := nomatch h
  trials _ := rfl

theorem Sound.admits_iff (h : s.Sound key) (now : ℚ) : s.admits key now = true ↔
    ((s.breaker.states key).isOpen = true → s.breaker.timeout ≤ now - s.failedAt) := by
  rw [admits, Bool.not_eq_true', ← Bool.not_eq_true, CircuitBreaker.isOpen_fst, h.failedAt]
  tauto

theorem Sound.isOpen_of_trial (h : s.Sound key) (hi : i ∈ s.trials) :
    (s.breaker.states key).isOpen = false := by
  refine h.isOpen fun hphase => ?_
  rw [h.trials (by simp [hphase])] at hi
  cases hi

theorem Sound.obeys_iff_meets (h : s.Sound key) (e : Event) :
    s.Obeys key e ↔ s.Meets key e := by
  cases e with
  | call now =>
    simp only [Obeys, Meets, h.admits_iff]
    cases hphase : s.phase with
    | closed => simp
    | opened =>
      have := h.opened hphase
      by_cases hattempts : 1 ≤ s.breaker.halfOpenAttempts
      · simp_all
      · simp only [hattempts, and_false, false_or, imp_false, Classical.not_imp]
    | trial n k =>
      have := h.isOpen (by simp [hphase])
      simp [this]
  | success i =>
    refine iff_of_true (fun hi _ => ?_) trivial
    rw [CircuitBreaker.recordSuccess_isOpen, h.isOpen_of_trial hi, Bool.false_and]
  | failure i now =>
    refine forall_congr' fun hi => ?_
    simp [h.isOpen_of_trial hi]
  | cancelled i => exact Iff.rfl

theorem Sound.call (h : s.Sound key) (now : ℚ) : (s.call key now).Sound key := by
  have hopen := s.breaker.isOpen_isOpen key now
  cases hadmits : (s.breaker.isOpen key now).1 with
  | true =>
    have hphase : s.phase = .opened := by
      by_contra hphase
      have := ((s.breaker.isOpen_fst key now).mp hadmits).1
      rw [h.isOpen hphase] at this
      cases this
    simp only [Calls.call, hadmits, if_true]
    exact
      { successes := by simpa using h.successes
        failedAt := by simpa using h.failedAt
        isOpen := fun hne => absurd hphase hne
        opened := fun _ _ => hopen.trans hadmits
        trials := h.trials }
  | false =>
    simp only [Calls.call, hadmits, Bool.false_eq_true, if_false, enter]
    cases hphase : s.phase with
    | closed =>
      exact
        { successes := by simpa using h.successes
          failedAt := by simpa using h.failedAt
          isOpen := fun _ => hopen.trans hadmits
          opened := by simp
          trials := fun _ => h.trials (by simp [hphase]) }
    | opened | trial n k =>
      exact
        { successes := by simpa using h.successes
          failedAt := by simpa using h.failedAt
          isOpen := fun _ => hopen.trans hadmits
          opened := by simp
          trials := by simp }

theorem Sound.success (h : s.Sound key) (i : Nat) : (s.success key i).Sound key := by
  have hsuccesses := s.breaker.recordSuccess_halfOpenSuccesses key h.successes
  have hfailed := h.failedAt.trans (s.breaker.recordSuccess_lastFailureTime key).symm
  have hopen := s.breaker.recordSuccess_isOpen key
  rw [h.successes] at hopen
  have hclosed (hphase : s.phase ≠ .opened) :
      ((s.breaker.recordSuccess key).states key).isOpen = false := by
    rw [hopen, h.isOpen hphase, Bool.false_and]
  cases hphase : s.phase with
  | closed =>
    simp only [Calls.success, hphase]
    exact ⟨hsuccesses, hfailed, fun _ => hclosed (by simp [hphase]), by simp,
      fun _ => h.trials (by simp [hphase])⟩
  | opened =>
    simp only [Calls.success, hphase]
    refine ⟨hsuccesses, hfailed, by simp, fun _ hattempts => ?_,
      fun _ => h.trials (by simp [hphase])⟩
    rw [CircuitBreaker.recordSuccess_halfOpenAttempts] at hattempts
    simp only [hopen, h.opened hphase hattempts, Bool.true_and, decide_eq_true_eq]
    omega
  | trial n k =>
    have hclosed := hclosed (by simp [hphase])
    simp only [Calls.success, hphase]
    split
    · split
      · exact ⟨hsuccesses, hfailed, fun _ => hclosed, by simp, by simp⟩
      · exact ⟨hsuccesses, hfailed, fun _ => hclosed, by simp, by simp⟩
    · exact ⟨hsuccesses, hfailed, fun _ => hclosed, by simp, by simp⟩

theorem Sound.failure (h : s.Sound key) (i : Nat) (now : ℚ) (hm : s.Meets key (.failure i now)) :
    (s.failure key i now).Sound key := by
  simp only [Calls.failure, CircuitBreaker.recordFailure_state]
  split
  next hopens =>
    refine ⟨h.successes, by simp, by simp, fun _ _ => ?_, fun _ => rfl⟩
    rcases hopens with hopens | hi
    · simpa using hopens
    · simp [hm hi]
  next hopens =>
    refine ⟨h.successes, by simp, fun _ => ?_, fun hphase hattempts => ?_, h.trials⟩
    · simpa using fun hopen => hopens (.inl hopen)
    · simp [h.opened hphase hattempts] at hopens

theorem Sound.cancelled (h : s.Sound key) (i : Nat) : (s.cancelled i).Sound key where
  successes := h.successes
  failedAt := h.failedAt
  isOpen := h.isOpen
  opened := h.opened
  trials hphase := by simp [Calls.cancelled, h.trials hphase]

theorem Sound.step (h : s.Sound key) (st : Step key s e t) (hm : s.Meets key e) :
    t.Sound key := by
  cases st with
  | call hclock => exact h.call _
  | success hi => exact h.success _
  | failure hi hclock => exact h.failure _ _ hm
  | cancelled hi => exact h.cancelled _

theorem Step.unique (st : Step key s e t) (st' : Step key s e u) : t = u := by
  cases st <;> cases st' <;> rfl

end Calls

namespace Calls

def OneByOne (s : Calls) : Event → Prop
  | .call _ => s.active = []
  | .cancelled _ => False
  | _ => True

structure Trialled (key : String) (s : Calls) : Prop where
  threshold : s.breaker.failureThreshold ≤ 1
  attempts : 1 ≤ s.breaker.halfOpenAttempts
  failures : 0 ≤ (s.breaker.states key).failures
  active : s.trials.Subperm s.active
  counted : ∀ n k, s.phase = .trial n k →
    n = k + s.trials.length ∧ k < s.breaker.halfOpenAttempts

theorem Trialled.meets (h : s.Trialled key) (he : s.OneByOne e) : s.Meets key e := by
  cases e with
  | call now =>
    simp only [Meets]
    cases hphase : s.phase with
    | closed => trivial
    | opened => exact .inl h.attempts
    | trial n k =>
      obtain ⟨hn, hk⟩ := h.counted n k hphase
      have hlength := h.active.length_le
      rw [show s.active = [] from he, List.length_nil] at hlength
      have : n = k := by omega
      exact this ▸ hk
  | success i => trivial
  | failure i now =>
    intro _
    have := h.threshold
    have := h.failures
    omega
  | cancelled i => exact he.elim

theorem Trialled.call (h : s.Trialled key) (now : ℚ) (he : s.active = []) :
    (s.call key now).Trialled key := by
  obtain ⟨hthreshold, hattempts, hfailures, hactive, hcounted⟩ := h
  have hnow := s.breaker.isOpen_failures key now hfailures
  have hnil : s.trials = [] := List.eq_nil_of_length_eq_zero (by simpa [he] using hactive.length_le)
  simp only [Calls.call]
  split
  · exact ⟨by simpa, by simpa, hnow, hactive, by simpa using hcounted⟩
  · cases hphase : s.phase with
    | closed =>
      simp only [enter]
      exact ⟨by simpa, by simpa, hnow, by simp [hnil], by simp⟩
    | opened =>
      simp only [enter]
      refine ⟨by simpa, by simpa, hnow, by simp [he], fun n k h => ?_⟩
      cases h
      exact ⟨rfl, by simpa using Int.lt_of_add_one_le hattempts⟩
    | trial n k =>
      simp only [enter]
      refine ⟨by simpa, by simpa, hnow, by simp [he, hnil], fun n' k' h => ?_⟩
      cases h
      obtain ⟨hn, hk⟩ := hcounted n k hphase
      rw [hnil] at hn ⊢
      exact ⟨congrArg (· + 1) hn, by simpa using hk⟩

theorem Trialled.success (h : s.Trialled key) (hs : s.Sound key) (i : Nat) :
    (s.success key i).Trialled key := by
  obtain ⟨hthreshold, hattempts, hfailures, hactive, hcounted⟩ := h
  have hnow := s.breaker.recordSuccess_failures key
  have herase := hactive.erase i
  cases hphase : s.phase with
  | trial n k =>
    obtain ⟨hn, hk⟩ := hcounted n k hphase
    simp only [Calls.success, hphase]
    split
    next hi =>
      split
      · exact ⟨by simpa, by simpa, hnow, List.nil_subperm, by simp⟩
      next henough =>
        refine ⟨by simpa, by simpa, hnow, herase, fun n' k' h => ?_⟩
        cases h
        have := List.length_erase_of_mem hi
        have := List.length_pos_of_mem hi
        simp only [CircuitBreaker.recordSuccess_halfOpenAttempts]
        omega
    next hi =>
      rw [List.erase_of_not_mem hi] at herase
      refine ⟨by simpa, by simpa, hnow, herase, fun n' k' h => ?_⟩
      cases h
      exact ⟨hn, by simpa using hk⟩
  | closed | opened =>
    have hnil := hs.trials (by simp [hphase])
    simp only [Calls.success, hphase]
    exact ⟨by simpa, by simpa, hnow, by simp [hnil], by simp⟩

theorem Trialled.failure (h : s.Trialled key) (i : Nat) (now : ℚ) :
    (s.failure key i now).Trialled key := by
  obtain ⟨hthreshold, hattempts, hfailures, hactive, hcounted⟩ := h
  have hopens : (((s.breaker.recordFailure key now).states key).isOpen = true ∨ i ∈ s.trials) := by
    left
    simp
    omega
  simp only [Calls.failure, hopens, if_true]
  exact ⟨hthreshold, hattempts, by simp; omega, List.nil_subperm, by simp⟩

theorem Trialled.step (h : s.Trialled key) (hs : s.Sound key) (st : Step key s e t)
    (he : s.OneByOne e) : t.Trialled key := by
  cases st with
  | call hclock => exact h.call _ he
  | success hi => exact h.success hs _
  | failure hi hclock => exact h.failure _ _
  | cancelled hi => exact he.elim

end Calls

theorem obeys_oneByOne (hthreshold : failureThreshold ≤ 1) (hattempts : 1 ≤ halfOpenAttempts)
    (hr : Run (calls key) (.init (.new failureThreshold timeout halfOpenAttempts) clock) es t)
    (h : Keeping (calls key) Calls.OneByOne
      (.init (.new failureThreshold timeout halfOpenAttempts) clock) es) :
    Keeping (calls key) (Calls.Obeys key)
      (.init (.new failureThreshold timeout halfOpenAttempts) clock) es := by
  refine hr.keeping_imp (G := fun s => s.Sound key ∧ s.Trialled key) ?_ ?_ Calls.Step.unique
    ⟨Calls.init_sound .., ?_⟩ h
  · intro s e t hs st he
    exact (hs.1.obeys_iff_meets e).mpr (hs.2.meets he)
  · intro s e t hs st he
    exact ⟨hs.1.step st (hs.2.meets he), hs.2.step hs.1 st he⟩
  · exact ⟨hthreshold, hattempts, by simp [Calls.init, CircuitBreaker.new],
      List.Subperm.refl _, by simp [Calls.init]⟩

/-- The calls of a run obey the discipline throughout exactly if each meets the condition. -/
theorem half_open_iff (hs : (calls key).init s) (hr : Run (calls key) s es t) :
    Keeping (calls key) (Calls.Obeys key) s es ↔ Keeping (calls key) (Calls.Meets key) s es := by
  obtain ⟨failureThreshold, timeout, halfOpenAttempts, clock, rfl⟩ := hs
  exact hr.keeping_congr (G := Calls.Sound key) (fun h _ => h.obeys_iff_meets _)
    Calls.Sound.step Calls.Step.unique (Calls.init_sound ..)

/-- A breaker that opens at the first failure lets one trial through, which closes it. -/
theorem half_open_iff_one_trial :
    Keeping (calls "node") (Calls.Obeys "node") (.init (.new 1 60 1) 0)
      [.call 0, .failure 0 0, .call 60, .success 1] := by
  have hr : ∃ s, Run (calls "node") (.init (.new 1 60 1) 0)
      [.call 0, .failure 0 0, .call 60, .success 1] s := by
    refine ⟨_, .cons (.call ?_) (.cons (.failure ?_ ?_) (.cons (.call ?_)
      (.cons (.success ?_) .nil)))⟩
    all_goals decide +kernel
  obtain ⟨s, hr⟩ := hr
  refine (half_open_iff ⟨1, 60, 1, 0, rfl⟩ hr).mpr ?_
  refine .cons Calls.Step.unique (.call (by decide +kernel)) ?_
    (.cons Calls.Step.unique (.failure (by decide +kernel) (by decide +kernel)) ?_
    (.cons Calls.Step.unique (.call (by decide +kernel)) ?_
    (.cons Calls.Step.unique (.success (by decide +kernel)) ?_ .nil)))
  · trivial
  · exact fun _ => by decide +kernel
  · exact .inl (by decide +kernel)
  · trivial

def trialBegun : List Event :=
  ((List.range 5).flatMap fun i => [.call 0, .failure i 0]) ++ [.call 60]

theorem trialBegun_run :
    ∃ s, Run (calls "node") (.init (.new 5 60 1) 0) trialBegun s ∧ s.phase = .trial 1 0 ∧
      s.trials = [5] ∧ s.active = [5] ∧ s.clock = 60 ∧ s.breaker.halfOpenAttempts = 1 ∧
      s.breaker.failureThreshold = 5 ∧ s.breaker.states "node" = ⟨0, 0, false⟩ := by
  refine ⟨_, .cons (.call ?_) (.cons (.failure ?_ ?_) (.cons (.call ?_) (.cons (.failure ?_ ?_)
    (.cons (.call ?_) (.cons (.failure ?_ ?_) (.cons (.call ?_) (.cons (.failure ?_ ?_)
    (.cons (.call ?_) (.cons (.failure ?_ ?_) (.cons (.call ?_) .nil)))))))))), ?_⟩
  all_goals decide +kernel

/-- Of a breaker by default a second trial is admitted beside the first, and a trial that fails does
not open it again. -/
theorem trials_overlap :
    (∃ s, Run (calls "node") (.init (.new 5 60 1) 0) (trialBegun ++ [.call 60]) s) ∧
    ¬Keeping (calls "node") (Calls.Obeys "node") (.init (.new 5 60 1) 0)
      (trialBegun ++ [.call 60]) ∧
    (∃ s, Run (calls "node") (.init (.new 5 60 1) 0) (trialBegun ++ [.failure 5 60]) s) ∧
    ¬Keeping (calls "node") (Calls.Obeys "node") (.init (.new 5 60 1) 0)
      (trialBegun ++ [.failure 5 60]) := by
  obtain ⟨s, hr, hphase, htrials, hactive, hclock, hattempts, hthreshold, hstate⟩ := trialBegun_run
  have hadmits : s.admits "node" 60 = true := by
    simp [Calls.admits, CircuitBreaker.isOpen, hstate]
  refine ⟨⟨_, hr.snoc (.call (by rw [hclock]))⟩, fun h => ?_,
    ⟨_, hr.snoc (.failure (by simp [hactive]) (by rw [hclock]))⟩, fun h => ?_⟩
  · have hlast := h trialBegun (.call 60) [] s rfl hr hadmits
    simp [hphase, hattempts] at hlast
  · have hlast := h trialBegun (.failure 5 60) [] s rfl hr (by simp [htrials])
    simp [hstate, hthreshold] at hlast

end PrismPipe.Circuits
