import PrismPipe.Engine.Replay
import Mathlib.Algebra.Order.Field.Basic

/-! What a swarm counts as errors, against the workers that failed. -/

namespace PrismPipe.Engine

open Transition

inductive SwarmTurn (I V : Type)
  | restored (cached : CachedComputation V)
  | returned (envelope : Envelope I V) (success : Bool) (error : Option String)
  | raised (left : Organism I V) (message : String)

namespace SwarmTurn

variable {I V : Type}

def event : SwarmTurn I V → SwarmEvent
  | .restored _ => .restored
  | .returned _ success _ => if success then .succeeded else .failed
  | .raised _ _ => .failed

def isFailureResult : SwarmTurn I V → Bool
  | .returned _ success _ => !success
  | _ => false

end SwarmTurn

namespace Swarming

variable {I V : Type} [PyValue V]

/-- `Step`, told by what came of the worker's turn. -/
inductive Takes (router : Router I V) (capability : String) (failFast : Bool) :
    Swarming I V → SwarmTurn I V → Swarming I V → Prop
  | restore (cached : CachedComputation V) : s.raised = none → s.waiting = worker :: rest →
      Takes router capability failFast s (.restored cached)
        (s.collect rest (worker.restore cached))
  | succeed : s.raised = none → s.waiting = worker :: rest → router capability = some node →
      node.executes { worker.envelope with next := some capability } (.returned e true error) →
      Takes router capability failFast s (.returned e true error)
        (s.collect rest (worker.adopt e))
  | fail : s.raised = none → s.waiting = worker :: rest → router capability = some node →
      node.executes { worker.envelope with next := some capability } (.returned e false error) →
      orElse error (some "swarm worker failed") = some message →
      Takes router capability failFast s (.returned e false error)
        (s.discard rest (worker.adopt e) (if failFast then 2 else 1) message failFast)
  | raise : s.raised = none → s.waiting = worker :: rest →
      Raises router capability worker left message →
      Takes router capability failFast s (.raised left message)
        (s.discard rest left 1 message failFast)

end Swarming

/-- The run of `execute_swarm`, turn by turn. -/
def swarmTurns {I V : Type} [PyValue V] (router : Router I V) (capability : String)
    (failFast : Bool) : System (Swarming I V) (SwarmTurn I V) where
  init s := ∃ workers, s = .start workers capability
  step := Swarming.Takes router capability failFast

/-- `get_last_swarm_stats` -/
structure SwarmStats where
  workerCount : Nat
  errorCount : Nat
  errorRate : ℚ

namespace Swarming

variable {I V : Type} [PyValue V] {router : Router I V} {capability : String} {failFast : Bool}
  {s t : Swarming I V}

omit [PyValue V] in
def lastStats (workers : List (Organism I V)) (s : Swarming I V) : SwarmStats where
  workerCount := workers.length
  errorCount := s.errorCount
  errorRate := s.errorCount / max workers.length 1

def failures (s : Swarming I V) : Nat := s.finished.countP (·.terminated)

structure Accounted (workers : List (Organism I V)) (s : Swarming I V) : Prop where
  errors : (s.lastStats workers).errorCount = s.failures
  rate_nonneg : 0 ≤ (s.lastStats workers).errorRate
  rate_le_one : (s.lastStats workers).errorRate ≤ 1
  results : s.results.length + (s.lastStats workers).errorCount ≤ workers.length

theorem Takes.step (st : s.Takes router capability failFast turn t) :
    s.Step router capability failFast turn.event t := by
  cases st with
  | restore cached hr hw => exact .restore cached hr hw
  | succeed hr hw hn he => exact .succeed hr hw hn he
  | fail hr hw hn he hm => exact .fail hr hw hn he hm
  | raise hr hw h => exact .raise hr hw h

theorem Step.takes (st : s.Step router capability failFast e t) :
    ∃ turn : SwarmTurn I V, turn.event = e ∧ s.Takes router capability failFast turn t := by
  cases st with
  | restore cached hr hw => exact ⟨_, rfl, .restore cached hr hw⟩
  | succeed hr hw hn he => exact ⟨_, rfl, .succeed hr hw hn he⟩
  | fail hr hw hn he hm => exact ⟨_, rfl, .fail hr hw hn he hm⟩
  | raise hr hw h => exact ⟨_, rfl, .raise hr hw h⟩

theorem run_iff : Run (swarming router capability failFast) s es t ↔
    ∃ turns : List (SwarmTurn I V), turns.map SwarmTurn.event = es ∧
      Run (swarmTurns router capability failFast) s turns t := by
  constructor
  · intro hr
    induction hr with
    | nil => exact ⟨[], rfl, .nil⟩
    | cons st _ ih =>
      obtain ⟨turn, rfl, ht⟩ := Step.takes st
      obtain ⟨turns, rfl, hr⟩ := ih
      exact ⟨turn :: turns, rfl, .cons ht hr⟩
  · rintro ⟨turns, rfl, hr⟩
    induction hr with
    | nil => exact .nil
    | cons st _ ih => exact .cons (Takes.step st) ih

section Laws

variable (rest : List (Organism I V)) (worker : Organism I V) (errors : Nat) (message : String)

omit [PyValue V] in
@[simp] theorem collect_waiting : (s.collect rest worker).waiting = rest := rfl

omit [PyValue V] in
@[simp] theorem collect_results :
    (s.collect rest worker).results = s.results ++ [worker.result] := rfl

omit [PyValue V] in
@[simp] theorem collect_errorCount : (s.collect rest worker).errorCount = s.errorCount := rfl

omit [PyValue V] in
@[simp] theorem collect_failures : (s.collect rest worker).failures = s.failures := by
  simp [failures, collect]

@[simp] theorem discard_waiting :
    (s.discard rest worker errors message failFast).waiting = rest := rfl

@[simp] theorem discard_results :
    (s.discard rest worker errors message failFast).results = s.results := rfl

@[simp] theorem discard_errorCount :
    (s.discard rest worker errors message failFast).errorCount = s.errorCount + errors := rfl

@[simp] theorem discard_failures :
    (s.discard rest worker errors message failFast).failures = s.failures + 1 := by
  simp [failures, discard]

end Laws

def countedTwice (failFast : Bool) (turn : SwarmTurn I V) : Bool := failFast && turn.isFailureResult

theorem Takes.spec (st : s.Takes router capability failFast turn t) :
    s.waiting.length + s.results.length + s.failures =
        t.waiting.length + t.results.length + t.failures ∧
      t.errorCount + s.failures =
        s.errorCount + t.failures + if countedTwice failFast turn then 1 else 0 := by
  cases st with
  | restore cached hr hw | succeed hr hw =>
    constructor
    · simp [hw]
      omega
    · simp [countedTwice, SwarmTurn.isFailureResult]
  | fail hr hw =>
    constructor
    · simp [hw]
      omega
    · cases failFast <;> simp [countedTwice, SwarmTurn.isFailureResult] <;> omega
  | raise hr hw =>
    constructor
    · simp [hw]
      omega
    · simp [countedTwice, SwarmTurn.isFailureResult]
      omega

theorem run_spec (hr : Run (swarmTurns router capability failFast) s turns t) :
    s.waiting.length + s.results.length + s.failures =
        t.waiting.length + t.results.length + t.failures ∧
      t.errorCount + s.failures =
        s.errorCount + t.failures + turns.countP (countedTwice failFast) := by
  induction hr with
  | nil => exact ⟨rfl, rfl⟩
  | cons st _ ih =>
    obtain ⟨hworkers, hcount⟩ := Takes.spec st
    rw [List.countP_cons]
    omega

/-- The errors of a swarm are its failed workers exactly where `fail_fast` meets no failure that a
node returned. -/
theorem swarm_accounted_iff (workers : List (Organism I V))
    (hr : Run (swarmTurns router capability failFast) (start workers capability) turns t) :
    t.Accounted workers ↔ failFast = false ∨ ∀ turn ∈ turns, turn.isFailureResult = false := by
  obtain ⟨hworkers, hcount⟩ := run_spec hr
  have hwaiting : (start workers capability).waiting.length = workers.length := List.length_map _
  have hresults : (start workers capability).results.length = 0 := rfl
  have herrors : (start workers capability).errorCount = 0 := rfl
  have hfailures : (start workers capability).failures = 0 := rfl
  have hcond : turns.countP (countedTwice failFast) = 0 ↔
      failFast = false ∨ ∀ turn ∈ turns, turn.isFailureResult = false := by
    rw [List.countP_eq_zero]
    cases failFast <;> simp [countedTwice]
  rw [← hcond]
  constructor
  · intro h
    have : t.errorCount = t.failures := h.errors
    omega
  · intro h
    have hle : t.errorCount ≤ workers.length := by omega
    have hmax : (t.errorCount : ℚ) ≤ (max workers.length 1 : ℕ) :=
      Nat.cast_le.mpr (le_max_of_le_left hle)
    refine ⟨?_, ?_, ?_, ?_⟩
    · change t.errorCount = t.failures
      omega
    · exact div_nonneg (Nat.cast_nonneg _) (Nat.cast_nonneg _)
    · exact div_le_one_of_le₀ hmax (Nat.cast_nonneg _)
    · change t.results.length + t.errorCount ≤ workers.length
      omega

def worker : Organism Unit Unit := ⟨(), StateDict.empty, some "c", false⟩

def told (outcome : NodeOutcome Unit Unit) : Router Unit Unit :=
  fun _ => some ⟨false, fun _ o => o = outcome⟩

def refusal : Envelope Unit Unit := ⟨(), StateDict.empty, none, false, none⟩

/-- `fail_fast` with a node that raises. -/
theorem swarm_accounted_raised :
    ∃ t : Swarming Unit Unit,
      Run (swarmTurns (told (.raised "down")) "c" true) (start [worker] "c")
        [.raised worker "down"] t ∧ t.Accounted [worker] := by
  have st : (start [worker] "c").Takes (told (.raised "down")) "c" true (.raised worker "down")
      ((start [worker] "c").discard [] worker 1 "down" true) := .raise rfl rfl (.node rfl rfl)
  have hr : Run (swarmTurns (told (.raised "down")) "c" true) _ _ _ := .single st
  exact ⟨_, hr, (swarm_accounted_iff [worker] hr).mpr (.inr (by simp [SwarmTurn.isFailureResult]))⟩

/-- `fail_fast` with a node that returns a failure: one worker, two errors. -/
theorem refusal_counted_twice :
    ∃ t : Swarming Unit Unit,
      Run (swarmTurns (told (.returned refusal false (some "down"))) "c" true)
        (start [worker] "c") [.returned refusal false (some "down")] t ∧
      t.failures = 1 ∧ (t.lastStats [worker]).errorCount = 2 ∧
      (t.lastStats [worker]).errorRate = 2 ∧ ¬t.Accounted [worker] := by
  have st : (start [worker] "c").Takes (told (.returned refusal false (some "down"))) "c" true
      (.returned refusal false (some "down"))
      ((start [worker] "c").discard [] (worker.adopt refusal) 2 "down" true) :=
    .fail rfl rfl rfl rfl rfl
  have hrate : (2 : ℚ) / (1 : ℕ) = 2 := by norm_num
  exact ⟨_, .single st, rfl, rfl, hrate, fun h => absurd h.errors (by decide)⟩

end Swarming

end PrismPipe.Engine
