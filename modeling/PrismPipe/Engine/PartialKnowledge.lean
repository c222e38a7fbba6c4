import Mathlib.Algebra.Field.Rat
import Mathlib.Logic.Function.Basic
import PrismPipe.Lib.Transition
import PrismPipe.Python.Json

/-! `PartialKnowledgeEngine`: requests that may be answered early, beside background tasks that end
whenever they do. -/

namespace PrismPipe.Partial

open Function Python Transition

inductive Status
  | running
  | completed
  | failed
  deriving DecidableEq

variable {I V : Type}

/-- `none` is `None`. -/
structure PartialResult (V : Type) where
  data : Option V
  confidence : ℚ
  isPartial : Bool
  backgroundTaskId : Option PyStr
  isFinal : Bool

structure BackgroundTask (V : Type) where
  id : PyStr
  requestId : PyStr
  status : Status
  result : Option V
  error : Option PyStr
  completedAt : Option ℚ

/-- What `process_fn` comes to in the background. -/
inductive Outcome (V : Type)
  | returned (result : V)
  /-- An `Exception`, by its text. -/
  | raised (error : PyStr)
  /-- `CancelledError`, or another exception that is not an `Exception`. -/
  | escaped

structure PartialKnowledgeEngine (V : Type) where
  minConfidence : ℚ
  backgroundTasks : PyStr → Option (BackgroundTask V)

/-- `str(uuid.uuid4())`, by the number of the call. -/
structure Uuid4 where
  str : Nat → PyStr
  injective : Injective str
  /-- Hexadecimal digits and hyphens. -/
  plain : ∀ k, 0x3A ∉ str k

/-- A call of `process_with_partial`; `intent` is as it is formatted. -/
structure Request (I : Type) where
  intent : PyStr
  input : I
  acceptPartial : Bool
  minConfidence : Option ℚ

/-- What is done with a request: it is answered at once, or by `process_fn`. -/
inductive Path (V : Type)
  | early (quickResult : PartialResult V)
  | full

/-- The answer, by what `process_fn` returns or raises. -/
def Path.answer (processFn : Except PyStr V) : Path V → Except PyStr (PartialResult V)
  | early quickResult => .ok quickResult
  | full => processFn.map fun result => ⟨some result, 1, false, none, true⟩

namespace PartialKnowledgeEngine

def init (minConfidence : ℚ) : PartialKnowledgeEngine V := ⟨minConfidence, fun _ => none⟩

/-- `json.dumps` of the input returns a text or raises. -/
def getCacheKey (dumps : I → Except PyStr PyStr) (r : Request I) : Except PyStr PyStr :=
  (dumps r.input).map fun text => r.intent ++ py ":" ++ text

def quickPath (self : PartialKnowledgeEngine V) (dumps : I → Except PyStr PyStr)
    (r : Request I) : Except PyStr (Option (PartialResult V)) := do
  let cacheKey ← getCacheKey dumps r
  match self.backgroundTasks cacheKey with
  | some task =>
    if task.status = .completed then return some ⟨task.result, 85 / 100, true, none, true⟩
    else return none
  | none => return none

/-- `min_confidence or self.min_confidence`. -/
def minConf (self : PartialKnowledgeEngine V) (r : Request I) : ℚ :=
  match r.minConfidence with
  | some c => if c = 0 then self.minConfidence else c
  | none => self.minConfidence

def processWithPartial (self : PartialKnowledgeEngine V) (dumps : I → Except PyStr PyStr)
    (r : Request I) : Except PyStr (Path V) :=
  if !r.acceptPartial then .ok .full
  else do
    match ← self.quickPath dumps r with
    | some quickResult =>
      if self.minConf r ≤ quickResult.confidence then return .early quickResult else return .full
    | none => return .full

def startBackground (self : PartialKnowledgeEngine V) (taskId requestId : PyStr) :
    PartialKnowledgeEngine V :=
  { self with
    backgroundTasks :=
      update self.backgroundTasks taskId (some ⟨taskId, requestId, .running, none, none, none⟩) }

/-- What `_run_background` writes into its task before `finally`. -/
def ended (task : BackgroundTask V) : Outcome V → BackgroundTask V
  | .returned result => { task with result := some result, status := .completed }
  | .raised error => { task with error := some error, status := .failed }
  | .escaped => task

def runBackground (task : BackgroundTask V) (outcome : Outcome V) (now : ℚ) : BackgroundTask V :=
  { ended task outcome with completedAt := some now }

def finish (self : PartialKnowledgeEngine V) (task : BackgroundTask V) (outcome : Outcome V)
    (now : ℚ) : PartialKnowledgeEngine V :=
  { self with
    backgroundTasks :=
      update self.backgroundTasks task.id (some (runBackground task outcome now)) }

def getBackgroundResult (self : PartialKnowledgeEngine V) (taskId : PyStr) :
    Option (BackgroundTask V) := self.backgroundTasks taskId

end PartialKnowledgeEngine

open PartialKnowledgeEngine

structure Serving (V : Type) where
  engine : PartialKnowledgeEngine V
  issued : Nat

inductive Event (V : Type)
  | start (requestId : PyStr)
  | finish (k : Nat) (outcome : Outcome V) (now : ℚ)

variable (uuid4 : Uuid4)

inductive Step : Serving V → Event V → Serving V → Prop
  | start : Step s (.start requestId)
    ⟨s.engine.startBackground (uuid4.str s.issued) requestId, s.issued + 1⟩
  | finish : s.engine.backgroundTasks (uuid4.str k) = some task → task.completedAt = none →
    Step s (.finish k outcome now) ⟨s.engine.finish task outcome now, s.issued⟩

def serving (minConfidence : ℚ) : System (Serving V) (Event V) where
  init s := s = ⟨.init minConfidence, 0⟩
  step := Step uuid4

def Event.started : Event V → Option PyStr
  | .start requestId => some requestId
  | .finish .. => none

def Event.finished (k : Nat) : Event V → Option (Outcome V × ℚ)
  | .start _ => none
  | .finish j outcome now => if j = k then some (outcome, now) else none

def taskOf (taskId requestId : PyStr) (outcome : Option (Outcome V × ℚ)) : BackgroundTask V :=
  let task := ⟨taskId, requestId, .running, none, none, none⟩
  (outcome.map fun o => runBackground task o.1 o.2).getD task

/-- Under each id is the task of the call that was given it, as what it runs has ended, once if at
all; there is nothing under another key. -/
structure Kept (es : List (Event V)) (s : Serving V) : Prop where
  issued : (es.filterMap Event.started).length = s.issued
  tasks : ∀ k, s.engine.getBackgroundResult (uuid4.str k) =
    (es.filterMap Event.started)[k]?.map fun requestId =>
      taskOf (uuid4.str k) requestId (es.filterMap (Event.finished k)).head?
  once : ∀ k, (es.filterMap (Event.finished k)).length ≤ 1
  later : ∀ k, s.issued ≤ k → es.filterMap (Event.finished k) = []
  known : ∀ key, (∀ k, key ≠ uuid4.str k) → s.engine.getBackgroundResult key = none

section Runs

variable {uuid4 : Uuid4} {es : List (Event V)} {s s' : Serving V} {e : Event V}

theorem completedAt_taskOf {taskId requestId : PyStr} {outcome : Option (Outcome V × ℚ)}
    (h : (taskOf taskId requestId outcome).completedAt = none) : outcome = none := by
  cases outcome with
  | none => rfl
  | some outcome => cases h

theorem get_concat {α : Type} (l : List α) (a : α) {k : Nat} (h : k ≠ l.length) :
    (l ++ [a])[k]? = l[k]? := by
  rcases Nat.lt_or_gt_of_ne h with h | h
  · exact List.getElem?_append_left h
  · rw [List.getElem?_eq_none h.le, List.getElem?_eq_none]
    rw [List.length_append]
    exact h

theorem Kept.start (h : Kept uuid4 es s) (requestId : PyStr) :
    Kept uuid4 (es ++ [Event.start requestId])
      ⟨s.engine.startBackground (uuid4.str s.issued) requestId, s.issued + 1⟩ := by
  have hstarted : (es ++ [Event.start requestId]).filterMap Event.started =
      es.filterMap Event.started ++ [requestId] := by simp [Event.started]
  have hfinished (k : Nat) : (es ++ [Event.start requestId]).filterMap (Event.finished k) =
      es.filterMap (Event.finished k) := by simp [Event.finished]
  constructor
  case issued => rw [hstarted, List.length_append, h.issued, List.length_singleton]
  case tasks =>
    intro k
    rw [hstarted, hfinished]
    by_cases hk : k = s.issued
    · subst hk
      rw [h.later _ le_rfl, List.getElem?_append_right h.issued.le, h.issued]
      simp [startBackground, getBackgroundResult, taskOf]
    · rw [get_concat _ _ (h.issued ▸ hk)]
      exact (update_of_ne (fun heq => hk (uuid4.injective heq)) ..).trans (h.tasks k)
  case once =>
    intro k
    rw [hfinished]
    exact h.once k
  case later =>
    intro k hk
    rw [hfinished]
    exact h.later k (Nat.le_of_succ_le hk)
  case known =>
    intro key hkey
    exact (update_of_ne (hkey _) ..).trans (h.known key hkey)

theorem Kept.finish {k : Nat} {task : BackgroundTask V} (h : Kept uuid4 es s)
    (htask : s.engine.backgroundTasks (uuid4.str k) = some task) (hrunning : task.completedAt = none)
    (outcome : Outcome V) (now : ℚ) :
    Kept uuid4 (es ++ [Event.finish k outcome now])
      ⟨s.engine.finish task outcome now, s.issued⟩ := by
  obtain ⟨requestId, hget, htaskOf⟩ := Option.map_eq_some_iff.mp ((h.tasks k).symm.trans htask)
  have hnone := completedAt_taskOf (htaskOf ▸ hrunning)
  have hnil := List.head?_eq_none_iff.mp hnone
  have hid : task = ⟨uuid4.str k, requestId, .running, none, none, none⟩ := by
    rw [← htaskOf, hnone]
    rfl
  have hstarted : (es ++ [Event.finish k outcome now]).filterMap Event.started =
      es.filterMap Event.started := by simp [Event.started]
  have hself : (es ++ [Event.finish k outcome now]).filterMap (Event.finished k) = [(outcome, now)] := by
    simp [hnil, Event.finished]
  have hother (j : Nat) (hj : k ≠ j) :
      (es ++ [Event.finish k outcome now]).filterMap (Event.finished j) =
        es.filterMap (Event.finished j) := by simp [Event.finished, hj]
  constructor
  case issued => rw [hstarted, h.issued]
  case tasks =>
    intro j
    rw [hstarted]
    by_cases hj : k = j
    · subst hj
      rw [hself, hget, hid]
      simp [PartialKnowledgeEngine.finish, getBackgroundResult, taskOf]
    · rw [hother j hj, hid]
      exact (update_of_ne (fun heq => hj (uuid4.injective heq).symm) ..).trans (h.tasks j)
  case once =>
    intro j
    by_cases hj : k = j
    · subst hj
      rw [hself, List.length_singleton]
    · rw [hother j hj]
      exact h.once j
  case later =>
    intro j hj
    have hlt : k < s.issued := h.issued ▸ (List.getElem?_eq_some_iff.mp hget).1
    rw [hother j (hlt.trans_le hj).ne]
    exact h.later j hj
  case known =>
    intro key hkey
    rw [hid]
    exact (update_of_ne (hkey k) ..).trans (h.known key hkey)

theorem Kept.step (h : Kept uuid4 es s) (st : Step uuid4 s e s') : Kept uuid4 (es ++ [e]) s' := by
  cases st with
  | start => exact h.start _
  | finish htask hrunning => exact h.finish htask hrunning _ _

theorem Kept.run {minConfidence : ℚ} (h : Kept uuid4 es s) {rest : List (Event V)}
    (hr : Run (serving uuid4 minConfidence) s rest s') : Kept uuid4 (es ++ rest) s' := by
  induction hr generalizing es with
  | nil => simpa using h
  | cons st _ ih =>
    rw [List.append_cons]
    exact ih (h.step st)

theorem kept {minConfidence : ℚ}
    (hr : Run (serving uuid4 minConfidence) ⟨.init minConfidence, 0⟩ es s) : Kept uuid4 es s := by
  have hinit : Kept uuid4 ([] : List (Event V)) ⟨.init minConfidence, 0⟩ :=
    ⟨rfl, fun _ => rfl, fun _ => Nat.zero_le _, fun _ _ => rfl, fun _ _ => rfl⟩
  exact hinit.run hr

theorem Kept.quickPath (h : Kept uuid4 es s) (dumps : I → Except PyStr PyStr) (r : Request I) :
    s.engine.quickPath dumps r = (dumps r.input).map fun _ => none := by
  unfold PartialKnowledgeEngine.quickPath getCacheKey
  cases dumps r.input with
  | error => rfl
  | ok text =>
    have hcolon : 0x3A ∈ r.intent ++ py ":" ++ text :=
      List.mem_append_left _ (List.mem_append_right _ (by decide))
    have hnone : s.engine.backgroundTasks (r.intent ++ py ":" ++ text) = none :=
      h.known _ fun k heq => uuid4.plain k (heq ▸ hcolon)
    simp only [Except.map, bind, Except.bind, hnone]
    rfl

end Runs

/-- Whatever background tasks have been started and have ended, no request is answered early: one
that accepts a partial answer is processed as one that does not, but that its input has to be JSON;
and under an id is always the task it was made for, with what that has come to. -/
theorem partial_answers_in_full (uuid4 : Uuid4) (minConfidence : ℚ) {es : List (Event V)}
    {s : Serving V} (hr : Run (serving uuid4 minConfidence) ⟨.init minConfidence, 0⟩ es s) :
    (∀ (dumps : I → Except PyStr PyStr) (r : Request I), s.engine.processWithPartial dumps r =
      if r.acceptPartial then (dumps r.input).map fun _ => .full else .ok .full) ∧
    Kept uuid4 es s := by
  have h := kept hr
  refine ⟨fun dumps r => ?_, h⟩
  unfold processWithPartial
  cases hr : r.acceptPartial with
  | false => rfl
  | true =>
    rw [h.quickPath]
    cases dumps r.input <;> rfl

theorem colon_notMem_tallied : ∀ k, 0x3A ∉ tallied k := notMem_tallied (by decide)

def tally : Uuid4 := ⟨tallied, tallied_injective, colon_notMem_tallied⟩

/-- The first task is completed, and the second cancelled. -/
theorem partial_answers_in_full_completed :
    ∃ s : Serving Nat,
      s.engine.processWithPartial (fun _ : Unit => .ok []) ⟨py "i", (), true, none⟩ = .ok .full ∧
      s.engine.getBackgroundResult (tally.str 0) =
        some ⟨tally.str 0, py "r", .completed, some 7, none, some 3⟩ ∧
      s.engine.getBackgroundResult (tally.str 1) =
        some ⟨tally.str 1, py "q", .running, none, none, some 2⟩ := by
  have hne : tally.str 1 ≠ tally.str 0 := fun h => Nat.one_ne_zero (tally.injective h)
  let first : BackgroundTask Nat := ⟨tally.str 0, py "r", .running, none, none, none⟩
  let second : BackgroundTask Nat := ⟨tally.str 1, py "q", .running, none, none, none⟩
  let started : PartialKnowledgeEngine Nat :=
    ((init 0).startBackground (tally.str 0) (py "r")).startBackground (tally.str 1) (py "q")
  have hsecond : started.backgroundTasks (tally.str 1) = some second := by
    simp [started, startBackground, second]
  have hfirst : (started.finish second .escaped 2).backgroundTasks (tally.str 0) = some first := by
    simp [started, PartialKnowledgeEngine.finish, startBackground, second, first, hne.symm]
  have hrun : Run (serving tally 0) ⟨.init 0, 0⟩
      [.start (py "r"), .start (py "q"), .finish 1 .escaped 2, .finish 0 (.returned 7) 3] _ :=
    .cons .start (.cons .start (.cons (.finish hsecond rfl) (.single (.finish hfirst rfl))))
  obtain ⟨hfull, hkept⟩ := partial_answers_in_full tally 0 hrun
  exact ⟨_, hfull _ _, hkept.tasks 0, hkept.tasks 1⟩

end PrismPipe.Partial
