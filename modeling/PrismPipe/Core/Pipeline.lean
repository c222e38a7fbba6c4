import PrismPipe.Core.Node
import PrismPipe.Lib.Log

/-! `core/pipeline.py`: `Pipeline.execute` over the clock, the hooks, the router and the nodes, on
what it reads of an envelope. -/

namespace PrismPipe.Pipeline

open PrismPipe.Core (Executor)

structure Envelope where
  /-- The capabilities of the entries. -/
  history : List String
  next : Option String
  error : Option String
  terminated : Bool
  deriving DecidableEq

namespace Envelope

def terminate (self : Envelope) (error : Option String) : Envelope :=
  let self := { self with terminated := true }
  match error with
  | none => self
  | some error => if error = "" then self else { self with error }

def record (self : Envelope) (capability : String) : Envelope :=
  { self with history := self.history ++ [capability] }

def getCapability (self : Envelope) : Option String :=
  match self.next with
  | none => none
  | some next =>
    if next = "" then none
    else if "capability:".toList.isPrefixOf next.toList then
      some (String.ofList (next.toList.drop "capability:".length))
    else some next

end Envelope

/-- What is read of a node that is not its `process`. -/
structure Node where
  id : String
  capability : String
  timeoutMs : Option Int
  deriving DecidableEq

structure NodeResult where
  success : Bool
  error : Option String
  deriving DecidableEq

/-- What `process` makes of its envelope, or of its copy: a result on some envelope, or an exception
after some changes.  A `returned` that cannot be recorded is a `raised`. -/
inductive Conduct
  | returned (envelope : Envelope) (success : Bool) (error : Option String)
  | raised (envelope : Envelope) (message : String)
  deriving DecidableEq

namespace Node

def timeoutMessage (self : Node) (format : ℚ → String) (timeout : ℚ) : String :=
  Core.timeoutMessage self.capability format timeout

def timeoutResult (self : Node) (format : ℚ → String) (envelope : Envelope) (timeout : ℚ) :
    Envelope × NodeResult :=
  let message := self.timeoutMessage format timeout
  ((envelope.record self.capability).terminate message, ⟨false, message⟩)

def capacityResult (self : Node) (envelope : Envelope) : Envelope × NodeResult :=
  let message := Core.capacityMessage
  ((envelope.record self.capability).terminate message, ⟨false, message⟩)

/-- `_execute_sync` and the commit of what it returns. -/
def executeSync (self : Node) : Conduct → Envelope × NodeResult
  | .returned envelope success error =>
    let envelope := envelope.record self.capability
    (if success then envelope else { envelope with error }, ⟨success, error⟩)
  | .raised envelope message =>
    ((envelope.record self.capability).terminate message, ⟨false, some message⟩)

def effectiveTimeout (self : Node) (timeoutSeconds : Option ℚ) : Option ℚ :=
  Core.effectiveTimeout self.timeoutMs timeoutSeconds

def executeWithTimeout (self : Node) (format : ℚ → String) (envelope : Envelope)
    (timeoutSeconds : Option ℚ) (x : Executor) (conduct : Conduct) : Envelope × NodeResult :=
  match self.effectiveTimeout timeoutSeconds with
  | none => self.executeSync conduct
  | some t =>
    if t ≤ 0 then self.timeoutResult format envelope t
    else match x with
      | .exhausted => self.capacityResult envelope
      | .late => self.timeoutResult format envelope t
      | .inTime => self.executeSync conduct

end Node

structure PipelineConfig where
  maxIterations : Int
  timeoutSeconds : Option ℚ
  continueOnError : Bool
  enableHistory : Bool

inductive HookEvent
  | beforeNode | afterNode | beforeExecute | afterExecute | onError
  deriving DecidableEq

/-- What a call of `execute_with_timeout` comes to: how the executor and `process` fared, or an
exception of the call itself (a copy, the executor), with the envelope as it then is. -/
abbrev NodeReply := Except (Envelope × String) (Executor × Conduct)

inductive PipelineOp
  | monotonic
  | callback (event : HookEvent) (index : Nat)
  | resolve (capability : String)
  | execute (node : Node) (envelope : Envelope) (timeoutSeconds : Option ℚ)

abbrev PipelineOp.Reply : PipelineOp → Type
  | .monotonic => ℚ
  | .callback .. => Except String Unit
  | .resolve _ => Option Node
  | .execute .. => NodeReply

abbrev pipelineOps : Interface where
  Op := PipelineOp
  Reply := PipelineOp.Reply

abbrev Task := Program pipelineOps

def perform (o : PipelineOp) : Task o.Reply := Program.op (I := pipelineOps) o

structure PipelineMetrics where
  iterations : Nat := 0
  nodesExecuted : List String := []
  errors : List String := []

structure PipelineResult where
  envelope : Envelope
  success : Bool
  error : Option String
  metrics : PipelineMetrics
  iterations : Nat

/-- The variables of `execute` that change. -/
structure Run where
  envelope : Envelope
  metrics : PipelineMetrics

namespace Run

/-- `envelope.terminate(message)`, `metrics.errors.append(message)`. -/
def fail (self : Run) (message : String) : Run where
  envelope := self.envelope.terminate message
  metrics := { self.metrics with errors := self.metrics.errors ++ [message] }

/-- `while envelope.next and not envelope.terminated`. -/
def wanted (self : Run) : Bool := self.envelope.next.any (· ≠ "") && !self.envelope.terminated

def iterate (self : Run) : Run :=
  { self with metrics := { self.metrics with iterations := self.metrics.iterations + 1 } }

def expire (self : Run) (message : String) : Run where
  envelope := self.envelope.terminate message
  metrics := if message ∈ self.metrics.errors then self.metrics
    else { self.metrics with errors := self.metrics.errors ++ [message] }

def result (self : Run) : PipelineResult where
  envelope := self.envelope
  success := !self.envelope.terminated || self.envelope.error.isNone
  error := self.envelope.error
  metrics := self.metrics
  iterations := self.metrics.iterations

def executed (self : Run) (envelope : Envelope) (id : String) : Run where
  envelope
  metrics := { self.metrics with nodesExecuted := self.metrics.nodesExecuted ++ [id] }

end Run

abbrev Attempt := ExceptT (Run × String) Task

/-- What the pipeline is made with.  `hooks` is how many callbacks an event has. -/
structure Setup where
  config : PipelineConfig
  hooks : HookEvent → Nat
  format : ℚ → String

section Execute

variable (setup : Setup)

def deadlineOf : Task (Option ℚ) :=
  match setup.config.timeoutSeconds with
  | none => pure none
  | some timeout => do
    let now ← perform .monotonic
    return some (now + max timeout 0)

def remainingTimeout (deadline : Option ℚ) : Task (Option ℚ) :=
  match deadline with
  | none => pure none
  | some deadline => do
    let now ← perform .monotonic
    return some (deadline - now)

def timedOutMessage : String :=
  "Pipeline timed out after " ++ setup.format (setup.config.timeoutSeconds.getD 0) ++ "s"

def enforceDeadline (deadline : Option ℚ) (run : Run) : Task (Bool × Run) :=
  match deadline with
  | none => pure (false, run)
  | some deadline => do
    let now ← perform .monotonic
    return if now < deadline then (false, run) else (true, run.expire (timedOutMessage setup))

def runCallbacks (event : HookEvent) : List Nat → Task Unit
  | [] => pure ()
  | index :: rest => do
    let _ ← perform (.callback event index)
    runCallbacks event rest

def runHook (event : HookEvent) : Task Unit := runCallbacks event (List.range (setup.hooks event))

def notFound (capability : String) : String := "No node registered for capability: " ++ capability

def maxIterationsMessage : String :=
  "Max iterations (" ++ toString setup.config.maxIterations ++ ") exceeded"

/-- `if not result.success`; whether the loop is left. -/
def settle (run : Run) (result : NodeResult) : Bool × Run :=
  let errors := run.metrics.errors ++
    [match result.error with
      | none => "Unknown error"
      | some error => if error = "" then "Unknown error" else error]
  if result.success then (false, run)
  else if setup.config.continueOnError then
    (false, { run with metrics := { run.metrics with errors } })
  else (true, {
    envelope := run.envelope.terminate result.error
    metrics := { run.metrics with errors } })

def callNode (deadline : Option ℚ) (node : Node) (remaining : Option ℚ) (run : Run) :
    Attempt (Bool × Run) := do
  match ← (perform (.execute node run.envelope remaining) : Task _) with
  | .error (envelope, message) => throw ({ run with envelope }, message)
  | .ok (x, conduct) =>
    let (envelope, result) :=
      node.executeWithTimeout setup.format run.envelope remaining x conduct
    let run := run.executed envelope node.id
    let (late, run) ← (enforceDeadline setup deadline run : Task _)
    if late then return (true, run)
    (runHook setup .afterNode : Task _)
    let (late, run) ← (enforceDeadline setup deadline run : Task _)
    if late then return (true, run)
    return settle setup run result

def enter (deadline : Option ℚ) (capability : String) (run : Run) : Attempt (Bool × Run) := do
  match ← (perform (.resolve capability) : Task _) with
  | none => return (true, run.fail (notFound capability))
  | some node =>
    let (late, run) ← (enforceDeadline setup deadline run : Task _)
    if late then return (true, run)
    (runHook setup .beforeNode : Task _)
    let (late, run) ← (enforceDeadline setup deadline run : Task _)
    if late then return (true, run)
    let remaining ← (remainingTimeout deadline : Task _)
    if remaining.any (· ≤ 0) then
      let (_, run) ← (enforceDeadline setup deadline run : Task _)
      return (true, run)
    else callNode setup deadline node remaining run

/-- The loop, with `left` iterations to the limit. -/
def loop (deadline : Option ℚ) : Nat → Run → Attempt Run
  | left, run =>
    if run.wanted then do
      let (late, run) ← (enforceDeadline setup deadline run : Task _)
      if late then return run
      let run := run.iterate
      match left with
      | 0 => return { run with envelope := run.envelope.terminate (maxIterationsMessage setup) }
      | left + 1 =>
        match run.envelope.getCapability with
        | none => return run
        | some capability =>
          if capability = "" then return run
          let (broke, run) ← enter setup deadline capability run
          if broke then return run
          loop deadline left run
    else return run

/-- The `except` clause. -/
def recover (attempt : Except (Run × String) Run) : Task Run :=
  match attempt with
  | .ok run => pure run
  | .error (run, message) => do
    let run := run.fail message
    runHook setup .onError
    return run

def resume (envelope : Envelope) : Envelope :=
  if envelope.next.isNone && setup.config.enableHistory then
    match envelope.history.getLast? with
    | none => envelope
    | some capability => { envelope with next := some capability }
  else envelope

/-- From the `finally` clause on. -/
def conclude (deadline : Option ℚ) (run : Run) : Task PipelineResult := do
  runHook setup .afterExecute
  let (_, run) ← enforceDeadline setup deadline run
  let (_, run) ← enforceDeadline setup deadline run
  return run.result

def execute (envelope : Envelope) : Task PipelineResult := do
  let deadline ← deadlineOf setup
  runHook setup .beforeExecute
  let attempt ← (loop setup deadline setup.config.maxIterations.toNat
    ⟨resume setup envelope, {}⟩).run
  let run ← recover setup attempt
  conclude setup deadline run

end Execute

end PrismPipe.Pipeline
