import PrismPipe.Engine.ComputationGraph

/-! Organisms, the envelopes nodes see, and the router. -/

namespace PrismPipe.Engine

/-- `continues` is the condition of the routing loops. -/
structure Organism (I V : Type) where
  input : I
  state : StateDict V
  next : Option String
  terminated : Bool

structure Envelope (I V : Type) where
  input : I
  state : StateDict V
  next : Option String
  terminated : Bool
  error : Option String

inductive NodeOutcome (I V : Type)
  | raised (error : String)
  | returned (envelope : Envelope I V) (success : Bool) (error : Option String)

structure Node (I V : Type) where
  offload : Bool
  executes : Envelope I V → NodeOutcome I V → Prop

/-- `resolve`, aliases included; `none` raises `NodeNotFoundError`. -/
abbrev Router (I V : Type) := String → Option (Node I V)

def nodeNotFound (capability : String) : String :=
  "No node registered for capability: " ++ capability

def truthy (s : Option String) : Bool := s.any (· ≠ "")

/-- `a or b`. -/
def orElse (a b : Option String) : Option String := if truthy a then a else b

namespace Organism

variable {I V : Type}

def continues (o : Organism I V) : Bool := truthy o.next && !o.terminated

/-- The capability, `""` where there is none. -/
def getCapability (o : Organism I V) : String :=
  match o.next with
  | none => ""
  | some next => if "capability:".toList.isPrefixOf next.toList then afterColon next else next

def fingerprint (o : Organism I V) : Fingerprint I V := ⟨o.input, o.state.publicState⟩

variable [PyValue V]

def terminate (o : Organism I V) (error : Option String) : Organism I V :=
  { o with
    terminated := true
    state := match error with
      | some message => if message = "" then o.state
        else o.state.set "_error" (PyValue.ofStr message)
      | none => o.state }

def restore (o : Organism I V) (cached : CachedComputation V) : Organism I V :=
  { o with
    state := (o.state.restore cached.state).set "_from_shared" (PyValue.ofBool true)
    next := cached.next }

/-- `restore`, where the id of the shared node is kept as well. -/
def warm (o : Organism I V) (cached : CachedComputation V) : Organism I V :=
  { o.restore cached with
    state := (o.restore cached).state.set "_shared_node_id" (PyValue.ofStr cached.nodeId) }

def markSingleFlight (o : Organism I V) : Organism I V :=
  { o with state := o.state.set "_from_single_flight" (PyValue.ofBool true) }

omit [PyValue V] in
def adopt (o : Organism I V) (envelope : Envelope I V) : Organism I V :=
  { o with state := envelope.state, next := envelope.next }

section Laws

@[simp] theorem terminate_terminated (o : Organism I V) (error : Option String) :
    (o.terminate error).terminated = true := rfl

@[simp] theorem terminate_next (o : Organism I V) (error : Option String) :
    (o.terminate error).next = o.next := rfl

@[simp] theorem terminate_input (o : Organism I V) (error : Option String) :
    (o.terminate error).input = o.input := rfl

@[simp] theorem terminate_publicState (o : Organism I V) (error : Option String) :
    (o.terminate error).state.publicState = o.state.publicState := by
  unfold terminate
  dsimp only
  split
  · split
    · rfl
    · exact StateDict.publicState_set _ rfl _
  · rfl

@[simp] theorem warm_terminated (o : Organism I V) (cached : CachedComputation V) :
    (o.warm cached).terminated = o.terminated := rfl

@[simp] theorem warm_next (o : Organism I V) (cached : CachedComputation V) :
    (o.warm cached).next = cached.next := rfl

@[simp] theorem warm_input (o : Organism I V) (cached : CachedComputation V) :
    (o.warm cached).input = o.input := rfl

@[simp] theorem warm_publicState (o : Organism I V) (cached : CachedComputation V) :
    (o.warm cached).state.publicState = (o.state.restore cached.state).publicState := by
  unfold warm restore
  rw [StateDict.publicState_set _ rfl, StateDict.publicState_set _ rfl]

@[simp] theorem markSingleFlight_terminated (o : Organism I V) :
    o.markSingleFlight.terminated = o.terminated := rfl

@[simp] theorem markSingleFlight_next (o : Organism I V) :
    o.markSingleFlight.next = o.next := rfl

@[simp] theorem markSingleFlight_input (o : Organism I V) :
    o.markSingleFlight.input = o.input := rfl

@[simp] theorem markSingleFlight_publicState (o : Organism I V) :
    o.markSingleFlight.state.publicState = o.state.publicState :=
  StateDict.publicState_set _ rfl _

end Laws

end Organism

end PrismPipe.Engine
