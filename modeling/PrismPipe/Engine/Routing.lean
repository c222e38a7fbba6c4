import PrismPipe.Engine.Deduplication

/-! The routing loops of `OrganismExecutor.execute` and `TimeSplitter.execute_branch`, await by
await.  What a lookup answers, who owns a flight and how long it takes are open. -/

namespace PrismPipe.Engine

open Transition

inductive Router.Loop
  | execute
  | executeBranch
  deriving DecidableEq

namespace Router.Loop

def maxHopsMessage (x : Executor I V) (capability : String) : Router.Loop → String
  | execute => "Max hops (" ++ toString x.maxHops ++ ") exceeded; last capability=" ++
      x.repr capability ++
      ". Raise ORGANISM_MAX_HOPS if this pipeline legitimately needs more passes."
  | executeBranch => "Max hops (" ++ toString x.maxHops ++ ") exceeded in branch execution"

def error : Router.Loop → String
  | execute => "node failed"
  | executeBranch => "branch node failed"

end Router.Loop

/-- Where the loop is: at its `while`, in the `while True` of a single flight, waiting for a future
or for another worker's lock, at the node, or left. -/
inductive RoutingPoint
  | top
  | retrying (capability : String)
  | waiting (capability : String)
  | polling (capability : String)
  | computing (capability : String)
  | ended
  deriving DecidableEq

def Router.Loop.missed (capability : String) : Router.Loop → RoutingPoint
  | execute => .retrying capability
  | executeBranch => .computing capability

structure Routing (I V : Type) where
  organism : Organism I V
  envelope : Envelope I V
  hops : Nat
  point : RoutingPoint

inductive RoutingEvent
  | restored
  | executed
  | other
  deriving DecidableEq

def RoutingEvent.counts : RoutingEvent → Bool
  | other => false
  | _ => true

def steps (es : List RoutingEvent) : Nat := es.countP (·.counts)

namespace Routing

variable {I V : Type}

def start (o : Organism I V) : Routing I V := ⟨o, o.envelope, 0, .top⟩

def sees (s : Routing I V) : Router.Loop → Envelope I V
  | .execute => s.envelope
  | .executeBranch => s.organism.envelope

structure Enters (x : Executor I V) (s : Routing I V) (capability : String) : Prop where
  point : s.point = .top
  continues : s.organism.continues
  within : s.hops + 1 ≤ x.maxHops
  route : s.organism.getCapability = capability

/-- `mark` is what a single flight leaves on the organism. -/
def restored [PyValue V] (s : Routing I V) (cached : CachedComputation V) : Routing I V :=
  { s with
    organism := s.organism.warm cached
    envelope := { s.envelope with state := (s.organism.warm cached).state, next := cached.next }
    point := .top }

def returned [PyValue V] (s : Routing I V) (loop : Router.Loop) (e : Envelope I V)
    (success : Bool) (error : Option String) : Routing I V :=
  { s with
    organism := if success && !e.terminated then s.organism.adopt e
      else (s.organism.adopt e).terminate (orElse (orElse error e.error) (some loop.error))
    envelope := e
    point := .top }

inductive Step [PyValue V] (x : Executor I V) (loop : Router.Loop) :
    Routing I V → RoutingEvent → Routing I V → Prop
  | done : s.point = .top → s.organism.continues = false →
      Step x loop s .other { s with point := .ended }
  | exceed : s.point = .top → s.organism.continues → x.maxHops < s.hops + 1 →
      Step x loop s .other
        { organism := s.organism.terminate
            (some (loop.maxHopsMessage x s.organism.getCapability))
          envelope := { s.envelope with terminated := true, error := some "max hops exceeded" }
          hops := s.hops + 1
          point := .ended }
  | stop : s.Enters x "" → Step x loop s .other { s with hops := s.hops + 1, point := .ended }
  | hit : s.Enters x capability → capability ≠ "" →
      Step x loop s .restored { s.restored cached with hops := s.hops + 1 }
  | miss : s.Enters x capability → capability ≠ "" →
      Step x loop s .other { s with hops := s.hops + 1, point := loop.missed capability }
  | again : s.point = .retrying capability → Step x loop s .restored (s.restored cached)
  | join : s.point = .retrying capability →
      Step x loop s .other { s with point := .waiting capability }
  | woken : s.point = .waiting capability →
      Step x loop s .other
        { s with organism := s.organism.markSingleFlight, point := .retrying capability }
  | locked : s.point = .retrying capability →
      Step x loop s .other { s with point := .polling capability }
  | seen : s.point = .polling capability →
      Step x loop s .other
        { s with organism := s.organism.markSingleFlight, point := .retrying capability }
  | steal : s.point = .polling capability →
      Step x loop s .other { s with point := .computing capability }
  | own : s.point = .retrying capability →
      Step x loop s .other { s with point := .computing capability }
  | missing : s.point = .computing capability → x.router capability = none →
      Step x loop s .other
        { s with
          organism := s.organism.terminate (some (nodeNotFound capability)), point := .top }
  | raise : s.point = .computing capability → x.router capability = some node →
      node.executes (s.sees loop) (.raised message) →
      Step x loop s .executed
        { s with organism := s.organism.terminate (some message), point := .top }
  | run : s.point = .computing capability → x.router capability = some node →
      node.executes (s.sees loop) (.returned e success error) →
      Step x loop s .executed (s.returned loop e success error)
  | unregistered : s.point = .computing capability → x.router capability = some node →
      node.executes (s.sees loop) (.returned e success error) →
      Step x loop s .executed
        { s with
          organism := (s.organism.adopt e).terminate (some message)
          envelope := e
          point := .top }

end Routing

def routing [PyValue V] (x : Executor I V) (loop : Router.Loop) :
    System (Routing I V) RoutingEvent where
  init s := ∃ o, s = .start o
  step := Routing.Step x loop

namespace Routing

variable {I V : Type} [PyValue V] {x : Executor I V} {loop : Router.Loop} {s t : Routing I V}

@[simp] theorem steps_append (es fs : List RoutingEvent) :
    steps (es ++ fs) = steps es + steps fs := List.countP_append

/-- `n` steps are made.  A turn that is not over has a hop for its own step. -/
def Within (x : Executor I V) (n : Nat) (s : Routing I V) : Prop :=
  match s.point with
  | .top => n ≤ s.hops ∧ s.hops ≤ x.maxHops
  | .ended => n ≤ x.maxHops
  | _ => n < s.hops ∧ s.hops ≤ x.maxHops

omit [PyValue V] in
theorem Within.le (h : s.Within x n) : n ≤ x.maxHops := by
  unfold Within at h
  split at h <;> omega

omit [PyValue V] in
theorem Within.top (h : s.Within x n) (hp : s.point = .top) : n ≤ s.hops ∧ s.hops ≤ x.maxHops := by
  simpa only [Within, hp] using h

theorem Step.within (st : s.Step x loop e t) (h : s.Within x n) :
    t.Within x (n + steps [e]) := by
  cases st with
  | done hp hc => exact h.le
  | exceed hp _ hx => exact h.le
  | stop he => exact h.le
  | hit he _ =>
    have := h.top he.point
    exact ⟨Nat.succ_le_succ this.1, he.within⟩
  | miss he _ =>
    have := h.top he.point
    cases loop <;> exact ⟨Nat.lt_succ_of_le this.1, he.within⟩
  | again hp | raise hp | run hp | unregistered hp =>
    simp only [Within, hp] at h
    exact h
  | join hp | woken hp | locked hp | seen hp | steal hp | own hp =>
    simp only [Within, hp] at h
    exact h
  | missing hp =>
    simp only [Within, hp] at h
    exact ⟨h.1.le, h.2⟩

theorem run_within (hr : Run (routing x loop) s es t) (h : s.Within x n) :
    t.Within x (n + steps es) := by
  induction hr generalizing n with
  | nil => exact h
  | @cons _ e _ es _ st _ ih =>
    have := ih (Step.within st h)
    rwa [Nat.add_assoc, ← steps_append] at this

theorem run_ended (hr : Run (routing x loop) s es t) (h : s.point = .ended) : es = [] ∧ t = s := by
  cases hr with
  | nil => exact ⟨rfl, rfl⟩
  | cons st _ =>
    cases st with
    | done hp | exceed hp => cases hp.symm.trans h
    | stop he | hit he | miss he => cases he.point.symm.trans h
    | again hp | join hp | woken hp | locked hp | seen hp | steal hp | own hp | missing hp
    | raise hp | run hp | unregistered hp => cases hp.symm.trans h

def exceeded (x : Executor I V) (loop : Router.Loop) (s : Routing I V) : Routing I V where
  organism := s.organism.terminate
    (some (loop.maxHopsMessage x s.organism.getCapability))
  envelope := { s.envelope with terminated := true, error := some "max hops exceeded" }
  hops := s.hops + 1
  point := .ended

theorem step_exceeded (hp : s.point = .top) (hc : s.organism.continues) (hh : x.maxHops ≤ s.hops) :
    s.Step x loop e t ↔ e = .other ∧ t = s.exceeded x loop := by
  constructor
  · intro st
    cases st with
    | done _ hn => cases hc.symm.trans hn
    | exceed => exact ⟨rfl, rfl⟩
    | stop he | hit he | miss he => exact absurd he.within (by omega)
    | again hp' | join hp' | woken hp' | locked hp' | seen hp' | steal hp' | own hp'
    | missing hp' | raise hp' | run hp' | unregistered hp' => cases hp.symm.trans hp'
  · rintro ⟨rfl, rfl⟩
    exact .exceed hp hc (Nat.lt_succ_of_le hh)

omit [PyValue V] in
theorem maxHopsMessage_ne (x : Executor I V) (capability : String) (loop : Router.Loop) :
    loop.maxHopsMessage x capability ≠ "" := by
  cases loop with
  | execute => exact fun he => absurd (String.append_eq_empty_iff.mp he).2 (by decide)
  | executeBranch => exact fun he => absurd (String.append_eq_empty_iff.mp he).2 (by decide)

theorem exceeded_error : (s.exceeded x loop).organism.state "_error" =
    some (PyValue.ofStr (loop.maxHopsMessage x s.organism.getCapability)) := by
  simp [exceeded, Organism.terminate, maxHopsMessage_ne, StateDict.set]

/-- At most `max_hops` nodes run or results are restored; with that many behind it, a loop that
would go on ends next, and with it the organism, with the error that says so. -/
theorem hop_bound {o : Organism I V} (hr : Run (routing x loop) (.start o) es t) :
    steps es ≤ x.maxHops ∧ (steps es = x.maxHops →
      (t.point = .top ∨ t.point = .ended) ∧
      (t.point = .top → t.organism.continues →
        (∃ u, t.Step x loop .other u) ∧ ∀ e u, t.Step x loop e u → e = .other ∧
          u.point = .ended ∧ u.organism.terminated = true ∧
          u.organism.state "_error" =
            some (PyValue.ofStr (loop.maxHopsMessage x t.organism.getCapability)) ∧
          ∀ fs v, Run (routing x loop) u fs v → fs = [] ∧ v = u)) := by
  have h : t.Within x (0 + steps es) := run_within hr ⟨Nat.zero_le _, Nat.zero_le _⟩
  rw [Nat.zero_add] at h
  refine ⟨h.le, fun heq => ⟨?_, fun hp hc => ?_⟩⟩
  · unfold Within at h
    split at h
    next hp => exact .inl hp
    next hp => exact .inr hp
    · omega
  · have hh : x.maxHops ≤ t.hops := heq ▸ (h.top hp).1
    refine ⟨⟨_, (step_exceeded hp hc hh).mpr ⟨rfl, rfl⟩⟩, fun e u st => ?_⟩
    obtain ⟨rfl, rfl⟩ := (step_exceeded hp hc hh).mp st
    exact ⟨rfl, rfl, rfl, exceeded_error, fun fs v hv => run_ended hv rfl⟩

def cyclic : Node Unit Unit where
  offload := false
  executes e outcome := outcome = .returned e true none

def cyclicExecutor : Executor Unit Unit where
  hash _ _ := "h"
  router _ := some cyclic
  maxHops := 1
  repr := id

def looping : Organism Unit Unit := ⟨(), StateDict.empty, some "c", false⟩

theorem hop_bound_cyclic : ∃ es t, Run (routing cyclicExecutor .execute) (.start looping) es t ∧
    steps es = 1 ∧ t.point = .top ∧ t.organism.continues = true ∧ steps es ≤ 1 := by
  have enters : (start looping).Enters cyclicExecutor "c" := ⟨rfl, by decide, le_rfl, by decide⟩
  have hr : Run (routing cyclicExecutor .execute) (.start looping) [.other, .other, .executed]
      (returned { start looping with hops := 1, point := .computing "c" } .execute
        looping.envelope true none) :=
    .cons (.miss enters (by decide)) (.cons (.own rfl) (.single (.run rfl rfl rfl)))
  exact ⟨_, _, hr, rfl, rfl, by decide, (hop_bound hr).1⟩

end Routing

end PrismPipe.Engine
