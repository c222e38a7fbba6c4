import PrismPipe.Engine.Routing

/-! Cached failures: what a lookup answers does not say that a result was one, and no consumer of it
ends as the one that failed. -/

namespace PrismPipe.Engine

open Transition

/-- A lookup of `key` finds an entry of its own that has not expired, or one in Redis, registered
with this success. -/
inductive ComputationGraph.Serves {V : Type} (g : ComputationGraph V) (now : ℚ) (key : String) :
    Option (RedisReply V) → Bool → CachedComputation V → Prop
  | stored : g.hashToNode.lookup key = some nodeId → g.outputs.lookup nodeId = some output →
      ¬ output.expiresAt.any (· ≤ now) →
      Serves g now key reply output.success ⟨nodeId, output.state, output.next⟩
  | shared : (g.findOutput now key).1 = none → reply.ttl ≠ some (-2) →
      reply.nodeId = some nodeId →
      Serves g now key (some reply) reply.success ⟨nodeId, reply.state, reply.next⟩

theorem ComputationGraph.Serves.hit {V : Type} {g : ComputationGraph V}
    {reply : Option (RedisReply V)} {cached : CachedComputation V}
    (h : g.Serves now key reply success cached) (capability : String) :
    (g.getCachedResultByKey now capability key reply).1 = some cached := by
  cases h with
  | @stored nodeId output _ hn ho he =>
    have hf : g.findOutput now key =
        (some ⟨nodeId, output.state, output.next⟩, g.put nodeId output) := by
      simp only [findOutput, hn, ho, if_neg he]
    simp only [getCachedResultByKey, hf]
  | @shared reply nodeId hf ht hn =>
    obtain ⟨g', hg⟩ : ∃ g', g.findOutput now key = (none, g') := ⟨_, Prod.ext hf rfl⟩
    simp only [getCachedResultByKey, hg, hydrateFromRedis, if_neg ht, hn, Option.getD_some]

namespace Routing

variable {I V : Type} [PyValue V] {x : Executor I V} {loop : Router.Loop} {s t u : Routing I V}

/-- The call ends in `u` with its organism terminated, and no turn of the loop after `t`. -/
structure EndsFailed (t u : Routing I V) : Prop where
  ended : u.point = .ended
  terminated : u.organism.terminated = true
  hops : u.hops = t.hops

def Alive (s : Routing I V) : Prop :=
  s.point ≠ .top → s.point ≠ .ended → s.organism.terminated = false

omit [PyValue V] in
theorem Enters.alive (h : s.Enters x capability) : s.organism.terminated = false := by
  have := h.continues
  simp only [Organism.continues, Bool.and_eq_true, Bool.not_eq_true'] at this
  exact this.2

theorem alive (x : Executor I V) (loop : Router.Loop) : Invariant (routing x loop) Alive where
  init := by
    rintro s ⟨o, rfl⟩ hp
    exact absurd rfl hp
  step := by
    intro s e t h st
    cases st with
    | done | exceed | stop => exact fun _ hp => absurd rfl hp
    | hit | again | missing | raise | run | unregistered => exact fun hp => absurd rfl hp
    | miss he => exact fun _ _ => he.alive
    | join hp | woken hp | locked hp | seen hp | steal hp | own hp =>
      exact fun _ _ => h (by simp [hp]) (by simp [hp])

theorem Step.hops_le (st : s.Step x loop e t) : s.hops ≤ t.hops := by
  cases st with
  | exceed | stop | hit | miss => exact Nat.le_succ _
  | _ => exact le_rfl

theorem run_hops_le (hr : Run (routing x loop) s es t) : s.hops ≤ t.hops := by
  induction hr with
  | nil => exact le_rfl
  | cons st _ ih => exact (Step.hops_le st).trans ih

theorem ends_or_turns (hp : t.point = .top) (hr : Run (routing x loop) t es u)
    (hu : u.point = .ended) :
    t.organism.continues = false ∧ u.organism = t.organism ∧ u.hops = t.hops ∨
      t.organism.continues = true ∧ t.hops < u.hops := by
  cases hr with
  | nil => cases hp.symm.trans hu
  | cons st hr =>
    have hle := run_hops_le hr
    cases st with
    | done _ hc =>
      obtain ⟨-, rfl⟩ := run_ended hr rfl
      exact .inl ⟨hc, rfl, rfl⟩
    | exceed _ hc => exact .inr ⟨hc, hle⟩
    | stop he | hit he | miss he => exact .inr ⟨he.continues, hle⟩
    | again hp' | join hp' | woken hp' | locked hp' | seen hp' | steal hp' | own hp'
    | missing hp' | raise hp' | run hp' | unregistered hp' => cases hp.symm.trans hp'

theorem endsFailed_returned {e : Envelope I V} {error : Option String}
    (hr : Run (routing x loop) (s.returned loop e false error) es u) (hu : u.point = .ended) :
    EndsFailed (s.returned loop e false error) u := by
  have ht : (s.returned loop e false error).organism.terminated = true := rfl
  rcases ends_or_turns rfl hr hu with ⟨-, ho, hh⟩ | ⟨hc, -⟩
  · exact ⟨hu, ho ▸ ht, hh⟩
  · simp [Organism.continues, ht] at hc

theorem Step.restored_spec (h : s.Alive) (st : s.Step x loop .restored t) :
    t.point = .top ∧ t.organism.terminated = false := by
  cases st with
  | hit he => exact ⟨rfl, he.alive⟩
  | again hp => exact ⟨rfl, h (by simp [hp]) (by simp [hp])⟩

theorem not_endsFailed_restored (h : s.Alive) (st : s.Step x loop .restored t)
    (hr : Run (routing x loop) t es u) : ¬ EndsFailed t u := by
  obtain ⟨hp, hn⟩ := st.restored_spec h
  rintro ⟨hu, hterm, hh⟩
  rcases ends_or_turns hp hr hu with ⟨-, ho, -⟩ | ⟨-, hlt⟩
  · rw [ho, hn] at hterm
    cases hterm
  · omega

end Routing

/-- What `execute_swarm` collects: `state.get("partition_result", state.get("result", state))`. -/
inductive WorkerResult (V : Type)
  | value (value : V)
  | state (state : StateDict V)

def Organism.result {I V : Type} (worker : Organism I V) : WorkerResult V :=
  match (worker.state "partition_result").or (worker.state "result") with
  | some value => .value value
  | none => .state worker.state

/-- The workers of one `execute_swarm`, in turn. -/
structure Swarming (I V : Type) where
  waiting : List (Organism I V)
  finished : List (Organism I V)
  results : List (WorkerResult V)
  errorCount : Nat
  raised : Option String

inductive SwarmEvent
  | restored
  | succeeded
  | failed
  deriving DecidableEq

namespace Swarming

variable {I V : Type}

/-- `set_next` has been called. -/
def start (workers : List (Organism I V)) (capability : String) : Swarming I V where
  waiting := workers.map fun worker => { worker with next := some capability }
  finished := []
  results := []
  errorCount := 0
  raised := none

/-- The worker is left to one `except Exception`, with what it is by then. -/
inductive Raises (router : Router I V) (capability : String) (worker : Organism I V) :
    Organism I V → String → Prop
  | lookup : Raises router capability worker worker message
  | missing : router capability = none →
      Raises router capability worker worker (nodeNotFound capability)
  | node : router capability = some node →
      node.executes { worker.envelope with next := some capability } (.raised message) →
      Raises router capability worker worker message
  | unregistered : router capability = some node →
      node.executes { worker.envelope with next := some capability }
        (.returned e success error) →
      Raises router capability worker (worker.adopt e) message

/-- The next worker is done, and `LEARNING` whatever an earlier run left it. -/
def collect (s : Swarming I V) (rest : List (Organism I V)) (worker : Organism I V) :
    Swarming I V :=
  { s with
    waiting := rest
    finished := s.finished ++ [{ worker with terminated := false }]
    results := s.results ++ [worker.result] }

def discard [PyValue V] (s : Swarming I V) (rest : List (Organism I V)) (worker : Organism I V)
    (errors : Nat) (message : String) (failFast : Bool) : Swarming I V :=
  { s with
    waiting := rest
    finished := s.finished ++ [worker.terminate (some message)]
    errorCount := s.errorCount + errors
    raised := if failFast then some message else none }

inductive Step [PyValue V] (router : Router I V) (capability : String) (failFast : Bool) :
    Swarming I V → SwarmEvent → Swarming I V → Prop
  | restore (cached : CachedComputation V) : s.raised = none → s.waiting = worker :: rest →
      Step router capability failFast s .restored (s.collect rest (worker.restore cached))
  | succeed : s.raised = none → s.waiting = worker :: rest → router capability = some node →
      node.executes { worker.envelope with next := some capability } (.returned e true error) →
      Step router capability failFast s .succeeded (s.collect rest (worker.adopt e))
  /-- With `fail_fast` the error raised for it is counted once more. -/
  | fail : s.raised = none → s.waiting = worker :: rest → router capability = some node →
      node.executes { worker.envelope with next := some capability } (.returned e false error) →
      orElse error (some "swarm worker failed") = some message →
      Step router capability failFast s .failed
        (s.discard rest (worker.adopt e) (if failFast then 2 else 1) message failFast)
  | raise : s.raised = none → s.waiting = worker :: rest →
      Raises router capability worker left message →
      Step router capability failFast s .failed (s.discard rest left 1 message failFast)

end Swarming

def swarming {I V : Type} [PyValue V] (router : Router I V) (capability : String)
    (failFast : Bool) : System (Swarming I V) SwarmEvent where
  init s := ∃ workers, s = .start workers capability
  step := Swarming.Step router capability failFast

namespace Swarming

variable {I V : Type} [PyValue V] {router : Router I V} {capability : String} {failFast : Bool}
  {s t u : Swarming I V}

theorem Step.results_prefix (st : s.Step router capability failFast e t) :
    s.results <+: t.results := by
  cases st with
  | restore | succeed => exact List.prefix_append _ _
  | fail | raise => exact List.prefix_rfl

theorem run_results_prefix (hr : Run (swarming router capability failFast) s es t) :
    s.results <+: t.results := by
  induction hr with
  | nil => exact List.prefix_rfl
  | cons st _ ih => exact (Step.results_prefix st).trans ih

theorem Step.failed_spec (st : s.Step router capability failFast .failed t) :
    s.errorCount < t.errorCount ∧ t.results = s.results := by
  cases st with
  | fail => exact ⟨Nat.lt_add_of_pos_right (by split <;> decide), rfl⟩
  | raise => exact ⟨Nat.lt_succ_self _, rfl⟩

theorem Step.restored_spec (st : s.Step router capability failFast .restored t) {o : Organism I V}
    (ht : t.finished = s.finished ++ [o]) :
    t.errorCount = s.errorCount ∧ t.results = s.results ++ [o.result] := by
  cases st with
  | restore =>
    obtain rfl := List.singleton_inj.mp (List.append_cancel_left ht)
    exact ⟨rfl, rfl⟩

end Swarming

/-- The answer for a failure is a result like any other: no call that restores it ends as one that
fails at its node, and no swarm counts its worker or leaves it out of the results. -/
theorem cached_failure_not_replayed {V : Type} [PyValue V] {g : ComputationGraph V}
    {reply : Option (RedisReply V)} {cached : CachedComputation V}
    (h : g.Serves now key reply false cached) :
    (∀ capability, (g.getCachedResultByKey now capability key reply).1 = some cached) ∧
      (∀ (I : Type) (x : Executor I V) (loop : Router.Loop) (o : Organism I V) es s,
        Run (routing x loop) (.start o) es s →
        (∀ e error fs u, Run (routing x loop) (s.returned loop e false error) fs u →
          u.point = .ended → Routing.EndsFailed (s.returned loop e false error) u) ∧
        ∀ t, s.Step x loop .restored t → t.organism = s.organism.warm cached →
          ∀ fs u, Run (routing x loop) t fs u → ¬ Routing.EndsFailed t u) ∧
      ∀ (I : Type) (router : Router I V) capability failFast (s t : Swarming I V),
        (s.Step router capability failFast .failed t →
          s.errorCount < t.errorCount ∧ t.results = s.results) ∧
        (s.Step router capability failFast .restored t → ∀ worker : Organism I V,
          t.finished = s.finished ++ [worker.restore cached] →
          t.errorCount = s.errorCount ∧ ∀ es u,
            Run (swarming router capability failFast) t es u →
            s.results ++ [(worker.restore cached).result] <+: u.results) := by
  refine ⟨h.hit, fun I x loop o es s hs => ⟨?_, ?_⟩,
    fun I router capability failFast s t => ⟨?_, ?_⟩⟩
  · intro e error fs u hr hu
    exact Routing.endsFailed_returned hr hu
  · intro t st _ fs u hr
    have halive := (Routing.alive x loop).reachable (hs.reachable (.init ⟨o, rfl⟩))
    exact Routing.not_endsFailed_restored halive st hr
  · exact fun st => st.failed_spec
  · intro st worker ht
    obtain ⟨hcount, hres⟩ := st.restored_spec ht
    exact ⟨hcount, fun es u hr => hres ▸ Swarming.run_results_prefix hr⟩

/-- The failure of `"c"`, registered with nothing to route to. -/
def failed : CachedComputation Unit := ⟨"comp", StateDict.empty, none⟩

def failing : ComputationGraph Unit :=
  (ComputationGraph.empty 1 30 2 fun _ => none).registerComputation 0 "comp" "c" "h"
    StateDict.empty none false

theorem failing_serves : failing.Serves 0 "c:h" none false failed :=
  @ComputationGraph.Serves.stored _ _ _ _ "comp"
    ⟨StateDict.empty, none, false, some (0 + (2 : Int)), "c:h"⟩ none (by decide) rfl (by norm_num)

theorem restored_run (loop : Router.Loop) :
    ∃ t u : Routing Unit Unit,
      (Routing.start Routing.looping).Step Routing.cyclicExecutor loop .restored t ∧
      t.organism = Routing.looping.warm failed ∧
      Run (routing Routing.cyclicExecutor loop) t [.other] u ∧ u.point = .ended ∧
      u.organism.terminated = false := by
  have enters : (Routing.start Routing.looping).Enters Routing.cyclicExecutor "c" :=
    ⟨rfl, by decide, le_rfl, by decide⟩
  exact ⟨_, _, .hit enters (by decide), rfl, .single (.done rfl rfl), rfl, rfl⟩

theorem cached_failure_not_replayed_failing :
    (failing.getCachedResultByKey 0 "c" "c:h" none).1 = some failed ∧
      ∃ t u : Routing Unit Unit, t.organism = Routing.looping.warm failed ∧
        Run (routing Routing.cyclicExecutor .execute) t [.other] u ∧
        ¬ Routing.EndsFailed t u := by
  obtain ⟨hit, loops, -⟩ := cached_failure_not_replayed failing_serves
  obtain ⟨t, u, st, ht, hr, -⟩ := restored_run .execute
  have restored := (loops Unit Routing.cyclicExecutor .execute Routing.looping [] _ .nil).2
  exact ⟨hit "c", t, u, ht, hr, restored t st ht _ u hr⟩

/-- Nothing is left to route to, and the call completes. -/
theorem cached_failure_completes :
    failing.Serves 0 (lookupKey Routing.cyclicExecutor.hash "c" Routing.looping.fingerprint) none
        false failed ∧
      ∀ loop, ∃ t u : Routing Unit Unit,
        (Routing.start Routing.looping).Step Routing.cyclicExecutor loop .restored t ∧
        t.organism = Routing.looping.warm failed ∧
        Run (routing Routing.cyclicExecutor loop) t [.other] u ∧ u.point = .ended ∧
        u.organism.terminated = false :=
  ⟨failing_serves, restored_run⟩

end PrismPipe.Engine
