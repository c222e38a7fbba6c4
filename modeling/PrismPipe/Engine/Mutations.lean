import PrismPipe.Engine.Routing
import PrismPipe.Lib.Changes

/-! `OrganismMutation`, and what `OrganismExecutor.execute` records with it. Values are as they
stand, and the copies of a state share them. -/

namespace PrismPipe.Engine

open Transition

/-- `None` is a value. -/
class NullValue (V : Type) extends PyValue V, PyNe V where
  null : V

/-- `state.get(key)`. -/
def StateDict.get [NullValue V] (s : StateDict V) (key : String) : V :=
  (s key).getD NullValue.null

/-- An entry of `OrganismMutation.changes`, without its time. -/
structure Mutation (V : Type) extends Change String V where
  capability : String

/-- What `_record_mutations` appends, in any order of the keys. -/
structure RecordMutations [NullValue V] (capability : String) (before after : StateDict V)
    (recorded : List (Mutation V)) : Prop where
  changes : Change.Differences PyNe.ne (recorded.map (·.toChange)) before.get after.get
  capability : ∀ m ∈ recorded, m.capability = capability

/-- A call of `execute` with its log. -/
structure Recorded (I V : Type) extends Routing I V where
  beforeState : StateDict V
  mutations : List (Mutation V)
  /-- The capability of a turn that is over, until `_record_mutations` is called. -/
  unrecorded : Option String

inductive RecordedEvent
  | routing (e : RoutingEvent)
  | recorded
  | changed
  deriving DecidableEq

namespace Recorded

variable {I V : Type}

def start (o : Organism I V) : Recorded I V := ⟨.start o, o.state, [], none⟩

def AtHead (s : Routing I V) : Prop := s.point = .top ∧ s.organism.terminated = false

instance (s : Routing I V) : Decidable (AtHead s) := inferInstanceAs (Decidable (_ ∧ _))

def capability (s : Routing I V) : String :=
  match s.point with
  | .top => s.organism.getCapability
  | .retrying capability | .waiting capability | .polling capability
  | .computing capability => capability
  | .ended => ""

/-- `before_state` of the turn. -/
def turnState (s : Recorded I V) : StateDict V :=
  if s.unrecorded = none ∧ AtHead s.toRouting then s.organism.state else s.beforeState

def SameEntries (before after : List (Mutation V)) : Prop :=
  before.map (fun m => (m.capability, m.key)) = after.map fun m => (m.capability, m.key)

/-- A turn that comes back to the head of the loop records what it changed, unless its organism was
terminated in it. Whoever has a value may change it in place at any time, and with it the states and
the entries that have it too. -/
inductive Step [NullValue V] (x : Executor I V) :
    Recorded I V → RecordedEvent → Recorded I V → Prop
  | routing : s.unrecorded = none → s.toRouting.Step x .execute e r →
      Step x s (.routing e) ⟨r, s.turnState, s.mutations,
        if AtHead r then some (capability s.toRouting) else none⟩
  | recorded : s.unrecorded = some c → RecordMutations c s.beforeState s.organism.state new →
      Step x s .recorded { s with mutations := s.mutations ++ new, unrecorded := none }
  | changed : s.organism.state.SameKeys state → s.envelope.state.SameKeys envelopeState →
      s.beforeState.SameKeys before → SameEntries s.mutations entries →
      Step x s .changed
        { organism := { s.organism with state }
          envelope := { s.envelope with state := envelopeState }
          hops := s.hops
          point := s.point
          beforeState := before
          mutations := entries
          unrecorded := s.unrecorded }

end Recorded

def recording [NullValue V] (x : Executor I V) : System (Recorded I V) RecordedEvent where
  init s := ∃ o, s = .start o
  step := Recorded.Step x

namespace Recorded

variable {I V : Type} [NullValue V] {x : Executor I V} {s t : Recorded I V}

def changes (s : Recorded I V) : List (Change String V) := s.mutations.map (·.toChange)

/-- The log leads from the first state to the last, and each of its entries has what its key had
before it. -/
structure Replays (o : Organism I V) (s : Recorded I V) : Prop where
  final : Change.replay s.changes o.state.get = s.organism.state.get
  dated : Change.Dated s.changes o.state.get

structure Covers (o : Organism I V) (s : Recorded I V) : Prop where
  turn : Change.replay s.changes o.state.get = s.turnState.get
  dated : Change.Dated s.changes o.state.get

omit [NullValue V] in
theorem turnState_of_atHead (hu : s.unrecorded = none) (h : AtHead s.toRouting) :
    s.turnState = s.organism.state := if_pos ⟨hu, h⟩

omit [NullValue V] in
theorem turnState_of_unrecorded (h : s.unrecorded = some c) : s.turnState = s.beforeState :=
  if_neg fun hs => by cases hs.1.symm.trans h

omit [NullValue V] in
theorem turnState_of_not (h : ¬ AtHead s.toRouting) : s.turnState = s.beforeState :=
  if_neg fun hs => h hs.2

def Due (s : Recorded I V) : Prop := s.unrecorded ≠ none → AtHead s.toRouting

theorem Step.due (st : Step x s e t) (h : s.Due) : t.Due := by
  cases st with
  | @routing _ _ r _ _ =>
    intro hu
    by_contra hnot
    exact hu (if_neg hnot)
  | recorded => exact fun hu => absurd rfl hu
  | changed => exact h

theorem Covers.start (o : Organism I V) : Covers o (.start o) where
  turn := by
    unfold turnState
    split <;> rfl
  dated := trivial

theorem Covers.step {o : Organism I V} (h : Covers o s) (hdue : s.Due) (st : Step x s e t)
    (he : e ≠ .changed) : Covers o t := by
  cases st with
  | @routing _ _ r _ _ =>
    refine ⟨?_, h.dated⟩
    have hturn : turnState ⟨r, s.turnState, s.mutations,
        if AtHead r then some (capability s.toRouting) else none⟩ = s.turnState := by
      by_cases hr : AtHead r
      · exact turnState_of_unrecorded (if_pos hr)
      · exact turnState_of_not hr
    rw [hturn]
    exact h.turn
  | @recorded _ _ new hu hnew =>
    have hhead := hdue (by rw [hu]; exact Option.some_ne_none _)
    have hturn := h.turn
    rw [turnState_of_unrecorded hu] at hturn
    refine ⟨?_, ?_⟩
    · rw [turnState_of_atHead (s := .mk _ _ _ _) rfl hhead, changes, List.map_append,
        Change.replay_append]
      exact (congrArg _ hturn).trans (hnew.changes.replay PyNe.ne_of_ne)
    · rw [changes, List.map_append, Change.dated_append]
      refine ⟨h.dated, ?_⟩
      rw [changes] at hturn
      rw [hturn]
      exact hnew.changes.dated
  | changed => exact absurd rfl he

def Settled (s : Recorded I V) : Prop :=
  s.point = .ended → s.organism.terminated = false → s.organism.state = s.beforeState

omit [NullValue V] in
theorem settled_start (o : Organism I V) : (start o).Settled := nofun

theorem Step.settled (st : Step x s e t) (h : s.Settled) (he : e ≠ .changed) : t.Settled := by
  cases st with
  | routing hu st =>
    intro hp halive
    cases st with
    | done htop => exact (turnState_of_atHead hu ⟨htop, halive⟩).symm
    | exceed => cases halive
    | stop henters => exact (turnState_of_atHead hu ⟨henters.point, halive⟩).symm
    | hit | miss | again | join | woken | locked | seen | steal | own | missing | raise | run
    | unregistered => cases hp
  | recorded => exact h
  | changed => exact absurd rfl he

theorem run_covers {o : Organism I V} (hr : Run (recording x) (.start o) es t)
    (hes : .changed ∉ es) : Covers o t ∧ t.Due ∧ t.Settled := by
  suffices key : ∀ s, Covers o s ∧ s.Due ∧ s.Settled → Run (recording x) s es t →
      Covers o t ∧ t.Due ∧ t.Settled from
    key _ ⟨.start o, fun h => absurd rfl h, settled_start o⟩ hr
  clear hr
  intro s hs hr
  induction hr with
  | nil => exact hs
  | cons st _ ih =>
    obtain ⟨hcovers, hdue, hsettled⟩ := hs
    have hne : _ ≠ RecordedEvent.changed := fun he => hes (he ▸ List.mem_cons_self)
    exact ih (List.not_mem_of_not_mem_cons hes)
      ⟨hcovers.step hdue st hne, Step.due st hdue, Step.settled st hsettled hne⟩

/-- Where no value is changed in place, the log of a call replays to its final state exactly if the
turn that terminated the organism, where one did, left the state as it found it. -/
theorem replays_iff {o : Organism I V} (hr : Run (recording x) (.start o) es t)
    (hp : t.point = .ended) (hes : .changed ∉ es) :
    Replays o t ↔
      (t.organism.terminated = true → t.organism.state.get = t.beforeState.get) := by
  obtain ⟨hcovers, -, hsettled⟩ := run_covers hr hes
  have hturn := hcovers.turn
  rw [turnState_of_not fun h => by cases hp.symm.trans h.1] at hturn
  constructor
  · exact fun h _ => h.final.symm.trans hturn
  · intro h
    refine ⟨hturn.trans ?_, hcovers.dated⟩
    cases ht : t.organism.terminated with
    | true => exact (h ht).symm
    | false => rw [hsettled hp ht]

instance : NullValue (Option Unit) where
  ofBool _ := some ()
  ofStr _ := some ()
  ne v w := v ≠ w
  ne_of_ne _ _ h := decide_eq_true h
  null := none

def emptyExecutor : Executor Unit (Option Unit) where
  hash _ _ := "h"
  router _ := none
  maxHops := 1
  repr := id

def unrouted (state : StateDict (Option Unit)) : Organism Unit (Option Unit) :=
  ⟨(), state, some "c", false⟩

def unresolved (state : StateDict (Option Unit)) : Recorded Unit (Option Unit) where
  organism := (unrouted state).terminate (some (nodeNotFound "c"))
  envelope := (unrouted state).envelope
  hops := 1
  point := .ended
  beforeState := state
  mutations := []
  unrecorded := none

def unresolvedEvents : List RecordedEvent :=
  [.routing .other, .routing .other, .routing .other, .routing .other]

theorem run_unresolved (state : StateDict (Option Unit)) :
    Run (recording emptyExecutor) (start (unrouted state)) unresolvedEvents (unresolved state) := by
  have henters : (Routing.start (unrouted state)).Enters emptyExecutor "c" :=
    ⟨rfl, rfl, le_rfl, rfl⟩
  refine .cons (.routing rfl (.miss henters (by decide))) ?_
  refine .cons (.routing rfl (.own rfl)) ?_
  refine .cons (.routing rfl (.missing rfl rfl)) ?_
  exact .single (.routing rfl (.done rfl rfl))

/-- The error is in the state and not in the log. -/
theorem unresolved_not_replayed :
    Run (recording emptyExecutor) (start (unrouted .empty)) unresolvedEvents (unresolved .empty) ∧
      ¬ Replays (unrouted .empty) (unresolved .empty) := by
  refine ⟨run_unresolved _, fun h => ?_⟩
  have herror := congrFun h.final "_error"
  revert herror
  decide +kernel

/-- Where the state had the error before, there is nothing to record. -/
theorem replays_iff_unresolved :
    Replays (unrouted (StateDict.empty.set "_error" (some ())))
      (unresolved (StateDict.empty.set "_error" (some ()))) := by
  refine (replays_iff (run_unresolved _) rfl (by decide)).mpr fun _ => ?_
  funext k
  by_cases hk : k = "_error"
  · subst hk
    decide +kernel
  · have hset (s : StateDict (Option Unit)) (v) : s.set "_error" v k = s k := if_neg hk
    unfold StateDict.get unresolved Organism.terminate
    dsimp only
    split <;> simp only [unrouted, hset]

end Recorded

end PrismPipe.Engine
