import Mathlib.Logic.Function.Basic
import Mathlib.Logic.Relation
import Mathlib.Tactic.NormNum
import Mathlib.Tactic.Set
import PrismPipe.Lib.Transition
import PrismPipe.Engine.Organism

/-! Single flight without Redis: any number of calls of `execute` with one computation on one
executor.  Futures are numbered as they are made. -/

namespace PrismPipe.Engine

open Transition

/-- What the calls have in common.  `succeeds` holds of what the node may return, and `changes` of
what a value of it, which the entry and the organisms share, may be changed to in place later. -/
structure Computation (I V : Type) where
  hash : Hash I V
  capability : String
  fingerprint : Fingerprint I V
  succeeds : StateDict V → Option String → Prop
  changes : V → V → Prop

def Computation.key (x : Computation I V) : String := lookupKey x.hash x.capability x.fingerprint

def Computation.Becomes (x : Computation I V) : StateDict V → StateDict V → Prop :=
  StateDict.Related (Relation.ReflTransGen x.changes)

def Computation.Keeps (x : Computation I V) (state : StateDict V) : Prop :=
  x.fingerprint.state.Within state ∧
    ∀ k v w, state.publicState k = some v → x.changes v w → w = v

inductive CallPoint (V : Type)
  | away
  | waiting (fut : Nat)
  | executing (fut : Nat)
  | obtained (state : StateDict V) (next : Option String)
  | failed

structure OwnResult (V : Type) where
  fut : Nat
  state : StateDict V
  next : Option String

/-- `inflight` is the entry of `_inflight`, and `futures` has what was set on them. -/
structure Coalescing (V : Type) where
  now : ℚ
  graph : ComputationGraph V
  inflight : Option Nat
  futures : Nat → Option Bool
  drawn : Nat
  calls : Nat → CallPoint V
  started : Nat
  raised : Nat
  results : List (OwnResult V)

inductive CallEvent
  | outside
  | looks
  | ends

namespace Coalescing

variable {I V : Type}

def lookup (s : Coalescing V) (x : Computation I V) :
    Option (CachedComputation V) × ComputationGraph V :=
  s.graph.getCachedResultByKey s.now x.capability x.key none

def setCall (s : Coalescing V) (i : Nat) (p : CallPoint V) : Coalescing V :=
  { s with calls := Function.update s.calls i p }

def restore (s : Coalescing V) (x : Computation I V) (i : Nat) (cached : CachedComputation V) :
    Coalescing V :=
  s.setCall i (.obtained (x.fingerprint.state.restore cached.state).publicState cached.next)

/-- `_await_inflight_or_own`; an owner goes on to the node. -/
def awaitInflightOrOwn (s : Coalescing V) (i : Nat) : Coalescing V :=
  match s.inflight with
  | some fut => s.setCall i (.waiting fut)
  | none =>
    { s with inflight := some s.drawn, drawn := s.drawn + 1, started := s.started + 1 }.setCall i
      (.executing s.drawn)

/-- A turn of the `while True`. -/
def loop (s : Coalescing V) (x : Computation I V) (i : Nat) : Coalescing V :=
  match s.lookup x with
  | (some cached, g) => { s with graph := g }.restore x i cached
  | (none, g) => { s with graph := g }.awaitInflightOrOwn i

def arrive (s : Coalescing V) (x : Computation I V) (i : Nat) : Coalescing V :=
  match s.lookup x with
  | (some cached, g) => { s with graph := g }.restore x i cached
  | (none, g) => { s with graph := g }.loop x i

def finishInflight (s : Coalescing V) (fut : Nat) (ok : Bool) : Coalescing V :=
  { s with
    futures := if s.futures fut = none then Function.update s.futures fut (some ok) else s.futures
    inflight := if s.inflight = some fut then none else s.inflight }

def register (s : Coalescing V) (x : Computation I V) (i fut : Nat) (nodeId : String)
    (state : StateDict V) (next : Option String) : Coalescing V :=
  ({ s with
      graph := s.graph.registerComputation s.now nodeId x.capability (afterColon x.key)
        state.publicState next true
      results := ⟨fut, state.publicState, next⟩ :: s.results }.finishInflight fut true).setCall i
    (.obtained state.publicState next)

def fail (s : Coalescing V) (i fut : Nat) : Coalescing V :=
  ({ s with raised := s.raised + 1 }.finishInflight fut false).setCall i .failed

inductive Step (drawnFor : String → String) (x : Computation I V) :
    Coalescing V → CallEvent → Coalescing V → Prop
  | tick : s.now ≤ later → Step drawnFor x s .outside { s with now := later }
  | otherLookup : key ≠ x.key →
      Step drawnFor x s .outside
        { s with graph := (s.graph.getCachedResultByKey s.now capability key none).2 }
  | otherRegister : drawnFor nodeId = capability ++ ":" ++ inputHash →
      capability ++ ":" ++ inputHash ≠ x.key →
      Step drawnFor x s .outside
        { s with
          graph := s.graph.registerComputation s.now nodeId capability inputHash output next
            success }
  | changed :
      s.graph.Changes (fun key v w => key = x.key → Relation.ReflTransGen x.changes v w) g →
      Step drawnFor x s .outside { s with graph := g }
  | arrive : s.calls i = .away → Step drawnFor x s .looks (s.arrive x i)
  | resume : s.calls i = .waiting fut → s.futures fut = some ok →
      Step drawnFor x s .looks (s.loop x i)
  | register : s.calls i = .executing fut → x.succeeds state next → drawnFor nodeId = x.key →
      Step drawnFor x s .ends (s.register x i fut nodeId state next)
  | fail : s.calls i = .executing fut → Step drawnFor x s .ends (s.fail i fut)

def Holds (x : Computation I V) (results : List (OwnResult V)) (output : Output V) : Prop :=
  output.lookupKey = x.key → ∃ r ∈ results, x.Becomes r.state output.state ∧ r.next = output.next

def Stands (x : Computation I V) (s : Coalescing V) : CallEvent → Prop
  | .looks => s.results ≠ [] → s.graph.Live s.now x.key
  | _ => True

end Coalescing

def coalescing (drawnFor : String → String) (x : Computation I V) :
    System (Coalescing V) CallEvent where
  init s := s.graph.Sound drawnFor (Coalescing.Holds x []) ∧ s.inflight = none ∧
    (∀ fut, s.futures fut = none) ∧ s.drawn = 0 ∧ (∀ i, s.calls i = .away) ∧ s.started = 0 ∧
    s.raised = 0 ∧ s.results = []
  step := Coalescing.Step drawnFor x

def standingCoalescing (drawnFor : String → String) (x : Computation I V) :
    System (Coalescing V) CallEvent where
  init := (coalescing drawnFor x).init
  step s e t := s.Step drawnFor x e t ∧ s.Stands x e

namespace Coalescing

variable {I V : Type} {drawnFor : String → String} {x : Computation I V}
  {results results' : List (OwnResult V)} {raised : Nat} {g : ComputationGraph V}
  {p : CallPoint V}

structure Attended (drawnFor : String → String) (x : Computation I V) (s : Coalescing V) :
    Prop where
  sound : s.graph.Sound drawnFor (Holds x s.results)
  owned : ∀ {fut}, s.inflight = some fut → s.futures fut = none ∧ ∃ i, s.calls i = .executing fut
  executing : ∀ {i fut}, s.calls i = .executing fut → s.inflight = some fut
  single : ∀ {i j fut fut'}, s.calls i = .executing fut → s.calls j = .executing fut' → i = j
  waits : ∀ {i fut}, s.calls i = .waiting fut → s.futures fut ≠ none ∨ s.inflight = some fut
  registered : ∀ {fut}, s.futures fut = some true → ∃ r ∈ s.results, r.fut = fut
  undrawn : ∀ {fut}, s.drawn ≤ fut → s.futures fut = none ∧ s.inflight ≠ some fut
  succeeded : ∀ r ∈ s.results, ∃ state, x.succeeds state r.next ∧ r.state = state.publicState
  count : s.started = s.results.length + s.raised + s.inflight.toList.length
  obtained : ∀ {i state next}, s.calls i = .obtained state next → ∃ r ∈ s.results,
    next = r.next ∧ (state = r.state ∨ ∃ held, x.Becomes r.state held ∧
      state = (x.fingerprint.state.restore held).publicState)

theorem becomes_refl (x : Computation I V) (state : StateDict V) :
    x.Becomes state state := by
  intro k
  cases state k with
  | none => exact .none
  | some => exact .some .refl

theorem eq_of_becomes {state held : StateDict V} (h : x.Becomes state.publicState held)
    (hs : ∀ k v w, state.publicState k = some v → x.changes v w → w = v) :
    held = state.publicState := by
  funext k
  have hk := h k
  cases hs' : state.publicState k <;> cases hh : held k <;> rw [hs', hh] at hk <;> cases hk
  case some.some v w hvw =>
    clear hh
    congr 1
    induction hvw with
    | refl => rfl
    | tail _ hstep ih =>
      rw [ih] at hstep
      exact hs k _ _ hs' hstep

theorem calls_setCall (s : Coalescing V) (i : Nat) (p : CallPoint V) (j : Nat) :
    (s.setCall i p).calls j = if j = i then p else s.calls j := Function.update_apply _ _ _ _

theorem Holds.mono (h : Holds x results output) (hr : ∀ r ∈ results, r ∈ results') :
    Holds x results' output := by
  intro hk
  obtain ⟨r, hmem, hs⟩ := h hk
  exact ⟨r, hr r hmem, hs⟩

theorem Attended.setGraph {s : Coalescing V} (h : s.Attended drawnFor x)
    (hg : g.Sound drawnFor (Holds x s.results)) :
    ({ s with graph := g } : Coalescing V).Attended drawnFor x := { h with sound := hg }

theorem Attended.lookup {s : Coalescing V} (h : s.Attended drawnFor x)
    (hl : s.lookup x = (result, g)) :
    ({ s with graph := g } : Coalescing V).Attended drawnFor x ∧ ∀ cached, result = some cached →
      ∃ r ∈ s.results, x.Becomes r.state cached.state ∧ r.next = cached.next := by
  have hl : s.graph.getCachedResultByKey s.now x.capability x.key none = (result, g) := hl
  obtain ⟨hg, hc⟩ := h.sound.getCachedResultByKey (by rintro _ ⟨⟩) hl
  refine ⟨h.setGraph hg, fun cached hcached => ?_⟩
  obtain ⟨output, hP, hk, hrest, -⟩ := hc cached hcached
  obtain ⟨r, hr, hs, hn⟩ := hP hk
  exact ⟨r, hr, hrest.1 ▸ hs, hn.trans hrest.2.symm⟩

theorem Attended.setCall {s : Coalescing V} (h : s.Attended drawnFor x)
    (hi : ∀ fut, s.calls i ≠ .executing fut) (hp : ∀ fut, p ≠ .executing fut)
    (hw : ∀ fut, p = .waiting fut → s.inflight = some fut)
    (ho : ∀ state next, p = .obtained state next → ∃ r ∈ s.results, next = r.next ∧
      (state = r.state ∨ ∃ held, x.Becomes r.state held ∧
        state = (x.fingerprint.state.restore held).publicState)) :
    (s.setCall i p).Attended drawnFor x := by
  have hback {j fut} (hj : (s.setCall i p).calls j = .executing fut) :
      s.calls j = .executing fut := by
    rw [calls_setCall] at hj
    split at hj
    · exact absurd hj (hp _)
    · exact hj
  refine ⟨h.sound, fun hf => ?_, fun hj => h.executing (hback hj),
    fun hj hk => h.single (hback hj) (hback hk), fun hj => ?_, h.registered, h.undrawn, h.succeeded,
    h.count, fun hj => ?_⟩
  · obtain ⟨hnone, j, hj⟩ := h.owned hf
    refine ⟨hnone, j, ?_⟩
    rw [calls_setCall, if_neg]
    · exact hj
    · rintro rfl
      exact hi _ hj
  · rw [calls_setCall] at hj
    split at hj
    · exact .inr (hw _ hj)
    · exact h.waits hj
  · rw [calls_setCall] at hj
    split at hj
    · exact ho _ _ hj
    · exact h.obtained hj

theorem Attended.restore {s : Coalescing V} (h : s.Attended drawnFor x)
    (hi : ∀ fut, s.calls i ≠ .executing fut)
    (hc : ∃ r ∈ s.results, x.Becomes r.state cached.state ∧ r.next = cached.next) :
    (s.restore x i cached).Attended drawnFor x := by
  obtain ⟨r, hr, hs, hn⟩ := hc
  refine h.setCall hi (fun _ hp => ?_) (fun _ hp => ?_) fun _ _ hp => ?_
  · cases hp
  · cases hp
  · cases hp
    exact ⟨r, hr, hn.symm, .inr ⟨_, hs, rfl⟩⟩

theorem Attended.awaitInflightOrOwn {s : Coalescing V} (h : s.Attended drawnFor x)
    (hi : ∀ fut, s.calls i ≠ .executing fut) :
    (s.awaitInflightOrOwn i).Attended drawnFor x := by
  unfold Coalescing.awaitInflightOrOwn
  split
  next fut hf =>
    refine h.setCall hi (fun _ hp => ?_) (fun _ hp => ?_) fun _ _ hp => ?_
    · cases hp
    · cases hp
      exact hf
    · cases hp
  next hf =>
    have hnone {j fut} (hj : s.calls j = .executing fut) : False := by
      have := h.executing hj
      rw [hf] at this
      cases this
    have hback {j fut} {s' : Coalescing V} (hs' : s'.calls = s.calls)
        (hj : (s'.setCall i (.executing s.drawn)).calls j = .executing fut) :
        j = i ∧ fut = s.drawn := by
      rw [calls_setCall, hs'] at hj
      split at hj
      next hji =>
        cases hj
        exact ⟨hji, rfl⟩
      · exact (hnone hj).elim
    refine ⟨h.sound, fun hf' => ?_, fun hj => ?_, fun hj hk => ?_, fun hj => ?_, h.registered,
      fun hd => ⟨(h.undrawn (Nat.le_of_succ_le hd)).1, fun hs => ?_⟩, h.succeeded, ?_,
      fun hj => ?_⟩
    · cases hf'
      exact ⟨(h.undrawn (Nat.le_refl _)).1, i, by rw [calls_setCall, if_pos rfl]⟩
    · obtain ⟨-, rfl⟩ := hback rfl hj
      rfl
    · obtain ⟨rfl, -⟩ := hback rfl hj
      obtain ⟨rfl, -⟩ := hback rfl hk
      rfl
    · rw [calls_setCall] at hj
      split at hj
      · cases hj
      · rcases h.waits hj with hw | hw
        · exact .inl hw
        · rw [hf] at hw
          cases hw
    · cases hs
      exact Nat.lt_irrefl _ hd
    · have hcount := h.count
      rw [hf] at hcount
      simp only [Coalescing.setCall, hcount, Option.toList_none, Option.toList_some,
        List.length_nil, List.length_cons]
    · rw [calls_setCall] at hj
      split at hj
      · cases hj
      · exact h.obtained hj

theorem Attended.loop {s : Coalescing V} (h : s.Attended drawnFor x)
    (hi : ∀ fut, s.calls i ≠ .executing fut) : (s.loop x i).Attended drawnFor x := by
  unfold Coalescing.loop
  split
  next cached g hl =>
    obtain ⟨hg, hc⟩ := h.lookup hl
    exact hg.restore hi (hc cached rfl)
  next hl => exact (h.lookup hl).1.awaitInflightOrOwn hi

theorem Attended.arrive {s : Coalescing V} (h : s.Attended drawnFor x)
    (hi : ∀ fut, s.calls i ≠ .executing fut) : (s.arrive x i).Attended drawnFor x := by
  unfold Coalescing.arrive
  split
  next cached g hl =>
    obtain ⟨hg, hc⟩ := h.lookup hl
    exact hg.restore hi (hc cached rfl)
  next hl => exact (h.lookup hl).1.loop hi

theorem Attended.finish {s : Coalescing V} (h : s.Attended drawnFor x)
    (hi : s.calls i = .executing fut) (hg : g.Sound drawnFor (Holds x results))
    (hr : ∀ r ∈ s.results, r ∈ results)
    (hcount : results.length + raised = s.results.length + s.raised + 1)
    (hs : ∀ r ∈ results, ∃ state, x.succeeds state r.next ∧ r.state = state.publicState)
    (hok : ok = true → ∃ r ∈ results, r.fut = fut)
    (hp : p = .failed ∨ ∃ r ∈ results, p = .obtained r.state r.next) :
    (({ s with graph := g, raised := raised, results := results }.finishInflight fut ok).setCall i
      p).Attended drawnFor x := by
  have hinflight := h.executing hi
  have hnone := (h.owned hinflight).1
  have hback {j fut'} {s' : Coalescing V} (hs' : s'.calls = s.calls)
      (hj : (s'.setCall i p).calls j = .executing fut') : False := by
    rw [calls_setCall, hs'] at hj
    split at hj
    · rcases hp with rfl | ⟨r, -, rfl⟩ <;> cases hj
    next hne => exact hne (h.single hj hi)
  simp only [Coalescing.finishInflight, hinflight, hnone, if_true]
  refine ⟨hg, fun hf => ?_, fun hj => (hback rfl hj).elim, fun hj _ => (hback rfl hj).elim,
    fun {j fut'} hj => ?_, fun {fut'} hf => ?_, fun {fut'} hd => ?_, hs, ?_, fun hj => ?_⟩
  · cases hf
  · rw [calls_setCall] at hj
    left
    change Function.update s.futures fut (some ok) fut' ≠ none
    rw [Function.update_apply]
    split at hj
    · rcases hp with rfl | ⟨r, -, rfl⟩ <;> cases hj
    · split
      · simp
      next hne =>
        rcases h.waits hj with hw | hw
        · exact hw
        · rw [hinflight] at hw
          exact absurd (Option.some.inj hw).symm hne
  · change Function.update s.futures fut (some ok) fut' = some true at hf
    rw [Function.update_apply] at hf
    split at hf
    next he =>
      rw [he]
      exact hok (Option.some.inj hf)
    · obtain ⟨r, hmem, hfut⟩ := h.registered hf
      exact ⟨r, hr r hmem, hfut⟩
  · obtain ⟨hundone, hfut⟩ := h.undrawn hd
    refine ⟨?_, fun hs => by cases hs⟩
    change Function.update s.futures fut (some ok) fut' = none
    rw [Function.update_of_ne, hundone]
    rintro rfl
    exact hfut hinflight
  · have hstarted := h.count
    rw [hinflight] at hstarted
    simp only [Coalescing.setCall, Option.toList_none, Option.toList_some, List.length_nil,
      List.length_cons] at hstarted ⊢
    omega
  · rw [calls_setCall] at hj
    split at hj
    · rcases hp with rfl | ⟨r, hmem, rfl⟩
      · cases hj
      · cases hj
        exact ⟨r, hmem, rfl, .inl rfl⟩
    · obtain ⟨r, hmem, hs⟩ := h.obtained hj
      exact ⟨r, hr r hmem, hs⟩

theorem registered_key (hc : ':' ∉ x.capability.toList) :
    x.capability ++ ":" ++ afterColon x.key = x.key := by
  rw [Computation.key, afterColon_lookupKey_of_notMem hc, lookupKey]

theorem Attended.step {s t : Coalescing V} (h : s.Attended drawnFor x)
    (hc : ':' ∉ x.capability.toList) (st : s.Step drawnFor x e t) : t.Attended drawnFor x := by
  cases st with
  | tick _ => exact { h with }
  | otherLookup _ =>
    exact h.setGraph (h.sound.getCachedResultByKey (by rintro _ ⟨⟩)
      (show s.graph.getCachedResultByKey s.now _ _ none = (_, _) from rfl)).1
  | otherRegister hd hk =>
    exact h.setGraph (h.sound.registerComputation hd fun he => absurd he hk)
  | changed hchanges =>
    refine h.setGraph (h.sound.changes hchanges fun old state hold hrel hk => ?_)
    obtain ⟨r, hr, hbecomes, hnext⟩ := hold hk
    exact ⟨r, hr, hbecomes.trans (hrel.mono fun _ _ hvw => hvw hk), hnext⟩
  | arrive hi =>
    refine h.arrive fun fut hj => ?_
    rw [hi] at hj
    cases hj
  | resume hi _ =>
    refine h.loop fun fut hj => ?_
    rw [hi] at hj
    cases hj
  | register hi hsucc hd =>
    refine h.finish hi ?_ (fun _ => List.mem_cons_of_mem _) ?_ ?_
      (fun _ => ⟨_, List.mem_cons_self, rfl⟩) (.inr ⟨_, List.mem_cons_self, rfl⟩)
    · refine (h.sound.mono fun _ ho => ho.mono fun _ => List.mem_cons_of_mem _).registerComputation
        (hd.trans (registered_key hc).symm) fun _ => ?_
      exact ⟨_, List.mem_cons_self, becomes_refl x _, rfl⟩
    · rw [List.length_cons]
      omega
    · intro r hr
      rcases List.mem_cons.mp hr with rfl | hr
      · exact ⟨_, hsucc, rfl⟩
      · exact h.succeeded r hr
  | fail hi =>
    refine h.finish hi h.sound (fun _ => id) (by omega) h.succeeded (fun hok => ?_) (.inl rfl)
    cases hok

theorem attended (hc : ':' ∉ x.capability.toList) :
    Invariant (coalescing drawnFor x) (Attended drawnFor x) where
  init := by
    rintro s ⟨hg, hf, hn, hd, hi, hs, hr, hres⟩
    refine ⟨hres ▸ hg, fun hj => ?_, fun hj => ?_, fun hj => ?_, fun hj => ?_, fun hj => ?_,
      fun _ => ⟨hn _, fun hj => ?_⟩, fun r hj => ?_, ?_, fun hj => ?_⟩
    · rw [hf] at hj
      cases hj
    · rw [hi] at hj
      cases hj
    · rw [hi] at hj
      cases hj
    · rw [hi] at hj
      cases hj
    · rw [hn] at hj
      cases hj
    · rw [hf] at hj
      cases hj
    · rw [hres] at hj
      cases hj
    · rw [hs, hr, hres, hf]
      rfl
    · rw [hi] at hj
      cases hj
  step h st := h.step hc st

structure Once (s : Coalescing V) : Prop where
  results : s.results.length ≤ 1
  inflight : s.results ≠ [] → s.inflight = none

theorem Once.of_hit {s t : Coalescing V} (h : s.Once) (hr : t.results = s.results)
    (hi : t.inflight = s.inflight) : t.Once :=
  ⟨hr ▸ h.results, fun hn => hi.trans (h.inflight (hr ▸ hn))⟩

theorem awaitInflightOrOwn_results (s : Coalescing V) (i : Nat) :
    (s.awaitInflightOrOwn i).results = s.results := by
  unfold Coalescing.awaitInflightOrOwn
  split <;> rfl

theorem loop_results (s : Coalescing V) (x : Computation I V) (i : Nat) :
    (s.loop x i).results = s.results := by
  unfold Coalescing.loop
  split
  · rfl
  · exact awaitInflightOrOwn_results _ i

theorem arrive_results (s : Coalescing V) (x : Computation I V) (i : Nat) :
    (s.arrive x i).results = s.results := by
  unfold Coalescing.arrive
  split
  · rfl
  · exact loop_results _ x i

theorem loop_of_live {s : Coalescing V} (h : s.graph.Live s.now x.key) (i : Nat) :
    ∃ cached g, s.loop x i = { s with graph := g }.restore x i cached ∧
      s.arrive x i = { s with graph := g }.restore x i cached := by
  obtain ⟨cached, g, hl⟩ : ∃ cached g, s.lookup x = (some cached, g) := h.hit none
  exact ⟨cached, g, by rw [Coalescing.loop, hl], by rw [Coalescing.arrive, hl]⟩

theorem Once.looks {s t : Coalescing V} (h : s.Once)
    (hs : s.results ≠ [] → s.graph.Live s.now x.key)
    (ht : t = s.loop x i ∨ t = s.arrive x i) : t.Once := by
  by_cases hn : s.results = []
  · have hr : t.results = [] := by
      rcases ht with rfl | rfl
      · rw [loop_results, hn]
      · rw [arrive_results, hn]
    refine ⟨?_, fun hne => absurd hr hne⟩
    rw [hr]
    exact Nat.zero_le 1
  · obtain ⟨cached, g, hl, ha⟩ := loop_of_live (hs hn) i
    rcases ht with rfl | rfl
    · rw [hl]
      exact h.of_hit rfl rfl
    · rw [ha]
      exact h.of_hit rfl rfl

theorem Once.step {s t : Coalescing V} (h : s.Once) (ha : s.Attended drawnFor x)
    (st : s.Step drawnFor x e t) (hs : s.Stands x e) : t.Once := by
  cases st with
  | tick _ => exact h.of_hit rfl rfl
  | otherLookup _ => exact h.of_hit rfl rfl
  | otherRegister _ _ => exact h.of_hit rfl rfl
  | changed _ => exact h.of_hit rfl rfl
  | arrive _ => exact h.looks hs (.inr rfl)
  | resume _ _ => exact h.looks hs (.inl rfl)
  | register hi _ _ =>
    -- the owner's flight is there, so nothing was registered before
    have hinflight := ha.executing hi
    have hnil : s.results = [] := by
      by_contra hne
      rw [h.inflight hne] at hinflight
      cases hinflight
    refine ⟨?_, fun _ => if_pos hinflight⟩
    simp [Coalescing.register, Coalescing.setCall, Coalescing.finishInflight, hnil]
  | fail hi => exact ⟨h.results, fun _ => if_pos (ha.executing hi)⟩

theorem standing (hc : ':' ∉ x.capability.toList) : Invariant (standingCoalescing drawnFor x)
    (fun s => s.Attended drawnFor x ∧ s.Once) where
  init hs := by
    refine ⟨(attended hc).init hs, ?_⟩
    obtain ⟨-, -, -, -, -, -, -, hres⟩ := hs
    exact ⟨hres ▸ Nat.zero_le 1, fun hne => absurd hres hne⟩
  step h st := ⟨h.1.step hc st.1, h.2.step h.1 st.1 st.2⟩

structure Orderly (s : Coalescing V) : Prop where
  single : ∀ i j fut fut', s.calls i = .executing fut → s.calls j = .executing fut' → i = j
  registered : ∀ fut, s.futures fut = some true → ∃ r ∈ s.results, r.fut = fut
  attended : ∀ i fut, s.calls i = .waiting fut →
    s.futures fut ≠ none ∨ ∃ j, s.calls j = .executing fut

structure Coalesced (s : Coalescing V) : Prop where
  once : s.started ≤ s.raised + 1
  obtained : ∀ i state next, s.calls i = .obtained state next → s.started = s.raised + 1 ∧
    ∃ r, s.results = [r] ∧ state = r.state ∧ next = r.next

theorem Attended.orderly {s : Coalescing V} (h : s.Attended drawnFor x) : s.Orderly where
  single _ _ _ _ := h.single
  registered _ := h.registered
  attended _ _ hi := (h.waits hi).imp_right fun hf => (h.owned hf).2

theorem length_toList_le (o : Option Nat) : o.toList.length ≤ 1 := by
  cases o with
  | none => exact Nat.zero_le 1
  | some => exact Nat.le_refl 1

theorem Attended.coalesced {s : Coalescing V} (h : s.Attended drawnFor x) (ho : s.Once)
    (hw : ∀ state next, x.succeeds state next → x.Keeps state) : s.Coalesced where
  once := by
    rw [h.count]
    by_cases hn : s.results = []
    · have := length_toList_le s.inflight
      rw [hn, List.length_nil]
      omega
    · have := ho.results
      rw [ho.inflight hn, Option.toList_none, List.length_nil]
      omega
  obtained i state next hi := by
    obtain ⟨r, hr, hnext, hstate⟩ := h.obtained hi
    have hresults : s.results = [r] := by
      obtain ⟨q, hq⟩ := List.length_eq_one_iff.mp
        (Nat.le_antisymm ho.results (List.length_pos_of_mem hr))
      rw [hq] at hr
      rw [hq, List.mem_singleton.mp hr]
    have hne : s.results ≠ [] := List.ne_nil_of_mem hr
    refine ⟨?_, r, hresults, ?_, hnext⟩
    · rw [h.count, ho.inflight hne, hresults, Option.toList_none, List.length_nil,
        List.length_singleton]
      omega
    · rcases hstate with hstate | ⟨held, hbecomes, hstate⟩
      · exact hstate
      · obtain ⟨result, hsucc, hpublic⟩ := h.succeeded r hr
        obtain ⟨hwithin, hkept⟩ := hw result r.next hsucc
        rw [hpublic] at hbecomes ⊢
        rw [hstate]
        exact (StateDict.publicState_restore_eq_iff hbecomes.sameKeys).mpr
          ⟨hwithin, eq_of_becomes hbecomes hkept⟩

def vacant (V : Type) : Coalescing V where
  now := 0
  graph := .empty 1 30 3 fun _ => none
  inflight := none
  futures _ := none
  drawn := 0
  calls _ := .away
  started := 0
  raised := 0
  results := []

theorem vacant_init : (coalescing drawnFor x).init (vacant V) :=
  ⟨ComputationGraph.empty_sound .., rfl, fun _ => rfl, rfl, fun _ => rfl, rfl, rfl, rfl⟩

theorem vacant_lookup : (vacant V).lookup x = (none, (vacant V).graph) := by
  simp [lookup, ComputationGraph.getCachedResultByKey, ComputationGraph.findOutput, vacant,
    ComputationGraph.empty]

theorem lookup_singleton (key : String) (value : α) :
    (AList.singleton key value : AList fun _ : String => α).lookup key = some value :=
  List.dlookup_cons_eq ..

/-- The one entry that the owner leaves, with `held` in place of the state that it registered. -/
def heldBy (capability inputHash : String) (held : StateDict V) (next : Option String) :
    Output V :=
  ⟨held, next, true, some (0 + (30 : Int)), capability ++ ":" ++ inputHash⟩

theorem registered_outputs (nodeId capability inputHash : String) (state : StateDict V)
    (next : Option String) :
    ((vacant V).graph.registerComputation 0 nodeId capability inputHash state next true).outputs =
      AList.singleton nodeId (heldBy capability inputHash state next) := by
  simp [ComputationGraph.registerComputation, ComputationGraph.storeOutput,
    ComputationGraph.put, ComputationGraph.addNode, vacant, ComputationGraph.empty,
    ComputationGraph.evict, ComputationGraph.ttlFor, heldBy]

theorem registered_hashToNode (nodeId capability inputHash : String) (state : StateDict V)
    (next : Option String) :
    (((vacant V).graph.registerComputation 0 nodeId capability inputHash state next
      true).hashToNode.lookup (capability ++ ":" ++ inputHash)) = some nodeId := by
  simp [ComputationGraph.registerComputation, ComputationGraph.storeOutput,
    ComputationGraph.put, ComputationGraph.addNode, vacant, ComputationGraph.empty,
    ComputationGraph.evict, lookup_singleton]

theorem of_lookup_singleton {key key' : String} {value value' : α}
    (h : (AList.singleton key value : AList fun _ : String => α).lookup key' = some value') :
    key' = key ∧ value' = value := by
  by_cases hk : key' = key
  · subst hk
    rw [lookup_singleton] at h
    exact ⟨rfl, (Option.some.inj h).symm⟩
  · have hnone : key' ∉ (AList.singleton key value : AList fun _ : String => α) := by
      rw [AList.mem_keys, AList.keys_singleton]
      simpa using hk
    rw [AList.lookup_eq_none.mpr hnone] at h
    cases h

theorem merged_of_coalesced (hc : ':' ∉ x.capability.toList)
    (hd : ∃ nodeId, drawnFor nodeId = x.key)
    (hs : ∀ s, Reachable (standingCoalescing drawnFor x) s → s.Coalesced)
    (hsucc : x.succeeds state next) (hheld : x.Becomes state.publicState held) :
    (x.fingerprint.state.restore held).publicState = state.publicState := by
  obtain ⟨nodeId, hd⟩ := hd
  have hi : (standingCoalescing drawnFor x).init (vacant V) := vacant_init
  have harrive : (vacant V).arrive x 0 = (vacant V).awaitInflightOrOwn 0 := by
    have hl : ({ vacant V with graph := (vacant V).graph } : Coalescing V).lookup x =
        (none, (vacant V).graph) := vacant_lookup
    rw [Coalescing.arrive, vacant_lookup]
    dsimp only
    rw [Coalescing.loop, hl]
  have hown : Reachable (standingCoalescing drawnFor x) ((vacant V).awaitInflightOrOwn 0) :=
    harrive ▸ (Reachable.init hi).step ⟨.arrive rfl, fun hn => absurd rfl hn⟩
  set s := ((vacant V).awaitInflightOrOwn 0).register x 0 0 nodeId state next
  have hregister : Reachable (standingCoalescing drawnFor x) s :=
    hown.step ⟨.register rfl hsucc hd, trivial⟩
  have hnode : s.graph.hashToNode.lookup x.key = some nodeId := by
    have := registered_hashToNode (V := V) nodeId x.capability (afterColon x.key)
      state.publicState next
    rwa [registered_key hc] at this
  have houtputs : s.graph.outputs = AList.singleton nodeId
      (heldBy x.capability (afterColon x.key) state.publicState next) :=
    registered_outputs ..
  have hsound := ((standing hc).reachable hregister).1.sound
  -- the owner's next hop changes the values in place
  set g : ComputationGraph V := { s.graph with
    outputs := AList.singleton nodeId
      (heldBy x.capability (afterColon x.key) held next) }
  have hchanges : s.graph.Changes
      (fun key v w => key = x.key → Relation.ReflTransGen x.changes v w) g := by
    refine ⟨rfl, ?_, fun nodeId' output ho => ?_⟩
    · rw [houtputs]
      rfl
    · obtain ⟨rfl, rfl⟩ := of_lookup_singleton ho
      exact ⟨_, by rw [houtputs, lookup_singleton], rfl, hheld.mono fun _ _ hvw _ => hvw⟩
  have hchanged : Reachable (standingCoalescing drawnFor x) { s with graph := g } :=
    hregister.step ⟨.changed hchanges, trivial⟩
  have hlive : g.Live s.now x.key :=
    ⟨nodeId, _, hnode, lookup_singleton .., fun he => by
      have : (0 : ℚ) + ((30 : Int) : ℚ) ≤ 0 := of_decide_eq_true he
      norm_num at this⟩
  have hagain : Reachable (standingCoalescing drawnFor x)
      (({ s with graph := g } : Coalescing V).arrive x 1) :=
    hchanged.step ⟨.arrive rfl, fun _ => hlive⟩
  obtain ⟨cached, g', hl⟩ :
      ∃ cached g', ({ s with graph := g } : Coalescing V).lookup x = (some cached, g') :=
    hlive.hit none
  have hheldsound : g.Sound drawnFor fun output => output.state = held := by
    have := hsound.changes hchanges fun _ _ hold hrel hk => by
      obtain ⟨r, hr, hbecomes, hnext⟩ := hold hk
      exact ⟨r, hr, hbecomes.trans (hrel.mono fun _ _ hvw => hvw hk), hnext⟩
    refine ⟨this.mapped, fun ho => ⟨(this.stored ho).1, ?_⟩⟩
    obtain ⟨-, rfl⟩ := of_lookup_singleton ho
    rfl
  have hcached : cached.state = held := by
    obtain ⟨-, hfound⟩ := hheldsound.getCachedResultByKey (by rintro _ ⟨⟩) hl
    obtain ⟨output, hstate, -, hrestores, -⟩ := hfound cached rfl
    exact hrestores.1.trans hstate
  have hrestored : ({ s with graph := g } : Coalescing V).arrive x 1 =
      ({ s with graph := g' } : Coalescing V).restore x 1 cached := by
    rw [Coalescing.arrive, hl]
  obtain ⟨-, r, hr, hstate, -⟩ := (hs _ hagain).obtained 1
    (x.fingerprint.state.restore cached.state).publicState cached.next (by rw [hrestored]; rfl)
  rw [arrive_results] at hr
  obtain rfl : r = ⟨0, state.publicState, next⟩ := (List.singleton_inj.mp hr).symm
  rwa [hcached] at hstate

theorem becomes_update {state : StateDict V} (hv : state k = some v) (hw : x.changes v w) :
    x.Becomes state (Function.update state k (some w)) := by
  intro k'
  by_cases hk : k' = k
  · subst hk
    rw [Function.update_self, hv]
    exact .some (.single hw)
  · rw [Function.update_of_ne hk]
    exact becomes_refl x state k'

theorem keeps_of_coalesced (hc : ':' ∉ x.capability.toList)
    (hd : ∃ nodeId, drawnFor nodeId = x.key)
    (hs : ∀ s, Reachable (standingCoalescing drawnFor x) s → s.Coalesced)
    (hsucc : x.succeeds state next) : x.Keeps state := by
  have hmerged {held} (hheld : x.Becomes state.publicState held) :
      x.fingerprint.state.Within state ∧ held = state.publicState :=
    (StateDict.publicState_restore_eq_iff hheld.sameKeys).mp
      (merged_of_coalesced hc hd hs hsucc hheld)
  refine ⟨(hmerged (becomes_refl x _)).1, fun k v w hv hvw => ?_⟩
  have hsame := congrFun (hmerged (becomes_update hv hvw)).2 k
  rw [Function.update_self, hv] at hsame
  exact Option.some.inj hsame

/-- Single flight keeps its calls in order whatever happens; every call obtains what the owner did
exactly if the node removes no key and nothing changes the values of its result in place. -/
theorem coalesced_iff (hc : ':' ∉ x.capability.toList) (hd : ∃ nodeId, drawnFor nodeId = x.key) :
    ((∀ s, Reachable (coalescing drawnFor x) s → s.Orderly) ∧
      ∀ s, Reachable (standingCoalescing drawnFor x) s → s.Coalesced) ↔
    ∀ state next, x.succeeds state next → x.Keeps state := by
  constructor
  · rintro ⟨-, hs⟩ state next hsucc
    exact keeps_of_coalesced hc hd hs hsucc
  · intro hw
    refine ⟨fun s hs => ((attended hc).reachable hs).orderly, fun s hs => ?_⟩
    obtain ⟨ha, ho⟩ := (standing hc).reachable hs
    exact ha.coalesced ho hw

/-- A node that returns `state`, whatever it is given. -/
def returning (state : StateDict Unit) : Computation Unit Unit where
  hash _ _ := "h"
  capability := "c"
  fingerprint := ⟨(), StateDict.empty.set "a" ()⟩
  succeeds result next := result = state ∧ next = none
  changes _ _ := False

theorem coalesced_iff_returning :
    ¬ ∃ s, Reachable (standingCoalescing (fun _ => (returning (StateDict.empty.set "a" ())).key)
      (returning (StateDict.empty.set "a" ()))) s ∧ ¬ s.Coalesced := by
  rintro ⟨s, hs, hnot⟩
  refine hnot (((coalesced_iff (by decide) ⟨"n", rfl⟩).mpr ?_).2 s hs)
  rintro _ _ ⟨rfl, -⟩
  exact ⟨fun _ => id, fun _ _ _ _ => False.elim⟩

/-- The node takes the only key away: the second call ends with it, the owner without. -/
theorem emptying_not_coalesced :
    ∃ s, Reachable (standingCoalescing (fun _ => (returning .empty).key) (returning .empty)) s ∧
      ¬s.Coalesced := by
  by_contra h
  have hs : ∀ s, Reachable (standingCoalescing (fun _ => (returning .empty).key)
      (returning .empty)) s → s.Coalesced := fun s hs => not_not.mp fun hn => h ⟨s, hs, hn⟩
  have hw := (keeps_of_coalesced (x := returning .empty) (by decide) ⟨"n", rfl⟩ hs ⟨rfl, rfl⟩).1
  have := hw "a" (by decide)
  revert this
  decide

end Coalescing

end PrismPipe.Engine
