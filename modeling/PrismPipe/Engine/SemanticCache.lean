import Mathlib.Data.List.Dedup
import PrismPipe.Core.Kinds
import PrismPipe.Lib.Transition
import PrismPipe.Engine.Organism

/-! `SemanticCache` and `PrismEngine.execute` on local nodes: a request may be answered with what an
earlier one ended in. The cache has the envelopes that were executed, not copies of them. -/

namespace PrismPipe.Engine

open Transition
open Core (Intent)

structure ExecutionPlan where
  capabilities : List String
  currentIndex : Nat

def ExecutionPlan.next (plan : ExecutionPlan) : Option String × ExecutionPlan :=
  match plan.capabilities[plan.currentIndex]? with
  | some capability => (some capability, { plan with currentIndex := plan.currentIndex + 1 })
  | none => (none, plan)

/-- `history` has the capability of each entry. -/
structure RequestEnvelope (I V : Type) where
  intent : Intent
  input : I
  state : StateDict V
  history : List String
  plan : ExecutionPlan
  next : Option String
  error : Option String
  terminated : Bool

/-- What `PrismEngine.execute` writes into a state. -/
class StateValue (V : Type) extends PyValue V where
  ofDict : StateDict V → V

namespace RequestEnvelope

variable {I V : Type}

def getCapability (e : RequestEnvelope I V) : Option String :=
  match e.next with
  | none => none
  | some next =>
    if next = "" then none
    else if "capability:".toList.isPrefixOf next.toList then some (afterColon next) else some next

def terminate (e : RequestEnvelope I V) (error : String) : RequestEnvelope I V :=
  { e with terminated := true, error := if error = "" then e.error else some error }

def advancePlan (e : RequestEnvelope I V) : RequestEnvelope I V :=
  if e.plan.capabilities ≠ [] ∧ ¬ truthy e.next then
    { e with next := e.plan.next.1, plan := e.plan.next.2 }
  else e

def attach [StateValue V] (e cached : RequestEnvelope I V) : RequestEnvelope I V :=
  { e with
    state := (e.state.set "_from_cache" (PyValue.ofBool true)).set "_cached_result"
      (StateValue.ofDict cached.state) }

end RequestEnvelope

section Similar

/-- `set(s.lower().split())`. -/
def words (s : String) : List (List Char) :=
  (((s.toList.map Char.toLower).splitOnP Char.isWhitespace).filter (· ≠ [])).dedup

/-- The quotient of the common words by all is over `0.7`. -/
def intentsSimilar (intent₁ intent₂ : String) : Bool :=
  let common := (words intent₁).filter (· ∈ words intent₂)
  let all := words intent₁ ∪ words intent₂
  all ≠ [] && 7 * all.length < 10 * common.length

theorem intentsSimilar_iff {i j : Intent} : intentsSimilar i.value j.value ↔ i = j := by
  cases i <;> cases j <;> decide +kernel

end Similar

/-- `_compute_intent_hash`; `none` is the `TypeError` of `json.dumps`. -/
abbrev IntentHash (I : Type) := Intent → I → Option String

def IntentHash.Collisionless (hash : IntentHash I) : Prop :=
  ∀ i x j y h, hash i x = some h → hash j y = some h → i = j ∧ x = y

structure SemanticCache where
  cache : String → Option Nat
  intentIndex : List (Intent × List String)

/-- `if intent not in index: index[intent] = []` and `index[intent].append(intent_hash)`. -/
def indexIntent (intent : Intent) (intentHash : String) :
    List (Intent × List String) → List (Intent × List String)
  | [] => [(intent, [intentHash])]
  | (i, hashes) :: rest =>
    if i = intent then (i, hashes ++ [intentHash]) :: rest
    else (i, hashes) :: indexIntent intent intentHash rest

namespace SemanticCache

def empty : SemanticCache := ⟨fun _ => none, []⟩

def similar (c : SemanticCache) (intent : Intent) : Option Nat :=
  ((c.intentIndex.filter fun p => intentsSimilar intent.value p.1.value).flatMap (·.2)).findSome?
    c.cache

def get (c : SemanticCache) (intent : Intent) (intentHash : String) : Option Nat :=
  (c.cache intentHash).or (c.similar intent)

def set (c : SemanticCache) (intent : Intent) (intentHash : String) (envelope : Nat) :
    SemanticCache where
  cache h := if h = intentHash then some envelope else c.cache h
  intentIndex := indexIntent intent intentHash c.intentIndex

end SemanticCache

/-- `node.execute`, of a deterministic node. -/
abbrev LocalNode (I V : Type) := RequestEnvelope I V → RequestEnvelope I V

/-- From the head of the loop of `PrismEngine.execute` to its end. -/
inductive Routes (router : String → Option (LocalNode I V)) :
    RequestEnvelope I V → RequestEnvelope I V → Prop
  | done : (truthy e.next && !e.terminated) = false → Routes router e e
  | noCapability : truthy e.next → !e.terminated → ¬ truthy e.getCapability → Routes router e e
  | notFound : truthy e.next → !e.terminated → e.getCapability = some capability →
      capability ≠ "" → router capability = none →
      Routes router e (e.terminate ("Node not found: " ++ capability))
  | step : truthy e.next → !e.terminated → e.getCapability = some capability →
      capability ≠ "" → router capability = some node → Routes router (node e).advancePlan e' →
      Routes router e e'

/-- `executions` has the request and the final envelope of each execution that was cached, as they
were then; `objects` has the envelopes as they stand. -/
structure PrismEngine (I V : Type) where
  objects : Nat → RequestEnvelope I V
  semanticCache : SemanticCache
  executions : List (RequestEnvelope I V × RequestEnvelope I V)

def PrismEngine.fresh (objects : Nat → RequestEnvelope I V) : PrismEngine I V :=
  ⟨objects, .empty, []⟩

/-- How `execute` ends: answered from the cache, perhaps with the state of the request itself,
executed, or raising. -/
inductive Served (I V : Type)
  | answered (response : RequestEnvelope I V)
  | answeredItself
  | executed (final : RequestEnvelope I V)
  | raised

variable {I V : Type} [StateValue V]

inductive PrismEngine.Execute (hash : IntentHash I) (router : String → Option (LocalNode I V))
    (g : PrismEngine I V) (r : Nat) : Served I V → PrismEngine I V → Prop
  | refused : hash (g.objects r).intent (g.objects r).input = none →
      Execute hash router g r .raised g
  | hit : hash (g.objects r).intent (g.objects r).input = some h →
      g.semanticCache.get (g.objects r).intent h = some cached → cached ≠ r →
      Execute hash router g r (.answered ((g.objects r).attach (g.objects cached)))
        { g with
          objects := Function.update g.objects r ((g.objects r).attach (g.objects cached)) }
  | itself : hash (g.objects r).intent (g.objects r).input = some h →
      g.semanticCache.get (g.objects r).intent h = some r → (∀ q, q ≠ r → later q = g.objects q) →
      Execute hash router g r .answeredItself { g with objects := later }
  | forgot : hash (g.objects r).intent (g.objects r).input = some h →
      g.semanticCache.get (g.objects r).intent h = none → Routes router (g.objects r) e' →
      e'.history = [] → Execute hash router g r (.executed e') { g with objects := later }
  | cached : hash (g.objects r).intent (g.objects r).input = some h →
      g.semanticCache.get (g.objects r).intent h = none → Routes router (g.objects r) e' →
      e'.history ≠ [] → hash (g.objects r).intent e'.input = some h' → later r' = e' →
      Execute hash router g r (.executed e')
        ⟨later, g.semanticCache.set (g.objects r).intent h' r', (g.objects r, e') :: g.executions⟩
  | uncacheable : hash (g.objects r).intent (g.objects r).input = some h →
      g.semanticCache.get (g.objects r).intent h = none → Routes router (g.objects r) e' →
      e'.history ≠ [] → hash (g.objects r).intent e'.input = none →
      Execute hash router g r .raised { g with objects := later }

inductive PrismEvent (I V : Type)
  | execute (r : Nat) (served : Served I V)
  | write (later : Nat → RequestEnvelope I V)

inductive PrismEngine.Step (hash : IntentHash I) (router : String → Option (LocalNode I V)) :
    PrismEngine I V → PrismEvent I V → PrismEngine I V → Prop
  | execute : Execute hash router g r served g' → Step hash router g (.execute r served) g'
  | write : Step hash router g (.write later) { g with objects := later }

def prismEngine (hash : IntentHash I) (router : String → Option (LocalNode I V)) :
    System (PrismEngine I V) (PrismEvent I V) where
  init g := ∃ objects, g = .fresh objects
  step := PrismEngine.Step hash router

/-- No envelope that is in the cache is changed, and none is cached with another input than it was
executed with. -/
structure PrismEngine.Careful (g g' : PrismEngine I V) : Prop where
  kept : ∀ h r, g.semanticCache.cache h = some r → g'.objects r = g.objects r
  inputs : ∀ f ∈ g'.executions, f.2.input = f.1.input

def carefulEngine (hash : IntentHash I) (router : String → Option (LocalNode I V)) :
    System (PrismEngine I V) (PrismEvent I V) where
  init := (prismEngine hash router).init
  step g a g' := (prismEngine hash router).step g a g' ∧ g.Careful g'

variable {hash : IntentHash I} {router : String → Option (LocalNode I V)}

structure PrismEngine.Remembers (hash : IntentHash I) (g : PrismEngine I V) : Prop where
  stored : ∀ {h r}, g.semanticCache.cache h = some r →
    ∃ e, (e, g.objects r) ∈ g.executions ∧ hash e.intent (g.objects r).input = some h
  indexed : ∀ {i hashes h}, (i, hashes) ∈ g.semanticCache.intentIndex → h ∈ hashes →
    ∃ x, hash i x = some h
  complete : ∀ {e e'}, (e, e') ∈ g.executions →
    ∃ h, hash e.intent e'.input = some h ∧ (g.semanticCache.cache h).isSome ∧
      ∃ hashes, (e.intent, hashes) ∈ g.semanticCache.intentIndex ∧ h ∈ hashes
  inputs : ∀ {e e'}, (e, e') ∈ g.executions → e'.input = e.input

theorem mem_indexIntent {l : List (Intent × List String)}
    (h : (i, hashes) ∈ indexIntent intent intentHash l) (hk : k ∈ hashes) :
    i = intent ∧ k = intentHash ∨ ∃ hashes', (i, hashes') ∈ l ∧ k ∈ hashes' := by
  induction l with
  | nil =>
    obtain ⟨rfl, rfl⟩ := Prod.mk.inj (List.mem_singleton.mp h)
    exact .inl ⟨rfl, List.mem_singleton.mp hk⟩
  | cons p rest ih =>
    obtain ⟨j, hashes'⟩ := p
    rw [indexIntent] at h
    split at h
    next hj =>
      rcases List.mem_cons.mp h with h | h
      · obtain ⟨rfl, rfl⟩ := Prod.mk.inj h
        rcases List.mem_append.mp hk with hk | hk
        · exact .inr ⟨hashes', List.mem_cons_self, hk⟩
        · exact .inl ⟨hj, List.mem_singleton.mp hk⟩
      · exact .inr ⟨hashes, List.mem_cons_of_mem _ h, hk⟩
    · rcases List.mem_cons.mp h with h | h
      · obtain ⟨rfl, rfl⟩ := Prod.mk.inj h
        exact .inr ⟨hashes, List.mem_cons_self, hk⟩
      · rcases ih h with h | ⟨hashes'', h, hk⟩
        · exact .inl h
        · exact .inr ⟨hashes'', List.mem_cons_of_mem _ h, hk⟩

theorem indexIntent_mem (intent : Intent) (intentHash : String)
    (l : List (Intent × List String)) :
    (∃ hashes, (intent, hashes) ∈ indexIntent intent intentHash l ∧ intentHash ∈ hashes) ∧
      ∀ i hashes k, (i, hashes) ∈ l → k ∈ hashes →
        ∃ hashes', (i, hashes') ∈ indexIntent intent intentHash l ∧ k ∈ hashes' := by
  induction l with
  | nil => exact ⟨⟨_, List.mem_cons_self, List.mem_cons_self⟩, nofun⟩
  | cons p rest ih =>
    obtain ⟨j, hashes'⟩ := p
    obtain ⟨⟨new, hnew, hmem⟩, hold⟩ := ih
    rw [indexIntent]
    split
    next hj =>
      subst hj
      refine ⟨⟨_, List.mem_cons_self, List.mem_append_right _ List.mem_cons_self⟩, ?_⟩
      intro i hashes k hi hk
      rcases List.mem_cons.mp hi with hi | hi
      · obtain ⟨rfl, rfl⟩ := Prod.mk.inj hi
        exact ⟨_, List.mem_cons_self, List.mem_append_left _ hk⟩
      · exact ⟨hashes, List.mem_cons_of_mem _ hi, hk⟩
    · refine ⟨⟨new, List.mem_cons_of_mem _ hnew, hmem⟩, fun i hashes k hi hk => ?_⟩
      rcases List.mem_cons.mp hi with hi | hi
      · exact ⟨hashes, hi ▸ List.mem_cons_self, hk⟩
      · obtain ⟨hashes'', h, hk⟩ := hold i hashes k hi hk
        exact ⟨hashes'', List.mem_cons_of_mem _ h, hk⟩

omit [StateValue V] in
theorem PrismEngine.Remembers.write {g : PrismEngine I V} (h : g.Remembers hash)
    (hkept : ∀ h r, g.semanticCache.cache h = some r → later r = g.objects r) :
    PrismEngine.Remembers hash { g with objects := later } where
  stored {k r} hc := by
    dsimp only
    rw [hkept k r hc]
    exact h.stored hc
  indexed := h.indexed
  complete := h.complete
  inputs := h.inputs

omit [StateValue V] in
theorem PrismEngine.Remembers.set {g : PrismEngine I V} (h : g.Remembers hash)
    (hk : hash e.intent e'.input = some key) (hr : g.objects r = e')
    (hinputs : e'.input = e.input) :
    PrismEngine.Remembers hash
      ⟨g.objects, g.semanticCache.set e.intent key r, (e, e') :: g.executions⟩ where
  stored {k q} hc := by
    dsimp only [SemanticCache.set] at hc ⊢
    split at hc
    next hkey =>
      cases hc
      rw [hr]
      exact ⟨e, List.mem_cons_self, hkey ▸ hk⟩
    · obtain ⟨f, hf, hfk⟩ := h.stored hc
      exact ⟨f, List.mem_cons_of_mem _ hf, hfk⟩
  indexed hi hm := by
    rcases mem_indexIntent hi hm with ⟨rfl, rfl⟩ | ⟨hashes, hi, hm⟩
    · exact ⟨_, hk⟩
    · exact h.indexed hi hm
  complete {f f'} hm := by
    obtain ⟨hnew, hold⟩ := indexIntent_mem e.intent key g.semanticCache.intentIndex
    rcases List.mem_cons.mp hm with he | hm
    · obtain ⟨rfl, rfl⟩ := Prod.mk.inj he
      exact ⟨key, hk, by simp [SemanticCache.set], hnew⟩
    · obtain ⟨k, hfk, hc, hashes, hi, hmem⟩ := h.complete hm
      refine ⟨k, hfk, ?_, hold _ _ _ hi hmem⟩
      dsimp only [SemanticCache.set]
      split
      · rfl
      · exact hc
  inputs hm := by
    rcases List.mem_cons.mp hm with he | hm
    · obtain ⟨rfl, rfl⟩ := Prod.mk.inj he
      exact hinputs
    · exact h.inputs hm

theorem remembers : Invariant (carefulEngine hash router) (PrismEngine.Remembers hash) where
  init := by
    rintro _ ⟨_, rfl⟩
    exact ⟨nofun, nofun, nofun, nofun⟩
  step := by
    rintro g _ g' h ⟨st, hcareful⟩
    cases st with
    | write => exact h.write hcareful.kept
    | execute st =>
      cases st with
      | refused => exact h
      | hit | itself | forgot | uncacheable => exact h.write hcareful.kept
      | cached _ _ _ _ hk hobj =>
        exact (h.write hcareful.kept).set hk hobj (hcareful.inputs _ List.mem_cons_self)

theorem get_eq_some {c : SemanticCache} (h : c.get intent key = some cached) :
    c.cache key = some cached ∨ c.cache key = none ∧ ∃ hashes k,
      (intent, hashes) ∈ c.intentIndex ∧ k ∈ hashes ∧ c.cache k = some cached := by
  rw [SemanticCache.get] at h
  cases hc : c.cache key with
  | some e =>
    rw [hc] at h
    exact .inl h
  | none =>
    rw [hc, Option.none_or, SemanticCache.similar] at h
    obtain ⟨k, hk, hcached⟩ := List.exists_of_findSome?_eq_some h
    obtain ⟨⟨i, hashes⟩, hi, hk⟩ := List.mem_flatMap.mp hk
    obtain ⟨hi, hs⟩ := List.mem_filter.mp hi
    obtain rfl := intentsSimilar_iff.mp hs
    exact .inr ⟨rfl, hashes, k, hi, hk, hcached⟩

theorem get_isSome {c : SemanticCache} (hi : (intent, hashes) ∈ c.intentIndex) (hk : k ∈ hashes)
    (hc : (c.cache k).isSome) : (c.get intent key).isSome := by
  rw [SemanticCache.get, Option.isSome_or, Bool.or_eq_true]
  refine .inr ?_
  rw [SemanticCache.similar, List.isSome_findSome?, List.any_eq_true]
  exact ⟨k, List.mem_flatMap.mpr
    ⟨_, List.mem_filter.mpr ⟨hi, intentsSimilar_iff.mpr rfl⟩, hk⟩, hc⟩

namespace PrismEngine.Remembers

variable {g : PrismEngine I V}

omit [StateValue V] in
theorem get (hr : g.Remembers hash) (hh : hash.Collisionless) (hk : hash intent input = some key)
    (h : g.semanticCache.get intent key = some cached) :
    ∃ e, (e, g.objects cached) ∈ g.executions ∧ e.intent = intent ∧
      ((∃ f ∈ g.executions, f.1.intent = intent ∧ f.1.input = input) → e.input = input) := by
  rcases get_eq_some h with hc | ⟨hn, hashes, k, hi, hm, hc⟩
  · obtain ⟨e, he, hek⟩ := hr.stored hc
    obtain ⟨hi, hx⟩ := hh _ _ _ _ _ hek hk
    exact ⟨e, he, hi, fun _ => (hr.inputs he).symm.trans hx⟩
  · obtain ⟨e, he, hek⟩ := hr.stored hc
    obtain ⟨x, hxk⟩ := hr.indexed hi hm
    refine ⟨e, he, (hh _ _ _ _ _ hek hxk).1, ?_⟩
    rintro ⟨f, hf, rfl, rfl⟩
    obtain ⟨l, hl, hc, -⟩ := hr.complete hf
    rw [hr.inputs hf, hk] at hl
    cases hl
    rw [hn] at hc
    cases hc

omit [StateValue V] in
theorem get_exact (hr : g.Remembers hash) (hf : f ∈ g.executions)
    (hk : hash f.1.intent f.1.input = some key) :
    g.semanticCache.get f.1.intent key = g.semanticCache.cache key := by
  obtain ⟨l, hl, hc, -⟩ := hr.complete hf
  rw [hr.inputs hf, hk] at hl
  cases hl
  exact Option.or_of_isSome hc

omit [StateValue V] in
theorem get_similar (hr : g.Remembers hash) (hf : f ∈ g.executions) (key : String) :
    (g.semanticCache.get f.1.intent key).isSome := by
  obtain ⟨l, -, hc, hashes, hi, hm⟩ := hr.complete hf
  exact get_isSome hi hm hc

end PrismEngine.Remembers

/-- What the request is answered with was produced by an earlier execution with its intent and its
input. -/
structure PrismEngine.Sound (hash : IntentHash I) (router : String → Option (LocalNode I V))
    (g : PrismEngine I V) (r : Nat) : Prop where
  answered : ∀ response g', g.Execute hash router r (.answered response) g' →
    ∃ f ∈ g.executions, response = (g.objects r).attach f.2 ∧
      f.1.intent = (g.objects r).intent ∧ f.1.input = (g.objects r).input
  itself : ∀ g', ¬ g.Execute hash router r .answeredItself g'

/-- Among the executions with the intent of the request, if there are any, is one with its input,
and what is cached of that is another envelope. -/
def PrismEngine.Own (hash : IntentHash I) (g : PrismEngine I V) (r : Nat) : Prop :=
  ∀ key, hash (g.objects r).intent (g.objects r).input = some key →
    (∃ f ∈ g.executions, f.1.intent = (g.objects r).intent) →
    (∃ f ∈ g.executions, f.1.intent = (g.objects r).intent ∧ f.1.input = (g.objects r).input) ∧
      g.semanticCache.cache key ≠ some r

theorem PrismEngine.Remembers.sound_iff {g : PrismEngine I V} (hr : g.Remembers hash)
    (hh : hash.Collisionless) (r : Nat) : g.Sound hash router r ↔ g.Own hash r := by
  constructor
  · rintro ⟨hanswered, hitself⟩ key hk ⟨f, hf, hi⟩
    obtain ⟨cached, hget⟩ := Option.isSome_iff_exists.mp (hi ▸ hr.get_similar hf key)
    have hne : cached ≠ r := by
      rintro rfl
      exact hitself _ (.itself hk hget fun _ _ => rfl)
    obtain ⟨f', hf', -, hi', hx'⟩ := hanswered _ _ (.hit hk hget hne)
    refine ⟨⟨f', hf', hi', hx'⟩, fun hc => hne ?_⟩
    have hexact := hr.get_exact hf' (hi'.symm ▸ hx'.symm ▸ hk)
    rw [hi', hget, hc] at hexact
    exact Option.some.inj hexact
  · intro hown
    constructor
    · intro response g' st
      cases st with
      | hit hk hget =>
        obtain ⟨e, he, hi, hx⟩ := hr.get hh hk hget
        obtain ⟨hsame, -⟩ := hown _ hk ⟨_, he, hi⟩
        exact ⟨_, he, rfl, hi, hx hsame⟩
    · intro g' st
      cases st with
      | itself hk hget =>
        obtain ⟨e, he, hi, hx⟩ := hr.get hh hk hget
        obtain ⟨⟨f, hf, hfi, hfx⟩, hne⟩ := hown _ hk ⟨_, he, hi⟩
        have hexact := hr.get_exact hf (hfi.symm ▸ hfx.symm ▸ hk)
        rw [hfi, hget] at hexact
        exact hne hexact.symm

/-- Where no cached envelope is changed and no node changes the input, a request is answered with
the result of an earlier one like it exactly if there is one as soon as there is one of its intent;
and with none of its intent, it ends as on a fresh engine. -/
theorem answers_iff {g : PrismEngine I V} (hh : hash.Collisionless)
    (hg : Reachable (carefulEngine hash router) g) (r : Nat) :
    (g.Sound hash router r ↔ g.Own hash r) ∧
    ((∀ f ∈ g.executions, f.1.intent ≠ (g.objects r).intent) → ∀ served,
      (∃ g', g.Execute hash router r served g') ↔
        ∃ g', (PrismEngine.fresh g.objects).Execute hash router r served g') := by
  have hr := remembers.reachable hg
  refine ⟨hr.sound_iff hh r, fun hn served => ?_⟩
  have hmiss {key} (hk : hash (g.objects r).intent (g.objects r).input = some key) :
      g.semanticCache.get (g.objects r).intent key = none := by
    cases hget : g.semanticCache.get (g.objects r).intent key with
    | none => rfl
    | some cached =>
      obtain ⟨e₀, he, hi, -⟩ := hr.get hh hk hget
      exact absurd hi (hn _ he)
  constructor
  · rintro ⟨g', st⟩
    cases st with
    | refused hk => exact ⟨_, .refused hk⟩
    | hit hk hget | itself hk hget =>
      rw [hmiss hk] at hget
      cases hget
    | forgot hk _ hroute hnil => exact ⟨.fresh g.objects, .forgot hk rfl hroute hnil⟩
    | cached hk _ hroute hnil hk' hobj => exact ⟨_, .cached hk rfl hroute hnil hk' hobj⟩
    | uncacheable hk _ hroute hnil hk' =>
      exact ⟨.fresh g.objects, .uncacheable hk rfl hroute hnil hk'⟩
  · rintro ⟨g', st⟩
    cases st with
    | refused hk => exact ⟨_, .refused hk⟩
    | hit hk hget | itself hk hget => cases hget
    | forgot hk _ hroute hnil => exact ⟨g, .forgot hk (hmiss hk) hroute hnil⟩
    | cached hk _ hroute hnil hk' hobj => exact ⟨_, .cached hk (hmiss hk) hroute hnil hk' hobj⟩
    | uncacheable hk _ hroute hnil hk' =>
      exact ⟨g, .uncacheable hk (hmiss hk) hroute hnil hk'⟩

instance : StateValue Unit where
  ofBool _ := ()
  ofStr _ := ()
  ofDict _ := ()

def markHash : IntentHash Bool := fun i x => some (if x then i.value ++ "!" else i.value)

theorem markHash_collisionless : markHash.Collisionless := by
  intro i x j y h hi hj
  have he : markHash i x = markHash j y := hi.trans hj.symm
  revert he
  cases i <;> cases j <;> cases x <;> cases y <;> decide

def ending : String → Option (LocalNode Bool Unit) := fun _ =>
  some fun e => { e with next := none, history := ["a"] }

def asking (input : Bool) : RequestEnvelope Bool Unit :=
  ⟨.httpRequest, input, .empty, [], ⟨[], 0⟩, some "a", none, false⟩

def ended : RequestEnvelope Bool Unit := { asking true with next := none, history := ["a"] }

def endedObjects : Nat → RequestEnvelope Bool Unit
  | 0 => ended
  | 1 => asking true
  | _ => asking false

def endedEngine : PrismEngine Bool Unit :=
  ⟨endedObjects, SemanticCache.empty.set .httpRequest "http_request!" 0, [(asking true, ended)]⟩

theorem careful_ended : Reachable (carefulEngine markHash ending) endedEngine := by
  let objects : Nat → RequestEnvelope Bool Unit := Function.update endedObjects 0 (asking true)
  have hroute : Routes ending (asking true) ended :=
    .step rfl rfl (show (asking true).getCapability = some "a" by decide +kernel) (by decide) rfl
      (.done rfl)
  have st : (PrismEngine.fresh objects).Execute markHash ending 0 (.executed ended) endedEngine :=
    .cached rfl rfl hroute (List.cons_ne_nil _ _) rfl rfl
  have hinit : Reachable (carefulEngine markHash ending) (.fresh objects) := .init ⟨objects, rfl⟩
  refine hinit.step ⟨.execute st, nofun, fun f hf => ?_⟩
  obtain rfl := List.mem_singleton.mp hf
  rfl

/-- A request with another input is answered with what the first ended in. -/
theorem answered_without_input : ¬ ∀ (router : String → Option (LocalNode Bool Unit))
    (g : PrismEngine Bool Unit) (r : Nat), Reachable (carefulEngine markHash router) g →
      g.Sound markHash router r := by
  intro h
  have hget : endedEngine.semanticCache.get .httpRequest "http_request" = some 0 := by
    decide +kernel
  obtain ⟨f, hf, -, -, hx⟩ := (h ending endedEngine 2 careful_ended).answered _ _
    (.hit rfl hget (by decide))
  obtain rfl := List.mem_singleton.mp hf
  cases hx

/-- One with its input is answered with what it ended in. -/
theorem answers_iff_same_input : endedEngine.Sound markHash ending 1 := by
  refine (answers_iff markHash_collisionless careful_ended 1).1.mpr fun key hk _ => ?_
  obtain rfl : "http_request!" = key := Option.some.inj hk
  exact ⟨⟨_, List.mem_singleton_self _, rfl, rfl⟩, by decide +kernel⟩

end PrismPipe.Engine
