import PrismPipe.Engine.SemanticCache
import PrismPipe.Lib.Patch

/-! `DiffEngine`, and what the loop of `PrismEngine.execute` records with it. Values are as they
stand; `start_state` and the timelines share them with the state. -/

namespace PrismPipe.Engine

/-- `nodeIds` has the node of each entry of the history. -/
structure Traced (I V : Type) extends RequestEnvelope I V where
  id : String
  nodeIds : List String

structure StateDiff (V : Type) extends Patch String V where
  nodeId : String
  capability : String

structure DiffEngine (V : Type) where
  diffs : String → Option (List (StateDiff V))

namespace DiffEngine

variable {I V : Type}

def empty : DiffEngine V := ⟨fun _ => none⟩

def computeDiff [PyNe V] (envelope : Traced I V) (beforeState : StateDict V) : StateDiff V where
  toPatch := .between PyNe.ne beforeState envelope.state
  nodeId := envelope.nodeIds.getLast?.getD "unknown"
  capability := envelope.history.getLast?.getD "unknown"

def record (self : DiffEngine V) (envelope : Traced I V) (diff : StateDiff V) : DiffEngine V where
  diffs id :=
    if id = envelope.id then some ((self.diffs id).getD [] ++ [diff]) else self.diffs id

def getTimeline (self : DiffEngine V) (envelopeId : String) : List (StateDiff V) :=
  (self.diffs envelopeId).getD []

def Becomes (self later : DiffEngine V) : Prop := ∀ id, Option.Rel (List.Forall₂ fun diff diff' =>
  diff.nodeId = diff'.nodeId ∧ diff.capability = diff'.capability ∧
    StateDict.SameKeys diff.added diff'.added ∧ diff.removed = diff'.removed ∧
    ∀ k, (diff.modified k).isSome = (diff'.modified k).isSome) (self.diffs id) (later.diffs id)

end DiffEngine

/-- `node.execute`, with any envelope it may return. -/
abbrev TracedNode (I V : Type) := Traced I V → Traced I V → Prop

structure Call (I V : Type) where
  received : Traced I V
  returned : Traced I V
  /-- What `start_state` holds when the node has returned. -/
  startState : StateDict V
  /-- What the timelines hold when the node is called, and when it has returned. -/
  before : DiffEngine V
  after : DiffEngine V

variable {I V : Type} [PyNe V]

/-- From the head of the loop of `PrismEngine.execute` to its end, with the calls that are made. -/
inductive Traces (router : String → Option (TracedNode I V)) :
    StateDict V → Traced I V → DiffEngine V → List (Call I V) → Traced I V → DiffEngine V → Prop
  | done : (truthy e.next && !e.terminated) = false → Traces router startState e d [] e d
  | noCapability : truthy e.next → !e.terminated → ¬ truthy e.getCapability →
      Traces router startState e d [] e d
  | notFound : truthy e.next → !e.terminated → e.getCapability = some capability →
      capability ≠ "" → router capability = none →
      Traces router startState e d []
        { e with toRequestEnvelope := e.terminate ("Node not found: " ++ capability) } d
  | step : truthy e.next → !e.terminated → e.getCapability = some capability →
      capability ≠ "" → router capability = some node → node e returned →
      startState.SameKeys startState' → d.Becomes after →
      Traces router startState' { returned with toRequestEnvelope := returned.advancePlan }
        (after.record returned (DiffEngine.computeDiff returned startState')) ran e' d' →
      Traces router startState e d (⟨e, returned, startState', d, after⟩ :: ran) e' d'

/-- `PrismEngine.execute`, after its lookup in the semantic cache. -/
inductive ExecutesTraced [StateValue V] (router : String → Option (TracedNode I V))
    (cached : Option (RequestEnvelope I V)) (e : Traced I V) (d : DiffEngine V) :
    List (Call I V) → Traced I V → DiffEngine V → Prop
  | hit : cached = some c →
      ExecutesTraced router cached e d [] { e with toRequestEnvelope := e.attach c } d
  | missed : cached = none → Traces router e.state e d ran e' d' →
      ExecutesTraced router cached e d ran e' d'

/-- An entry for each node, with the keys it added, removed and modified, which lead from the first
state to the last. -/
structure ExactTimeline (timeline : List (StateDiff V)) (start : StateDict V)
    (ran : List (Call I V)) (final : StateDict V) : Prop where
  entries : List.Forall₂ (fun diff call => diff.Shows call.received.state call.returned.state)
    timeline ran
  applied : timeline.foldl (fun s diff => diff.apply s) start = final

variable {router : String → Option (TracedNode I V)} {start : StateDict V} {e e' : Traced I V}
  {d d' : DiffEngine V} {ran : List (Call I V)}

omit [PyNe V] in
theorem getTimeline_record (d : DiffEngine V) (e : Traced I V) (diff : StateDiff V) (i : String) :
    (d.record e diff).getTimeline i =
      d.getTimeline i ++ if e.id = i then [diff] else [] := by
  by_cases h : e.id = i
  · subst h
    simp only [DiffEngine.getTimeline, DiffEngine.record, if_true, Option.getD_some]
  · simp only [DiffEngine.getTimeline, DiffEngine.record, if_neg (Ne.symm h), if_neg h,
      List.append_nil]

theorem Traces.timeline (h : Traces router start e d ran e' d')
    (hkept : ∀ call ∈ ran, call.after = call.before) (i : String) :
    d'.getTimeline i = d.getTimeline i ++ (ran.filter fun call => call.returned.id = i).map
      fun call => DiffEngine.computeDiff call.returned call.startState := by
  induction h with
  | done | noCapability | notFound => exact (List.append_nil _).symm
  | @step _ _ _ returned _ _ _ _ _ d after _ _ _ _ _ _ _ _ _ ih =>
    have hafter : after = d := hkept _ List.mem_cons_self
    subst hafter
    rw [ih fun call hcall => hkept call (List.mem_cons_of_mem _ hcall), getTimeline_record,
      List.append_assoc, List.filter_cons]
    by_cases hi : returned.id = i <;> simp [hi]

omit [PyNe V] in
theorem advancePlan_state (e : RequestEnvelope I V) : e.advancePlan.state = e.state := by
  unfold RequestEnvelope.advancePlan
  split <;> rfl

theorem Traces.applied (h : Traces router start e d ran e' d')
    (hs : ∀ call ∈ ran,
      Patch.Alike PyNe.ne call.startState call.received.state call.returned.state) :
    (ran.map fun call => DiffEngine.computeDiff call.returned call.startState).foldl
      (fun s diff => diff.apply s) e.state = e'.state := by
  induction h with
  | done | noCapability | notFound => rfl
  | @step _ _ e returned start' _ _ _ _ _ _ _ _ _ _ _ _ _ _ _ ih =>
    have hstate : (DiffEngine.computeDiff returned start').apply e.state = returned.state :=
      Patch.apply_of_shows ((Patch.between_shows_iff _ _ _ _).mpr (hs _ List.mem_cons_self))
        (Patch.between_carries _ _ _)
    have hrest := ih fun call hcall => hs call (List.mem_cons_of_mem _ hcall)
    rw [List.map_cons, List.foldl_cons, hstate]
    rwa [advancePlan_state] at hrest

theorem forall₂_shows_iff (ran : List (Call I V)) :
    List.Forall₂ (fun diff call => diff.Shows call.received.state call.returned.state)
      (ran.map fun call => DiffEngine.computeDiff call.returned call.startState) ran ↔
        ∀ call ∈ ran,
          Patch.Alike PyNe.ne call.startState call.received.state call.returned.state := by
  rw [List.forall₂_map_left_iff, List.forall₂_same]
  exact forall₂_congr fun call _ => Patch.between_shows_iff _ _ _ _

theorem Traces.own (h : Traces router start e d ran e' d')
    (hkept : ∀ call ∈ ran, call.after = call.before)
    (hid : d.getTimeline i = [] ∨ ∀ call ∈ ran, call.returned.id = i)
    (hlen : (d'.getTimeline i).length = ran.length) :
    d.getTimeline i = [] ∧ ∀ call ∈ ran, call.returned.id = i := by
  rw [h.timeline hkept, List.length_append, List.length_map] at hlen
  rcases hid with hnil | hsame
  · rw [hnil, List.length_nil, Nat.zero_add, List.length_filter_eq_length_iff] at hlen
    exact ⟨hnil, fun call hcall => of_decide_eq_true (hlen call hcall)⟩
  · have hfilter : ran.filter (fun call => call.returned.id = i) = ran :=
      List.filter_eq_self.mpr fun call hcall => decide_eq_true (hsame call hcall)
    rw [hfilter] at hlen
    exact ⟨List.eq_nil_of_length_eq_zero (by omega), hsame⟩

theorem Traces.own_timeline (h : Traces router start e d ran e' d')
    (hkept : ∀ call ∈ ran, call.after = call.before) (hnil : d.getTimeline i = [])
    (hsame : ∀ call ∈ ran, call.returned.id = i) :
    d'.getTimeline i =
      ran.map fun call => DiffEngine.computeDiff call.returned call.startState := by
  have hfilter : ran.filter (fun call => call.returned.id = i) = ran :=
    List.filter_eq_self.mpr fun call hcall => decide_eq_true (hsame call hcall)
  rw [h.timeline hkept, hnil, hfilter, List.nil_append]

/-- Where no node changes a value of a timeline in place, the timeline of a request is exact exactly
if its id had none before and every node kept to that id, and each node was given the keys of the
first state and, of those it kept, changed the ones it left other than in that state, as that stood
then. -/
theorem exactTimeline_iff [StateValue V] {cached : Option (RequestEnvelope I V)}
    (h : ExecutesTraced router cached e d ran e' d')
    (hkept : ∀ call ∈ ran, call.after = call.before)
    (hid : d.getTimeline e'.id = [] ∨ ∀ call ∈ ran, call.returned.id = e'.id) :
    ExactTimeline (d'.getTimeline e'.id) e.state ran e'.state ↔
      d.getTimeline e'.id = [] ∧ (∀ call ∈ ran, call.returned.id = e'.id) ∧
      (∀ call ∈ ran,
        Patch.Alike PyNe.ne call.startState call.received.state call.returned.state) ∧
      ∀ c, cached = some c → (e.attach c).state = e.state := by
  cases h with
  | hit hc =>
    constructor
    · rintro ⟨hentries, happlied⟩
      have hnil := List.forall₂_nil_right_iff.mp hentries
      refine ⟨hnil, List.forall_mem_nil _, List.forall_mem_nil _, fun c hc' => ?_⟩
      obtain rfl : _ = c := Option.some.inj (hc.symm.trans hc')
      rw [hnil] at happlied
      exact happlied.symm
    · rintro ⟨hnil, -, -, hstate⟩
      have hsame := hstate _ hc
      exact ⟨hnil.symm ▸ .nil, hnil.symm ▸ hsame.symm⟩
  | missed hc ht =>
    constructor
    · rintro ⟨hentries, -⟩
      obtain ⟨hnil, hsame⟩ := ht.own hkept hid hentries.length_eq
      rw [ht.own_timeline hkept hnil hsame, forall₂_shows_iff] at hentries
      exact ⟨hnil, hsame, hentries, fun c hc' => by cases hc.symm.trans hc'⟩
    · rintro ⟨hnil, hsame, halike, -⟩
      rw [ht.own_timeline hkept hnil hsame]
      exact ⟨(forall₂_shows_iff _).mpr halike, ht.applied halike⟩

instance : PyNe Unit where
  ne _ _ := false
  ne_of_ne _ _ h := absurd rfl h

/-- The node of "a" adds a key, the node of "b" leaves the state as it is, and the node of "c" adds
the key and ends. -/
def addingRouter : String → Option (TracedNode Unit Unit)
  | "a" => some fun e e' =>
    e' = { e with state := e.state.set "k" (), next := some "b", history := ["a"], nodeIds := ["A"] }
  | "b" => some fun e e' =>
    e' = { e with next := none, history := ["a", "b"], nodeIds := ["A", "B"] }
  | "c" => some fun e e' =>
    e' = { e with state := e.state.set "k" (), next := none, history := ["c"], nodeIds := ["C"] }
  | _ => none

def adding (state : StateDict Unit) (history nodeIds : List String) (next : Option String) :
    Traced Unit Unit :=
  ⟨⟨.httpRequest, (), state, history, ⟨[], 0⟩, next, none, false⟩, "req", nodeIds⟩

def added : StateDict Unit := StateDict.empty.set "k" ()

def addingStart : Traced Unit Unit := adding .empty [] [] (some "a")
def addingMiddle : Traced Unit Unit := adding added ["a"] ["A"] (some "b")
def addingEnd : Traced Unit Unit := adding added ["a", "b"] ["A", "B"] none

def addingDiffs : DiffEngine Unit :=
  DiffEngine.empty.record addingMiddle (DiffEngine.computeDiff addingMiddle .empty)

def addingCalls : List (Call Unit Unit) :=
  [⟨addingStart, addingMiddle, .empty, .empty, .empty⟩,
    ⟨addingMiddle, addingEnd, .empty, addingDiffs, addingDiffs⟩]

omit [PyNe V] in
theorem DiffEngine.Becomes.refl (d : DiffEngine V) : d.Becomes d := by
  intro id
  cases d.diffs id with
  | none => exact .none
  | some l =>
    exact .some (List.forall₂_same.mpr fun _ _ => ⟨rfl, rfl, fun _ => rfl, rfl, fun _ => rfl⟩)

/-- The second entry adds the key again. -/
theorem adding_not_exact :
    ExecutesTraced addingRouter none addingStart .empty addingCalls addingEnd
      (addingDiffs.record addingEnd (DiffEngine.computeDiff addingEnd .empty)) ∧
    ¬ ExactTimeline ((addingDiffs.record addingEnd
      (DiffEngine.computeDiff addingEnd .empty)).getTimeline addingEnd.id) addingStart.state
      addingCalls addingEnd.state := by
  constructor
  · exact .missed rfl (.step rfl rfl (show addingStart.getCapability = some "a" by decide +kernel)
      (by decide) rfl rfl (fun _ => rfl) (.refl _) (.step rfl rfl
        (show addingMiddle.getCapability = some "b" by decide +kernel) (by decide) rfl rfl
        (fun _ => rfl) (.refl _) (.done rfl)))
  · rintro ⟨hentries, -⟩
    cases hentries with
    | cons _ hrest =>
      cases hrest with
      | cons hsecond _ =>
        have hadded := (hsecond.added "k").mp (by decide)
        exact absurd hadded.1 (by decide)

/-- One node that adds a key. -/
theorem exactTimeline_iff_adding :
    ∃ d : DiffEngine Unit, ExactTimeline (d.getTimeline "req") .empty
      [⟨adding .empty [] [] (some "c"), adding added ["c"] ["C"] none, .empty, .empty, .empty⟩]
      added := by
  have hrun : ExecutesTraced addingRouter none (adding .empty [] [] (some "c")) .empty
      [⟨adding .empty [] [] (some "c"), adding added ["c"] ["C"] none, .empty, .empty, .empty⟩]
      (adding added ["c"] ["C"] none) _ :=
    .missed rfl (.step rfl rfl
      (show (adding .empty [] [] (some "c")).getCapability = some "c" by decide +kernel)
      (by decide) rfl rfl (fun _ => rfl) (.refl _) (.done rfl))
  refine ⟨_, (exactTimeline_iff hrun (by simp) (.inl rfl)).mpr ⟨rfl, by simp [adding], ?_, nofun⟩⟩
  intro call hcall
  obtain rfl := List.mem_singleton.mp hcall
  refine ⟨fun _ => rfl, fun k hk => ?_⟩
  obtain ⟨v, hv⟩ := Option.isSome_iff_exists.mp hk
  rw [hv]
  exact iff_of_true rfl nofun

end PrismPipe.Engine
