import Mathlib.Data.List.Induction
import Mathlib.Logic.Function.Basic
import PrismPipe.Lib.Search

/-! `CapabilityGraph`: the capabilities that require one another, and the search through them. -/

namespace PrismPipe.Discovery

open Function Search

structure CapabilitySpec where
  capability : String
  requiredCapabilities : List String

/-- `_edges.get(capability, [])`. -/
structure CapabilityGraph where
  edges : String → List String

namespace CapabilityGraph

def init : CapabilityGraph := ⟨fun _ => []⟩

/-- An empty list in `_edges` is read as none at all. -/
def register (self : CapabilityGraph) (spec : CapabilitySpec) : CapabilityGraph :=
  ⟨spec.requiredCapabilities.foldl
    (fun edges required => update edges required (edges required ++ [spec.capability]))
    self.edges⟩

/-- `none` where the loop has not ended after so many turns. -/
def bfsPath (self : CapabilityGraph) (fuel : Nat) (start : String) : Option (List String) :=
  (run self.edges fuel (.start start)).map fun _ => [start]

def discoverPath (self : CapabilityGraph) (fuel : Nat) (startCapability : Option String) :
    Option (Option (List String)) :=
  match startCapability with
  | some start => if start = "" then some none else (self.bfsPath fuel start).map some
  | none => some none

end CapabilityGraph

/-- The graph that the calls of `register` leave. -/
def graph (specs : List CapabilitySpec) : CapabilityGraph :=
  specs.foldl CapabilityGraph.register .init

/-- Some registered spec of `b` requires `a`. -/
def Requires (specs : List CapabilitySpec) (a b : String) : Prop :=
  ∃ spec ∈ specs, spec.capability = b ∧ a ∈ spec.requiredCapabilities

theorem mem_foldl_update (cap : String) (required : List String) (edges : String → List String)
    (a b : String) :
    b ∈ required.foldl (fun edges r => update edges r (edges r ++ [cap])) edges a ↔
      b ∈ edges a ∨ b = cap ∧ a ∈ required := by
  induction required generalizing edges with
  | nil => simp
  | cons r required ih =>
    rw [List.foldl_cons, ih]
    by_cases h : a = r
    · subst h
      simp only [update_self, List.mem_append, List.mem_cons, true_or, and_true]
      grind
    · rw [update_of_ne h]
      simp [h]

theorem mem_edges {specs : List CapabilitySpec} {a b : String} :
    b ∈ (graph specs).edges a ↔ Requires specs a b := by
  induction specs using List.reverseRecOn with
  | nil => simp [graph, CapabilityGraph.init, Requires]
  | append_singleton specs spec ih =>
    rw [graph, List.foldl_concat]
    rw [graph] at ih
    simp only [CapabilityGraph.register, mem_foldl_update, ih, Requires, List.mem_append,
      List.mem_singleton]
    constructor
    · rintro (⟨s, hs, h⟩ | ⟨rfl, h⟩)
      · exact ⟨s, .inl hs, h⟩
      · exact ⟨spec, .inr rfl, rfl, h⟩
    · rintro ⟨s, hs | rfl, h⟩
      · exact .inl ⟨s, hs, h⟩
      · exact .inr ⟨h.1.symm, h.2⟩

/-- Whatever is registered and wherever it starts: the search ends, having visited once each what
is reached over requirements, after as many turns as there are specs and one more; and it answers
the start alone. -/
theorem discovery_answers_start (specs : List CapabilitySpec) (start : String) (fuel : Nat)
    (hfuel : specs.length < fuel) :
    (∃ t, run (graph specs).edges fuel (.start start) = some t ∧ t.queue = [] ∧
      t.visited.Nodup ∧ ∀ c, c ∈ t.visited ↔ Relation.ReflTransGen (Requires specs) start c) ∧
    (graph specs).discoverPath fuel (some start) =
      some (if start = "" then none else some [start]) := by
  have hreaches (c : String) : Reaches (graph specs).edges start c ↔
      Relation.ReflTransGen (Requires specs) start c := by
    have hedges : (fun a b => b ∈ (graph specs).edges a) = Requires specs := by
      funext a b
      exact propext mem_edges
    rw [Reaches, hedges]
  have hall (c : String) (h : Reaches (graph specs).edges start c) :
      c ∈ start :: specs.map CapabilitySpec.capability := by
    rw [hreaches] at h
    rcases h.cases_tail with rfl | ⟨_, _, spec, hspec, rfl, _⟩
    · exact List.mem_cons_self
    · exact List.mem_cons_of_mem _ (List.mem_map_of_mem hspec)
  have hturns : (start :: specs.map CapabilitySpec.capability).length +
      (Search.start start).queue.length ≤ (Search.start start).visited.length + fuel := by
    simp only [List.length_cons, List.length_map, Search.start, List.length_nil]
    omega
  obtain ⟨t, ht, hq, hsound⟩ := Sound.ends hall fuel (.start start) hturns
  refine ⟨⟨t, ht, hq, hsound.nodup, fun c => (hsound.mem_iff hq).trans (hreaches c)⟩, ?_⟩
  unfold CapabilityGraph.discoverPath
  dsimp only
  split
  · rfl
  · rw [CapabilityGraph.bfsPath, ht]
    rfl

theorem discovery_answers_start_of_two :
    (graph [⟨"b", ["a"]⟩]).discoverPath 2 (some "a") = some (some ["a"]) :=
  (discovery_answers_start [⟨"b", ["a"]⟩] "a" 2 (by decide)).2

end PrismPipe.Discovery
