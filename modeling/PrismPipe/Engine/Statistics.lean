import PrismPipe.Lib.Table
import PrismPipe.Lib.Transition
import Mathlib.Algebra.BigOperators.Group.List.Basic
import Mathlib.Algebra.Order.Field.Basic
import Mathlib.Algebra.Order.Ring.Rat
import Mathlib.Logic.Function.Basic
import Mathlib.Tactic.FieldSimp
import Mathlib.Tactic.Linarith
import Mathlib.Tactic.Ring

/-! The statistics of a `ComputationGraph` from which nothing is evicted and in which nothing
expires. -/

namespace PrismPipe.Engine.Statistics

open Transition

/-- A call of `register_computation`. -/
structure Registration where
  capability : String
  inputHash : String
  latencyMs : ℚ
  success : Bool

def Registration.lookupKey (r : Registration) : String := r.capability ++ ":" ++ r.inputHash

structure Payload where
  latencyMs : ℚ
  success : Bool

/-- A node, under its key, with the `success` of its output. -/
structure ComputationNode where
  lookupKey : String
  executionCount : Nat
  avgLatencyMs : ℚ
  successRate : ℚ
  success : Bool

namespace ComputationNode

def create (lookupKey : String) (latencyMs : ℚ) (success : Bool) : ComputationNode where
  lookupKey := lookupKey
  executionCount := 1
  avgLatencyMs := latencyMs
  successRate := if success then 1 else 0
  success := success

/-- `execution_count += 1` -/
def counted (n : ComputationNode) : ComputationNode :=
  { n with executionCount := n.executionCount + 1 }

/-- What `register_computation` makes of a node it finds. -/
def again (n : ComputationNode) (latencyMs : ℚ) (success : Bool) : ComputationNode :=
  let count := n.executionCount + 1
  { n with
    executionCount := count
    avgLatencyMs := (n.avgLatencyMs * (count - 1 : ℚ) + latencyMs) / count
    success := success }

@[simp] theorem counted_lookupKey (n : ComputationNode) : n.counted.lookupKey = n.lookupKey := rfl

@[simp] theorem again_lookupKey (n : ComputationNode) (latencyMs : ℚ) (success : Bool) :
    (n.again latencyMs success).lookupKey = n.lookupKey := rfl

end ComputationNode

structure CapabilityStats where
  count : Nat
  totalLatency : ℚ
  failures : Nat

structure CapabilityReport where
  count : Nat
  avgLatency : ℚ
  successRate : ℚ

structure Graph where
  nodes : Table ComputationNode ComputationNode.lookupKey
  capabilityStats : String → CapabilityStats
  hits : Nat
  misses : Nat
  redisHits : Nat
  negativeHits : Nat
  registered : List Registration
  hydrated : List (String × ℚ)

inductive Event
  | register (r : Registration)
  /-- `find_shared_computation` -/
  | find (lookupKey : String)
  /-- `get_cached_result_by_key`, with what Redis answers if it is asked. -/
  | lookup (lookupKey : String) (useRedis : Bool) (reply : Option Payload)

namespace Graph

def empty : Graph where
  nodes := .empty
  capabilityStats _ := ⟨0, 0, 0⟩
  hits := 0
  misses := 0
  redisHits := 0
  negativeHits := 0
  registered := []
  hydrated := []

def count (g : Graph) (lookupKey : String) : Graph :=
  { g with
    nodes := g.nodes.update (fun n => n.lookupKey = lookupKey) (·.counted)
      ComputationNode.counted_lookupKey }

def register (g : Graph) (r : Registration) : Graph :=
  match g.nodes.insert (.create r.lookupKey r.latencyMs r.success) with
  | none =>
    { g with
      nodes := g.nodes.update (fun n => n.lookupKey = r.lookupKey) (·.again r.latencyMs r.success)
        fun n => n.again_lookupKey r.latencyMs r.success
      registered := g.registered ++ [r] }
  | some nodes =>
    let stats := g.capabilityStats r.capability
    { g with
      nodes := nodes
      capabilityStats := Function.update g.capabilityStats r.capability
        { count := stats.count + 1
          totalLatency := stats.totalLatency + r.latencyMs
          failures := if r.success then stats.failures else stats.failures + 1 }
      registered := g.registered ++ [r] }

/-- `_hydrate_from_redis` for a key that has no node: the node is made, and counted. -/
def hydrate (g : Graph) (lookupKey : String) (p : Payload) : Graph :=
  match g.nodes.insert (ComputationNode.create lookupKey p.latencyMs p.success).counted with
  | none => g
  | some nodes =>
    { g with
      nodes := nodes
      hits := g.hits + 1
      redisHits := g.redisHits + 1
      negativeHits := if p.success then g.negativeHits else g.negativeHits + 1
      hydrated := g.hydrated ++ [(lookupKey, p.latencyMs)] }

def lookup (g : Graph) (lookupKey : String) (useRedis : Bool) (reply : Option Payload) : Graph :=
  match g.nodes.select lookupKey with
  | some n =>
    { g.count lookupKey with
      hits := g.hits + 1
      negativeHits := if n.success then g.negativeHits else g.negativeHits + 1 }
  | none =>
    if useRedis then
      match reply with
      | some p => g.hydrate lookupKey p
      | none => { g with misses := g.misses + 1 }
    else g

def apply (g : Graph) : Event → Graph
  | .register r => g.register r
  | .find lookupKey => g.count lookupKey
  | .lookup lookupKey useRedis reply => g.lookup lookupKey useRedis reply

/-- `get_deduplication_stats()["capability_stats"]`. A capability is there once it was counted. -/
def report (g : Graph) (capability : String) : Option CapabilityReport :=
  let stats := g.capabilityStats capability
  if stats.count = 0 then none
  else some {
    count := stats.count
    avgLatency := stats.totalLatency / (max stats.count 1 : Nat)
    successRate := 1 - stats.failures / (max stats.count 1 : Nat) }

end Graph

def graph : System Graph Event where
  init g := g = .empty
  step g e t := t = g.apply e

def mean (l : List ℚ) : ℚ := l.sum / l.length

namespace Graph

def latencies (g : Graph) (lookupKey : String) : List ℚ :=
  ((g.hydrated.filter fun x => x.1 = lookupKey).map (·.2)) ++
    (g.registered.filter fun r => r.lookupKey = lookupKey).map (·.latencyMs)

/-- The calls of `register_computation` for a capability. -/
def calls (g : Graph) (capability : String) : List Registration :=
  g.registered.filter fun r => r.capability = capability

structure Faithful (g : Graph) : Prop where
  average : ∀ n ∈ g.nodes.rows, n.avgLatencyMs = mean (g.latencies n.lookupKey)
  reported : ∀ capability, g.report capability =
    if g.calls capability = [] then none
    else some {
      count := (g.calls capability).length
      avgLatency := mean ((g.calls capability).map (·.latencyMs))
      successRate := ((g.calls capability).countP (·.success) : ℚ) / (g.calls capability).length }

def Keeps (g : Graph) : Event → Prop
  | .register r => g.nodes.select r.lookupKey = none
  | _ => True

structure Counted (g : Graph) : Prop where
  average : ∀ n ∈ g.nodes.rows, n.avgLatencyMs = mean (g.latencies n.lookupKey)
  counts : ∀ c, (g.capabilityStats c).count = (g.calls c).length
  total : ∀ c, (g.capabilityStats c).totalLatency = ((g.calls c).map (·.latencyMs)).sum
  failures : ∀ c,
    (g.capabilityStats c).failures + (g.calls c).countP (·.success) = (g.calls c).length
  known : ∀ key, g.nodes.select key = none → g.latencies key = []

variable {g : Graph}

theorem Counted.faithful (h : g.Counted) : g.Faithful where
  average := h.average
  reported c := by
    by_cases hc : g.calls c = []
    · rw [if_pos hc, report, if_pos]
      rw [h.counts, hc]
      rfl
    · have hlen : (g.calls c).length ≠ 0 := fun h0 => hc (List.length_eq_zero_iff.mp h0)
      have hmax : max (g.calls c).length 1 = (g.calls c).length := by omega
      have hfail := h.failures c
      rw [if_neg hc, report, h.counts, if_neg hlen, h.total, hmax]
      congr 2
      · rw [mean, List.length_map]
      · have hq : (((g.capabilityStats c).failures + (g.calls c).countP (·.success) : ℕ) : ℚ) =
            (g.calls c).length := by rw [hfail]
        push_cast at hq
        have hne : ((g.calls c).length : ℚ) ≠ 0 := by exact_mod_cast hlen
        field_simp
        linarith

theorem register_cases (g : Graph) (r : Registration) :
    (g.nodes.select r.lookupKey ≠ none ∧ (g.register r).capabilityStats = g.capabilityStats) ∨
    g.nodes.insert (.create r.lookupKey r.latencyMs r.success) = some (g.register r).nodes ∧
      (g.register r).hydrated = g.hydrated ∧
      (g.register r).capabilityStats = Function.update g.capabilityStats r.capability
        { count := (g.capabilityStats r.capability).count + 1
          totalLatency := (g.capabilityStats r.capability).totalLatency + r.latencyMs
          failures := if r.success then (g.capabilityStats r.capability).failures
            else (g.capabilityStats r.capability).failures + 1 } := by
  cases h : g.nodes.insert (.create r.lookupKey r.latencyMs r.success) with
  | none =>
    refine .inl ⟨fun hn => ?_, by rw [register, h]⟩
    obtain ⟨u, hu⟩ := Table.insert_eq_some
      (r := ComputationNode.create r.lookupKey r.latencyMs r.success) hn
    cases hu.symm.trans h
  | some nodes =>
    refine .inr ⟨?_, ?_, ?_⟩
    · rw [register, h]
    · rw [register, h]
    · rw [register, h]

theorem hydrate_cases (g : Graph) (key : String) (p : Payload) :
    g.hydrate key p = g ∨
    g.nodes.insert (ComputationNode.create key p.latencyMs p.success).counted =
        some (g.hydrate key p).nodes ∧
      (g.hydrate key p).hydrated = g.hydrated ++ [(key, p.latencyMs)] ∧
      (g.hydrate key p).registered = g.registered ∧
      (g.hydrate key p).capabilityStats = g.capabilityStats := by
  cases h : g.nodes.insert (ComputationNode.create key p.latencyMs p.success).counted with
  | none => exact .inl (by rw [hydrate, h])
  | some nodes =>
    refine .inr ⟨?_, ?_, ?_, ?_⟩
    · rw [hydrate, h]
    · rw [hydrate, h]
    · rw [hydrate, h]
    · rw [hydrate, h]

@[simp] theorem register_registered (g : Graph) (r : Registration) :
    (g.register r).registered = g.registered ++ [r] := by
  unfold register
  split <;> rfl

theorem calls_register (g : Graph) (r : Registration) (c : String) :
    (g.register r).calls c = g.calls c ++ if r.capability = c then [r] else [] := by
  simp [calls, List.filter_append, List.filter_cons]

theorem mean_singleton (x : ℚ) : mean [x] = x := by
  simp [mean]

theorem Counted.not_faithful_again (h : g.Counted) (r : Registration)
    (hstats : (g.register r).capabilityStats = g.capabilityStats) : ¬(g.register r).Faithful := by
  intro hf
  have hrep := hf.reported r.capability
  have hcalls : (g.register r).calls r.capability = g.calls r.capability ++ [r] := by
    rw [calls_register, if_pos rfl]
  rw [hcalls, if_neg (by simp), report, hstats, h.counts] at hrep
  split at hrep
  · cases hrep
  · have := congrArg CapabilityReport.count (Option.some.inj hrep)
    simp at this

theorem Counted.counted (h : g.Counted) (key : String) : (g.count key).Counted where
  average n hn := by
    obtain ⟨m, hm, rfl⟩ := List.mem_map.mp hn
    have := h.average m hm
    split <;> exact this
  counts := h.counts
  total := h.total
  failures := h.failures
  known k hk := by
    refine h.known k ?_
    have hselect := Table.select_update g.nodes (fun n => n.lookupKey = key) (·.counted)
      ComputationNode.counted_lookupKey k
    exact Option.map_eq_none_iff.mp (hselect.symm.trans hk)

theorem Counted.inserted (h : g.Counted) {g' : Graph} {n : ComputationNode}
    (hins : g.nodes.insert n = some g'.nodes)
    (hlat : ∀ key, n.lookupKey ≠ key → g'.latencies key = g.latencies key)
    (hnew : g'.latencies n.lookupKey = g.latencies n.lookupKey ++ [n.avgLatencyMs]) :
    (∀ m ∈ g'.nodes.rows, m.avgLatencyMs = mean (g'.latencies m.lookupKey)) ∧
      ∀ key, g'.nodes.select key = none → g'.latencies key = [] := by
  have hn : g.nodes.select n.lookupKey = none := Table.select_none_of_insert hins
  refine ⟨fun m hm => ?_, fun key hkey => ?_⟩
  · rcases (Table.mem_insert hins).mp hm with hm | rfl
    · rw [hlat _ fun he => ?_]
      · exact h.average m hm
      · rw [he, Table.select_of_mem hm] at hn
        cases hn
    · rw [hnew, h.known _ hn, List.nil_append, mean_singleton]
  · rw [Table.select_insert hins] at hkey
    split at hkey <;> rename_i hk
    · cases hkey
    · rw [hlat key hk]
      exact h.known key hkey

theorem Counted.hydrate (h : g.Counted) (key : String) (p : Payload) :
    (g.hydrate key p).Counted := by
  rcases g.hydrate_cases key p with he | ⟨hins, hhydrated, hregistered, hstats⟩
  · rw [he]
    exact h
  · have hcalls : (g.hydrate key p).calls = g.calls := by
      funext c
      rw [calls, hregistered, calls]
    have hempty : g.latencies key = [] := h.known _ (Table.select_none_of_insert hins)
    have hlat : ∀ k, key ≠ k → (g.hydrate key p).latencies k = g.latencies k := by
      intro k hk
      simp [latencies, hhydrated, hregistered, hk]
    have hnew : (g.hydrate key p).latencies key = g.latencies key ++ [p.latencyMs] := by
      obtain ⟨hnone, hnone'⟩ := List.append_eq_nil_iff.mp hempty
      rw [hempty, latencies, hhydrated, hregistered, hnone', List.filter_append, List.map_append,
        hnone]
      simp
    obtain ⟨haverage, hknown⟩ := h.inserted hins hlat hnew
    refine ⟨haverage, ?_, ?_, ?_, hknown⟩
    · rw [hstats, hcalls]
      exact h.counts
    · rw [hstats, hcalls]
      exact h.total
    · rw [hstats, hcalls]
      exact h.failures

theorem Counted.lookup (h : g.Counted) (key : String) (useRedis : Bool) (reply : Option Payload) :
    (g.lookup key useRedis reply).Counted := by
  unfold Graph.lookup
  split
  · obtain ⟨haverage, hcounts, htotal, hfailures, hknown⟩ := h.counted key
    exact ⟨haverage, hcounts, htotal, hfailures, hknown⟩
  · split
    · split
      · exact h.hydrate key _
      · exact ⟨h.average, h.counts, h.total, h.failures, h.known⟩
    · exact h

theorem Counted.register (h : g.Counted)
    (hins : g.nodes.insert (.create r.lookupKey r.latencyMs r.success) = some (g.register r).nodes)
    (hhydrated : (g.register r).hydrated = g.hydrated)
    (hstats : (g.register r).capabilityStats = Function.update g.capabilityStats r.capability
      { count := (g.capabilityStats r.capability).count + 1
        totalLatency := (g.capabilityStats r.capability).totalLatency + r.latencyMs
        failures := if r.success then (g.capabilityStats r.capability).failures
          else (g.capabilityStats r.capability).failures + 1 }) : (g.register r).Counted := by
  have hlat : ∀ k, r.lookupKey ≠ k → (g.register r).latencies k = g.latencies k := by
    intro k hk
    simp [latencies, hhydrated, hk]
  have hnew : (g.register r).latencies r.lookupKey = g.latencies r.lookupKey ++ [r.latencyMs] := by
    simp [latencies, hhydrated]
  obtain ⟨haverage, hknown⟩ := h.inserted hins hlat hnew
  refine ⟨haverage, fun c => ?_, fun c => ?_, fun c => ?_, hknown⟩
  · rw [hstats, calls_register]
    by_cases hc : r.capability = c
    · subst hc
      simp [h.counts]
    · simp [hc, Ne.symm hc, h.counts]
  · rw [hstats, calls_register]
    by_cases hc : r.capability = c
    · subst hc
      simp [h.total]
    · simp [hc, Ne.symm hc, h.total]
  · have hfail := h.failures c
    rw [hstats, calls_register]
    by_cases hc : r.capability = c
    · subst hc
      cases hr : r.success <;> simp [hr] <;> omega
    · simpa [hc, Ne.symm hc] using hfail

theorem Counted.apply (h : g.Counted) {e : Event} (hk : g.Keeps e) : (g.apply e).Counted := by
  cases e with
  | register r =>
    rcases g.register_cases r with ⟨hn, -⟩ | ⟨hins, hhydrated, hstats⟩
    · exact absurd hk hn
    · exact h.register hins hhydrated hstats
  | find key => exact h.counted key
  | lookup key useRedis reply => exact h.lookup key useRedis reply

theorem Counted.keeps (h : g.Counted) {e : Event} (hf : (g.apply e).Faithful) : g.Keeps e := by
  cases e with
  | register r =>
    rcases g.register_cases r with ⟨-, hstats⟩ | ⟨hins, -⟩
    · exact absurd hf (h.not_faithful_again r hstats)
    · exact Table.select_none_of_insert hins
  | find | lookup => trivial

theorem again_average_iff {n : ComputationNode} {l : List ℚ} {hits : Nat} (hl : l ≠ [])
    (hcount : n.executionCount = l.length + hits) (havg : n.avgLatencyMs = mean l)
    (latencyMs : ℚ) (success : Bool) :
    (n.again latencyMs success).avgLatencyMs = mean (l ++ [latencyMs]) ↔
      hits = 0 ∨ latencyMs = mean l := by
  have hlen : (l.length : ℚ) ≠ 0 := by
    exact_mod_cast fun h => hl (List.length_eq_zero_iff.mp h)
  have hsum : l.sum = mean l * l.length := by
    rw [mean, div_mul_cancel₀ _ hlen]
  have hagain : (n.again latencyMs success).avgLatencyMs =
      (mean l * (l.length + hits) + latencyMs) / (l.length + hits + 1) := by
    simp only [ComputationNode.again, havg, hcount]
    push_cast
    ring
  have hmean : mean (l ++ [latencyMs]) = (mean l * l.length + latencyMs) / (l.length + 1) := by
    rw [mean, List.sum_append, List.length_append, List.sum_singleton, List.length_singleton, hsum]
    push_cast
    rfl
  have hpos : (l.length : ℚ) + hits + 1 ≠ 0 := by positivity
  have hpos' : (l.length : ℚ) + 1 ≠ 0 := by positivity
  rw [hagain, hmean, div_eq_div_iff hpos hpos']
  constructor
  · intro h
    have hprod : (hits : ℚ) * (latencyMs - mean l) = 0 := by linarith
    rcases mul_eq_zero.mp hprod with h0 | h0
    · exact .inl (by exact_mod_cast h0)
    · exact .inr (sub_eq_zero.mp h0)
  · rintro (rfl | rfl)
    · push_cast
      ring
    · ring

theorem graph_deterministic {g g' g'' : Graph} {e : Event} (h : graph.step g e g')
    (h' : graph.step g e g'') : g' = g'' := h.trans h'.symm

theorem empty_counted : Graph.empty.Counted where
  average := List.forall_mem_nil _
  counts _ := rfl
  total _ := rfl
  failures _ := rfl
  known _ _ := rfl

/-- The statistics are faithful after every call of a sequence exactly if no key is registered that
has its node. -/
theorem statistics_iff (hr : Run graph .empty es g) :
    (∀ before after u, es = before ++ after → Run graph .empty before u → u.Faithful) ↔
      Keeping graph Keeps .empty es := by
  refine Run.keeping_iff (G := Counted) Counted.faithful ?_ ?_ graph_deterministic hr empty_counted
  · rintro g e _ h rfl hf
    exact h.keeps hf
  · rintro g e _ h rfl hk
    exact h.apply hk

def slow : Registration := ⟨"rank", "h", 200, true⟩

def quick : Registration := ⟨"rank", "h", 100, true⟩

def other : Registration := ⟨"rank", "i", 300, false⟩

/-- A key that is registered once, with a hit, beside another one. -/
theorem statistics_once : ∃ g, Run graph .empty
    [.register quick, .lookup quick.lookupKey true none, .register other] g ∧ g.Faithful := by
  have hr : Run graph .empty
      [.register quick, .lookup quick.lookupKey true none, .register other] _ :=
    .cons rfl (.cons rfl (.single rfl))
  have hk : Keeping graph Keeps .empty
      [.register quick, .lookup quick.lookupKey true none, .register other] := by
    refine .cons graph_deterministic rfl rfl (.cons graph_deterministic rfl trivial
      (.cons graph_deterministic rfl ?_ .nil))
    rfl
  exact ⟨_, hr, (statistics_iff hr).mpr hk _ [] _ rfl hr⟩

/-- A key that is registered twice, with a hit in between. -/
theorem statistics_twice : ∃ g, Run graph .empty
    [.register quick, .lookup quick.lookupKey true none, .register slow] g ∧
      g.nodes.rows.map (·.avgLatencyMs) = [400 / 3] ∧ mean (g.latencies quick.lookupKey) = 150 ∧
      (g.report "rank").map (·.count) = some 1 ∧ (g.calls "rank").length = 2 ∧ ¬g.Faithful := by
  have hrows : (((Graph.empty.register quick).lookup quick.lookupKey true none).register
      slow).nodes.rows = [(ComputationNode.create quick.lookupKey 100 true).counted.again 200 true] :=
    rfl
  refine ⟨_, .cons rfl (.cons rfl (.single rfl)), ?_, ?_, rfl, rfl, ?_⟩
  · refine (congrArg (List.map (·.avgLatencyMs)) hrows).trans ?_
    norm_num [ComputationNode.create, ComputationNode.counted, ComputationNode.again]
  · have hlat : (((Graph.empty.register quick).lookup quick.lookupKey true none).register
        slow).latencies quick.lookupKey = [100, 200] := rfl
    refine (congrArg mean hlat).trans ?_
    norm_num [mean]
  · intro h
    have := congrArg (Option.map (·.count)) (h.reported "rank")
    cases this

end Graph

end PrismPipe.Engine.Statistics
