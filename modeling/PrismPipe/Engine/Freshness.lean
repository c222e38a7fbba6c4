import Mathlib.Data.Rat.Floor
import Mathlib.Tactic.Linarith
import PrismPipe.Lib.Transition
import PrismPipe.Engine.ComputationGraph

/-! Any number of workers, each with its own graph, over one Redis: what a lookup obtains is no
older than its time to live and a second. -/

namespace PrismPipe.Engine

open Transition

/-- A row `_store_redis` wrote. -/
structure RedisRow (V : Type) where
  nodeId : String
  state : StateDict V
  next : Option String
  success : Bool
  expiresAt : Option ℚ

variable {V : Type}

/-- `SET key payload EX ttl`, or `SET key payload` where there is no time to live.  `output` is what
`json.loads` makes of the text. -/
def storeRedis (now : ℚ) (nodeId : String) (output : StateDict V) (next : Option String)
    (success : Bool) (ttl : Int) : RedisRow V :=
  ⟨nodeId, output, next, success, if 0 < ttl then some (now + ttl) else none⟩

/-- The reply to `TTL` is assumed to be the remaining time rounded up to a whole second; a server may
round it to the nearest one. -/
def RedisRow.reply (row : RedisRow V) (now : ℚ) : RedisReply V where
  nodeId := some row.nodeId
  state := row.state
  next := row.next
  success := row.success
  ttl := match row.expiresAt with
    | none => some (-1)
    | some e => some ⌈e - now⌉

/-- A call of `register_computation`, when it was made and the time to live it gave. -/
structure Registration (V : Type) where
  lookupKey : String
  state : StateDict V
  next : Option String
  at_ : ℚ
  ttl : Int

structure Cluster (V : Type) where
  now : ℚ
  graphs : List (ComputationGraph V)
  redis : String → Option (RedisRow V)
  registered : List (Registration V)

def Cluster.Answers (s : Cluster V) (key : String) (reply : Option (RedisReply V)) : Prop :=
  ∀ rep ∈ reply, ∃ row, s.redis key = some row ∧ ¬ row.expiresAt.any (· ≤ s.now) ∧
    rep = row.reply s.now

/-- `looked` carries what the lookup returned. -/
inductive ClusterEvent (V : Type)
  | silent
  | looked (key : String) (cached : Option (CachedComputation V))

/-- Redis keeps a registration, as `json` makes its values (`json.loads(json.dumps(value,
default=str))`), or fails to.  Node ids are unique: each is drawn for one key. -/
inductive Cluster.Step (json : V → V) (drawnFor : String → String) :
    Cluster V → ClusterEvent V → Cluster V → Prop
  | tick : s.now ≤ later → Step json drawnFor s .silent { s with now := later }
  | start : Step json drawnFor s .silent { s with graphs := s.graphs ++ [.empty m t n c] }
  | register (persisted : Bool) : s.graphs[i]? = some g →
      drawnFor nodeId = capability ++ ":" ++ inputHash → 1 ≤ g.ttlFor capability success →
      Step json drawnFor s .silent
        { now := s.now
          graphs := s.graphs.set i
            (g.registerComputation s.now nodeId capability inputHash output next success)
          redis := if persisted then Function.update s.redis (capability ++ ":" ++ inputHash)
              (some (storeRedis s.now
                ((g.hashToNode.lookup (capability ++ ":" ++ inputHash)).getD nodeId)
                (output.mapValues json) next success (g.ttlFor capability success)))
            else s.redis
          registered := ⟨capability ++ ":" ++ inputHash, output, next, s.now,
            g.ttlFor capability success⟩ :: s.registered }
  | lookup : s.graphs[i]? = some g → s.Answers key reply →
      g.getCachedResultByKey s.now capability key reply = (cached, g') →
      Step json drawnFor s (.looked key cached) { s with graphs := s.graphs.set i g' }

def cluster (json : V → V) (drawnFor : String → String) : System (Cluster V) (ClusterEvent V) where
  init s := s.graphs = [] ∧ (∀ key, s.redis key = none) ∧ s.registered = []
  step := Cluster.Step json drawnFor

structure Found (json : V → V) (R : StateDict V → StateDict V → Prop) : Prop where
  local_ : ∀ s, R s s
  stored : ∀ s, R s (s.mapValues json)

def Intact (json : V → V) (registered found : StateDict V) : Prop :=
  found = registered ∨ found = registered.mapValues json

theorem intact_found (json : V → V) : Found json (Intact json) where
  local_ _ := .inl rfl
  stored _ := .inr rfl

variable {json : V → V} {R : StateDict V → StateDict V → Prop}

def Output.Fresh (R : StateDict V → StateDict V → Prop) (registered : List (Registration V))
    (output : Output V) : Prop :=
  ∃ r ∈ registered, r.lookupKey = output.lookupKey ∧ R r.state output.state ∧
    r.next = output.next ∧ ∃ e, output.expiresAt = some e ∧ e < r.at_ + r.ttl + 1

def RedisRow.Fresh (R : StateDict V → StateDict V → Prop) (registered : List (Registration V))
    (key : String) (row : RedisRow V) : Prop :=
  ∃ r ∈ registered, r.lookupKey = key ∧ R r.state row.state ∧ r.next = row.next ∧
    row.expiresAt = some (r.at_ + r.ttl)

theorem Output.Fresh.cons (h : Output.Fresh R registered output) (r : Registration V) :
    output.Fresh R (r :: registered) := by
  obtain ⟨q, hq, h⟩ := h
  exact ⟨q, List.mem_cons_of_mem _ hq, h⟩

theorem RedisRow.Fresh.cons (h : RedisRow.Fresh R registered key row) (r : Registration V) :
    row.Fresh R (r :: registered) key := by
  obtain ⟨q, hq, h⟩ := h
  exact ⟨q, List.mem_cons_of_mem _ hq, h⟩

theorem RedisRow.Fresh.output (h : RedisRow.Fresh R registered key row)
    (hlive : ¬ row.expiresAt.any (· ≤ now)) (fallback : Int) :
    ((row.reply now).output now fallback key).Fresh R registered ∧
      ¬ ((row.reply now).output now fallback key).expiresAt.any (· ≤ now) := by
  obtain ⟨r, hr, hk, hs, hn, he⟩ := h
  have hlt : now < r.at_ + r.ttl := by simpa [he] using hlive
  have hpos : 0 < ⌈r.at_ + r.ttl - now⌉ := Int.ceil_pos.mpr (by linarith)
  have hceil := Int.ceil_lt_add_one (r.at_ + r.ttl - now)
  have hmax : max 0 ⌈r.at_ + r.ttl - now⌉ = ⌈r.at_ + r.ttl - now⌉ := max_eq_right hpos.le
  have hexp : ((row.reply now).output now fallback key).expiresAt =
      some (now + ⌈r.at_ + r.ttl - now⌉) := by
    have hne : ⌈r.at_ + r.ttl - now⌉ ≠ -1 := by omega
    simp only [RedisReply.output, RedisReply.expiresAt, RedisRow.reply, he, hmax]
  have hcast : (0 : ℚ) < (⌈r.at_ + r.ttl - now⌉ : ℚ) := by exact_mod_cast hpos
  refine ⟨⟨r, hr, hk, hs, hn, _, hexp, by linarith⟩, ?_⟩
  simpa [hexp] using hpos

structure Cluster.Fresh (R : StateDict V → StateDict V → Prop) (drawnFor : String → String)
    (s : Cluster V) : Prop where
  graphs : g ∈ s.graphs → g.Sound drawnFor (Output.Fresh R s.registered)
  redis : s.redis key = some row → drawnFor row.nodeId = key ∧ row.Fresh R s.registered key

theorem Cluster.Fresh.answers {s : Cluster V} (h : s.Fresh R drawnFor) (ha : s.Answers key reply)
    (fallback : Int) : ∀ rep ∈ reply,
      rep.Sound drawnFor (Output.Fresh R s.registered) s.now fallback key ∧
        ¬ (rep.output s.now fallback key).expiresAt.any (· ≤ s.now) := by
  intro rep hr
  obtain ⟨row, hrow, hlive, rfl⟩ := ha rep hr
  obtain ⟨hd, hf⟩ := h.redis hrow
  obtain ⟨hout, hexp⟩ := hf.output hlive fallback
  exact ⟨⟨⟨_, rfl, hd⟩, hout⟩, hexp⟩

theorem mem_set {l : List α} (h : x ∈ l.set i y) : x = y ∨ x ∈ l := by
  obtain ⟨j, hj⟩ := List.mem_iff_getElem?.mp h
  rw [List.getElem?_set] at hj
  split at hj
  · split at hj
    · exact .inl (Option.some.inj hj).symm
    · cases hj
  · exact .inr (List.mem_of_getElem? hj)

theorem storedId_drawn {g : ComputationGraph V} (hs : g.Sound drawnFor P)
    (hd : drawnFor nodeId = key) : drawnFor ((g.hashToNode.lookup key).getD nodeId) = key := by
  cases hn : g.hashToNode.lookup key with
  | none => exact hd
  | some existing => exact hs.mapped hn

theorem cluster_fresh (hR : Found json R) :
    Invariant (cluster json drawnFor) (Cluster.Fresh R drawnFor) where
  init := by
    rintro s ⟨hg, hr, hn⟩
    refine ⟨fun hm => ?_, fun hk => ?_⟩
    · rw [hg] at hm
      cases hm
    · rw [hr] at hk
      cases hk
  step := by
    intro s e t h st
    cases st with
    | tick => exact ⟨h.graphs, h.redis⟩
    | start =>
      refine ⟨fun hm => ?_, h.redis⟩
      rcases List.mem_append.mp hm with hm | hm
      · exact h.graphs hm
      · obtain rfl := List.mem_singleton.mp hm
        exact ComputationGraph.empty_sound ..
    | register persisted hg hd ht =>
      have hs := h.graphs (List.mem_of_getElem? hg)
      refine ⟨fun hm => ?_, fun {key' row} hk => ?_⟩
      · rcases mem_set hm with rfl | hm
        · refine (hs.mono fun _ ho => ho.cons _).registerComputation hd ?_
          exact ⟨_, List.mem_cons_self, rfl, hR.local_ _, rfl, _, rfl, lt_add_one _⟩
        · exact (h.graphs hm).mono fun _ ho => ho.cons _
      · cases persisted with
        | false =>
          obtain ⟨hd', hf⟩ := h.redis hk
          exact ⟨hd', hf.cons _⟩
        | true =>
          dsimp only at hk
          rw [if_pos rfl, Function.update_apply] at hk
          split at hk
          next hkey =>
            cases hk
            refine ⟨?_, _, List.mem_cons_self, hkey.symm, hR.stored _, rfl, if_pos (by omega)⟩
            rw [hkey]
            exact storedId_drawn hs hd
          next hkey =>
            obtain ⟨hd', hf⟩ := h.redis hk
            exact ⟨hd', hf.cons _⟩
    | lookup hg ha hl =>
      refine ⟨fun hm => ?_, h.redis⟩
      rcases mem_set hm with rfl | hm
      · exact ((h.graphs (List.mem_of_getElem? hg)).getCachedResultByKey
          (fun rep hr => (h.answers ha _ rep hr).1) hl).1
      · exact h.graphs hm

theorem Cluster.Fresh.looked {s t : Cluster V} (hf : s.Fresh R drawnFor)
    (h : s.Step json drawnFor (.looked key (some cached)) t) :
    ∃ r ∈ s.registered, r.lookupKey = key ∧ R r.state cached.state ∧ r.next = cached.next ∧
      s.now < r.at_ + r.ttl + 1 := by
  cases h with
  | lookup hg ha hl =>
    obtain ⟨-, hc⟩ := (hf.graphs (List.mem_of_getElem? hg)).getCachedResultByKey
      (fun rep hr => (hf.answers ha _ rep hr).1) hl
    obtain ⟨output, ⟨r, hr, hk, hs, hn, e, he, hlt⟩, hkey, ⟨hs', hn'⟩, hlive⟩ := hc cached rfl
    have hlive : ¬ output.expiresAt.any (· ≤ s.now) := by
      rcases hlive with hlive | ⟨rep, hrep, rfl⟩
      · exact hlive
      · exact (hf.answers ha _ rep hrep).2
    have hnow : s.now < e := by simpa [he] using hlive
    exact ⟨r, hr, hk.trans hkey, hs' ▸ hs, hn.trans hn'.symm, hnow.trans hlt⟩

/-- Whatever a lookup returns was registered for its key, or is what JSON makes of a state that was,
and lives no longer than the time to live of that registration and a second. -/
theorem lookup_fresh {s t : Cluster V} (hs : Reachable (cluster json drawnFor) s)
    (h : s.Step json drawnFor (.looked key (some cached)) t) :
    ∃ r ∈ s.registered, r.lookupKey = key ∧ Intact json r.state cached.state ∧
      r.next = cached.next ∧ s.now < r.at_ + r.ttl + 1 :=
  ((cluster_fresh (intact_found json)).reachable hs).looked h

section Hydrated

inductive Sequence
  | tuple (items : List Nat)
  | list (items : List Nat)
  deriving DecidableEq

def Sequence.reread : Sequence → Sequence
  | tuple items | list items => list items

theorem hydrated : ∃ (s t : Cluster Sequence) (cached : CachedComputation Sequence),
    Reachable (cluster Sequence.reread fun _ => "c:h") s ∧
      s.Step Sequence.reread (fun _ => "c:h") (.looked "c:h" (some cached)) t ∧
      cached.state "k" = some (.list [1]) ∧
      ∀ r ∈ s.registered, r.state "k" = some (.tuple [1]) := by
  let graph : ComputationGraph Sequence := .empty 1 30 3 fun _ => none
  let state : StateDict Sequence := StateDict.empty.set "k" (.tuple [1])
  let row : RedisRow Sequence := storeRedis 0 "n" (state.mapValues Sequence.reread) none true 30
  let s0 : Cluster Sequence := ⟨0, [], fun _ => none, []⟩
  let s1 : Cluster Sequence := ⟨0, [graph], fun _ => none, []⟩
  let s2 : Cluster Sequence := ⟨0, [graph, graph], fun _ => none, []⟩
  let s3 : Cluster Sequence :=
    ⟨0, [graph.registerComputation 0 "n" "c" "h" state none true, graph],
      Function.update (fun _ => none) "c:h" (some row), [⟨"c:h", state, none, 0, 30⟩]⟩
  have h0 : Reachable (cluster Sequence.reread fun _ => "c:h") s0 := .init ⟨rfl, fun _ => rfl, rfl⟩
  have h1 : Reachable (cluster Sequence.reread fun _ => "c:h") s1 := h0.step (.start (s := s0))
  have h2 : Reachable (cluster Sequence.reread fun _ => "c:h") s2 := h1.step (.start (s := s1))
  have h3 : Reachable (cluster Sequence.reread fun _ => "c:h") s3 :=
    h2.step (.register (s := s2) (i := 0) (g := graph) true rfl rfl (by decide))
  have ha : s3.Answers "c:h" (some (row.reply 0)) := by
    rintro _ ⟨⟩
    exact ⟨row, rfl, by simp [s3, row, storeRedis], rfl⟩
  have hp : (row.reply 0).ttl ≠ some (-2) := by
    simp [row, storeRedis, RedisRow.reply]
  have hc : graph.getCachedResultByKey s3.now "c" "c:h" (some (row.reply 0)) =
      (some ⟨"n", state.mapValues Sequence.reread, none⟩,
        (graph.getCachedResultByKey s3.now "c" "c:h" (some (row.reply 0))).2) := by
    have hm : graph.getCachedResultByKey s3.now "c" "c:h" (some (row.reply 0)) =
      graph.hydrateFromRedis s3.now "c" "c:h" (row.reply 0) := rfl
    rw [hm, ComputationGraph.hydrateFromRedis, if_neg hp]
    rfl
  have hl : s3.Step Sequence.reread (fun _ => "c:h")
      (.looked "c:h" (some ⟨"n", state.mapValues Sequence.reread, none⟩)) _ :=
    .lookup (i := 1) (g := graph) rfl ha hc
  refine ⟨_, _, _, h3, hl, rfl, fun r hr => ?_⟩
  obtain rfl := List.mem_singleton.mp hr
  rfl

/-- What is hydrated was registered by nobody. -/
theorem hydrated_unregistered : ∃ (s t : Cluster Sequence) (cached : CachedComputation Sequence),
    Reachable (cluster Sequence.reread fun _ => "c:h") s ∧
      s.Step Sequence.reread (fun _ => "c:h") (.looked "c:h" (some cached)) t ∧
      ¬ ∃ r ∈ s.registered, r.lookupKey = "c:h" ∧ r.state = cached.state := by
  obtain ⟨s, t, cached, hs, st, hcached, hregistered⟩ := hydrated
  refine ⟨s, t, cached, hs, st, ?_⟩
  rintro ⟨r, hr, -, hstate⟩
  have hk := hregistered r hr
  rw [hstate, hcached] at hk
  cases hk

theorem lookup_fresh_hydrated :
    ∃ (s t : Cluster Sequence) (cached : CachedComputation Sequence),
      s.Step Sequence.reread (fun _ => "c:h") (.looked "c:h" (some cached)) t ∧
      cached.state "k" = some (.list [1]) ∧
      ∃ r ∈ s.registered, r.lookupKey = "c:h" ∧ Intact Sequence.reread r.state cached.state ∧
        r.next = cached.next ∧ s.now < r.at_ + r.ttl + 1 := by
  obtain ⟨s, t, cached, hs, st, hcached, -⟩ := hydrated
  exact ⟨s, t, cached, st, hcached, lookup_fresh hs st⟩

end Hydrated

end PrismPipe.Engine
