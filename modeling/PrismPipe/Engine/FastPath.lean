import PrismPipe.Engine.Coalescing
import PrismPipe.Engine.Recency

/-! The key a registration takes apart again, against the one that a lookup builds. -/

namespace PrismPipe.Engine

variable {I V : Type}

theorem afterColon_append (ha : ':' ∉ a) (b : List Char) :
    afterColon (String.ofList (a ++ ':' :: b)) = String.ofList b := by
  have hdrop : ((a ++ ':' :: b).dropWhile (· ≠ ':')).drop 1 = b := by
    rw [List.dropWhile_append_of_pos]
    · simp
    · intro c hc
      have : c ≠ ':' := fun he => ha (he ▸ hc)
      simpa using this
  rw [afterColon, String.toList_ofList, if_pos (by simp), hdrop]

namespace Computation

def registeredKey (x : Computation I V) : String := x.capability ++ ":" ++ afterColon x.key

theorem registeredKey_eq_iff (x : Computation I V) :
    x.registeredKey = x.key ↔ ':' ∉ x.capability.toList := by
  constructor
  · intro h hc
    obtain ⟨a, b, hab, ha⟩ := List.eq_append_cons_of_mem hc
    have hkey : x.key = String.ofList (a ++ ':' :: (b ++ ':' ::
        (x.hash x.capability x.fingerprint).toList)) := by
      rw [← String.toList_inj, key, toList_lookupKey, hab, String.toList_ofList]
      simp
    have hafter : (afterColon x.key).length = b.length + 1 +
        (x.hash x.capability x.fingerprint).length := by
      rw [hkey, afterColon_append ha]
      have hc : ":".length = 1 := rfl
      simp only [String.length_ofList, List.length_append, List.length_cons, String.length_toList]
      omega
    have hlen : (afterColon x.key).length = (x.hash x.capability x.fingerprint).length := by
      have := congrArg String.length h
      simp only [registeredKey, key, lookupKey, String.length_append] at this
      exact Nat.add_left_cancel this
    omega
  · exact Coalescing.registered_key

end Computation

namespace ComputationGraph

variable {g : ComputationGraph V}

theorem popOldest_hashToNode (hk : g.hashToNode.lookup key = some nodeId)
    (hm : nodeId ∈ g.popOldest.outputs) : g.popOldest.hashToNode.lookup key = some nodeId := by
  cases hl : g.outputs.entries.getLast? with
  | none =>
    rw [popOldest, hl]
    exact hk
  | some e =>
    obtain ⟨oldId, old⟩ := e
    rw [popOldest_eq hl] at hm ⊢
    have hne : nodeId ≠ oldId := (AList.mem_erase.mp hm).1
    dsimp only
    split
    next ho =>
      refine lookup_erase_iff.mpr ⟨?_, hk⟩
      rintro rfl
      rw [hk] at ho
      exact hne (Option.some.inj ho)
    · exact hk

theorem evict_hashToNode (n : Nat) (hk : g.hashToNode.lookup key = some nodeId)
    (hm : nodeId ∈ (g.evict n).outputs) : (g.evict n).hashToNode.lookup key = some nodeId := by
  induction n generalizing g with
  | zero => exact hk
  | succ n ih =>
    unfold evict at hm ⊢
    split at hm
    next hlt =>
      rw [if_pos hlt]
      obtain ⟨output, ho⟩ := exists_of_mem hm
      exact ih (popOldest_hashToNode hk (lookup_of_mem ((evict_sub _ _).outputs ho))) hm
    next hle =>
      rw [if_neg hle]
      exact hk

theorem registerComputation_stored (g : ComputationGraph V) (now : ℚ)
    (nodeId capability inputHash : String) (output : StateDict V) (next : Option String)
    (success : Bool) (hpos : 0 < g.maxEntries) :
    let key := capability ++ ":" ++ inputHash
    let g' := g.registerComputation now nodeId capability inputHash output next success
    ∃ id, g'.hashToNode.lookup key = some id ∧ g'.outputs.lookup id =
      some ⟨output, next, success, some (now + g.ttlFor capability success), key⟩ := by
  unfold registerComputation
  dsimp only
  generalize hs : (⟨output, next, success, some (now + g.ttlFor capability success),
    capability ++ ":" ++ inputHash⟩ : Output V) = stored
  split
  next id hk =>
    have ho : (g.storeOutput id stored).outputs.lookup id = some stored := lookup_storeOutput hpos
    exact ⟨id, evict_hashToNode _ hk (lookup_of_mem ho), ho⟩
  next hk =>
    have ho : ((g.addNode nodeId (capability ++ ":" ++ inputHash)).storeOutput nodeId
        stored).outputs.lookup nodeId = some stored := lookup_storeOutput hpos
    exact ⟨nodeId, evict_hashToNode _ (AList.lookup_insert _) (lookup_of_mem ho), ho⟩

theorem getCachedResultByKey_of_some {h : ComputationGraph V}
    (hf : g.findOutput now key = (some cached, h)) (reply : Option (RedisReply V)) :
    g.getCachedResultByKey now capability key reply = (some cached, h) := by
  simp only [getCachedResultByKey, hf]

theorem registerComputation_ttlFor (g : ComputationGraph V) :
    (g.registerComputation now nodeId capability inputHash output next success).ttlFor =
      g.ttlFor := by
  unfold registerComputation
  dsimp only
  split <;> exact evict_ttlFor _

theorem getCachedResultByKey_ttlFor (g : ComputationGraph V) (reply : Option (RedisReply V)) :
    (g.getCachedResultByKey now capability key reply).2.ttlFor = g.ttlFor := by
  have hf : (g.findOutput now key).2.ttlFor = g.ttlFor :=
    funext fun _ => funext fun _ => g.findOutput_ttlFor ..
  unfold getCachedResultByKey
  split
  next hl => rw [← hf, hl]
  next hl => rw [← hf, hl]
  next hl =>
    rw [← hf, hl]
    unfold hydrateFromRedis
    split
    · rfl
    · refine (evict_ttlFor _).trans ?_
      split <;> rfl

theorem getCachedResultByKey_registered (g : ComputationGraph V) (now : ℚ)
    (nodeId capability inputHash : String) (output : StateDict V) (next : Option String)
    (success : Bool) (hpos : 0 < g.maxEntries) :
    let g' := g.registerComputation now nodeId capability inputHash output next success
    let key := capability ++ ":" ++ inputHash
    (0 < g.ttlFor capability success → ∀ reply, ∃ cached h,
      g'.getCachedResultByKey now capability key reply = (some cached, h) ∧
        cached.state = output ∧ cached.next = next) ∧
    (g.ttlFor capability success ≤ 0 → (g'.getCachedResultByKey now capability key none).1 = none)
    := by
  intro g' key
  obtain ⟨id, hk, ho⟩ := g.registerComputation_stored now nodeId capability inputHash output next
    success hpos
  constructor
  · intro hlive reply
    have he : ¬ now + (g.ttlFor capability success : ℚ) ≤ now := by
      have : (0 : ℚ) < g.ttlFor capability success := by exact_mod_cast hlive
      exact not_le.mpr (lt_add_of_pos_right now this)
    have hf : (g'.findOutput now key).1 = some ⟨id, output, next⟩ := by
      simp only [g', key, findOutput, hk, ho, Option.any_some, decide_eq_true_eq, if_neg he]
    exact ⟨⟨id, output, next⟩, (g'.findOutput now key).2,
      getCachedResultByKey_of_some (Prod.ext hf rfl) reply, rfl, rfl⟩
  · intro hdead
    have he : now + (g.ttlFor capability success : ℚ) ≤ now := by
      have : (g.ttlFor capability success : ℚ) ≤ 0 := by exact_mod_cast hdead
      exact add_le_of_nonpos_right this
    rw [getCachedResultByKey_offline]
    simp only [g', key, findOutput, hk, ho, Option.any_some, decide_eq_true_eq, if_pos he]

end ComputationGraph

def CacheOp.Reached (d : String → String) (maxEntries : Nat) (t u : Int) (c : String → Option Int)
    (g : ComputationGraph V) : Prop :=
  ∃ ops : List (CacheOp V), (∀ op ∈ ops, op.Allowed d) ∧ g = run (.empty maxEntries t u c) ops

/-- The executor registers a computation where it and every other party look it up: what a step
registers is found at once, and by those that waited for it. -/
structure Computation.FastPath (x : Computation I V) (maxEntries : Nat) (t u : Int)
    (c : String → Option Int) : Prop where
  keys : x.registeredKey = x.key
  hits : ∀ (d : String → String) (s : Coalescing V) i fut nodeId state next,
    CacheOp.Reached d maxEntries t u c s.graph → d nodeId = x.registeredKey →
    (∀ reply, ∃ cached g,
      (s.register x i fut nodeId state next).graph.getCachedResultByKey s.now x.capability x.key
          reply = (some cached, g) ∧
        cached.state = state.publicState ∧ cached.next = next) ∧
    ∀ j, ((s.register x i fut nodeId state next).loop x j).calls j =
      .obtained (x.fingerprint.state.restore state.publicState).publicState next

section Config

variable {maxEntries : Nat} {t u : Int} {c : String → Option Int}

namespace CacheOp

theorem apply_ttlFor (g : ComputationGraph V) (op : CacheOp V) :
    (op.apply g).ttlFor = g.ttlFor := by
  cases op with
  | register => exact g.registerComputation_ttlFor
  | lookup _ _ _ reply => exact g.getCachedResultByKey_ttlFor reply
  | findShared => rfl

theorem run_config (g : ComputationGraph V) (ops : List (CacheOp V)) :
    (run g ops).maxEntries = g.maxEntries ∧ (run g ops).ttlFor = g.ttlFor := by
  induction ops generalizing g with
  | nil => exact ⟨rfl, rfl⟩
  | cons op ops ih =>
    obtain ⟨hm, ht⟩ := ih (op.apply g)
    exact ⟨hm.trans (apply_maxEntries g op), ht.trans (apply_ttlFor g op)⟩

end CacheOp

namespace Computation

theorem FastPath.of {x : Computation I V} (hpos : 0 < maxEntries) (hc : ':' ∉ x.capability.toList)
    (ht : 0 < (.empty maxEntries t u c : ComputationGraph V).ttlFor x.capability true) :
    x.FastPath maxEntries t u c := by
  have hkeys := x.registeredKey_eq_iff.mpr hc
  refine ⟨hkeys, fun d s i fut nodeId state next hs _ => ?_⟩
  obtain ⟨ops, -, hs⟩ := hs
  obtain ⟨hmax, httl⟩ := CacheOp.run_config (.empty maxEntries t u c : ComputationGraph V) ops
  rw [← hs] at hmax httl
  have hhit := (s.graph.getCachedResultByKey_registered s.now nodeId x.capability
    (afterColon x.key) state.publicState next true (hmax.symm ▸ hpos)).1 (httl.symm ▸ ht)
  have hkey : x.capability ++ ":" ++ afterColon x.key = x.key := hkeys
  rw [hkey] at hhit
  refine ⟨hhit, fun j => ?_⟩
  obtain ⟨cached, g, hl, hstate, hnext⟩ := hhit none
  have hl : (s.register x i fut nodeId state next).lookup x = (some cached, g) := hl
  rw [Coalescing.loop, hl]
  simp only [Coalescing.restore, Coalescing.calls_setCall, if_pos, hstate, hnext]

/-- The keys agree and what was registered is found, exactly for a capability that has no colon and
results that have time to live. -/
theorem fastPath_iff (x : Computation I V) (hpos : 0 < maxEntries) :
    x.FastPath maxEntries t u c ↔ ':' ∉ x.capability.toList ∧
      0 < (.empty maxEntries t u c : ComputationGraph V).ttlFor x.capability true := by
  refine ⟨fun h => ⟨x.registeredKey_eq_iff.mp h.keys, ?_⟩, fun h => .of hpos h.1 h.2⟩
  by_contra ht
  let s : Coalescing V := ⟨0, .empty maxEntries t u c, none, fun _ => none, 0, fun _ => .away, 0, 0,
    []⟩
  have hs : CacheOp.Reached (fun _ => x.registeredKey) maxEntries t u c s.graph := ⟨[], by simp, rfl⟩
  obtain ⟨cached, g, hl, -⟩ := (h.hits _ s 0 0 "" StateDict.empty none hs rfl).1 none
  have hmiss := (s.graph.getCachedResultByKey_registered s.now "" x.capability (afterColon x.key)
    (StateDict.empty : StateDict V).publicState none true hpos).2 (not_lt.mp ht)
  have hkey : x.capability ++ ":" ++ afterColon x.key = x.key := h.keys
  rw [hkey] at hmiss
  exact nomatch hmiss.symm.trans (congrArg Prod.fst hl)

theorem fastPath_iff_session :
    (⟨fun _ _ => "h", "session", ⟨(), StateDict.empty⟩, fun _ _ => True, fun _ _ => False⟩ :
        Computation Unit Unit).FastPath 1 30 3 fun _ => none :=
  (fastPath_iff _ (by decide)).mpr ⟨by decide, by decide⟩

/-- What is registered for `a:b` is under `a:b:b:h`, and looked up under `a:b:h`. -/
theorem colon_not_fastPath :
    let x : Computation Unit Unit :=
      ⟨fun _ _ => "h", "a:b", ⟨(), StateDict.empty⟩, fun _ _ => True, fun _ _ => False⟩
    x.registeredKey = "a:b:b:h" ∧ x.key = "a:b:h" ∧ ¬ x.FastPath 10000 30 3 fun _ => none := by
  refine ⟨by decide +kernel, by decide +kernel, fun h => ?_⟩
  have := h.keys
  revert this
  decide +kernel

end Computation

end Config

end PrismPipe.Engine
