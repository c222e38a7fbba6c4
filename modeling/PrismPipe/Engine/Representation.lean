import Mathlib.Data.List.Perm.Subperm
import PrismPipe.Lib.Transition
import PrismPipe.Engine.ComputationGraph

/-! The three tables of the cache against each other: one row in each for every entry, until a
lookup finds an expired one. -/

namespace PrismPipe.Engine

open Transition

namespace ComputationGraph

variable {V : Type} {drawnFor : String → String} {g : ComputationGraph V}

/-- `_nodes` and `_hash_to_node` hold the rows of `_outputs` and no others. -/
structure Linked (g : ComputationGraph V) : Prop where
  nodup : g.nodes.Nodup
  nodes : nodeId ∈ g.nodes ↔ nodeId ∈ g.outputs
  mapped : g.hashToNode.lookup key = some nodeId ↔
    ∃ output, g.outputs.lookup nodeId = some output ∧ output.lookupKey = key

/-- `_hash_to_node` leads from a key to its entry and to nothing else. -/
def Mapped (g : ComputationGraph V) : Prop := ∀ key nodeId,
  g.hashToNode.lookup key = some nodeId ↔
    ∃ output, g.outputs.lookup nodeId = some output ∧ output.lookupKey = key

structure Represented (g : ComputationGraph V) : Prop extends g.Linked where
  nodes_le : g.nodes.length ≤ g.maxEntries
  hashToNode_le : g.hashToNode.keys.length ≤ g.maxEntries
  outputs_le : g.outputs.keys.length ≤ g.maxEntries
  /-- `self._nodes[node_id]` raises no `KeyError`. -/
  known : g.hashToNode.lookup key = some nodeId → nodeId ∈ g.nodes

theorem lookup_of_mem {d : AList fun _ : String => α} (h : d.lookup k = some v) : k ∈ d :=
  AList.lookup_isSome.mp (by rw [h]; rfl)

theorem exists_of_mem {d : AList fun _ : String => α} (h : k ∈ d) : ∃ v, d.lookup k = some v :=
  Option.isSome_iff_exists.mp (AList.lookup_isSome.mpr h)

theorem Linked.represented (h : g.Linked) (hle : g.outputs.keys.length ≤ g.maxEntries) :
    g.Represented where
  toLinked := h
  nodes_le := by
    refine le_trans (List.subperm_of_subset h.nodup ?_).length_le hle
    exact fun _ hi => AList.mem_keys.mp (h.nodes.mp hi)
  hashToNode_le := by
    refine le_trans ?_ hle
    have hs : g.hashToNode.keys ⊆ g.outputs.entries.map (·.2.lookupKey) := by
      intro key hk
      obtain ⟨nodeId, hn⟩ := exists_of_mem (AList.mem_keys.mpr hk)
      obtain ⟨output, ho, rfl⟩ := h.mapped.mp hn
      exact List.mem_map_of_mem (f := (·.2.lookupKey)) (AList.mem_lookup_iff.mp ho)
    have := (List.subperm_of_subset g.hashToNode.keys_nodup hs).length_le
    simpa [AList.keys, List.keys] using this
  outputs_le := hle
  known hk := by
    obtain ⟨_, ho, -⟩ := h.mapped.mp hk
    exact h.nodes.mpr (lookup_of_mem ho)

theorem empty_represented (maxEntries : Nat) (t n : Int) (c : String → Option Int) :
    (empty maxEntries t n c : ComputationGraph V).Represented := by
  refine Linked.represented ⟨List.nodup_nil, ?_, ?_⟩ (Nat.zero_le _)
  · simp [empty]
  · simp [empty]

theorem popOldest_eq (h : g.outputs.entries.getLast? = some ⟨oldId, old⟩) :
    g.popOldest = { g with
      outputs := g.outputs.erase oldId
      hashToNode := if g.hashToNode.lookup old.lookupKey = some oldId
        then g.hashToNode.erase old.lookupKey else g.hashToNode
      nodes := g.nodes.erase oldId } := by
  unfold popOldest
  rw [h]

theorem lookup_oldest (h : g.outputs.entries.getLast? = some ⟨oldId, old⟩) :
    g.outputs.lookup oldId = some old :=
  AList.mem_lookup_iff.mpr (List.mem_of_getLast? h)

theorem lookup_erase_iff {d : AList fun _ : String => α} :
    (d.erase key).lookup k = some v ↔ k ≠ key ∧ d.lookup k = some v := by
  by_cases hk : k = key
  · subst hk
    simp [AList.lookup_erase]
  · simp [AList.lookup_erase_ne hk, hk]

theorem lookup_insert_iff {d : AList fun _ : String => α} :
    (d.insert key value).lookup k = some v ↔
      k = key ∧ v = value ∨ k ≠ key ∧ d.lookup k = some v := by
  by_cases hk : k = key
  · subst hk
    simp [eq_comm]
  · simp [hk]

theorem Mapped.erase (h : g.Mapped) (hk : g.hashToNode.lookup key = some nodeId)
    (nodes : List String) : Mapped { g with
      outputs := g.outputs.erase nodeId, hashToNode := g.hashToNode.erase key, nodes } := by
  obtain ⟨old, ho, rfl⟩ := (h _ _).mp hk
  intro key i
  simp only [lookup_erase_iff, h key i]
  constructor
  · rintro ⟨hne, output, hi, rfl⟩
    refine ⟨output, ⟨?_, hi⟩, rfl⟩
    rintro rfl
    rw [ho] at hi
    cases hi
    exact hne rfl
  · rintro ⟨output, ⟨hi, ho'⟩, rfl⟩
    refine ⟨fun he => hi ?_, output, ho', rfl⟩
    have := (h _ _).mpr ⟨output, ho', he⟩
    rw [hk] at this
    exact (Option.some.inj this).symm

theorem Mapped.popOldest (h : g.Mapped) : g.popOldest.Mapped := by
  cases hl : g.outputs.entries.getLast? with
  | none =>
    rw [ComputationGraph.popOldest, hl]
    exact h
  | some e =>
    obtain ⟨oldId, old⟩ := e
    have hm := (h _ _).mpr ⟨old, lookup_oldest hl, rfl⟩
    rw [popOldest_eq hl, if_pos hm]
    exact h.erase hm _

theorem Linked.popOldest (h : g.Linked) : g.popOldest.Linked := by
  refine ⟨?_, fun {i} => ?_, fun {key i} => Mapped.popOldest (fun _ _ => h.mapped) key i⟩
  · unfold ComputationGraph.popOldest
    split
    · exact h.nodup
    · exact h.nodup.erase _
  · unfold ComputationGraph.popOldest
    split
    · exact h.nodes
    · rw [h.nodup.mem_erase_iff, AList.mem_erase, h.nodes]

theorem popOldest_maxEntries (g : ComputationGraph V) : g.popOldest.maxEntries = g.maxEntries := by
  unfold popOldest
  split <;> rfl

theorem popOldest_length (g : ComputationGraph V) :
    g.popOldest.outputs.keys.length = g.outputs.keys.length - 1 := by
  cases hl : g.outputs.entries.getLast? with
  | none =>
    have hn : g.outputs.keys = [] := by
      rw [AList.keys, List.getLast?_eq_none_iff.mp hl]
      rfl
    rw [popOldest, hl, hn]
    simp
  | some e =>
    obtain ⟨oldId, old⟩ := e
    rw [popOldest_eq hl]
    have hm : oldId ∈ g.outputs.keys := AList.mem_keys.mp (lookup_of_mem (lookup_oldest hl))
    rw [AList.keys_erase, List.length_erase_of_mem hm]

theorem popOldest_head (h : g.outputs.keys.head? = some nodeId)
    (hl : 1 < g.outputs.keys.length) : g.popOldest.outputs.keys.head? = some nodeId := by
  cases hlast : g.outputs.entries.getLast? with
  | none =>
    rw [List.getLast?_eq_none_iff] at hlast
    simp [AList.keys, hlast] at hl
  | some e =>
    obtain ⟨oldId, old⟩ := e
    rw [popOldest_eq hlast]
    obtain ⟨l, hk⟩ := List.head?_eq_some_iff.mp h
    have hnodup := g.outputs.keys_nodup
    have hold : g.outputs.keys.getLast? = some oldId := by
      rw [AList.keys, List.keys, List.getLast?_map, hlast]
      rfl
    rw [AList.keys_erase]
    rw [hk] at hl hnodup hold ⊢
    have hne : nodeId ≠ oldId := by
      rintro rfl
      obtain ⟨l', hl'⟩ := List.getLast?_eq_some_iff.mp hold
      cases l' with
      | nil => simp_all
      | cons a l' =>
        obtain ⟨rfl, rfl⟩ := List.cons.inj hl'
        exact (List.nodup_cons.mp hnodup).1 (List.mem_append_right _ List.mem_cons_self)
    rw [List.erase_cons_tail (by simpa using hne)]
    rfl

theorem lookup_put (g : ComputationGraph V) (nodeId : String) (output : Output V) :
    (g.put nodeId output).outputs.lookup nodeId = some output :=
  AList.lookup_insert _

theorem put_head (g : ComputationGraph V) (nodeId : String) (output : Output V) :
    (g.put nodeId output).outputs.keys.head? = some nodeId := by
  simp [put, AList.keys_insert]

theorem length_entries (g : ComputationGraph V) :
    g.outputs.entries.length = g.outputs.keys.length := by
  simp [AList.keys, List.keys]

theorem evict_head (n : Nat) (hpos : 0 < g.maxEntries) (h : g.outputs.keys.head? = some nodeId) :
    (g.evict n).outputs.keys.head? = some nodeId := by
  induction n generalizing g with
  | zero => exact h
  | succ n ih =>
    unfold evict
    split
    next hlt =>
      rw [length_entries] at hlt
      exact ih (by rwa [popOldest_maxEntries]) (popOldest_head h (by omega))
    · exact h

theorem Linked.evict (n : Nat) (h : g.Linked) : (g.evict n).Linked := by
  induction n generalizing g with
  | zero => exact h
  | succ n ih =>
    unfold ComputationGraph.evict
    split
    · exact ih h.popOldest
    · exact h

theorem evict_maxEntries (n : Nat) (g : ComputationGraph V) :
    (g.evict n).maxEntries = g.maxEntries := by
  induction n generalizing g with
  | zero => rfl
  | succ n ih =>
    unfold evict
    split
    · rw [ih, popOldest_maxEntries]
    · rfl

theorem getCachedResultByKey_maxEntries (g : ComputationGraph V)
    (reply : Option (RedisReply V)) :
    (g.getCachedResultByKey now capability key reply).2.maxEntries = g.maxEntries := by
  have hf : (g.findOutput now key).2.maxEntries = g.maxEntries := by
    unfold findOutput
    repeat' split
    all_goals rfl
  unfold getCachedResultByKey
  split
  next hl => rw [← hf, hl]
  next hl => rw [← hf, hl]
  next hl =>
    rw [← hf, hl]
    unfold hydrateFromRedis
    split
    · rfl
    · refine (evict_maxEntries _ _).trans ?_
      split <;> rfl

theorem registerComputation_maxEntries (g : ComputationGraph V) :
    (g.registerComputation now nodeId capability inputHash output next success).maxEntries =
      g.maxEntries := by
  unfold registerComputation
  dsimp only
  split <;> exact evict_maxEntries _ _

theorem evict_length (n : Nat) (hn : g.outputs.keys.length ≤ n) :
    (g.evict n).outputs.keys.length ≤ (g.evict n).maxEntries := by
  induction n generalizing g with
  | zero => exact le_trans hn (Nat.zero_le _)
  | succ n ih =>
    unfold evict
    split
    · refine ih ?_
      rw [popOldest_length]
      omega
    next hlt =>
      rw [length_entries] at hlt
      omega

theorem lookup_storeOutput (hpos : 0 < g.maxEntries) :
    (g.storeOutput nodeId output).outputs.lookup nodeId = some output := by
  have hhead : (g.storeOutput nodeId output).outputs.keys.head? = some nodeId :=
    evict_head _ hpos (put_head ..)
  obtain ⟨out, ho⟩ := exists_of_mem (AList.mem_keys.mpr (List.mem_of_head? hhead))
  have hi := (evict_sub _ _).outputs ho
  rw [lookup_put] at hi
  cases hi
  exact ho

theorem storeOutput_represented (h : (g.put nodeId output).Linked) :
    (g.storeOutput nodeId output).Represented :=
  (h.evict _).represented (evict_length _ (length_entries _).ge)

theorem Mapped.notMem (h : g.Mapped) (hs : g.Sound drawnFor P) (hd : drawnFor nodeId = key)
    (hk : g.hashToNode.lookup key = none) : nodeId ∉ g.outputs := by
  intro hm
  obtain ⟨out, ho⟩ := exists_of_mem hm
  have := (h _ _).mpr ⟨out, ho, ((hs.stored ho).1.symm.trans hd)⟩
  rw [hk] at this
  cases this

theorem Mapped.insert (h : g.Mapped) (hnew : nodeId ∉ g.outputs)
    (hk : g.hashToNode.lookup output.lookupKey = none) :
    ((g.addNode nodeId output.lookupKey).put nodeId output).Mapped := by
  intro key i
  simp only [addNode, put, lookup_insert_iff, h key i]
  constructor
  · rintro (⟨rfl, rfl⟩ | ⟨hne, out, ho, rfl⟩)
    · exact ⟨output, .inl ⟨rfl, rfl⟩, rfl⟩
    · exact ⟨out, .inr ⟨fun he => hnew (he ▸ lookup_of_mem ho), ho⟩, rfl⟩
  · rintro ⟨out, ⟨rfl, rfl⟩ | ⟨hne, ho⟩, rfl⟩
    · exact .inl ⟨rfl, rfl⟩
    · refine .inr ⟨fun he => ?_, out, ho, rfl⟩
      have := (h _ _).mpr ⟨out, ho, he⟩
      rw [hk] at this
      cases this

theorem Linked.insert (h : g.Linked) (hs : g.Sound drawnFor P)
    (hd : drawnFor nodeId = output.lookupKey) (hk : g.hashToNode.lookup output.lookupKey = none) :
    ((g.addNode nodeId output.lookupKey).put nodeId output).Linked := by
  have hm : g.Mapped := fun _ _ => h.mapped
  have hnew := hm.notMem hs hd hk
  refine ⟨List.nodup_cons.mpr ⟨fun hm => hnew (h.nodes.mp hm), h.nodup⟩, fun {i} => ?_,
    fun {key i} => hm.insert hnew hk key i⟩
  simp only [addNode, put, List.mem_cons, AList.mem_insert, h.nodes]

theorem Linked.storeNew (h : g.Linked) (hs : g.Sound drawnFor P) (hd : drawnFor nodeId = key)
    (hk : g.hashToNode.lookup key = none) (ho : output.lookupKey = key) :
    ((g.addNode nodeId key).storeOutput nodeId output).Represented := by
  subst ho
  exact storeOutput_represented (h.insert hs hd hk)

theorem Linked.storeNew_mapped (h : g.Linked) (hs : g.Sound drawnFor P)
    (hd : drawnFor nodeId = key) (hk : g.hashToNode.lookup key = none)
    (ho : output.lookupKey = key) (hpos : 0 < g.maxEntries) :
    ((g.addNode nodeId key).storeOutput nodeId output).hashToNode.lookup key = some nodeId ∧
      nodeId ∈ ((g.addNode nodeId key).storeOutput nodeId output).outputs := by
  subst ho
  have ho : ((g.addNode nodeId output.lookupKey).storeOutput nodeId output).outputs.lookup nodeId =
      some output := lookup_storeOutput hpos
  exact ⟨(storeOutput_represented (h.insert hs hd hk)).mapped.mpr ⟨output, ho, rfl⟩,
    lookup_of_mem ho⟩

theorem Mapped.overwrite (h : g.Mapped)
    (hk : g.hashToNode.lookup output.lookupKey = some nodeId) : (g.put nodeId output).Mapped := by
  obtain ⟨old, ho, hold⟩ := (h _ _).mp hk
  intro key i
  simp only [put, lookup_insert_iff, h key i]
  constructor
  · rintro ⟨out, hi, rfl⟩
    by_cases he : i = nodeId
    · subst he
      rw [ho] at hi
      cases hi
      exact ⟨output, .inl ⟨rfl, rfl⟩, hold.symm⟩
    · exact ⟨out, .inr ⟨he, hi⟩, rfl⟩
  · rintro ⟨out, ⟨rfl, rfl⟩ | ⟨-, hi⟩, rfl⟩
    · exact ⟨old, ho, hold⟩
    · exact ⟨out, hi, rfl⟩

theorem Linked.overwrite (h : g.Linked) (hk : g.hashToNode.lookup output.lookupKey = some nodeId) :
    (g.put nodeId output).Linked := by
  have hm : g.Mapped := fun _ _ => h.mapped
  obtain ⟨old, ho, -⟩ := (hm _ _).mp hk
  refine ⟨h.nodup, fun {i} => ?_, fun {key i} => hm.overwrite hk key i⟩
  simp only [put, h.nodes, AList.mem_insert]
  constructor
  · exact .inr
  · rintro (rfl | hi)
    · exact lookup_of_mem ho
    · exact hi

def FindsExpired (g : ComputationGraph V) (now : ℚ) (key : String) : Prop :=
  ∃ nodeId stored, g.hashToNode.lookup key = some nodeId ∧
    g.outputs.lookup nodeId = some stored ∧ stored.expiresAt.any (· ≤ now)

theorem findOutput_live (h : g.Linked) (he : ¬ g.FindsExpired now key)
    (hn : g.hashToNode.lookup key = some nodeId) :
    ∃ stored, stored.lookupKey = key ∧ g.outputs.lookup nodeId = some stored ∧
      g.findOutput now key =
        (some ⟨nodeId, stored.state, stored.next⟩, g.put nodeId stored) := by
  obtain ⟨stored, ho, hk⟩ := h.mapped.mp hn
  refine ⟨stored, hk, ho, ?_⟩
  have hlive : ¬ stored.expiresAt.any (· ≤ now) := fun hx => he ⟨nodeId, stored, hn, ho, hx⟩
  simp only [findOutput, hn, ho, if_neg hlive]

theorem findOutput_unmapped (hn : g.hashToNode.lookup key = none) :
    g.findOutput now key = (none, g) := by
  simp only [findOutput, hn]

theorem Represented.touch (h : g.Represented)
    (hk : g.hashToNode.lookup output.lookupKey = some nodeId) :
    (g.put nodeId output).Represented := by
  obtain ⟨old, ho, -⟩ := h.mapped.mp hk
  refine (h.toLinked.overwrite hk).represented ?_
  have hm : nodeId ∈ g.outputs.keys := AList.mem_keys.mp (lookup_of_mem ho)
  have hpos := List.length_pos_of_mem hm
  have hle := h.outputs_le
  simp only [put, AList.keys_insert, List.length_cons, List.length_erase_of_mem hm]
  omega

theorem hydrateFromRedis_nodeId
    (hf : g.hydrateFromRedis now capability key reply = (some cached, g'))
    (hid : reply.nodeId = some nodeId) : cached.nodeId = nodeId := by
  unfold hydrateFromRedis at hf
  split at hf
  · cases hf
  · simp only [hid, Option.getD_some] at hf
    cases hf
    rfl

theorem Represented.hydrate (h : g.Represented) (hs : g.Sound drawnFor P)
    (hn : g.hashToNode.lookup key = none) (hid : reply.nodeId = some nodeId)
    (hd : drawnFor nodeId = key) (hf : g.hydrateFromRedis now capability key reply = (r, g')) :
    g'.Represented ∧ (0 < g.maxEntries → r.isSome →
      g'.hashToNode.lookup key = some nodeId ∧ nodeId ∈ g'.outputs) := by
  have hnew : nodeId ∉ g.nodes := by
    intro hm
    obtain ⟨out, ho⟩ := exists_of_mem (h.nodes.mp hm)
    have := h.mapped.mpr ⟨out, ho, (hs.stored ho).1.symm.trans hd⟩
    rw [hn] at this
    cases this
  unfold hydrateFromRedis at hf
  split at hf
  · cases hf
    exact ⟨h, fun _ => nofun⟩
  · simp only [hid, Option.getD_some, if_neg hnew] at hf
    cases hf
    refine ⟨h.toLinked.storeNew hs hd hn ?_,
      fun hpos _ => h.toLinked.storeNew_mapped hs hd hn ?_ hpos⟩
    · rfl
    · rfl

theorem Represented.registerComputation (h : g.Represented) (hs : g.Sound drawnFor P)
    (hd : drawnFor nodeId = capability ++ ":" ++ inputHash) :
    (g.registerComputation now nodeId capability inputHash output next success).Represented := by
  unfold ComputationGraph.registerComputation
  dsimp only
  split
  next hk => exact storeOutput_represented (h.toLinked.overwrite hk)
  next hk => exact h.toLinked.storeNew hs hd hk rfl

def Stale (g : ComputationGraph V) (nodeId : String) : Prop :=
  nodeId ∈ g.nodes ∧ nodeId ∉ g.outputs

theorem Stale.evict (n : Nat) (h : g.Stale nodeId) : (g.evict n).Stale nodeId := by
  induction n generalizing g with
  | zero => exact h
  | succ n ih =>
    unfold ComputationGraph.evict
    split
    · refine ih ?_
      cases hl : g.outputs.entries.getLast? with
      | none =>
        rw [ComputationGraph.popOldest, hl]
        exact h
      | some e =>
        obtain ⟨oldId, old⟩ := e
        have hne : nodeId ≠ oldId := fun he => h.2 (he ▸ lookup_of_mem (lookup_oldest hl))
        rw [popOldest_eq hl]
        exact ⟨(List.mem_erase_of_ne hne).mpr h.1, fun hm => h.2 (AList.mem_erase.mp hm).2⟩
    · exact h

theorem Stale.hydrate (h : g.Stale nodeId) (hpos : 0 < g.maxEntries)
    (hn : g.hashToNode.lookup key = none)
    (hf : g.hydrateFromRedis now capability key reply = (r, g')) : ¬ g'.Linked := by
  intro hl
  have hstale {g'' : ComputationGraph V} (hs : g''.Stale nodeId) : ¬ g''.Linked :=
    fun hl => hs.2 (hl.nodes.mp hs.1)
  unfold hydrateFromRedis at hf
  split at hf
  · cases hf
    exact hstale h hl
  · dsimp only at hf
    generalize hid : reply.nodeId.getD _ = hydrated at hf
    cases hf
    by_cases he : hydrated = nodeId
    · -- the id is known, so the key is not mapped to the entry that is stored for it
      subst he
      rw [if_pos h.1] at hl
      have hk := (evict_sub _ _).hashToNode (hl.mapped.mpr ⟨_, lookup_storeOutput hpos, rfl⟩)
      exact nomatch hn.symm.trans hk
    · refine hstale (Stale.evict _ ⟨?_, ?_⟩) hl
      · split
        · exact h.1
        · exact List.mem_cons_of_mem _ h.1
      · rw [put, AList.mem_insert]
        rintro (hk | hk)
        · exact he hk.symm
        · split at hk <;> exact h.2 hk

theorem Represented.getCachedResultByKey (h : g.Represented) (hs : g.Sound drawnFor P)
    (hpos : 0 < g.maxEntries)
    (hr : ∀ rep ∈ reply, ∃ nodeId, rep.nodeId = some nodeId ∧ drawnFor nodeId = key)
    (he : ¬ g.FindsExpired now key)
    (hf : g.getCachedResultByKey now capability key reply = (r, g')) :
    g'.Represented ∧ ∀ cached ∈ r, g'.hashToNode.lookup key = some cached.nodeId ∧
      cached.nodeId ∈ g'.outputs := by
  unfold ComputationGraph.getCachedResultByKey at hf
  cases hn : g.hashToNode.lookup key with
  | some nodeId =>
    obtain ⟨stored, rfl, ho, hl⟩ := findOutput_live h.toLinked he hn
    simp only [hl] at hf
    cases hf
    refine ⟨h.touch hn, ?_⟩
    rintro _ ⟨⟩
    exact ⟨hn, lookup_of_mem (lookup_put ..)⟩
  | none =>
    rw [findOutput_unmapped hn] at hf
    cases reply with
    | none =>
      cases hf
      exact ⟨h, nofun⟩
    | some rep =>
      obtain ⟨nodeId, hid, hd⟩ := hr rep rfl
      obtain ⟨hrep, hm⟩ := h.hydrate hs hn hid hd hf
      refine ⟨hrep, fun cached hc => ?_⟩
      have hc : r = some cached := hc
      rw [hydrateFromRedis_nodeId (hc ▸ hf) hid]
      exact hm hpos (hc ▸ rfl)

theorem Represented.expired (h : g.Represented) (hpos : 0 < g.maxEntries)
    (he : g.FindsExpired now key)
    (hf : g.getCachedResultByKey now capability key reply = (r, g')) : ¬ g'.Represented := by
  obtain ⟨nodeId, stored, hn, ho, hx⟩ := he
  intro hg
  have hfind : g.findOutput now key = (none, { g with
      hashToNode := g.hashToNode.erase key, outputs := g.outputs.erase nodeId }) := by
    simp only [findOutput, hn, ho, if_pos hx]
  have hstale : ({ g with hashToNode := g.hashToNode.erase key
                          outputs := g.outputs.erase nodeId } : ComputationGraph V).Stale nodeId :=
    ⟨h.known hn, fun hm => (AList.mem_erase.mp hm).1 rfl⟩
  unfold ComputationGraph.getCachedResultByKey at hf
  rw [hfind] at hf
  cases reply with
  | none =>
    cases hf
    exact hstale.2 (hg.nodes.mp hstale.1)
  | some rep => exact hstale.hydrate hpos (AList.lookup_erase ..) hf hg.toLinked

end ComputationGraph

inductive CacheOp (V : Type)
  | register (now : ℚ) (nodeId capability inputHash : String) (output : StateDict V)
      (next : Option String) (success : Bool)
  | lookup (now : ℚ) (capability key : String) (reply : Option (RedisReply V))
  | findShared (key : String)

namespace CacheOp

variable {V : Type} {drawnFor : String → String}

def result (g : ComputationGraph V) : CacheOp V → Option (CachedComputation V)
  | .lookup now capability key reply => (g.getCachedResultByKey now capability key reply).1
  | _ => none

def apply (g : ComputationGraph V) : CacheOp V → ComputationGraph V
  | .register now nodeId capability inputHash output next success =>
    g.registerComputation now nodeId capability inputHash output next success
  | .lookup now capability key reply => (g.getCachedResultByKey now capability key reply).2
  | .findShared _ => g

/-- Node ids are unique: each is drawn for one key, here and by the workers that wrote to Redis. -/
def Allowed (drawnFor : String → String) : CacheOp V → Prop
  | .register _ nodeId capability inputHash .. => drawnFor nodeId = capability ++ ":" ++ inputHash
  | .lookup _ _ key reply =>
    ∀ rep ∈ reply, ∃ nodeId, rep.nodeId = some nodeId ∧ drawnFor nodeId = key
  | .findShared _ => True

def Expires (g : ComputationGraph V) : CacheOp V → Prop
  | .lookup now _ key _ => g.FindsExpired now key
  | _ => False

def Reaches (g : ComputationGraph V) (op : CacheOp V) : Prop :=
  match op with
  | .lookup _ _ key _ => ∀ cached ∈ op.result g,
      (op.apply g).hashToNode.lookup key = some cached.nodeId ∧ cached.nodeId ∈ (op.apply g).outputs
  | _ => True

/-- `P` holds of every state from `g` on. -/
def Always (P : ComputationGraph V → Prop) (g : ComputationGraph V) : List (CacheOp V) → Prop
  | [] => P g
  | op :: ops => P g ∧ Always P (op.apply g) ops

/-- `P` holds of every operation, in the state it meets. -/
def Steps (P : ComputationGraph V → CacheOp V → Prop) (g : ComputationGraph V) :
    List (CacheOp V) → Prop
  | [] => True
  | op :: ops => P g op ∧ Steps P (op.apply g) ops

variable {g : ComputationGraph V} {op : CacheOp V}

theorem apply_maxEntries (g : ComputationGraph V) (op : CacheOp V) :
    (op.apply g).maxEntries = g.maxEntries := by
  cases op with
  | register => exact g.registerComputation_maxEntries
  | lookup _ _ _ reply => exact g.getCachedResultByKey_maxEntries reply
  | findShared => rfl

theorem apply_sound (ha : op.Allowed drawnFor) (hs : g.Sound drawnFor fun _ => True) :
    (op.apply g).Sound drawnFor fun _ => True := by
  cases op with
  | register => exact hs.registerComputation ha trivial
  | lookup => exact (hs.getCachedResultByKey (fun rep hr => ⟨ha rep hr, trivial⟩) rfl).1
  | findShared => exact hs

theorem apply_represented_iff (ha : op.Allowed drawnFor) (hpos : 0 < g.maxEntries)
    (hs : g.Sound drawnFor fun _ => True) (hg : g.Represented) :
    (op.apply g).Represented ↔ ¬ op.Expires g := by
  cases op with
  | register => exact ⟨fun _ => id, fun _ => hg.registerComputation hs ha⟩
  | lookup => exact ⟨fun hr he => hg.expired hpos he rfl hr,
      fun he => (hg.getCachedResultByKey hs hpos ha he rfl).1⟩
  | findShared => exact ⟨fun _ => id, fun _ => hg⟩

theorem reaches (ha : op.Allowed drawnFor) (hpos : 0 < g.maxEntries)
    (hs : g.Sound drawnFor fun _ => True) (hg : g.Represented) (he : ¬ op.Expires g) :
    op.Reaches g := by
  cases op with
  | register | findShared => trivial
  | lookup => exact (hg.getCachedResultByKey hs hpos ha he rfl).2

theorem Always.head {P : ComputationGraph V → Prop} {ops : List (CacheOp V)}
    (h : Always P g ops) : P g := by
  cases ops with
  | nil => exact h
  | cons => exact h.1

theorem represented_iff_from {ops : List (CacheOp V)} (ha : ∀ op ∈ ops, op.Allowed drawnFor)
    (hpos : 0 < g.maxEntries) (hs : g.Sound drawnFor fun _ => True) (hg : g.Represented) :
    Always ComputationGraph.Represented g ops ∧ Steps (fun g op => op.Reaches g) g ops ↔
      Steps (fun g op => ¬ op.Expires g) g ops := by
  induction ops generalizing g with
  | nil => exact ⟨fun _ => trivial, fun _ => ⟨hg, trivial⟩⟩
  | cons op ops ih =>
    have hop := ha op List.mem_cons_self
    have hiff := apply_represented_iff hop hpos hs hg
    have hrest := fun hr => ih (g := op.apply g) (fun o ho => ha o (List.mem_cons_of_mem _ ho))
      (by rwa [apply_maxEntries]) (apply_sound hop hs) hr
    constructor
    · rintro ⟨⟨-, hr⟩, -, hreach⟩
      exact ⟨hiff.mp hr.head, (hrest hr.head).mp ⟨hr, hreach⟩⟩
    · rintro ⟨he, hes⟩
      have hr := hiff.mpr he
      obtain ⟨hall, hreach⟩ := (hrest hr).mpr hes
      exact ⟨⟨hg, hall⟩, reaches hop hpos hs hg he, hreach⟩

/-- From the empty cache, the three tables hold one row for each entry, within the bound, in every
state, and what a lookup obtains is in them, exactly if no lookup finds an expired entry. -/
theorem represented_iff {d : String → String} (hpos : 0 < maxEntries) {ops : List (CacheOp V)}
    (ha : ∀ op ∈ ops, op.Allowed d) :
    Always ComputationGraph.Represented (.empty maxEntries t n c) ops ∧
        Steps (fun g op => op.Reaches g) (.empty maxEntries t n c) ops ↔
      Steps (fun g op => ¬ op.Expires g) (.empty maxEntries t n c) ops :=
  represented_iff_from ha hpos (ComputationGraph.empty_sound ..)
    (ComputationGraph.empty_represented ..)

def registered : ComputationGraph Unit :=
  CacheOp.apply (.empty 1 30 3 fun _ => none) (.register 0 "n" "c" "h" StateDict.empty none true)

theorem registered_live : ¬ registered.FindsExpired 1 "c:h" := by
  rintro ⟨nodeId, stored, hn, ho, hx⟩
  have hnode : registered.hashToNode.lookup "c:h" = some "n" := by decide +kernel
  obtain rfl := Option.some.inj (hnode.symm.trans hn)
  have hexpires : (registered.outputs.lookup "n").bind (·.expiresAt) = some 30 := by decide +kernel
  rw [ho, Option.bind_some] at hexpires
  rw [hexpires, Option.any_some] at hx
  exact absurd hx (by decide +kernel)

/-- Two registrations of one key and a lookup between them. -/
theorem represented_iff_live :
    let ops : List (CacheOp Unit) := [.register 0 "n" "c" "h" StateDict.empty none true,
      .lookup 1 "c" "c:h" none, .register 2 "m" "c" "h" StateDict.empty none true]
    Always ComputationGraph.Represented (.empty 1 30 3 fun _ => none) ops ∧
        Steps (fun g op => op.Reaches g) (.empty 1 30 3 fun _ => none) ops := by
  intro ops
  have hallowed : ∀ op ∈ ops, op.Allowed fun _ => "c:h" :=
    List.forall_mem_cons.mpr ⟨rfl, List.forall_mem_cons.mpr ⟨(fun _ h => nomatch h),
      List.forall_mem_cons.mpr ⟨rfl, List.forall_mem_nil _⟩⟩⟩
  exact (represented_iff (by decide) hallowed).mpr ⟨id, registered_live, id, trivial⟩

/-- A lookup drops an expired entry and leaves its node. -/
theorem expired_not_represented :
    let ops : List (CacheOp Unit) := [.register 0 "n" "c" "h" StateDict.empty none true,
      .lookup 100 "c" "c:h" none]
    (∀ op ∈ ops, op.Allowed fun _ => "c:h") ∧
      ¬ Always ComputationGraph.Represented (.empty 1 30 3 fun _ => none) ops := by
  refine ⟨?_, ?_⟩
  · exact List.forall_mem_cons.mpr ⟨rfl, List.forall_mem_cons.mpr
      ⟨(fun _ h => nomatch h), List.forall_mem_nil _⟩⟩
  · rintro ⟨-, -, h⟩
    have hn := h.nodes.mp (show "n" ∈ _ by decide +kernel)
    revert hn
    rw [AList.mem_keys]
    decide +kernel

end CacheOp

end PrismPipe.Engine
