import Mathlib.Algebra.Order.Ring.Rat
import PrismPipe.Engine.StateDict
import PrismPipe.Lib.Table

/-! `ComputationGraph`: the keys results are shared under, and the local LRU cache over what Redis,
where there is a client, answers.  `AList` inserts at the head: most recently used first. -/

namespace PrismPipe.Engine

structure Fingerprint (I V : Type) where
  input : I
  state : StateDict V

/-- `compute_input_hash`. -/
abbrev Hash (I V : Type) := String → Fingerprint I V → String

/-- `s.split(":", 1)[-1]`. -/
def afterColon (s : String) : String :=
  if ':' ∈ s.toList then String.ofList ((s.toList.dropWhile (· ≠ ':')).drop 1) else s

def lookupKey (hash : Hash I V) (capability : String) (fingerprint : Fingerprint I V) : String :=
  capability ++ ":" ++ hash capability fingerprint

structure Hash.Collisionless (hash : Hash I V) (occurs : String → Fingerprint I V → Prop) :
    Prop where
  inj : occurs c x → occurs c' x' → hash c x = hash c' x' → c = c' ∧ x = x'
  colon : ∀ c x, ':' ∉ (hash c x).toList

section Keys

variable {hash : Hash I V}

theorem append_colon_inj {a b h h' : List Char} (hh : ':' ∉ h) (hh' : ':' ∉ h')
    (e : a ++ ':' :: h = b ++ ':' :: h') : a = b ∧ h = h' := by
  induction a generalizing b with
  | nil =>
    cases b with
    | nil => exact ⟨rfl, by simpa using e⟩
    | cons c b =>
      have e : h = b ++ ':' :: h' := (List.cons.inj e).2
      exact absurd (e ▸ List.mem_append_right b List.mem_cons_self) hh
  | cons c a ih =>
    cases b with
    | nil =>
      have e : a ++ ':' :: h = h' := (List.cons.inj e).2
      exact absurd (e ▸ List.mem_append_right a List.mem_cons_self) hh'
    | cons d b =>
      have e : c = d ∧ a ++ ':' :: h = b ++ ':' :: h' := List.cons.inj e
      obtain ⟨rfl, rfl⟩ := ih e.2
      exact ⟨congrArg (· :: a) e.1, rfl⟩

theorem toList_lookupKey (hash : Hash I V) (c : String) (x : Fingerprint I V) :
    (lookupKey hash c x).toList = c.toList ++ ':' :: (hash c x).toList := by
  simp [lookupKey]

theorem afterColon_lookupKey (hash : Hash I V) (c : String) (x : Fingerprint I V) :
    (afterColon (lookupKey hash c x)).toList = (hash c x).toList ∨
      ∃ a, (afterColon (lookupKey hash c x)).toList = a ++ ':' :: (hash c x).toList := by
  have hmem : ':' ∈ (lookupKey hash c x).toList := by simp [toList_lookupKey]
  rw [afterColon, if_pos hmem, String.toList_ofList, toList_lookupKey]
  induction c.toList with
  | nil => exact .inl (by simp)
  | cons d l ih =>
    by_cases hd : d = ':'
    · exact .inr ⟨l, by simp [hd]⟩
    · simpa [hd] using ih

theorem registered_inj (hh : hash.Collisionless occurs) (hx : occurs c x) (hx' : occurs c' x')
    (e : lookupKey hash c x = c' ++ ":" ++ afterColon (lookupKey hash c' x')) :
    c = c' ∧ x = x' := by
  have e := congrArg String.toList e
  rw [toList_lookupKey, String.toList_append, String.toList_append] at e
  have hend : (hash c x).toList = (hash c' x').toList := by
    rcases afterColon_lookupKey hash c' x' with ha | ⟨a, ha⟩
    · rw [ha] at e
      exact (append_colon_inj (b := c'.toList) (hh.colon c x) (hh.colon c' x')
        (by simpa using e)).2
    · rw [ha] at e
      exact (append_colon_inj (b := c'.toList ++ ':' :: a) (hh.colon c x) (hh.colon c' x')
        (by simpa using e)).2
  exact hh.inj hx hx' (String.toList_inj.mp hend)

theorem afterColon_lookupKey_of_notMem (hc : ':' ∉ c.toList) (hash : Hash I V)
    (x : Fingerprint I V) : afterColon (lookupKey hash c x) = hash c x := by
  have hmem : ':' ∈ (lookupKey hash c x).toList := by simp [toList_lookupKey]
  have hdrop : ((lookupKey hash c x).toList.dropWhile (· ≠ ':')).drop 1 = (hash c x).toList := by
    rw [toList_lookupKey, List.dropWhile_append_of_pos]
    · simp
    · intro d hd
      have : d ≠ ':' := fun e => hc (e ▸ hd)
      simpa using this
  rw [afterColon, if_pos hmem, hdrop, String.ofList_toList]

end Keys

/-- An entry of `_outputs`. -/
structure Output (V : Type) where
  state : StateDict V
  next : Option String
  success : Bool
  expiresAt : Option ℚ
  lookupKey : String

structure CachedComputation (V : Type) where
  nodeId : String
  state : StateDict V
  next : Option String

/-- What `GET` and `TTL` answer: the payload, with no `nodeId` for an empty one, and the remaining
seconds where they can be read. -/
structure RedisReply (V : Type) where
  nodeId : Option String
  state : StateDict V
  next : Option String
  success : Bool
  ttl : Option Int

/-- A hydrated copy keeps the remaining time; `fallback` is for one that cannot be read. -/
def RedisReply.expiresAt (reply : RedisReply V) (now : ℚ) (fallback : Int) : Option ℚ :=
  match reply.ttl with
  | some (-1) => none
  | some ttl => some (now + max 0 ttl)
  | none => some (now + fallback)

def RedisReply.output (reply : RedisReply V) (now : ℚ) (fallback : Int) (key : String) :
    Output V :=
  ⟨reply.state, reply.next, reply.success, reply.expiresAt now fallback, key⟩

/-- `nodes` holds the keys of `_nodes`; an id with an entry there has an equal `id`. -/
structure ComputationGraph (V : Type) where
  nodes : List String
  hashToNode : AList fun _ : String => String
  outputs : AList fun _ : String => Output V
  maxEntries : Nat
  ttlSeconds : Int
  negativeTtlSeconds : Int
  ttlByCapability : String → Option Int

def CachedComputation.Restores (cached : CachedComputation V)
    (output : Output V) : Prop :=
  cached.state = output.state ∧ cached.next = output.next

/-- What Redis may answer for a key, as `Sound` says of the entry it becomes. -/
structure RedisReply.Sound (drawnFor : String → String)
    (P : Output V → Prop) (now : ℚ) (fallback : Int) (key : String) (reply : RedisReply V) :
    Prop where
  nodeId : ∃ nodeId, reply.nodeId = some nodeId ∧ drawnFor nodeId = key
  holds : P (reply.output now fallback key)

namespace ComputationGraph

variable {V : Type}

def empty (maxEntries : Nat) (ttlSeconds negativeTtlSeconds : Int)
    (ttlByCapability : String → Option Int) : ComputationGraph V :=
  ⟨[], ∅, ∅, maxEntries, ttlSeconds, negativeTtlSeconds, ttlByCapability⟩

def ttlFor (g : ComputationGraph V) (capability : String) (success : Bool) : Int :=
  if success then
    (g.ttlByCapability capability).getD (if g.ttlSeconds = 0 then 30 else g.ttlSeconds)
  else max 1 g.negativeTtlSeconds

/-- `_outputs.popitem(last=False)` and the rows that go with it. -/
def popOldest (g : ComputationGraph V) : ComputationGraph V :=
  match g.outputs.entries.getLast? with
  | none => g
  | some ⟨oldId, old⟩ =>
    { g with
      outputs := g.outputs.erase oldId
      hashToNode :=
        if g.hashToNode.lookup old.lookupKey = some oldId then g.hashToNode.erase old.lookupKey
        else g.hashToNode
      nodes := g.nodes.erase oldId }

/-- `while len(self._outputs) > self._max_entries`, for as many turns as there are entries. -/
def evict : Nat → ComputationGraph V → ComputationGraph V
  | 0, g => g
  | n + 1, g => if g.maxEntries < g.outputs.entries.length then evict n g.popOldest else g

/-- `self._outputs[node_id] = output`, most recent. -/
def put (g : ComputationGraph V) (nodeId : String) (output : Output V) : ComputationGraph V :=
  { g with outputs := g.outputs.insert nodeId output }

def storeOutput (g : ComputationGraph V) (nodeId : String) (output : Output V) :
    ComputationGraph V :=
  (g.put nodeId output).evict (g.put nodeId output).outputs.entries.length

/-- `self._nodes[node_id] = node` and `self._hash_to_node[lookup_key] = node_id`. -/
def addNode (g : ComputationGraph V) (nodeId key : String) : ComputationGraph V :=
  { g with nodes := nodeId :: g.nodes, hashToNode := g.hashToNode.insert key nodeId }

def hydrateFromRedis (g : ComputationGraph V) (now : ℚ) (capability key : String)
    (reply : RedisReply V) : Option (CachedComputation V) × ComputationGraph V :=
  if reply.ttl = some (-2) then (none, g)
  else
    let output := reply.output now (g.ttlFor capability true) key
    let nodeId := reply.nodeId.getD
      ("comp_redis_" ++ String.ofList (key.toList.drop (key.length - 8)))
    let g := if nodeId ∈ g.nodes then g else g.addNode nodeId key
    (some ⟨nodeId, reply.state, reply.next⟩, g.storeOutput nodeId output)

def findOutput (g : ComputationGraph V) (now : ℚ) (key : String) :
    Option (CachedComputation V) × ComputationGraph V :=
  match g.hashToNode.lookup key with
  | none => (none, g)
  | some nodeId =>
    match g.outputs.lookup nodeId with
    | none => (none, g)
    | some stored =>
      if stored.expiresAt.any (· ≤ now) then
        (none, { g with hashToNode := g.hashToNode.erase key, outputs := g.outputs.erase nodeId })
      else
        (some ⟨nodeId, stored.state, stored.next⟩, g.put nodeId stored)

/-- `reply` is what Redis answers where it is asked and has an answer. -/
def getCachedResultByKey (g : ComputationGraph V) (now : ℚ) (capability key : String)
    (reply : Option (RedisReply V)) : Option (CachedComputation V) × ComputationGraph V :=
  match g.findOutput now key, reply with
  | (some cached, g), _ => (some cached, g)
  | (none, g), none => (none, g)
  | (none, g), some reply => g.hydrateFromRedis now capability key reply

/-- `nodeId` is the fresh `comp_{uuid4}`; a key that is mapped keeps the id it has. -/
def registerComputation (g : ComputationGraph V) (now : ℚ) (nodeId capability inputHash : String)
    (output : StateDict V) (next : Option String) (success : Bool) : ComputationGraph V :=
  let key := capability ++ ":" ++ inputHash
  let stored : Output V :=
    ⟨output, next, success, some (now + g.ttlFor capability success), key⟩
  match g.hashToNode.lookup key with
  | some existingId => g.storeOutput existingId stored
  | none => (g.addNode nodeId key).storeOutput nodeId stored

/-- `g` has no row that `h` has not. -/
structure Sub (g h : ComputationGraph V) : Prop where
  hashToNode : g.hashToNode.lookup key = some nodeId → h.hashToNode.lookup key = some nodeId
  outputs : g.outputs.lookup nodeId = some output → h.outputs.lookup nodeId = some output

theorem Sub.refl (g : ComputationGraph V) : g.Sub g := ⟨id, id⟩

theorem Sub.trans {g h k : ComputationGraph V} (hg : g.Sub h) (hh : h.Sub k) : g.Sub k :=
  ⟨hh.hashToNode ∘ hg.hashToNode, hh.outputs ∘ hg.outputs⟩

theorem popOldest_sub (g : ComputationGraph V) : g.popOldest.Sub g := by
  unfold popOldest
  split
  · exact .refl g
  · refine ⟨fun h => ?_, fun h => (lookup_of_erase h).2⟩
    split at h
    · exact (lookup_of_erase h).2
    · exact h

theorem evict_sub (n : Nat) (g : ComputationGraph V) : (g.evict n).Sub g := by
  induction n generalizing g with
  | zero => exact .refl g
  | succ n ih =>
    unfold evict
    split
    · exact (ih _).trans g.popOldest_sub
    · exact .refl g

/-- Entries share the values of their states with organisms, whose nodes may change them in place:
those under one key as `R` says. -/
structure Changes (R : String → V → V → Prop) (g h : ComputationGraph V) : Prop where
  same : h = { g with outputs := h.outputs }
  keys : h.outputs.keys = g.outputs.keys
  outputs : ∀ nodeId output, h.outputs.lookup nodeId = some output →
    ∃ old, g.outputs.lookup nodeId = some old ∧ output = { old with state := output.state } ∧
      old.state.Related (R old.lookupKey) output.state

/-- An entry that a lookup of `key` finds. -/
def Live (g : ComputationGraph V) (now : ℚ) (key : String) : Prop :=
  ∃ nodeId stored, g.hashToNode.lookup key = some nodeId ∧
    g.outputs.lookup nodeId = some stored ∧ ¬ stored.expiresAt.any (· ≤ now)

theorem Live.hit {g : ComputationGraph V} (h : g.Live now key) (reply : Option (RedisReply V)) :
    ∃ cached g', g.getCachedResultByKey now capability key reply = (some cached, g') := by
  obtain ⟨nodeId, stored, hn, hs, he⟩ := h
  have hf : g.findOutput now key =
      (some ⟨nodeId, stored.state, stored.next⟩, g.put nodeId stored) := by
    simp only [findOutput, hn, hs, if_neg he]
  simp only [getCachedResultByKey, hf]
  exact ⟨_, _, rfl⟩

/-- Node ids are drawn for one key each, and `P` holds of every entry. -/
structure Sound (drawnFor : String → String) (P : Output V → Prop) (g : ComputationGraph V) :
    Prop where
  mapped : g.hashToNode.lookup key = some nodeId → drawnFor nodeId = key
  stored : g.outputs.lookup nodeId = some output →
    drawnFor nodeId = output.lookupKey ∧ P output

section Sound

variable {drawnFor : String → String} {P Q : Output V → Prop} {g h : ComputationGraph V}

theorem empty_sound (m : Nat) (t n : Int) (c : String → Option Int) :
    (empty m t n c).Sound drawnFor P := by
  refine ⟨fun h => ?_, fun h => ?_⟩
  · rw [empty, AList.lookup_empty] at h
    cases h
  · rw [empty, AList.lookup_empty] at h
    cases h

theorem Sound.sub (hh : h.Sound drawnFor P) (hs : g.Sub h) : g.Sound drawnFor P :=
  ⟨fun hk => hh.mapped (hs.hashToNode hk), fun hk => hh.stored (hs.outputs hk)⟩

theorem Sound.mono (hg : g.Sound drawnFor P) (hP : ∀ output, P output → Q output) :
    g.Sound drawnFor Q :=
  ⟨hg.mapped, fun hk => ⟨(hg.stored hk).1, hP _ (hg.stored hk).2⟩⟩

theorem Sound.changes {R : String → V → V → Prop} (hg : g.Sound drawnFor P) (hc : g.Changes R h)
    (hP : ∀ old state, P old → old.state.Related (R old.lookupKey) state →
      P { old with state }) :
    h.Sound drawnFor P := by
  refine ⟨fun hk => ?_, fun {nodeId output} ho => ?_⟩
  · rw [hc.same] at hk
    exact hg.mapped hk
  · obtain ⟨old, hold, hsame, hstate⟩ := hc.outputs nodeId output ho
    obtain ⟨hdrawn, hholds⟩ := hg.stored hold
    rw [hsame]
    exact ⟨hdrawn, hP old output.state hholds hstate⟩

theorem Sound.put (hg : g.Sound drawnFor P) (hd : drawnFor nodeId = output.lookupKey)
    (hP : P output) : (g.put nodeId output).Sound drawnFor P := by
  refine ⟨hg.mapped, fun hk => ?_⟩
  rcases lookup_of_insert hk with ⟨rfl, rfl⟩ | ⟨-, hk⟩
  · exact ⟨hd, hP⟩
  · exact hg.stored hk

theorem Sound.storeOutput (hg : g.Sound drawnFor P) (hd : drawnFor nodeId = output.lookupKey)
    (hP : P output) : (g.storeOutput nodeId output).Sound drawnFor P :=
  (hg.put hd hP).sub (evict_sub _ _)

theorem Sound.addNode (hg : g.Sound drawnFor P) (hd : drawnFor nodeId = key) :
    (g.addNode nodeId key).Sound drawnFor P := by
  refine ⟨fun hk => ?_, hg.stored⟩
  rcases lookup_of_insert hk with ⟨rfl, rfl⟩ | ⟨-, hk⟩
  · exact hd
  · exact hg.mapped hk

theorem Sound.findOutput (hg : g.Sound drawnFor P) (hf : g.findOutput now key = (r, h)) :
    h.Sound drawnFor P ∧ ∀ cached, r = some cached → ∃ output, P output ∧
      output.lookupKey = key ∧ cached.Restores output ∧ ¬ output.expiresAt.any (· ≤ now) := by
  unfold ComputationGraph.findOutput at hf
  split at hf
  · cases hf
    exact ⟨hg, nofun⟩
  next nodeId hn =>
    split at hf
    · cases hf
      exact ⟨hg, nofun⟩
    next stored hs =>
      split at hf
      · cases hf
        exact ⟨hg.sub ⟨fun h => (lookup_of_erase h).2, fun h => (lookup_of_erase h).2⟩, nofun⟩
      next he =>
        cases hf
        obtain ⟨hd, hP⟩ := hg.stored hs
        refine ⟨hg.put hd hP, ?_⟩
        rintro _ ⟨⟩
        exact ⟨stored, hP, hd.symm.trans (hg.mapped hn), ⟨rfl, rfl⟩, he⟩

theorem Sound.hydrateFromRedis (hg : g.Sound drawnFor P)
    (hr : reply.Sound drawnFor P now (g.ttlFor capability true) key)
    (hf : g.hydrateFromRedis now capability key reply = (r, h)) :
    h.Sound drawnFor P ∧ ∀ cached, r = some cached →
      cached.Restores (reply.output now (g.ttlFor capability true) key) := by
  obtain ⟨⟨nodeId, hn, hd⟩, hP⟩ := hr
  unfold ComputationGraph.hydrateFromRedis at hf
  split at hf
  · cases hf
    exact ⟨hg, nofun⟩
  · simp only [hn, Option.getD_some] at hf
    cases hf
    refine ⟨Sound.storeOutput ?_ hd hP, ?_⟩
    · split
      · exact hg
      · exact hg.addNode hd
    · rintro _ ⟨⟩
      exact ⟨rfl, rfl⟩

theorem findOutput_ttlFor (g : ComputationGraph V) (now : ℚ) (key capability : String)
    (success : Bool) :
    (g.findOutput now key).2.ttlFor capability success = g.ttlFor capability success := by
  unfold ComputationGraph.findOutput
  repeat' split
  all_goals rfl

theorem Sound.getCachedResultByKey (hg : g.Sound drawnFor P)
    (hr : ∀ rep ∈ reply, rep.Sound drawnFor P now (g.ttlFor capability true) key)
    (hf : g.getCachedResultByKey now capability key reply = (r, h)) :
    h.Sound drawnFor P ∧ ∀ cached, r = some cached → ∃ output, P output ∧
      output.lookupKey = key ∧ cached.Restores output ∧ (¬ output.expiresAt.any (· ≤ now) ∨
        ∃ rep ∈ reply, output = rep.output now (g.ttlFor capability true) key) := by
  have hlocal {r} {h : ComputationGraph V} (hf : g.findOutput now key = (r, h)) :
      h.Sound drawnFor P ∧ ∀ cached, r = some cached → ∃ output, P output ∧
        output.lookupKey = key ∧ cached.Restores output ∧ (¬ output.expiresAt.any (· ≤ now) ∨
          ∃ rep ∈ reply, output = rep.output now (g.ttlFor capability true) key) := by
    obtain ⟨hh, hc⟩ := hg.findOutput hf
    refine ⟨hh, fun cached hr => ?_⟩
    obtain ⟨output, hP, hk, hrest, he⟩ := hc cached hr
    exact ⟨output, hP, hk, hrest, .inl he⟩
  unfold ComputationGraph.getCachedResultByKey at hf
  split at hf
  next hl =>
    cases hf
    exact hlocal hl
  next hl =>
    cases hf
    exact hlocal hl
  next g' rep hl =>
    have ht : g'.ttlFor capability true = g.ttlFor capability true := by
      rw [← findOutput_ttlFor g now key, hl]
    obtain ⟨hh, hc⟩ := (hlocal hl).1.hydrateFromRedis (ht ▸ hr rep rfl) hf
    refine ⟨hh, fun cached hcached => ?_⟩
    exact ⟨_, (hr rep rfl).holds, rfl, ht ▸ hc cached hcached, .inr ⟨rep, rfl, rfl⟩⟩

theorem Sound.registerComputation (hg : g.Sound drawnFor P)
    (hd : drawnFor nodeId = capability ++ ":" ++ inputHash)
    (hP : P ⟨output, next, success, some (now + g.ttlFor capability success),
      capability ++ ":" ++ inputHash⟩) :
    (g.registerComputation now nodeId capability inputHash output next success).Sound
      drawnFor P := by
  unfold ComputationGraph.registerComputation
  dsimp only
  split
  next hk => exact hg.storeOutput (hg.mapped hk) hP
  · exact (hg.addNode hd).storeOutput hd hP

end Sound

end ComputationGraph

end PrismPipe.Engine
