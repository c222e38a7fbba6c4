import PrismPipe.Engine.Representation
import PrismPipe.Lib.Lru

/-! The local cache refines a bounded map with expiry: ids and the two tables over them are an
implementation detail that no lookup shows. -/

namespace PrismPipe.Engine

structure Entry (V : Type) where
  state : StateDict V
  next : Option String
  expiresAt : Option ℚ

abbrev Restored (V : Type) := StateDict V × Option String

abbrev LruCache (V : Type) (maxEntries : Nat) := Lru String (Entry V) maxEntries

namespace LruCache

variable {V : Type} {n : Nat}

def register (m : LruCache V n) (key : String) (entry : Entry V) : LruCache V n :=
  m.insert key entry

/-- A live entry is returned and becomes the most recently used one, an expired one is removed. -/
def get (m : LruCache V n) (now : ℚ) (key : String) : Option (Restored V) × LruCache V n :=
  match m.lookup key with
  | none => (none, m)
  | some entry =>
    if entry.expiresAt.any (· ≤ now) then (none, m.erase key)
    else (some (entry.state, entry.next), m.insert key entry)

def step (ttl : String → Bool → Int) (m : LruCache V n) :
    CacheOp V → Option (Restored V) × LruCache V n
  | .register now _ capability inputHash output next success =>
    (none, m.register (capability ++ ":" ++ inputHash)
      ⟨output, next, some (now + ttl capability success)⟩)
  | .lookup now _ key _ => m.get now key
  | .findShared _ => (none, m)

def answers (ttl : String → Bool → Int) (m : LruCache V n) :
    List (CacheOp V) → List (Option (Restored V))
  | [] => []
  | op :: ops => (m.step ttl op).1 :: answers ttl (m.step ttl op).2 ops

end LruCache

def CachedComputation.restored (cached : CachedComputation V) : Restored V :=
  (cached.state, cached.next)

def Output.entry (output : Output V) : Entry V := ⟨output.state, output.next, output.expiresAt⟩

def ComputationGraph.answers (g : ComputationGraph V) :
    List (CacheOp V) → List (Option (Restored V))
  | [] => []
  | op :: ops => (op.result g).map (·.restored) :: (op.apply g).answers ops

def CacheOp.Offline : CacheOp V → Prop
  | .lookup _ _ _ reply => reply = none
  | _ => True

namespace ComputationGraph

variable {V : Type} {n : Nat} {g g' : ComputationGraph V} {m : LruCache V n}
  {drawnFor : String → String} {P : Output V → Prop}

/-- A row of `_outputs` under the key it is for. -/
def shown (e : Sigma fun _ : String => Output V) : String × Entry V := (e.2.lookupKey, e.2.entry)

structure Indexed (g : ComputationGraph V) : Prop where
  mapped : g.Mapped
  nodes : nodeId ∈ g.outputs → nodeId ∈ g.nodes

structure Refines (ttl : String → Bool → Int) (g : ComputationGraph V) (m : LruCache V n) :
    Prop extends g.Indexed where
  bound : g.maxEntries = n
  times : g.ttlFor = ttl
  entries : m.entries = g.outputs.entries.map shown

def Same (g : ComputationGraph V) (nodeId key : String) : Prop :=
  ∀ i output, g.outputs.lookup i = some output → (i = nodeId ↔ output.lookupKey = key)

theorem Mapped.same (h : g.Mapped) (hk : g.hashToNode.lookup key = some nodeId) :
    g.Same nodeId key := by
  intro i output ho
  constructor
  · rintro rfl
    obtain ⟨output', ho', rfl⟩ := (h _ _).mp hk
    rw [ho] at ho'
    cases ho'
    rfl
  · intro hkey
    have := (h _ _).mpr ⟨output, ho, hkey⟩
    rw [hk] at this
    exact (Option.some.inj this).symm

theorem Mapped.same_new (h : g.Mapped) (hk : g.hashToNode.lookup key = none)
    (hnew : nodeId ∉ g.outputs) : g.Same nodeId key := by
  intro i output ho
  refine iff_of_false (fun he => hnew (he ▸ lookup_of_mem ho)) fun hkey => ?_
  have := (h _ _).mpr ⟨output, ho, hkey⟩
  rw [hk] at this
  cases this

theorem kerase_eq_filter {nodeId : String} : ∀ {l : List (Sigma fun _ : String => Output V)},
    l.NodupKeys → l.kerase nodeId = l.filter fun e => e.1 ≠ nodeId
  | [], _ => rfl
  | e :: l, h => by
    rw [List.nodupKeys_cons] at h
    by_cases he : e.1 = nodeId
    · subst he
      have hf : l.filter (fun e' => e'.1 ≠ e.1) = l := by
        refine List.filter_eq_self.mpr fun e' hm => ?_
        have hne : e'.1 ≠ e.1 := fun heq => h.1 (heq ▸ List.mem_map_of_mem (f := Sigma.fst) hm)
        simpa using hne
      rw [List.kerase_cons_eq rfl, List.filter_cons_of_neg (by simp), hf]
    · rw [List.kerase_cons_ne (Ne.symm he), List.filter_cons_of_pos (by simpa using he),
        kerase_eq_filter h.2]

theorem Same.shown_erase (h : g.Same nodeId key) :
    (g.outputs.erase nodeId).entries.map shown =
      (g.outputs.entries.map shown).filter fun e => e.1 ≠ key := by
  change (g.outputs.entries.kerase nodeId).map shown = _
  rw [kerase_eq_filter g.outputs.nodupKeys, List.filter_map]
  congr 1
  refine List.filter_congr fun e he => ?_
  exact decide_eq_decide.mpr (not_congr (h _ _ (AList.mem_lookup_iff.mpr he)))

theorem popOldest_entries (g : ComputationGraph V) :
    g.popOldest.outputs.entries = g.outputs.entries.dropLast := by
  cases hl : g.outputs.entries.getLast? with
  | none =>
    have hn := List.getLast?_eq_none_iff.mp hl
    rw [popOldest, hl, hn]
    rfl
  | some e =>
    rw [popOldest_eq hl]
    obtain ⟨l, hl'⟩ := List.getLast?_eq_some_iff.mp hl
    change g.outputs.entries.kerase e.1 = _
    have hnd := g.outputs.nodupKeys
    rw [kerase_eq_filter hnd]
    rw [List.NodupKeys, hl', List.keys, List.map_append, List.nodup_append] at hnd
    rw [hl', List.dropLast_concat, List.filter_append, List.filter_eq_self.mpr]
    · simp
    · intro e' he
      have := hnd.2.2 _ (List.mem_map_of_mem (f := Sigma.fst) he) e.1 (by simp)
      simpa using this

theorem evict_entries (k : Nat) (hk : g.outputs.entries.length ≤ k) :
    (g.evict k).outputs.entries = g.outputs.entries.take g.maxEntries := by
  induction k generalizing g with
  | zero =>
    have hn : g.outputs.entries = [] := List.length_eq_zero_iff.mp (Nat.le_zero.mp hk)
    rw [evict, hn, List.take_nil]
  | succ k ih =>
    unfold evict
    split
    next hlt =>
      rw [ih (by rw [popOldest_entries, List.length_dropLast]; omega), popOldest_entries,
        popOldest_maxEntries, List.dropLast_eq_take, List.take_take]
      congr 1
      omega
    next hle => rw [List.take_of_length_le (by omega)]

theorem popOldest_ttlFor (g : ComputationGraph V) : g.popOldest.ttlFor = g.ttlFor := by
  unfold popOldest
  split <;> rfl

theorem evict_ttlFor (k : Nat) : (g.evict k).ttlFor = g.ttlFor := by
  induction k generalizing g with
  | zero => rfl
  | succ k ih =>
    unfold evict
    split
    · rw [ih, popOldest_ttlFor]
    · rfl

theorem Indexed.popOldest (h : g.Indexed) : g.popOldest.Indexed := by
  refine ⟨h.mapped.popOldest, fun {i} => ?_⟩
  unfold ComputationGraph.popOldest
  split
  · exact h.nodes
  · rintro hi
    obtain ⟨hne, hi⟩ := AList.mem_erase.mp hi
    exact (List.mem_erase_of_ne hne).mpr (h.nodes hi)

theorem Indexed.evict (k : Nat) (h : g.Indexed) : (g.evict k).Indexed := by
  induction k generalizing g with
  | zero => exact h
  | succ k ih =>
    unfold ComputationGraph.evict
    split
    · exact ih h.popOldest
    · exact h

theorem Indexed.overwrite (h : g.Indexed)
    (hk : g.hashToNode.lookup output.lookupKey = some nodeId) : (g.put nodeId output).Indexed := by
  refine ⟨h.mapped.overwrite hk, fun {i} hi => h.nodes ?_⟩
  obtain ⟨old, ho, -⟩ := (h.mapped _ _).mp hk
  rw [put, AList.mem_insert] at hi
  rcases hi with rfl | hi
  · exact lookup_of_mem ho
  · exact hi

theorem Indexed.insert (h : g.Indexed) (hnew : nodeId ∉ g.outputs)
    (hk : g.hashToNode.lookup key = none) (ho : output.lookupKey = key) :
    ((g.addNode nodeId key).put nodeId output).Indexed := by
  subst ho
  refine ⟨h.mapped.insert hnew hk, fun {i} hi => ?_⟩
  rw [put, AList.mem_insert] at hi
  rcases hi with rfl | hi
  · exact List.mem_cons_self
  · exact List.mem_cons_of_mem _ (h.nodes hi)

theorem shown_put (h : g.Same nodeId output.lookupKey) :
    (g.put nodeId output).outputs.entries.map shown = (output.lookupKey, output.entry) ::
      (g.outputs.entries.map shown).filter fun e => e.1 ≠ output.lookupKey := by
  rw [← h.shown_erase]
  rfl

theorem Refines.storeOutput (h : g.Refines ttl m) (hs : g.Same nodeId output.lookupKey)
    (hg : g'.outputs = g.outputs) (hn : g'.maxEntries = g.maxEntries) (ht : g'.ttlFor = g.ttlFor)
    (hi : (g'.put nodeId output).Indexed) :
    (g'.storeOutput nodeId output).Refines ttl (m.insert output.lookupKey output.entry) where
  toIndexed := hi.evict _
  bound := (evict_maxEntries _ _).trans (hn.trans h.bound)
  times := (evict_ttlFor _).trans (ht.trans h.times)
  entries := by
    have hp : (g'.put nodeId output).maxEntries = n := hn.trans h.bound
    rw [ComputationGraph.storeOutput, evict_entries _ le_rfl, List.map_take, hp,
      Lru.insert_entries, Lru.erase_entries, h.entries, ← shown_put hs, put, put, hg]

theorem Refines.lookup (h : g.Refines ttl m) (hk : g.hashToNode.lookup key = some nodeId) :
    ∃ output, g.outputs.lookup nodeId = some output ∧ output.lookupKey = key ∧
      m.lookup key = some output.entry := by
  obtain ⟨output, ho, rfl⟩ := (h.mapped _ _).mp hk
  refine ⟨output, ho, rfl, Lru.lookup_eq_some.mpr ?_⟩
  rw [h.entries]
  exact List.mem_map_of_mem (f := shown) (AList.mem_lookup_iff.mp ho)

theorem Refines.lookup_none (h : g.Refines ttl m) (hk : g.hashToNode.lookup key = none) :
    m.lookup key = none := by
  rw [Lru.lookup_eq_none, h.entries]
  intro e he hkey
  obtain ⟨row, hrow, rfl⟩ := List.mem_map.mp he
  have := (h.mapped _ _).mpr ⟨row.2, AList.mem_lookup_iff.mpr hrow, hkey⟩
  rw [hk] at this
  cases this

theorem Refines.registerComputation (h : g.Refines ttl m) (hs : g.Sound drawnFor P)
    (hd : drawnFor nodeId = capability ++ ":" ++ inputHash) :
    (g.registerComputation now nodeId capability inputHash output next success).Refines ttl
      (m.register (capability ++ ":" ++ inputHash)
        ⟨output, next, some (now + ttl capability success)⟩) := by
  unfold ComputationGraph.registerComputation
  have ht := h.times
  subst ht
  generalize hkey : capability ++ ":" ++ inputHash = key at hd
  dsimp only
  split
  next hk =>
    refine h.storeOutput ?_ rfl rfl rfl ?_
    · exact h.mapped.same hk
    · exact h.toIndexed.overwrite hk
  next hk =>
    have hnew := h.mapped.notMem hs hd hk
    refine h.storeOutput ?_ rfl rfl rfl ?_
    · exact h.mapped.same_new hk hnew
    · exact h.toIndexed.insert hnew hk rfl

theorem Refines.findOutput (h : g.Refines ttl m) (now : ℚ) (key : String) :
    (g.findOutput now key).1.map (·.restored) = (m.get now key).1 ∧
      (g.findOutput now key).2.Refines ttl (m.get now key).2 := by
  unfold ComputationGraph.findOutput LruCache.get
  cases hk : g.hashToNode.lookup key with
  | none => simp [h.lookup_none hk, h]
  | some nodeId =>
    obtain ⟨output, ho, rfl, hm⟩ := h.lookup hk
    have hs := h.mapped.same hk
    simp only [ho, hm]
    by_cases he : output.expiresAt.any (· ≤ now)
    · have he' : output.entry.expiresAt.any (· ≤ now) := he
      rw [if_pos he, if_pos he']
      refine ⟨rfl, ⟨h.mapped.erase hk g.nodes, fun hi => h.nodes (AList.mem_erase.mp hi).2⟩,
        h.bound, h.times, ?_⟩
      rw [Lru.erase_entries, h.entries, hs.shown_erase]
    · have he' : ¬ output.entry.expiresAt.any (· ≤ now) := he
      rw [if_neg he, if_neg he']
      refine ⟨rfl, h.toIndexed.overwrite hk, h.bound, h.times, ?_⟩
      rw [Lru.replace_entries hm, Lru.erase_entries, h.entries, shown_put hs]

theorem getCachedResultByKey_offline (g : ComputationGraph V) (now : ℚ)
    (capability key : String) :
    g.getCachedResultByKey now capability key none = g.findOutput now key := by
  rcases hf : g.findOutput now key with ⟨_ | cached, g'⟩
  · simp only [ComputationGraph.getCachedResultByKey, hf]
  · simp only [ComputationGraph.getCachedResultByKey, hf]

theorem Refines.getCachedResultByKey (h : g.Refines ttl m) (now : ℚ) (capability key : String) :
    (g.getCachedResultByKey now capability key none).1.map (·.restored) = (m.get now key).1 ∧
      (g.getCachedResultByKey now capability key none).2.Refines ttl (m.get now key).2 := by
  rw [getCachedResultByKey_offline]
  exact h.findOutput now key

theorem empty_refines (maxEntries : Nat) (t n : Int) (c : String → Option Int) :
    (empty maxEntries t n c : ComputationGraph V).Refines
      (empty maxEntries t n c : ComputationGraph V).ttlFor
      (Lru.empty : LruCache V maxEntries) where
  mapped _ _ := by simp [empty]
  nodes := by simp [empty]
  bound := rfl
  times := rfl
  entries := rfl

end ComputationGraph

namespace CacheOp

variable {V : Type} {n : Nat} {g : ComputationGraph V} {m : LruCache V n} {op : CacheOp V}
  {drawnFor : String → String}

theorem refines_step (h : g.Refines ttl m) (hs : g.Sound drawnFor P) (ha : op.Allowed drawnFor)
    (ho : op.Offline) : (op.result g).map (·.restored) = (m.step ttl op).1 ∧
      (op.apply g).Refines ttl (m.step ttl op).2 := by
  cases op with
  | register => exact ⟨rfl, h.registerComputation hs ha⟩
  | lookup now capability key reply =>
    cases ho
    exact h.getCachedResultByKey now capability key
  | findShared => exact ⟨rfl, h⟩

def Recorded (ops : List (CacheOp V)) (output : Output V) : Prop :=
  ∃ now nodeId capability inputHash success,
    .register now nodeId capability inputHash output.state output.next success ∈ ops ∧
      output.lookupKey = capability ++ ":" ++ inputHash

theorem apply_recorded {ops : List (CacheOp V)} (ha : op.Allowed drawnFor) (ho : op.Offline)
    (hm : op ∈ ops) (hs : g.Sound drawnFor (Recorded ops)) :
    (op.apply g).Sound drawnFor (Recorded ops) := by
  cases op with
  | register => exact hs.registerComputation ha ⟨_, _, _, _, _, hm, rfl⟩
  | lookup =>
    cases ho
    exact (hs.getCachedResultByKey (by simp) rfl).1
  | findShared => exact hs

def run (g : ComputationGraph V) (ops : List (CacheOp V)) : ComputationGraph V :=
  ops.foldl (fun g op => op.apply g) g

theorem refines_run {all ops : List (CacheOp V)} (h : g.Refines ttl m)
    (hs : g.Sound drawnFor (Recorded all)) (ha : ∀ op ∈ ops, op.Allowed drawnFor)
    (ho : ∀ op ∈ ops, op.Offline) (hall : ops ⊆ all) :
    g.answers ops = m.answers ttl ops ∧ (run g ops).Sound drawnFor (Recorded all) ∧
      (run g ops).Indexed := by
  induction ops generalizing g m with
  | nil => exact ⟨rfl, hs, h.toIndexed⟩
  | cons op ops ih =>
    obtain ⟨ha, has⟩ := List.forall_mem_cons.mp ha
    obtain ⟨ho, hos⟩ := List.forall_mem_cons.mp ho
    obtain ⟨hm, hall⟩ := List.cons_subset.mp hall
    obtain ⟨hres, hnext⟩ := refines_step h hs ha ho
    obtain ⟨hans, hrest⟩ := ih hnext (apply_recorded ha ho hm hs) has hos hall
    refine ⟨?_, hrest⟩
    rw [ComputationGraph.answers, LruCache.answers, hres, hans]

/-- From the empty cache, every operation shows what it shows of a bounded map that gives up its
least recently used entry. A lookup after them obtains what was registered under its key, and the
node of every key is known. -/
theorem answers_eq {d : String → String} {ops : List (CacheOp V)} (ha : ∀ op ∈ ops, op.Allowed d)
    (ho : ∀ op ∈ ops, op.Offline) :
    let g₀ : ComputationGraph V := .empty maxEntries t u c
    g₀.answers ops = LruCache.answers g₀.ttlFor (Lru.empty : LruCache V maxEntries) ops ∧
      (∀ now capability key cached,
        (CacheOp.lookup now capability key none).result (run g₀ ops) = some cached →
          ∃ output, Recorded ops output ∧ output.lookupKey = key ∧ cached.Restores output) ∧
      ∀ key nodeId, (run g₀ ops).hashToNode.lookup key = some nodeId →
        nodeId ∈ (run g₀ ops).nodes := by
  intro g₀
  obtain ⟨hans, hs, hi⟩ := refines_run (ComputationGraph.empty_refines maxEntries t u c)
    (ComputationGraph.empty_sound maxEntries t u c) ha ho (List.Subset.refl _)
  refine ⟨hans, fun now capability key cached hr => ?_, fun key nodeId hk => ?_⟩
  · obtain ⟨-, hc⟩ := hs.getCachedResultByKey (by simp) (Prod.ext hr rfl)
    obtain ⟨output, hP, hk, hrest, -⟩ := hc cached rfl
    exact ⟨output, hP, hk, hrest⟩
  · obtain ⟨_, hl, -⟩ := (hi.mapped _ _).mp hk
    exact hi.nodes (ComputationGraph.lookup_of_mem hl)

/-- Room for two, with a hit that saves the older entry from a third registration. -/
theorem answers_eq_two :
    let ops : List (CacheOp Unit) := [.register 0 "n" "c" "x" StateDict.empty (some "p") true,
      .register 1 "m" "c" "y" StateDict.empty none true, .lookup 2 "c" "c:x" none,
      .register 3 "k" "c" "z" StateDict.empty none false, .lookup 4 "c" "c:y" none,
      .lookup 40 "c" "c:x" none]
    let g₀ : ComputationGraph Unit := .empty 2 30 3 fun _ => none
    g₀.answers ops = LruCache.answers g₀.ttlFor (Lru.empty : LruCache Unit 2) ops ∧
      (∀ now capability key cached,
        (CacheOp.lookup now capability key none).result (run g₀ ops) = some cached →
          ∃ output, Recorded ops output ∧ output.lookupKey = key ∧ cached.Restores output) ∧
      ∀ key nodeId, (run g₀ ops).hashToNode.lookup key = some nodeId →
        nodeId ∈ (run g₀ ops).nodes :=
  answers_eq (d := fun nodeId => if nodeId = "n" then "c:x" else if nodeId = "m" then "c:y"
    else "c:z") (by simp [CacheOp.Allowed]) (by simp [CacheOp.Offline])

end CacheOp

end PrismPipe.Engine
