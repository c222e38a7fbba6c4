import Mathlib.Data.List.Dedup
import Mathlib.Data.List.Flatten
import Mathlib.Order.Monotone.Basic

/-! `SwarmCoordinator.execute_swarm`: how the data is partitioned and dealt to the workers. -/

namespace PrismPipe.Engine.Swarm

variable {α : Type}

/-- `partitions[key].append(item)` on a `defaultdict(list)`, in insertion order. -/
def addItem (key : String) (item : α) : List (String × List α) → List (String × List α)
  | [] => [(key, [item])]
  | (k, items) :: rest =>
    if k = key then (k, items ++ [item]) :: rest else (k, items) :: addItem key item rest

def partitionKey (partitionFn : Option (α → String)) (workers i : Nat) (item : α) : String :=
  match partitionFn with
  | some fn => fn item
  | none => toString (i % max workers 1)

def keyed (partitionFn : Option (α → String)) (workers : Nat) (data : List α) :
    List (String × α) :=
  data.zipIdx.map fun (item, i) => (partitionKey partitionFn workers i item, item)

def partitions (items : List (String × α)) : List (String × List α) :=
  items.foldl (fun ps x => addItem x.1 x.2 ps) []

def partitionValues (workers : Nat) (ps : List (String × List α)) : List (List α) :=
  if ps = [] then List.replicate workers [] else ps.map (·.2)

/-- What `n` workers are given, in turns. -/
def deal (values : List (List α)) (n : Nat) : List (List α) :=
  (List.range n).map fun i => (values[i % values.length]?).getD []

/-- What each worker gets as `input["partition_data"]`. -/
def partitionData (partitionFn : Option (α → String)) (workers : Nat) (data : List α) :
    List (List α) :=
  deal (partitionValues workers (partitions (keyed partitionFn workers data))) workers

def distinctKeys (partitionFn : Option (α → String)) (workers : Nat) (data : List α) :
    List String :=
  ((keyed partitionFn workers data).map (·.1)).dedup

theorem addItem_keys (key : String) (item : α) (ps : List (String × List α)) :
    (addItem key item ps).map (·.1) =
      if key ∈ ps.map (·.1) then ps.map (·.1) else ps.map (·.1) ++ [key] := by
  induction ps with
  | nil => rfl
  | cons p ps ih =>
    obtain ⟨k, items⟩ := p
    by_cases hk : k = key
    · simp [addItem, hk]
    · have hk' : key ≠ k := Ne.symm hk
      simp only [addItem, if_neg hk, List.map_cons, ih, List.mem_cons, hk', false_or]
      split <;> rfl

theorem addItem_flatten (key : String) (item : α) (ps : List (String × List α)) :
    ((addItem key item ps).map (·.2)).flatten.Perm ((ps.map (·.2)).flatten ++ [item]) := by
  induction ps with
  | nil => exact .refl _
  | cons p ps ih =>
    obtain ⟨k, items⟩ := p
    by_cases hk : k = key
    · simp only [addItem, if_pos hk, List.map_cons, List.flatten_cons, List.append_assoc]
      exact List.perm_append_comm.append_left items
    · simp only [addItem, if_neg hk, List.map_cons, List.flatten_cons, List.append_assoc]
      exact ih.append_left items

theorem addItem_ne_nil (key : String) (item : α) {ps : List (String × List α)}
    (h : ∀ p ∈ ps, p.2 ≠ []) : ∀ p ∈ addItem key item ps, p.2 ≠ [] := by
  induction ps with
  | nil => simp [addItem]
  | cons p ps ih =>
    obtain ⟨k, items⟩ := p
    have hps := ih fun p hp => h p (List.mem_cons_of_mem _ hp)
    unfold addItem
    split
    · intro q hq
      rcases List.mem_cons.mp hq with rfl | hq
      · simp
      · exact h q (List.mem_cons_of_mem _ hq)
    · intro q hq
      rcases List.mem_cons.mp hq with rfl | hq
      · exact h _ List.mem_cons_self
      · exact hps q hq

structure Partitions (items : List (String × α)) (ps : List (String × List α)) : Prop where
  nodup : (ps.map (·.1)).Nodup
  keys : ∀ key, key ∈ ps.map (·.1) ↔ key ∈ items.map (·.1)
  flatten : (ps.map (·.2)).flatten.Perm (items.map (·.2))
  ne_nil : ∀ p ∈ ps, p.2 ≠ []

theorem Partitions.addItem {items : List (String × α)} {ps : List (String × List α)}
    (h : Partitions items ps) (x : String × α) :
    Partitions (items ++ [x]) (addItem x.1 x.2 ps) where
  nodup := by
    rw [addItem_keys]
    split
    · exact h.nodup
    next hx =>
      refine List.nodup_append.mpr ⟨h.nodup, List.nodup_singleton _, ?_⟩
      rintro a ha _ hb rfl
      exact hx (List.mem_singleton.mp hb ▸ ha)
  keys key := by
    have hk := h.keys key
    rw [addItem_keys]
    split
    next hx =>
      rw [List.map_append, List.mem_append, ← hk]
      refine ⟨.inl, ?_⟩
      rintro (hk | hk)
      · exact hk
      · exact (List.mem_singleton.mp hk) ▸ hx
    · rw [List.mem_append, hk, List.map_append, List.mem_append]
      rfl
  flatten := by
    rw [List.map_append]
    exact (addItem_flatten _ _ _).trans (h.flatten.append_right _)
  ne_nil := addItem_ne_nil _ _ h.ne_nil

theorem partitions_spec (items : List (String × α)) : Partitions items (partitions items) := by
  have h (rest done : List (String × α)) (ps : List (String × List α)) (hp : Partitions done ps) :
      Partitions (done ++ rest) (rest.foldl (fun ps x => addItem x.1 x.2 ps) ps) := by
    induction rest generalizing done ps with
    | nil => simpa using hp
    | cons x rest ih =>
      have := ih (done ++ [x]) _ (hp.addItem x)
      simpa using this
  exact h items [] [] ⟨List.nodup_nil, fun _ => Iff.rfl, .refl _, nofun⟩

theorem keyed_items (partitionFn : Option (α → String)) (workers : Nat) (data : List α) :
    (keyed partitionFn workers data).map (·.2) = data := by
  simp only [keyed, List.map_map]
  exact List.zipIdx_map_fst 0 data

theorem length_partitions (items : List (String × α)) :
    (partitions items).length = (items.map (·.1)).dedup.length := by
  have hs := partitions_spec items
  rw [← List.length_map (f := (·.1))]
  refine List.Perm.length_eq ((List.perm_ext_iff_of_nodup hs.nodup (List.nodup_dedup _)).mpr ?_)
  intro key
  rw [List.mem_dedup]
  exact hs.keys key

theorem deal_length (values : List (List α)) : deal values values.length = values := by
  refine List.ext_getElem (by simp [deal]) ?_
  intro i _ hi
  simp [deal, Nat.mod_eq_of_lt hi, List.getElem?_eq_getElem hi]

theorem deal_succ (values : List (List α)) (n : Nat) :
    deal values (n + 1) = deal values n ++ [(values[n % values.length]?).getD []] := by
  simp [deal, List.range_succ]

theorem deal_strictMono {values : List (List α)} (hv : values ≠ []) (h : ∀ v ∈ values, v ≠ []) :
    StrictMono fun n => (deal values n).flatten.length := by
  refine strictMono_nat_of_lt_succ fun n => ?_
  have hlt : n % values.length < values.length :=
    Nat.mod_lt _ (List.length_pos_iff.mpr hv)
  have hne := List.length_pos_iff.mpr (h _ (List.getElem_mem hlt))
  simp only [deal_succ, List.flatten_append, List.length_append, List.flatten_singleton,
    List.getElem?_eq_getElem hlt, Option.getD_some]
  omega

/-- Every item reaches one worker exactly when there are as many partitions as workers. -/
theorem partitionData_perm_iff (partitionFn : Option (α → String)) (workers : Nat)
    (data : List α) : (partitionData partitionFn workers data).flatten.Perm data ↔
      data = [] ∨ (distinctKeys partitionFn workers data).length = workers := by
  have hs := partitions_spec (keyed partitionFn workers data)
  have hl := length_partitions (keyed partitionFn workers data)
  have hf := hs.flatten
  rw [keyed_items] at hf
  unfold partitionData distinctKeys partitionValues
  generalize partitions (keyed partitionFn workers data) = ps at hs hl hf
  rw [← hl]
  by_cases hps : ps = []
  · subst hps
    have hd : data = [] := by simpa using hf.length_eq.symm
    subst hd
    simp only [deal, if_pos, true_or, iff_true, List.perm_nil, List.flatten_eq_nil_iff,
      List.mem_map]
    rintro _ ⟨i, -, rfl⟩
    rw [List.getElem?_replicate]
    split <;> rfl
  · have hd : data ≠ [] := by
      rintro rfl
      obtain ⟨p, hp⟩ := List.exists_mem_of_ne_nil ps hps
      have hne := hs.ne_nil p hp
      have hnil := List.flatten_eq_nil_iff.mp (List.perm_nil.mp hf) p.2 (List.mem_map_of_mem hp)
      exact hne hnil
    have hmono : StrictMono fun n => (deal (ps.map (·.2)) n).flatten.length :=
      deal_strictMono (by simpa using hps) (by
      intro v hv
      obtain ⟨p, hp, rfl⟩ := List.mem_map.mp hv
      exact hs.ne_nil p hp)
    have hall : deal (ps.map (·.2)) ps.length = ps.map (·.2) := by
      simpa using deal_length (ps.map (·.2))
    simp only [if_neg hps, hd, false_or]
    constructor
    · intro hp
      refine hmono.injective ?_
      rw [hall, hp.length_eq, hf.length_eq]
    · rintro rfl
      rw [hall]
      exact hf

/-- One item, dealt to both of two workers. -/
theorem one_item_not_perm :
    ¬ (partitionData none 2 [()]).flatten.Perm [()] := by
  intro h
  have hl : (partitionData none 2 [()]).flatten.length = 2 := by decide
  exact absurd (hl.symm.trans h.length_eq) (by decide)

end PrismPipe.Engine.Swarm
