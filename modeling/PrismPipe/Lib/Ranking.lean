import Mathlib.Data.List.Infix
import Mathlib.Data.List.Nodup
import Mathlib.Data.List.Pairwise

/-! Lists of entries that are grouped under keys, ranked by a score and told once each. -/

universe u v

namespace PrismPipe.Ranking

variable {α κ : Type u} {β : Type v}

section Firsts

variable [DecidableEq α] {l : List α} {a : α}

def firsts (l : List α) : List α :=
  l.foldl (fun told a => if a ∈ told then told else told ++ [a]) []

theorem firsts_concat (l : List α) (a : α) :
    firsts (l ++ [a]) = if a ∈ firsts l then firsts l else firsts l ++ [a] :=
  List.foldl_concat ..

@[simp] theorem mem_firsts : a ∈ firsts l ↔ a ∈ l := by
  induction l using List.reverseRecOn with
  | nil => simp [firsts]
  | append_singleton l b ih =>
    rw [firsts_concat]
    split
    · next hb => simp only [ih, List.mem_append, List.mem_singleton]
                 exact ⟨.inl, fun h => h.elim (fun h => h) fun h => ih.mp (h ▸ hb)⟩
    · simp [ih]

theorem nodup_firsts (l : List α) : (firsts l).Nodup := by
  induction l using List.reverseRecOn with
  | nil => simp [firsts]
  | append_singleton l b ih =>
    rw [firsts_concat]
    split
    · exact ih
    · next hb => exact ih.append (List.nodup_singleton b) (by simpa using hb)

theorem pairwise_firsts [BEq α] [LawfulBEq α] (l : List α) :
    (firsts l).Pairwise fun a b => l.idxOf a < l.idxOf b := by
  induction l using List.reverseRecOn with
  | nil => simp [firsts]
  | append_singleton l b ih =>
    have hold : (firsts l).Pairwise fun x y => (l ++ [b]).idxOf x < (l ++ [b]).idxOf y := by
      apply ih.imp_of_mem
      intro x y hx hy h
      rwa [List.idxOf_append_of_mem (mem_firsts.mp hx),
        List.idxOf_append_of_mem (mem_firsts.mp hy)]
    rw [firsts_concat]
    split
    · exact hold
    · next hb =>
      apply List.pairwise_append.mpr
      refine ⟨hold, List.pairwise_singleton _ _, fun x hx y hy => ?_⟩
      have hx := mem_firsts.mp hx
      rw [List.mem_singleton.mp hy, List.idxOf_append_of_mem hx,
        List.idxOf_append_of_notMem (by simpa using hb)]
      exact (List.idxOf_lt_length_of_mem hx).trans_le (Nat.le_add_right _ _)

theorem pairwise_firsts_map {R : β → β → Prop} {l : List β} (f : β → α) (h : l.Pairwise R) :
    (firsts (l.map f)).Pairwise fun a b => ∃ x ∈ l, f x = a ∧ ∀ y ∈ l, f y = b → R x y := by
  induction l using List.reverseRecOn with
  | nil => simp [firsts]
  | append_singleton l z ih =>
    obtain ⟨hl, -, hz⟩ := List.pairwise_append.mp h
    have hz : ∀ x ∈ l, R x z := fun x hx => hz x hx z (List.mem_singleton.mpr rfl)
    have hold : (firsts (l.map f)).Pairwise fun a b =>
        ∃ x ∈ l ++ [z], f x = a ∧ ∀ y ∈ l ++ [z], f y = b → R x y := by
      apply (ih hl).imp
      rintro a b ⟨x, hx, hxa, hb⟩
      refine ⟨x, List.mem_append_left _ hx, hxa, fun y hy hyb => ?_⟩
      rcases List.mem_append.mp hy with hy | hy
      · exact hb y hy hyb
      · exact List.mem_singleton.mp hy ▸ hz x hx
    rw [List.map_append, List.map_singleton, firsts_concat]
    split
    · exact hold
    · next hnew =>
      apply List.pairwise_append.mpr
      refine ⟨hold, List.pairwise_singleton _ _, fun a ha b hb => ?_⟩
      obtain ⟨x, hx, rfl⟩ := List.mem_map.mp (mem_firsts.mp ha)
      refine ⟨x, List.mem_append_left _ hx, rfl, fun y hy hyb => ?_⟩
      rcases List.mem_append.mp hy with hy | hy
      · rw [mem_firsts, ← List.mem_singleton.mp hb, ← hyb] at hnew
        exact absurd (List.mem_map_of_mem hy) hnew
      · exact List.mem_singleton.mp hy ▸ hz x hx

end Firsts

section Groups

variable [DecidableEq κ]

def groups (entries : List (κ × β)) : List (κ × List β) :=
  (firsts (entries.map (·.1))).map fun k => (k, (entries.filter (·.1 = k)).map (·.2))

def add (key : κ) (value : β) : List (κ × List β) → List (κ × List β)
  | [] => [(key, [value])]
  | (k, values) :: rest =>
    if k = key then (k, values ++ [value]) :: rest else (k, values) :: add key value rest

theorem add_map (key : κ) (value : β) (values : κ → List β) {keys : List κ} (h : keys.Nodup) :
    add key value (keys.map fun k => (k, values k)) =
      if key ∈ keys then
        keys.map fun k => (k, if k = key then values k ++ [value] else values k)
      else keys.map (fun k => (k, values k)) ++ [(key, [value])] := by
  induction keys with
  | nil => rfl
  | cons k keys ih =>
    obtain ⟨hk, hkeys⟩ := List.nodup_cons.mp h
    by_cases hkey : k = key
    · subst hkey
      have hrest : ∀ x ∈ keys, (x, values x) =
          (x, if x = k then values x ++ [value] else values x) := by
        intro x hx
        have h : x ≠ k := fun h => hk (h ▸ hx)
        rw [if_neg h]
      simp [add, List.map_congr_left hrest]
    · simp only [List.map_cons, add, if_neg hkey, ih hkeys, List.mem_cons, Ne.symm hkey, false_or]
      split <;> rfl

theorem add_groups (key : κ) (value : β) (entries : List (κ × β)) :
    add key value (groups entries) = groups (entries ++ [(key, value)]) := by
  unfold groups
  rw [add_map _ _ _ (nodup_firsts _), List.map_append, List.map_singleton, firsts_concat]
  split
  · apply List.map_congr_left
    intro k hk
    by_cases h : k = key
    · simp [h]
    · simp [h, Ne.symm h]
  · next hnew =>
    rw [List.map_append, List.map_singleton]
    congr 1
    · apply List.map_congr_left
      intro k hk
      have h : key ≠ k := fun h => hnew (h ▸ hk)
      simp [h]
    · have hnone : entries.filter (·.1 = key) = [] := by
        apply List.filter_eq_nil_iff.mpr
        intro e he h
        exact hnew (mem_firsts.mpr (List.mem_map.mpr ⟨e, he, by simpa using h⟩))
      simp [hnone]

end Groups

section Ranked

variable {l : List α}

def ranked (score : α → Nat) (l : List α) : List α :=
  l.mergeSort fun a b => decide (score b ≤ score a)

@[simp] theorem mem_ranked {score : α → Nat} {a : α} : a ∈ ranked score l ↔ a ∈ l :=
  List.mem_mergeSort

theorem falls_ranked (score : α → Nat) (l : List α) :
    (ranked score l).Pairwise fun a b => score b ≤ score a := by
  have h : (ranked score l).Pairwise fun a b => decide (score b ≤ score a) = true :=
    List.pairwise_mergeSort (fun a b c hab hbc => by simp only [decide_eq_true_eq] at *; omega)
      (fun a b => by simpa using Nat.le_total _ _) l
  exact h.imp fun hab => by simpa using hab

theorem filter_ranked (score : α → Nat) (l : List α) (n : Nat) :
    (ranked score l).filter (score · = n) = l.filter (score · = n) := by
  have hlevel : (l.filter (score · = n)).Pairwise
      fun a b => decide (score b ≤ score a) = true := by
    apply List.pairwise_of_forall_mem_list
    intro a ha b hb
    simp_all
  have hsub : (l.filter (score · = n)).Sublist (ranked score l) :=
    List.sublist_mergeSort (fun a b c hab hbc => by simp only [decide_eq_true_eq] at *; omega)
      (fun a b => by simpa using Nat.le_total _ _) hlevel List.filter_sublist
  have hfilter := hsub.filter (score · = n)
  rw [List.filter_filter] at hfilter
  refine (List.Sublist.eq_of_length (by simpa using hfilter) ?_).symm
  exact ((List.mergeSort_perm l _).filter _).length_eq.symm

theorem pairwise_ranked (score : α → Nat) {R : α → α → Prop} (h : l.Pairwise R) :
    (ranked score l).Pairwise fun a b =>
      score b < score a ∨ score a = score b ∧ R a b := by
  apply List.pairwise_iff_forall_sublist.mpr
  intro a b hab
  have hle := List.pairwise_iff_forall_sublist.mp (falls_ranked score l) hab
  rcases hle.lt_or_eq with hlt | heq
  · exact .inl hlt
  · have hfilter := hab.filter (score · = score a)
    rw [filter_ranked] at hfilter
    have hl : [a, b].Sublist l := .trans (by simpa [heq] using hfilter) List.filter_sublist
    exact .inr ⟨heq.symm, List.pairwise_iff_forall_sublist.mp h hl⟩

theorem map_ranked (f : β → α) (score : α → Nat) (l : List β) :
    (l.mergeSort fun a b => decide (score (f b) ≤ score (f a))).map f =
      ranked score (l.map f) :=
  List.map_mergeSort fun _ _ _ _ => rfl

end Ranked

end PrismPipe.Ranking
