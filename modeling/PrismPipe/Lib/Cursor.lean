import Mathlib.Data.List.InsertIdx
import Mathlib.Data.List.Nodup
import Mathlib.Logic.Function.Iterate
import Mathlib.Order.MinMax

/-! A list that is walked by index while it is edited: when the walk returns each element once. -/

universe u

namespace PrismPipe

/-- `returned` are those the walk came to, `owed` those that were put at or after it. -/
structure Cursor (α : Type u) where
  items : List α
  index : Nat
  returned : List α
  owed : List α

namespace Cursor

variable {α : Type u}

def advance (s : Cursor α) : Cursor α :=
  match s.items[s.index]? with
  | some a => { s with index := s.index + 1, returned := s.returned ++ [a] }
  | none => s

def insert (s : Cursor α) (i : Nat) (a : α) : Cursor α :=
  { s with items := s.items.insertIdx i a, owed := if s.index ≤ i then a :: s.owed else s.owed }

def erase (s : Cursor α) (i : Nat) : Cursor α := { s with items := s.items.eraseIdx i }

structure Sound (s : Cursor α) : Prop where
  once : s.returned.Nodup
  all : s.items.length ≤ s.index → ∀ a ∈ s.owed, a ∈ s.items → a ∈ s.returned

def Lasting (s : Cursor α) : Prop := ∀ k, (advance^[k] s).Sound

def InsertKeeps (s : Cursor α) (i : Nat) : Prop :=
  i < s.index → ∀ a ∈ s.items[s.index - 1]?, a ∉ s.returned

def EraseKeeps (s : Cursor α) (i : Nat) : Prop :=
  i < s.index → ∀ a ∈ s.items[s.index]?, a ∉ s.owed

def Fresh (s : Cursor α) (a : α) : Prop := a ∉ s.items ∧ a ∉ s.returned ∧ a ∉ s.owed

structure Steady (s : Cursor α) : Prop where
  nodup : s.items.Nodup
  once : s.returned.Nodup
  ahead : ∀ a ∈ s.items.drop s.index, a ∉ s.returned
  due : ∀ a ∈ s.owed, a ∈ s.items → a ∈ s.returned ∨ a ∈ s.items.drop s.index

theorem Steady.start {items : List α} (h : items.Nodup) (index : Nat) :
    Steady ⟨items, index, [], items.drop index⟩ where
  nodup := h
  once := List.nodup_nil
  ahead _ _ := List.not_mem_nil
  due _ ha _ := .inr ha

theorem Steady.sound {s : Cursor α} (h : s.Steady) : s.Sound where
  once := h.once
  all hend a ho hi := by
    rcases h.due a ho hi with hr | hd
    · exact hr
    · rw [List.drop_eq_nil_of_le hend] at hd
      exact absurd hd List.not_mem_nil

section Drop

variable {l : List α} {i n : Nat}

theorem drop_insertIdx_of_lt (h : i < n) (a : α) : (l.insertIdx i a).drop n = l.drop (n - 1) := by
  refine List.ext_getElem? fun k => ?_
  rw [List.getElem?_drop, List.getElem?_drop, List.getElem?_insertIdx_of_gt (by omega)]
  congr 1
  omega

theorem mem_drop_insertIdx (h : n ≤ i) (hi : i ≤ l.length) {a b : α} :
    b ∈ (l.insertIdx i a).drop n ↔ b = a ∨ b ∈ l.drop n := by
  induction l generalizing i n with
  | nil =>
    obtain rfl : i = 0 := Nat.le_zero.mp hi
    obtain rfl : n = 0 := Nat.le_zero.mp h
    simp
  | cons c l ih =>
    cases n with
    | zero => simpa using List.mem_insertIdx hi
    | succ n =>
      obtain ⟨i, rfl⟩ := Nat.exists_eq_succ_of_ne_zero (Nat.ne_of_gt (Nat.lt_of_lt_of_le n.succ_pos h))
      rw [List.insertIdx_succ_cons, List.drop_succ_cons, List.drop_succ_cons]
      exact ih (Nat.le_of_succ_le_succ h) (Nat.le_of_succ_le_succ hi)

theorem drop_eraseIdx_of_lt (h : i < n) : (l.eraseIdx i).drop n = l.drop (n + 1) := by
  refine List.ext_getElem? fun k => ?_
  rw [List.getElem?_drop, List.getElem?_drop, List.getElem?_eraseIdx_of_ge (by omega)]
  congr 1
  omega

theorem drop_eraseIdx_of_ge (h : n ≤ i) : (l.eraseIdx i).drop n = (l.drop n).eraseIdx (i - n) := by
  refine List.ext_getElem? fun k => ?_
  rw [List.getElem?_drop, List.getElem?_eraseIdx, List.getElem?_eraseIdx, List.getElem?_drop,
    List.getElem?_drop]
  by_cases hk : n + k < i
  · rw [if_pos hk, if_pos (by omega)]
  · rw [if_neg hk, if_neg (by omega), Nat.add_assoc]

theorem mem_drop_or_eq (ha : a ∈ l.drop (n - 1)) : a ∈ l[n - 1]? ∨ a ∈ l.drop n := by
  obtain ⟨k, hk⟩ := List.getElem?_of_mem ha
  rw [List.getElem?_drop] at hk
  by_cases h0 : n - 1 + k < n
  · obtain h | rfl : n = 0 ∨ k = 0 := by omega
    · subst h
      exact .inr (List.mem_of_getElem? (by rw [List.getElem?_drop]; exact hk))
    · exact .inl hk
  · refine .inr (List.mem_of_getElem? (i := n - 1 + k - n) ?_)
    rw [List.getElem?_drop, ← hk]
    congr 1
    omega

end Drop

theorem Steady.advance {s : Cursor α} (h : s.Steady) : s.advance.Steady := by
  rw [Cursor.advance]
  split
  · rename_i a ha
    have hdrop : s.items.drop s.index = a :: s.items.drop (s.index + 1) := by
      obtain ⟨hlt, rfl⟩ := List.getElem?_eq_some_iff.mp ha
      exact List.drop_eq_getElem_cons hlt
    have hnot : a ∉ s.items.drop (s.index + 1) := by
      have hn := h.nodup.sublist (List.drop_sublist s.index s.items)
      rw [hdrop] at hn
      exact (List.nodup_cons.mp hn).1
    refine ⟨h.nodup, ?_, fun b hb hr => ?_, fun b ho hi => ?_⟩
    · have hfresh := h.ahead a (hdrop ▸ List.mem_cons_self)
      exact List.nodup_append.mpr ⟨h.once, List.nodup_singleton a, fun b hb c hc hbc =>
        hfresh (List.mem_singleton.mp hc ▸ hbc ▸ hb)⟩
    · rcases List.mem_append.mp hr with hr | hr
      · exact h.ahead b (hdrop ▸ List.mem_cons_of_mem _ hb) hr
      · exact hnot (List.mem_singleton.mp hr ▸ hb)
    · rcases h.due b ho hi with hr | hd
      · exact .inl (List.mem_append_left _ hr)
      · rw [hdrop] at hd
        rcases List.mem_cons.mp hd with rfl | hd
        · exact .inl (List.mem_append_right _ (List.mem_singleton_self _))
        · exact .inr hd
  · exact h

theorem Steady.insert {s : Cursor α} (h : s.Steady) (hi : i ≤ s.items.length) (hf : s.Fresh a)
    (hk : s.InsertKeeps i) : (s.insert i a).Steady := by
  obtain ⟨hitems, hret, howed⟩ := hf
  have hmem {b : α} : b ∈ s.items.insertIdx i a ↔ b = a ∨ b ∈ s.items := List.mem_insertIdx hi
  have hnodup : (s.items.insertIdx i a).Nodup := by
    rw [List.Perm.nodup_iff (List.perm_insertIdx a s.items hi)]
    exact List.nodup_cons.mpr ⟨hitems, h.nodup⟩
  by_cases hlt : i < s.index
  · refine ⟨hnodup, h.once, fun b hb => ?_, fun b ho hb => ?_⟩
    · rw [Cursor.insert, drop_insertIdx_of_lt hlt] at hb
      rcases mem_drop_or_eq hb with hb | hb
      · exact hk hlt b hb
      · exact h.ahead b hb
    · rw [Cursor.insert, if_neg (Nat.not_le.mpr hlt)] at ho
      rcases hmem.mp hb with rfl | hb
      · exact absurd ho howed
      · rcases h.due b ho hb with hr | hd
        · exact .inl hr
        · refine .inr ?_
          rw [Cursor.insert, drop_insertIdx_of_lt hlt]
          exact List.drop_subset_drop_left s.items (Nat.sub_le _ _) hd
  · have hle := Nat.not_lt.mp hlt
    refine ⟨hnodup, h.once, fun b hb => ?_, fun b ho hb => ?_⟩
    · rcases (mem_drop_insertIdx hle hi).mp hb with rfl | hb
      · exact hret
      · exact h.ahead b hb
    · rw [Cursor.insert, if_pos hle] at ho
      rcases List.mem_cons.mp ho with rfl | hold
      · exact .inr ((mem_drop_insertIdx hle hi).mpr (.inl rfl))
      · rcases hmem.mp hb with rfl | hb
        · exact absurd hold howed
        · exact (h.due b hold hb).imp_right fun hd => (mem_drop_insertIdx hle hi).mpr (.inr hd)

theorem Steady.erase {s : Cursor α} (h : s.Steady) (hk : s.EraseKeeps i) : (s.erase i).Steady := by
  have hnodup : (s.items.eraseIdx i).Nodup := h.nodup.eraseIdx i
  by_cases hlt : i < s.index
  · refine ⟨hnodup, h.once, fun b hb => ?_, fun b ho hb => ?_⟩
    · rw [Cursor.erase, drop_eraseIdx_of_lt hlt] at hb
      exact h.ahead b (List.drop_subset_drop_left s.items (Nat.le_succ _) hb)
    · refine (h.due b ho (List.mem_of_mem_eraseIdx hb)).imp_right fun hd => ?_
      rw [Cursor.erase, drop_eraseIdx_of_lt hlt]
      rcases mem_drop_or_eq (n := s.index + 1) hd with he | hd
      · exact absurd ho (hk hlt b he)
      · exact hd
  · have hle := Nat.not_lt.mp hlt
    refine ⟨hnodup, h.once, fun b hb => ?_, fun b ho hb => ?_⟩
    · rw [Cursor.erase, drop_eraseIdx_of_ge hle] at hb
      exact h.ahead b (List.mem_of_mem_eraseIdx hb)
    · refine (h.due b ho (List.mem_of_mem_eraseIdx hb)).imp_right fun hd => ?_
      rw [Cursor.erase, ← List.take_append_drop s.index (s.items.eraseIdx i)] at hb
      rcases List.mem_append.mp hb with hb | hb
      · rw [List.take_eraseIdx_eq_take_of_le _ _ _ hle] at hb
        exact absurd hd (List.disjoint_take_drop h.nodup le_rfl hb)
      · exact hb

@[simp] theorem advance_items (s : Cursor α) : s.advance.items = s.items := by
  rw [Cursor.advance]
  split <;> rfl

@[simp] theorem advance_owed (s : Cursor α) : s.advance.owed = s.owed := by
  rw [Cursor.advance]
  split <;> rfl

theorem advance_iterate (k : Nat) (s : Cursor α) :
    (advance^[k] s).items = s.items ∧ (advance^[k] s).owed = s.owed ∧
      (advance^[k] s).returned = s.returned ++ (s.items.drop s.index).take k ∧
      min (s.index + k) s.items.length ≤ (advance^[k] s).index := by
  induction k generalizing s with
  | zero => simp
  | succ k ih =>
    obtain ⟨hi, ho, hr, hx⟩ := ih s.advance
    rw [advance_items] at hi hx hr
    rw [advance_owed] at ho
    rw [Function.iterate_succ_apply]
    refine ⟨hi, ho, ?_, ?_⟩
    · rw [hr, Cursor.advance]
      split
      · rename_i a ha
        obtain ⟨hlt, rfl⟩ := List.getElem?_eq_some_iff.mp ha
        rw [List.drop_eq_getElem_cons hlt, List.take_succ_cons, List.append_assoc]
        rfl
      · rename_i ha
        rw [List.drop_eq_nil_of_le (List.getElem?_eq_none_iff.mp ha), List.take_nil, List.take_nil]
    · refine le_trans ?_ hx
      rw [Cursor.advance]
      split
      · exact le_of_eq (by rw [Nat.add_right_comm, Nat.add_assoc])
      · rename_i ha
        have hend := List.getElem?_eq_none_iff.mp ha
        exact (min_le_right _ _).trans (le_min (hend.trans (Nat.le_add_right _ _)) le_rfl)

theorem Steady.lasting {s : Cursor α} (h : s.Steady) : s.Lasting := by
  intro k
  suffices hk : (Cursor.advance^[k] s).Steady from hk.sound
  induction k generalizing s with
  | zero => exact h
  | succ k ih => exact ih h.advance

theorem Lasting.insertKeeps {s : Cursor α} (h : (s.insert i a).Lasting) : s.InsertKeeps i := by
  intro hlt b hb hr
  obtain ⟨-, -, hret, -⟩ := advance_iterate 1 (s.insert i a)
  have honce := (h 1).once
  rw [hret] at honce
  refine (List.nodup_append.mp honce).2.2 b hr b ?_ rfl
  obtain ⟨hn, rfl⟩ := List.getElem?_eq_some_iff.mp hb
  rw [Cursor.insert, drop_insertIdx_of_lt hlt, List.drop_eq_getElem_cons hn]
  exact List.mem_cons_self

theorem Lasting.eraseKeeps {s : Cursor α} (h : (s.erase i).Lasting) (hs : s.Steady) :
    s.EraseKeeps i := by
  intro hlt b hb ho
  obtain ⟨hn, rfl⟩ := List.getElem?_eq_some_iff.mp hb
  obtain ⟨hi, how, hret, hx⟩ := advance_iterate s.items.length (s.erase i)
  have hdrop := List.drop_eq_getElem_cons hn
  have hall := (h s.items.length).all
  rw [hi, how, hret] at hall
  have hmem : s.items[s.index] ∈ (s.erase i).items := by
    refine List.mem_of_getElem? (i := s.index - 1) ?_
    rw [Cursor.erase, List.getElem?_eraseIdx_of_ge (by omega), Nat.sub_add_cancel (by omega), hb]
  have hlen : (s.erase i).items.length ≤ s.items.length := List.length_eraseIdx_le s.items i
  have hend : (s.erase i).items.length ≤ (Cursor.advance^[s.items.length] (s.erase i)).index := by
    refine le_trans ?_ hx
    exact le_min (hlen.trans (Nat.le_add_left _ _)) le_rfl
  rcases List.mem_append.mp (hall hend _ ho hmem) with hr | hr
  · exact hs.ahead _ (hdrop ▸ List.mem_cons_self) hr
  · have hn := hs.nodup.sublist (List.drop_sublist s.index s.items)
    rw [hdrop] at hn
    refine (List.nodup_cons.mp hn).1 ?_
    have hr := List.mem_of_mem_take hr
    rwa [Cursor.erase, drop_eraseIdx_of_lt hlt] at hr

end Cursor

end PrismPipe
