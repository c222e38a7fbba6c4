import Mathlib.Data.List.Nodup
import Mathlib.Data.List.Perm.Basic

/-! A map of bounded size that gives up its least recently used entry. -/

universe u v

namespace PrismPipe

structure Lru (κ : Type u) (υ : Type v) (bound : Nat) where
  entries : List (κ × υ)
  nodup : (entries.map (·.1)).Nodup
  length_le : entries.length ≤ bound

namespace Lru

variable {κ : Type u} {υ : Type v} {bound : Nat} [DecidableEq κ]

omit [DecidableEq κ] in
@[ext] theorem ext {m m' : Lru κ υ bound} (h : m.entries = m'.entries) : m = m' := by
  cases m
  cases m'
  simp_all

def empty : Lru κ υ bound := ⟨[], List.nodup_nil, Nat.zero_le _⟩

def lookup (m : Lru κ υ bound) (key : κ) : Option υ :=
  (m.entries.find? fun e => e.1 = key).map (·.2)

def erase (m : Lru κ υ bound) (key : κ) : Lru κ υ bound where
  entries := m.entries.filter fun e => e.1 ≠ key
  nodup := m.nodup.sublist (List.filter_sublist.map _)
  length_le := Nat.le_trans (List.length_filter_le _ _) m.length_le

def insert (m : Lru κ υ bound) (key : κ) (value : υ) : Lru κ υ bound where
  entries := ((key, value) :: (m.erase key).entries).take bound
  nodup := by
    refine List.Nodup.sublist ((List.take_sublist _ _).map _) ?_
    rw [List.map_cons]
    refine List.nodup_cons.mpr ⟨fun hk => ?_, (m.erase key).nodup⟩
    obtain ⟨e, he, rfl⟩ := List.mem_map.mp hk
    simpa using (List.mem_filter.mp he).2
  length_le := List.length_take_le _ _

theorem erase_entries (m : Lru κ υ bound) (key : κ) :
    (m.erase key).entries = m.entries.filter fun e => e.1 ≠ key := rfl

theorem insert_entries (m : Lru κ υ bound) (key : κ) (value : υ) :
    (m.insert key value).entries = ((key, value) :: (m.erase key).entries).take bound := rfl

theorem lookup_eq_some {m : Lru κ υ bound} : m.lookup key = some value ↔
    (key, value) ∈ m.entries := by
  unfold lookup
  constructor
  · intro h
    obtain ⟨⟨k, v⟩, hf, rfl⟩ := Option.map_eq_some_iff.mp h
    have hk : k = key := by simpa using List.find?_some hf
    exact hk ▸ List.mem_of_find?_eq_some hf
  · intro h
    cases hf : m.entries.find? fun e => e.1 = key with
    | none =>
      rw [List.find?_eq_none] at hf
      exact absurd (decide_eq_true rfl) (hf _ h)
    | some e =>
      have hk : e.1 = key := by simpa using List.find?_some hf
      have he := List.inj_on_of_nodup_map m.nodup (List.mem_of_find?_eq_some hf) h hk
      rw [he]
      rfl

theorem lookup_eq_none {m : Lru κ υ bound} : m.lookup key = none ↔
    ∀ e ∈ m.entries, e.1 ≠ key := by
  rw [lookup, Option.map_eq_none_iff, List.find?_eq_none]
  simp

theorem replace_entries {m : Lru κ υ bound} (h : m.lookup key = some old) (value : υ) :
    (m.insert key value).entries = (key, value) :: (m.erase key).entries := by
  refine List.take_of_length_le ?_
  have hlt : (m.erase key).entries.length < m.entries.length :=
    List.length_filter_lt_length_iff_exists.mpr ⟨_, lookup_eq_some.mp h, by simp⟩
  exact Nat.le_trans hlt m.length_le

end Lru

end PrismPipe
