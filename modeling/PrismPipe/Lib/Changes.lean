import Mathlib.Data.List.Nodup
import Mathlib.Logic.Function.Basic

/-! Logs of writes to a store, each with what it overwrote: what a log leads to, and logs of the
differences of two stores. -/

universe u v

namespace PrismPipe

structure Change (κ : Type u) (V : Type v) where
  key : κ
  old : V
  new : V

namespace Change

variable {κ : Type u} {V : Type v} [DecidableEq κ]

def write (s : κ → V) (c : Change κ V) : κ → V := Function.update s c.key c.new

def replay (changes : List (Change κ V)) (s : κ → V) : κ → V := changes.foldl write s

def Dated : List (Change κ V) → (κ → V) → Prop
  | [], _ => True
  | c :: changes, s => c.old = s c.key ∧ Dated changes (c.write s)

omit [DecidableEq κ] in
/-- One for each key whose values `ne` has differ, in any order. -/
structure Differences (ne : V → V → Bool) (changes : List (Change κ V)) (before after : κ → V) :
    Prop where
  nodup : (changes.map (·.key)).Nodup
  mem : ∀ c, c ∈ changes ↔ c.old = before c.key ∧ c.new = after c.key ∧ ne c.old c.new

theorem replay_append (cs ds : List (Change κ V)) (s : κ → V) :
    replay (cs ++ ds) s = replay ds (replay cs s) := List.foldl_append

theorem dated_append {cs ds : List (Change κ V)} :
    Dated (cs ++ ds) s ↔ Dated cs s ∧ Dated ds (replay cs s) := by
  induction cs generalizing s with
  | nil => exact (iff_of_eq (true_and _)).symm
  | cons c cs ih => exact (and_congr_right fun _ => ih).trans and_assoc.symm

theorem replay_of_notMem {changes : List (Change κ V)} (h : k ∉ changes.map (·.key)) :
    replay changes s k = s k := by
  induction changes generalizing s with
  | nil => rfl
  | cons c changes ih =>
    have hne : k ≠ c.key := List.ne_of_not_mem_cons h
    exact (ih (List.not_mem_of_not_mem_cons h)).trans (Function.update_of_ne hne _ _)

theorem replay_of_mem {changes : List (Change κ V)} (hn : (changes.map (·.key)).Nodup)
    (hc : c ∈ changes) : replay changes s c.key = c.new := by
  induction changes generalizing s with
  | nil => cases hc
  | cons d changes ih =>
    obtain ⟨hnot, hn⟩ := List.nodup_cons.mp hn
    rcases List.mem_cons.mp hc with rfl | hc
    · exact (replay_of_notMem hnot).trans (Function.update_self _ _ _)
    · exact ih hn hc

theorem dated_of_nodup {changes : List (Change κ V)} (hn : (changes.map (·.key)).Nodup)
    (h : ∀ c ∈ changes, c.old = s c.key) : Dated changes s := by
  induction changes generalizing s with
  | nil => trivial
  | cons c changes ih =>
    obtain ⟨hnot, hn⟩ := List.nodup_cons.mp hn
    refine ⟨h c List.mem_cons_self, ih hn fun d hd => ?_⟩
    have hne : d.key ≠ c.key := fun he => hnot (List.mem_map.mpr ⟨d, hd, he⟩)
    exact (h d (List.mem_cons_of_mem _ hd)).trans (Function.update_of_ne hne _ _).symm

variable {ne : V → V → Bool}

theorem Differences.dated {changes : List (Change κ V)} (h : Differences ne changes before after) :
    Dated changes before :=
  dated_of_nodup h.nodup fun c hc => ((h.mem c).mp hc).1

theorem Differences.replay {changes : List (Change κ V)} (h : Differences ne changes before after)
    (hne : ∀ v w, v ≠ w → ne v w) : replay changes before = after := by
  funext k
  by_cases hk : k ∈ changes.map (·.key)
  · obtain ⟨c, hc, rfl⟩ := List.mem_map.mp hk
    exact (replay_of_mem h.nodup hc).trans ((h.mem c).mp hc).2.1
  · rw [replay_of_notMem hk]
    by_contra hk'
    exact hk (List.mem_map.mpr
      ⟨⟨k, before k, after k⟩, (h.mem _).mpr ⟨rfl, rfl, hne _ _ hk'⟩, rfl⟩)

end Change

end PrismPipe
