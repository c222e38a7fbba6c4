import Mathlib.Data.Option.Basic

/-! Differences of finite maps: which keys were added, removed and modified between two of them, and
what it takes that a difference from another map shows the same. -/

universe u v

namespace PrismPipe

structure Patch (κ : Type u) (V : Type v) where
  added : κ → Option V
  modified : κ → Option (V × V)
  removed : κ → Bool

namespace Patch

variable {κ : Type u} {V : Type v} (ne : V → V → Bool)

/-- Keys that are kept are modified where `ne` has their values differ. -/
def between (before after : κ → Option V) : Patch κ V where
  added k := if (before k).isNone then after k else none
  modified k := match before k, after k with
    | some old, some new => if ne old new then some (old, new) else none
    | _, _ => none
  removed k := (before k).isSome && (after k).isNone

def apply (p : Patch κ V) (s : κ → Option V) : κ → Option V := fun k =>
  if p.removed k then none
  else match p.added k, p.modified k with
    | some v, _ => some v
    | none, some (_, v) => some v
    | none, none => s k

structure Shows (p : Patch κ V) (before after : κ → Option V) : Prop where
  added : ∀ k, (p.added k).isSome ↔ before k = none ∧ (after k).isSome
  removed : ∀ k, p.removed k ↔ (before k).isSome ∧ after k = none
  modified : ∀ k, (p.modified k).isSome ↔
    (before k).isSome ∧ (after k).isSome ∧ before k ≠ after k

def differ : Option V → Option V → Bool
  | some v, some w => ne v w
  | none, none => false
  | _, _ => true

/-- The same keys, and among those that are kept the ones that differ are those that are changed. -/
structure Alike (s before after : κ → Option V) : Prop where
  keys : ∀ k, (s k).isSome = (before k).isSome
  kept : ∀ k, (after k).isSome → (differ ne (s k) (after k) ↔ before k ≠ after k)

theorem between_at (s before after : κ → Option V) (k : κ) :
    (((between ne s after).added k).isSome ↔ before k = none ∧ (after k).isSome) ∧
      ((between ne s after).removed k ↔ (before k).isSome ∧ after k = none) ∧
      (((between ne s after).modified k).isSome ↔
        (before k).isSome ∧ (after k).isSome ∧ before k ≠ after k) ↔
    (s k).isSome = (before k).isSome ∧
      ((after k).isSome → (differ ne (s k) (after k) ↔ before k ≠ after k)) := by
  cases hs : s k <;> cases hb : before k <;> cases ha : after k <;>
    simp [between, differ, hs, ha]

theorem between_shows_iff (s before after : κ → Option V) :
    (between ne s after).Shows before after ↔ Alike ne s before after := by
  have hat := between_at ne s before after
  constructor
  · intro h
    have hk (k : κ) := (hat k).mp ⟨h.added k, h.removed k, h.modified k⟩
    exact ⟨fun k => (hk k).1, fun k => (hk k).2⟩
  · intro h
    have hk (k : κ) := (hat k).mpr ⟨h.keys k, h.kept k⟩
    exact ⟨fun k => (hk k).1, fun k => (hk k).2.1, fun k => (hk k).2.2⟩

structure Carries (p : Patch κ V) (after : κ → Option V) : Prop where
  added : ∀ k v, p.added k = some v → after k = some v
  modified : ∀ k old v, p.modified k = some (old, v) → after k = some v

theorem between_carries (before after : κ → Option V) :
    (between ne before after).Carries after where
  added k v h := by
    dsimp only [between] at h
    split at h
    · exact h
    · cases h
  modified k old v h := by
    dsimp only [between] at h
    split at h
    · rename_i ha
      split at h
      · cases h
        exact ha
      · cases h
    · cases h

theorem apply_of_shows {p : Patch κ V} (hs : p.Shows before after) (hc : p.Carries after) :
    p.apply before = after := by
  funext k
  have hremoved := hs.removed k
  have hadded := hs.added k
  have hmodified := hs.modified k
  unfold apply
  split
  · rename_i hr
    exact (hremoved.mp hr).2.symm
  · rename_i hr
    split
    · rename_i ha
      exact (hc.added k _ ha).symm
    · rename_i hm
      exact (hc.modified k _ _ hm).symm
    · rename_i ha hm
      rw [ha, Option.isSome_none] at hadded
      rw [hm, Option.isSome_none] at hmodified
      -- Neither added, nor removed, nor modified.
      cases hb : before k with
      | none =>
        cases hafter : after k with
        | none => rfl
        | some v => exact absurd (hadded.mpr ⟨hb, by rw [hafter]; rfl⟩) Bool.false_ne_true
      | some old =>
        cases hafter : after k with
        | none => exact absurd (hremoved.mpr ⟨by rw [hb]; rfl, hafter⟩) hr
        | some v =>
          by_contra hne
          refine absurd (hmodified.mpr ⟨by rw [hb]; rfl, by rw [hafter]; rfl, ?_⟩)
            Bool.false_ne_true
          rw [hb, hafter]
          exact hne

end Patch

end PrismPipe
