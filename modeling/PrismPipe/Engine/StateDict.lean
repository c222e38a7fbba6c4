import Mathlib.Data.Option.Basic
import Mathlib.Logic.Relation

/-! The state of an organism: a dictionary whose keys are public unless they start with `_`. -/

namespace PrismPipe.Engine

class PyValue (V : Type) where
  ofBool : Bool → V
  ofStr : String → V

/-- `!=`, on values that are one where they are `==`; one like NaN also differs from itself. -/
class PyNe (V : Type) where
  ne : V → V → Bool
  ne_of_ne : ∀ v w, v ≠ w → ne v w

def isPrivate (key : String) : Bool := key.toList.head? = some '_'

/-- A `dict[str, V]`. -/
abbrev StateDict (V : Type) := String → Option V

namespace StateDict

variable {V : Type}

def empty : StateDict V := fun _ => none

def set (s : StateDict V) (key : String) (value : V) : StateDict V :=
  fun k => if k = key then some value else s k

/-- `{k: v for k, v in s.items() if not str(k).startswith("_")}`. -/
def publicState (s : StateDict V) : StateDict V := fun k => if isPrivate k then none else s k

/-- `for key, value in t.items(): if not str(key).startswith("_"): s[key] = value`. -/
def restore (s t : StateDict V) : StateDict V := fun k => (t.publicState k).or (s k)

/-- Each value as `f` makes it. -/
def mapValues (f : V → V) (s : StateDict V) : StateDict V := fun k => (s k).map f

def SameKeys (s t : StateDict V) : Prop := ∀ k, (s k).isSome = (t k).isSome

def Related (R : V → V → Prop) (s t : StateDict V) : Prop := ∀ k, Option.Rel R (s k) (t k)

/-- Every public key of `s` is one of `t`. -/
def Within (s t : StateDict V) : Prop := ∀ k, (s.publicState k).isSome → (t.publicState k).isSome

@[simp] theorem publicState_publicState (s : StateDict V) :
    s.publicState.publicState = s.publicState := by
  funext k
  by_cases hk : isPrivate k <;> simp [publicState, hk]

theorem publicState_set (s : StateDict V) (hk : isPrivate key) (value : V) :
    (s.set key value).publicState = s.publicState := by
  funext k
  by_cases h : isPrivate k
  · simp [publicState, h]
  · have hne : k ≠ key := by
      rintro rfl
      exact h hk
    simp [publicState, set, h, hne]

theorem publicState_restore (s t : StateDict V) :
    (s.restore t).publicState = fun k => (t.publicState k).or (s.publicState k) := by
  funext k
  by_cases hk : isPrivate k <;> simp [publicState, restore, hk]

theorem publicState_restore_iff (s t : StateDict V) :
    (s.restore t).publicState = t.publicState ↔ s.Within t := by
  rw [publicState_restore]
  constructor
  · intro h k hk
    rw [← congrFun h k, Option.isSome_or, hk, Bool.or_true]
  · intro h
    funext k
    cases ht : t.publicState k with
    | some => rfl
    | none =>
      cases hs : s.publicState k with
      | none => rfl
      | some =>
        have := h k (by rw [hs]; rfl)
        rw [ht] at this
        cases this

theorem sameKeys_mapValues (f : V → V) (s : StateDict V) : s.SameKeys (s.mapValues f) :=
  fun _ => Option.isSome_map.symm

theorem Related.sameKeys {R : V → V → Prop} {s t : StateDict V} (h : s.Related R t) :
    s.SameKeys t := by
  intro k
  have hk := h k
  cases hs : s k <;> cases ht : t k <;> rw [hs, ht] at hk
  case none.some | some.none => cases hk
  all_goals rfl

theorem Related.mono {R R' : V → V → Prop} {s t : StateDict V} (h : s.Related R t)
    (hR : ∀ v w, R v w → R' v w) : s.Related R' t := by
  intro k
  have hk := h k
  cases hs : s k <;> cases ht : t k <;> rw [hs, ht] at hk <;> cases hk
  case none.none => exact .none
  case some.some h => exact .some (hR _ _ h)

theorem Related.trans {R : V → V → Prop} [IsTrans V R] {s t u : StateDict V}
    (h : s.Related R t) (h' : t.Related R u) : s.Related R u := by
  intro k
  have hk := h k
  have hk' := h' k
  cases hs : s k <;> cases ht : t k <;> cases hu : u k <;> rw [hs, ht] at hk <;>
    rw [ht, hu] at hk' <;> cases hk <;> cases hk'
  case none.none.none => exact .none
  case some.some.some h₁ h₂ => exact .some (IsTrans.trans _ _ _ h₁ h₂)

theorem SameKeys.publicState {s t : StateDict V} (h : s.publicState.SameKeys t) :
    t.publicState = t := by
  funext k
  have hk := h k
  unfold StateDict.publicState at hk ⊢
  split
  next hprivate =>
    rw [if_pos hprivate] at hk
    exact (Option.isNone_iff_eq_none.mp (Option.isSome_eq_false_iff.mp hk.symm)).symm
  · rfl

theorem publicState_restore_eq_iff {s t r : StateDict V} (h : t.publicState.SameKeys r) :
    (s.restore r).publicState = t.publicState ↔ s.Within t ∧ r = t.publicState := by
  have hr := h.publicState
  constructor
  · intro heq
    have hsame : r = t.publicState := by
      funext k
      have hk := congrFun heq k
      rw [publicState_restore, hr] at hk
      cases hrk : r k with
      | none =>
        have hnone := h k
        rw [hrk] at hnone
        exact (Option.isNone_iff_eq_none.mp (Option.isSome_eq_false_iff.mp hnone)).symm
      | some v =>
        dsimp only at hk
        rw [hrk] at hk
        exact hk
    refine ⟨?_, hsame⟩
    have hwithin := (publicState_restore_iff s r).mp (by rw [heq, hr, hsame])
    rw [hsame] at hwithin
    simpa only [Within, publicState_publicState] using hwithin
  · rintro ⟨hwithin, rfl⟩
    have hwithin' : s.Within t.publicState := by
      simpa only [Within, publicState_publicState] using hwithin
    rw [(publicState_restore_iff s t.publicState).mpr hwithin', publicState_publicState]

end StateDict

end PrismPipe.Engine
