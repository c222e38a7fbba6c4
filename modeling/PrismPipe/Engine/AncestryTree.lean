import PrismPipe.Engine.Lineage

/-! `AncestryTree`: the requests that were executed, under their parents, and the walk up from one
of them. -/

namespace PrismPipe.Engine

open Relation Forest

/-- The items of `_children`, in the order of its keys. -/
structure AncestryTree where
  children : List (String × List String)

namespace AncestryTree

def init : AncestryTree := ⟨[]⟩

def addChild (self : AncestryTree) (parentId childId : String) : AncestryTree :=
  if parentId ∈ self.children.map Prod.fst then
    ⟨self.children.map fun item =>
      if item.1 = parentId then (item.1, item.2 ++ [childId]) else item⟩
  else ⟨self.children ++ [(parentId, [childId])]⟩

def parentOf (self : AncestryTree) (current : String) : Option String :=
  (self.children.find? fun item => current ∈ item.2).map Prod.fst

/-- `none` where the loop has not ended after so many turns. -/
def walk (self : AncestryTree) : Nat → String → List String → Option (List String)
  | fuel, current, lineage =>
    match link (self.parentOf current) with
    | none => some lineage
    | some parent =>
      match fuel with
      | 0 => none
      | fuel + 1 => self.walk fuel parent (parent :: lineage)

def getLineage (self : AncestryTree) (fuel : Nat) (requestId : String) : Option (List String) :=
  self.walk fuel requestId [requestId]

/-- The `ancestry_tree` that calls `add_child(parent_id, child_id)` leave. -/
def tree (calls : List (String × String)) : AncestryTree :=
  calls.foldl (fun self call => self.addChild call.1 call.2) init

def next (self : AncestryTree) (x : String) : Option String := link (self.parentOf x)

variable {self : AncestryTree} {fuel : Nat} {x y : String} {rest lineage : List String}

theorem walk_of_none (h : self.next x = none) : self.walk fuel x rest = some rest := by
  unfold walk
  rw [show link (self.parentOf x) = none from h]

theorem walk_zero (h : self.next x = some y) : self.walk 0 x rest = none := by
  unfold walk
  rw [show link (self.parentOf x) = some y from h]

theorem walk_succ (h : self.next x = some y) :
    self.walk (fuel + 1) x rest = self.walk fuel y (y :: rest) := by
  conv => lhs; unfold walk
  rw [show link (self.parentOf x) = some y from h]

theorem walk_induction {motive : String → List String → Prop}
    (root : ∀ x, self.next x = none → motive x lineage)
    (up : ∀ x y rest, self.next x = some y → motive y (y :: rest) → motive x rest)
    (h : self.walk fuel x rest = some lineage) : motive x rest := by
  induction fuel generalizing x rest with
  | zero =>
    cases hx : self.next x with
    | none =>
      rw [walk_of_none hx] at h
      cases h
      exact root x hx
    | some y =>
      rw [walk_zero hx] at h
      cases h
  | succ fuel ih =>
    cases hx : self.next x with
    | none =>
      rw [walk_of_none hx] at h
      cases h
      exact root x hx
    | some y =>
      rw [walk_succ hx] at h
      exact up x y rest hx (ih h)

theorem walk_ends_iff : (∃ fuel lineage, self.walk fuel x rest = some lineage) ↔
    Acc (Follows self.next) x := by
  constructor
  · rintro ⟨fuel, lineage, h⟩
    refine walk_induction (motive := fun x _ => Acc (Follows self.next) x) ?_ ?_ h
    · intro x hx
      refine ⟨x, fun y hy => ?_⟩
      cases hx.symm.trans hy
    · intro x y rest hx ih
      refine ⟨x, fun z hz => ?_⟩
      cases hx.symm.trans hz
      exact ih
  · intro h
    induction h generalizing rest with
    | intro x _ ih =>
      cases hx : self.next x with
      | none => exact ⟨0, rest, walk_of_none hx⟩
      | some y =>
        have hends : ∃ fuel lineage, self.walk fuel y (y :: rest) = some lineage := ih y hx
        obtain ⟨fuel, lineage, hy⟩ := hends
        exact ⟨fuel + 1, lineage, (walk_succ hx).trans hy⟩

theorem ends_iff : (∀ x, ∃ fuel lineage, self.getLineage fuel x = some lineage) ↔
    WellFounded (Follows self.next) :=
  ⟨fun h => ⟨fun x => walk_ends_iff.mp (h x)⟩, fun h x => walk_ends_iff.mpr (h.apply x)⟩

theorem reaches_iff : Reaches (Follows self.next) x y ↔
    x = y ∨ ∃ z, self.next x = some z ∧ Reaches (Follows self.next) z y :=
  ReflTransGen.cases_head_iff

theorem mem_walk (h : self.walk fuel x rest = some lineage) :
    y ∈ lineage ↔ y ∈ rest ∨ ∃ z, self.next x = some z ∧ Reaches (Follows self.next) z y := by
  refine walk_induction (motive := fun x rest => y ∈ lineage ↔
    y ∈ rest ∨ ∃ z, self.next x = some z ∧ Reaches (Follows self.next) z y) ?_ ?_ h
  · intro x hx
    simp [hx]
  · intro x z rest hx ih
    rw [ih, List.mem_cons, or_comm (a := y = z), or_assoc, hx]
    refine or_congr_right ?_
    simp only [Option.some.injEq, exists_eq_left', reaches_iff (x := z)]
    rw [eq_comm]

theorem mem_getLineage (h : self.getLineage fuel x = some lineage) :
    y ∈ lineage ↔ Reaches (Follows self.next) x y := by
  rw [mem_walk h, List.mem_singleton, reaches_iff, eq_comm]

/-- What `get_lineage` answers: the request last, before each its parent, and first one that has
none. -/
structure IsLineage (self : AncestryTree) (requestId : String) (lineage : List String) : Prop where
  last : [requestId] <:+ lineage
  parents : lineage.IsChain fun parent child => self.next child = some parent
  root : ∀ root ∈ lineage.head?, self.next root = none

theorem isLineage_walk (h : self.walk fuel x rest = some lineage) (hx : rest.head? = some x)
    (hlast : [y] <:+ rest) (hrest : rest.IsChain fun a b => self.next b = some a) :
    self.IsLineage y lineage := by
  refine walk_induction (motive := fun x rest => rest.head? = some x → [y] <:+ rest →
      (rest.IsChain fun a b => self.next b = some a) → self.IsLineage y lineage)
    ?_ ?_ h hx hlast hrest
  · intro x hx hhead hlast hchain
    refine ⟨hlast, hchain, fun root hroot => ?_⟩
    cases hhead.symm.trans hroot
    exact hx
  · intro x z rest hx ih hhead hlast hchain
    refine ih rfl (hlast.trans (List.suffix_cons ..)) (List.isChain_cons.mpr ⟨?_, hchain⟩)
    intro b hb
    cases hhead.symm.trans hb
    exact hx

section AddChild

variable {p c : String}

theorem parentOf_addChild (h : x ≠ c) : (self.addChild p c).parentOf x = self.parentOf x := by
  unfold addChild
  split
  · unfold parentOf
    dsimp only
    induction self.children with
    | nil => rfl
    | cons item items ih =>
      rw [List.map_cons, List.find?_cons, List.find?_cons]
      by_cases hp : item.1 = p
      · by_cases hx : x ∈ item.2
        · simp [hp, hx]
        · simpa [hp, hx, h] using ih
      · by_cases hx : x ∈ item.2
        · simp [hp, hx]
        · simpa [hp, hx] using ih
  · unfold parentOf
    simp [List.find?_append, h]

theorem next_addChild (self : AncestryTree) (p c : String) : (self.addChild p c).next =
    Function.update self.next c ((self.addChild p c).next c) := by
  funext x
  by_cases h : x = c
  · subst h
    rw [Function.update_self]
  · rw [Function.update_of_ne h, next, parentOf_addChild h, next]

end AddChild

theorem tree_concat (calls : List (String × String)) (call : String × String) :
    tree (calls ++ [call]) = (tree calls).addChild call.1 call.2 := List.foldl_concat ..

theorem wellFounded_init : WellFounded (Follows init.next) :=
  ⟨fun x => ⟨x, nofun⟩⟩

theorem wellFounded_addChild (h : WellFounded (Follows self.next)) (p c : String) :
    WellFounded (Follows (self.addChild p c).next) ↔
      ∀ q, (self.addChild p c).next c = some q → ¬ Reaches (Follows self.next) q c := by
  rw [next_addChild, wellFounded_update_iff h, Function.update_self]

/-- In the course of any calls of `add_child`, `get_lineage` always returns, whatever it is asked
for, exactly if no call gives a request a parent that has the request in its lineage; and what it
returns is the lineage. -/
theorem ancestry_ends_iff (calls : List (String × String)) :
    ((∀ before, before <+: calls → ∀ x, ∃ fuel lineage,
        (tree before).getLineage fuel x = some lineage) ↔
      ∀ before parentId childId, before ++ [(parentId, childId)] <+: calls → ∀ parent,
        (tree (before ++ [(parentId, childId)])).next childId = some parent →
        ∀ fuel lineage, (tree before).getLineage fuel parent = some lineage →
          childId ∉ lineage) ∧
    ∀ x fuel lineage, (tree calls).getLineage fuel x = some lineage →
      (tree calls).IsLineage x lineage := by
  refine ⟨⟨fun h before p c hcalls parent hparent fuel lineage hlineage => ?_,
    fun h before hbefore => ends_iff.mpr ?_⟩, fun x fuel lineage h => ?_⟩
  · have hwf := ends_iff.mp (h before ((List.prefix_append ..).trans hcalls))
    have hnext := ends_iff.mp (h _ hcalls)
    rw [tree_concat] at hnext hparent
    rw [mem_getLineage hlineage]
    exact (wellFounded_addChild hwf p c).mp hnext parent hparent
  · induction before using List.reverseRecOn with
    | nil => exact wellFounded_init
    | append_singleton before call ih =>
      have hwf := ih ((List.prefix_append ..).trans hbefore)
      rw [tree_concat, wellFounded_addChild hwf]
      intro parent hparent
      obtain ⟨fuel, lineage, hlineage⟩ := ends_iff.mpr hwf parent
      rw [← mem_getLineage hlineage]
      rw [← tree_concat] at hparent
      exact h before call.1 call.2 hbefore parent hparent fuel lineage hlineage
  · exact isLineage_walk h rfl List.suffix_rfl (List.isChain_singleton x)

theorem ancestry_ends_of_two : (tree [("", "a"), ("a", "b")]).IsLineage "b" ["a", "b"] :=
  (ancestry_ends_iff [("", "a"), ("a", "b")]).2 "b" 1 ["a", "b"] (by decide)

/-- A request that is its own parent. -/
example (fuel : Nat) : (tree [("a", "a")]).getLineage fuel "a" = none := by
  have hloop (rest : List String) : (tree [("a", "a")]).walk fuel "a" rest = none := by
    induction fuel generalizing rest with
    | zero => exact walk_zero (show (tree [("a", "a")]).next "a" = some "a" by decide)
    | succ fuel ih => rw [walk_succ (show (tree [("a", "a")]).next "a" = some "a" by decide), ih]
  exact hloop ["a"]

end AncestryTree

end PrismPipe.Engine
