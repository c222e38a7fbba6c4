import Mathlib.Logic.Hydra
import Mathlib.Logic.Relation

/-! Walks along a relation that end: what one more edge does to them, and breadth-first walks down
the trees of a forest. -/

universe u

namespace PrismPipe.Forest

open Relation

section Edges

variable {α : Type u} {r : α → α → Prop} {a b x : α}

/-- A walk goes from `x` to `y` where `r y x`. -/
def Reaches (r : α → α → Prop) (x y : α) : Prop := ReflTransGen (fun x y => r y x) x y

/-- One more edge, from `a` to `b`. -/
def Joined (r : α → α → Prop) (a b y x : α) : Prop := r y x ∨ x = a ∧ y = b

theorem Reaches.head (h : r b a) (k : Reaches r b x) : Reaches r a x := ReflTransGen.head h k

theorem Reaches.mono {s : α → α → Prop} (h : Reaches r x y) (hrs : ∀ a b, r b a → s b a) :
    Reaches s x y := ReflTransGen.lift id hrs _ _ h

theorem acc_joined (h : WellFounded r) (hx : ¬ Reaches r x a) : Acc (Joined r a b) x := by
  induction x using h.induction with
  | _ x ih =>
    refine ⟨x, fun y hy => ?_⟩
    rcases hy with hy | ⟨rfl, -⟩
    · exact ih y hy fun hya => hx (hya.head hy)
    · exact absurd .refl hx

theorem not_cycle (h : WellFounded r) (hab : r b a) : ¬ Reaches r b a := by
  intro hba
  have hcycle : TransGen r a a := by
    have := TransGen.head' (r := fun x y => r y x) hab hba
    rwa [transGen_swap] at this
  exact h.transGen.asymmetric a a hcycle hcycle

theorem wellFounded_joined_iff (h : WellFounded r) :
    WellFounded (Joined r a b) ↔ ¬ Reaches r b a := by
  constructor
  · intro hw hba
    exact not_cycle hw (.inr ⟨rfl, rfl⟩) (hba.mono fun _ _ => .inl)
  · intro hn
    refine ⟨fun x => ?_⟩
    induction x using h.induction with
    | _ x ih =>
      refine ⟨x, fun y hy => ?_⟩
      rcases hy with hy | ⟨-, rfl⟩
      · exact ih y hy
      · exact acc_joined h hn

def Follows (f : α → Option α) (y x : α) : Prop := f x = some y

theorem Reaches.congr {f g : α → Option α} (h : Reaches (Follows f) x a)
    (hfg : ∀ x, x ≠ a → g x = f x) : Reaches (Follows g) x a := by
  induction h using ReflTransGen.head_induction_on with
  | refl => exact .refl
  | @head x y hxy _ ih =>
    by_cases hx : x = a
    · exact hx ▸ .refl
    · exact ih.head ((hfg x hx).trans hxy)

theorem wellFounded_update_some [DecidableEq α] {f : α → Option α} (h : WellFounded (Follows f)) :
    WellFounded (Follows (Function.update f a (some b))) ↔ ¬ Reaches (Follows f) b a := by
  constructor
  · intro hw hba
    have hedge : Function.update f a (some b) a = some b := Function.update_self a _ f
    exact not_cycle hw hedge (hba.congr fun x hx => Function.update_of_ne hx _ f)
  · intro hn
    refine Subrelation.wf (fun {y x} hyx => ?_) ((wellFounded_joined_iff h).mpr hn)
    by_cases hx : x = a
    · subst hx
      have hy : Function.update f x (some b) x = some y := hyx
      rw [Function.update_self] at hy
      exact .inr ⟨rfl, (Option.some.inj hy).symm⟩
    · exact .inl ((Function.update_of_ne hx _ f).symm.trans hyx)

theorem wellFounded_update_none [DecidableEq α] {f : α → Option α} (h : WellFounded (Follows f)) :
    WellFounded (Follows (Function.update f a none)) := by
  refine Subrelation.wf (fun {y x} hyx => ?_) h
  by_cases hx : x = a
  · subst hx
    have hnone : Function.update f x none x = some y := hyx
    rw [Function.update_self] at hnone
    cases hnone
  · exact (Function.update_of_ne hx _ f).symm.trans hyx

theorem wellFounded_update_iff [DecidableEq α] {f : α → Option α} (h : WellFounded (Follows f))
    (next : Option α) : WellFounded (Follows (Function.update f a next)) ↔
      ∀ b, next = some b → ¬ Reaches (Follows f) b a := by
  cases next with
  | none => exact iff_of_true (wellFounded_update_none h) nofun
  | some b =>
    rw [wellFounded_update_some h]
    exact ⟨fun hn _ hb => Option.some.inj hb ▸ hn, fun hn => hn b rfl⟩

end Edges

section Walks

variable {α : Type u}

inductive Walk (kids : α → List α) : List α → List α → Prop
  | nil : Walk kids [] []
  | pop : Walk kids (queue ++ kids x) found → Walk kids (x :: queue) (kids x ++ found)

def Child (kids : α → List α) (y x : α) : Prop := y ∈ kids x

def Below (kids : α → List α) : α → α → Prop := TransGen (Child kids)

variable {kids : α → List α} {queue found : List α} {x y : α}

theorem Walk.acc (h : Walk kids queue found) : ∀ x ∈ queue, Acc (Child kids) x := by
  induction h with
  | nil => exact List.forall_mem_nil _
  | pop _ ih =>
    refine List.forall_mem_cons.mpr ⟨⟨_, fun y hy => ?_⟩, fun y hy => ?_⟩
    · exact ih y (List.mem_append_right _ hy)
    · exact ih y (List.mem_append_left _ hy)

theorem Walk.exists (h : WellFounded (Child kids)) (queue : List α) :
    ∃ found, Walk kids queue found := by
  generalize hm : (queue : Multiset α) = m
  induction m using h.cutExpand.induction generalizing queue with
  | _ m ih =>
    cases queue with
    | nil => exact ⟨[], .nil⟩
    | cons x queue =>
      have hcut : CutExpand (Child kids) ↑(queue ++ kids x) m := by
        refine ⟨kids x, x, fun y hy => Multiset.mem_coe.mp hy, ?_⟩
        rw [← hm, ← Multiset.coe_add, ← Multiset.cons_coe, ← Multiset.singleton_add]
        ac_rfl
      obtain ⟨found, hf⟩ := ih _ hcut (queue ++ kids x) rfl
      exact ⟨_, .pop hf⟩

theorem below_iff : Below kids y x ↔ y ∈ kids x ∨ ∃ z ∈ kids x, Below kids y z := by
  constructor
  · intro h
    cases h with
    | single h => exact .inl h
    | tail h hz => exact .inr ⟨_, hz, h⟩
  · rintro (h | ⟨z, hz, h⟩)
    · exact .single h
    · exact .tail h hz

theorem Walk.mem (h : Walk kids queue found) : y ∈ found ↔ ∃ x ∈ queue, Below kids y x := by
  induction h with
  | nil => simp
  | @pop queue x found _ ih =>
    rw [List.mem_append, ih, List.exists_mem_cons_iff, below_iff]
    simp only [List.mem_append, or_and_right, exists_or]
    rw [or_assoc, or_comm (a := ∃ z, z ∈ queue ∧ _)]

structure IsForest (kids : α → List α) : Prop where
  wf : WellFounded (Child kids)
  unique : ∀ {x p q}, x ∈ kids p → x ∈ kids q → p = q
  nodup : ∀ p, (kids p).Nodup

structure Apart (kids : α → List α) (x y : α) : Prop where
  ne : x ≠ y
  notBelow : ¬ Below kids x y
  notAbove : ¬ Below kids y x

theorem IsForest.irrefl (hf : IsForest kids) : ¬ Below kids x x := fun h =>
  hf.wf.transGen.asymmetric x x h h

theorem IsForest.above (hf : IsForest kids) (hx : x ∈ kids p) (h : Below kids x y) :
    y = p ∨ Below kids p y := by
  obtain ⟨q, hq, hqy⟩ := TransGen.head'_iff.mp h
  obtain rfl := hf.unique hx hq
  exact reflTransGen_iff_eq_or_transGen.mp hqy

theorem IsForest.siblings (hf : IsForest kids) (hx : x ∈ kids p) (hy : y ∈ kids p) :
    ¬ Below kids x y := by
  intro h
  rcases hf.above hx h with rfl | hpy
  · exact hf.irrefl (.single hy)
  · exact hf.irrefl (hpy.tail hy)

theorem IsForest.apart_queue (hf : IsForest kids) (h : (x :: queue).Pairwise (Apart kids)) :
    (queue ++ kids x).Pairwise (Apart kids) := by
  obtain ⟨hx, hq⟩ := List.pairwise_cons.mp h
  refine List.pairwise_append.mpr ⟨hq, ?_, fun z hz y hy => ⟨?_, fun hb => ?_, fun hb => ?_⟩⟩
  · exact (hf.nodup x).imp_of_mem fun hy hz hne => ⟨hne, hf.siblings hy hz, hf.siblings hz hy⟩
  · rintro rfl
    exact (hx z hz).notAbove (.single hy)
  · exact (hx z hz).notAbove (hb.tail hy)
  · rcases hf.above hy hb with rfl | hb
    · exact (hx z hz).ne rfl
    · exact (hx z hz).notBelow hb

theorem Walk.nodup (hf : IsForest kids) (h : Walk kids queue found)
    (hq : queue.Pairwise (Apart kids)) : found.Nodup := by
  induction h with
  | nil => exact List.nodup_nil
  | @pop queue x found hw ih =>
    have hnext := hf.apart_queue hq
    obtain ⟨hx, -⟩ := List.pairwise_cons.mp hq
    refine List.nodup_append.mpr ⟨hf.nodup x, ih hnext, ?_⟩
    rintro y hy _ hfound rfl
    obtain ⟨z, hz, hb⟩ := hw.mem.mp hfound
    rcases List.mem_append.mp hz with hqueue | hkid
    · rcases hf.above hy hb with rfl | hb
      · exact (hx z hqueue).ne rfl
      · exact (hx z hqueue).notBelow hb
    · exact hf.siblings hy hkid hb

end Walks

end PrismPipe.Forest
