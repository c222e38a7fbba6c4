import PrismPipe.Core.Wire
import PrismPipe.Lib.Cursor
import PrismPipe.Lib.Transition

/-! `ExecutionPlan` of `core/envelope.py`: what `next` returns of a plan that is edited while it is
walked. -/

namespace PrismPipe.Wire

open Python Transition

/-- Where `list.insert` puts an item. -/
def insertPosition (index : Int) (length : Nat) : Nat :=
  min (if index < 0 then (index + length).toNat else index.toNat) length

/-- `items[index]`; `none` is an `IndexError`. -/
def getItem (items : List α) (index : Int) : Option α :=
  if 0 ≤ index then items[index.toNat]?
  else if 0 ≤ index + items.length then items[(index + items.length).toNat]?
  else none

theorem insertPosition_le (index : Int) (length : Nat) : insertPosition index length ≤ length :=
  Nat.min_le_right _ _

theorem getItem_map (f : α → β) (l : List α) (i : Int) :
    getItem (l.map f) i = (getItem l i).map f := by
  rw [getItem, getItem, List.length_map]
  split
  · exact List.getElem?_map
  · split
    · exact List.getElem?_map
    · rfl

theorem getItem_of_nonneg (h : 0 ≤ i) (l : List α) : getItem l i = l[i.toNat]? := if_pos h

namespace ExecutionPlan

def add (plan : ExecutionPlan) (capability : PyStr) : ExecutionPlan :=
  { plan with capabilities := plan.capabilities ++ [capability] }

def insert (plan : ExecutionPlan) (index : Int) (capability : PyStr) : ExecutionPlan :=
  { plan with
    capabilities := plan.capabilities.insertIdx (insertPosition index plan.capabilities.length)
      capability }

def remove (plan : ExecutionPlan) (capability : PyStr) : ExecutionPlan :=
  if capability ∈ plan.capabilities then
    { plan with capabilities := plan.capabilities.erase capability }
  else plan

/-- `none` is an `IndexError`. -/
def next (plan : ExecutionPlan) : Option (Option PyStr × ExecutionPlan) :=
  if plan.currentIndex < plan.capabilities.length then do
    let result ← getItem plan.capabilities plan.currentIndex
    return (some result, { plan with currentIndex := plan.currentIndex + 1 })
  else some (none, plan)

end ExecutionPlan

structure Occurrence where
  id : Nat
  capability : PyStr
  deriving DecidableEq

/-- A plan of occurrences, with those `next` returned and those placed at or after the cursor. -/
structure Walk where
  slots : List Occurrence
  currentIndex : Int
  returned : List Occurrence
  owed : List Occurrence

inductive Edit
  | next
  | add (o : Occurrence)
  | insert (index : Int) (o : Occurrence)
  | remove (capability : PyStr)

namespace Walk

def plan (s : Walk) : ExecutionPlan := ⟨s.slots.map (·.capability), s.currentIndex⟩

def cursor (s : Walk) : Cursor Occurrence := ⟨s.slots, s.currentIndex.toNat, s.returned, s.owed⟩

def start (plan : ExecutionPlan) : Walk :=
  let slots := plan.capabilities.zipIdx.map fun c => ⟨c.2, c.1⟩
  ⟨slots, plan.currentIndex, [], slots.drop plan.currentIndex.toNat⟩

def next (s : Walk) : Walk :=
  match s.plan.next with
  | some (some _, plan) =>
    { s with
      currentIndex := plan.currentIndex
      returned := s.returned ++ (getItem s.slots s.currentIndex).toList }
  | _ => s

def place (s : Walk) (position : Nat) (o : Occurrence) : Walk :=
  { s with
    slots := s.slots.insertIdx position o
    owed := if s.currentIndex ≤ position then o :: s.owed else s.owed }

def find (s : Walk) (capability : PyStr) : Nat := s.plan.capabilities.idxOf capability

def apply (s : Walk) : Edit → Walk
  | .next => s.next
  | .add o => s.place s.slots.length o
  | .insert index o => s.place (insertPosition index s.slots.length) o
  | .remove capability => { s with slots := s.slots.eraseIdx (s.find capability) }

def Admits (s : Walk) : Edit → Prop
  | .next => True
  | .add o => s.cursor.Fresh o
  | .insert _ o => s.cursor.Fresh o
  | .remove _ => True

inductive Step : Walk → Edit → Walk → Prop
  | apply : s.Admits e → Step s e (s.apply e)

def walks : System Walk Edit where
  init s := ∃ plan, s = start plan
  step := Step

/-- No occurrence is returned twice, and once `next` returns `None` each that was placed at or
after the cursor, and is still there, has been returned. -/
structure Sound (s : Walk) : Prop where
  once : s.returned.Nodup
  all : s.plan.next = some (none, s.plan) → ∀ o ∈ s.owed, o ∈ s.slots → o ∈ s.returned

/-- The cursor is negative and before the first capability, where `next` raises `IndexError`. -/
def Idle (s : Walk) : Prop := s.currentIndex + s.slots.length < 0

def KeepsSides (s : Walk) : Edit → Prop
  | .next => True
  | .add _ => s.cursor.InsertKeeps s.slots.length
  | .insert index _ => s.cursor.InsertKeeps (insertPosition index s.slots.length)
  | .remove capability => s.cursor.EraseKeeps (s.find capability)

structure Keeps (s : Walk) (e : Edit) : Prop where
  sides : 0 ≤ s.currentIndex → s.KeepsSides e
  idle : s.currentIndex < 0 → (s.apply e).Idle

/-- What `next` does to an `ExecutionPlan`. -/
def planAfter (plan : ExecutionPlan) : Edit → ExecutionPlan
  | .next => (plan.next.map (·.2)).getD plan
  | .add o => plan.add o.capability
  | .insert index o => plan.insert index o.capability
  | .remove capability => plan.remove capability

theorem plan_next (s : Walk) :
    s.plan.next = if s.currentIndex < s.slots.length then
      (getItem s.slots s.currentIndex).map fun o =>
        (some o.capability, { s with currentIndex := s.currentIndex + 1 : Walk }.plan)
    else some (none, s.plan) := by
  have hlen : s.plan.capabilities.length = s.slots.length := List.length_map _
  have hitem : getItem s.plan.capabilities s.plan.currentIndex =
      (getItem s.slots s.currentIndex).map (·.capability) := getItem_map _ _ _
  by_cases hlt : s.currentIndex < s.slots.length
  · have hplan : s.plan.currentIndex < s.slots.length := hlt
    rw [ExecutionPlan.next, hlen, if_pos hplan, if_pos hlt, hitem]
    cases getItem s.slots s.currentIndex <;> rfl
  · have hplan : ¬ s.plan.currentIndex < s.slots.length := hlt
    rw [ExecutionPlan.next, hlen, if_neg hplan, if_neg hlt]

theorem next_of_item {s : Walk} (hlt : s.currentIndex < s.slots.length)
    (ho : getItem s.slots s.currentIndex = some o) :
    s.next = { s with currentIndex := s.currentIndex + 1, returned := s.returned ++ [o] } := by
  simp only [next, plan_next, if_pos hlt, ho, Option.map_some, Option.toList_some]
  rfl

theorem next_of_end {s : Walk} (h : ¬ s.currentIndex < s.slots.length) : s.next = s := by
  simp only [next, plan_next, if_neg h]

theorem next_of_error {s : Walk} (hlt : s.currentIndex < s.slots.length)
    (ho : getItem s.slots s.currentIndex = none) : s.next = s := by
  simp only [next, plan_next, if_pos hlt, ho, Option.map_none]

theorem next_plan (s : Walk) : s.next.plan = planAfter s.plan .next := by
  rw [planAfter, plan_next]
  split
  · rename_i hlt
    cases ho : getItem s.slots s.currentIndex with
    | none =>
      rw [next_of_error hlt ho]
      rfl
    | some o =>
      rw [next_of_item hlt ho]
      rfl
  · rename_i hlt
    rw [next_of_end hlt]
    rfl

theorem apply_plan (s : Walk) (e : Edit) : (s.apply e).plan = planAfter s.plan e := by
  cases e with
  | next => exact s.next_plan
  | add o =>
    rw [apply, place, plan, List.insertIdx_length_self, List.map_append]
    rfl
  | insert index o =>
    rw [apply, place, plan, List.map_insertIdx, planAfter, ExecutionPlan.insert, plan,
      List.length_map]
  | remove capability =>
    have herase : (s.slots.eraseIdx (s.find capability)).map (·.capability) =
        s.plan.capabilities.erase capability := by
      rw [← List.eraseIdx_map, List.erase_eq_eraseIdx_of_idxOf rfl]
      rfl
    rw [apply, plan, herase, planAfter, ExecutionPlan.remove]
    split
    · rfl
    · rename_i hnot
      rw [List.erase_of_not_mem hnot]
      rfl

theorem next_cursor {s : Walk} (h : 0 ≤ s.currentIndex) : s.next.cursor = s.cursor.advance := by
  rw [Cursor.advance]
  split
  · rename_i o ho
    have hlt : s.currentIndex < s.slots.length := by
      have := (List.getElem?_eq_some_iff.mp ho).1
      exact (Int.toNat_lt h).mp this
    rw [next_of_item hlt ((getItem_of_nonneg h _).trans ho)]
    simp only [cursor, Int.toNat_add h zero_le_one]
    rfl
  · rename_i ho
    have hend := List.getElem?_eq_none_iff.mp ho
    rw [next_of_end fun hlt => absurd ((Int.toNat_lt h).mpr hlt) (Nat.not_lt.mpr hend)]

theorem next_nonneg {s : Walk} (h : 0 ≤ s.currentIndex) : 0 ≤ s.next.currentIndex := by
  by_cases hlt : s.currentIndex < s.slots.length
  · cases ho : getItem s.slots s.currentIndex with
    | none => rwa [next_of_error hlt ho]
    | some o =>
      rw [next_of_item hlt ho]
      exact Int.add_nonneg h Int.one_nonneg
  · rwa [next_of_end hlt]

theorem apply_nonneg {s : Walk} (h : 0 ≤ s.currentIndex) (e : Edit) :
    0 ≤ (s.apply e).currentIndex := by
  cases e with
  | next => exact next_nonneg h
  | add | insert | remove => exact h

theorem iterate_cursor {s : Walk} (h : 0 ≤ s.currentIndex) (k : Nat) :
    (next^[k] s).cursor = Cursor.advance^[k] s.cursor ∧ 0 ≤ (next^[k] s).currentIndex := by
  induction k generalizing s with
  | zero => exact ⟨rfl, h⟩
  | succ k ih =>
    rw [Function.iterate_succ_apply, Function.iterate_succ_apply, ← next_cursor h]
    exact ih (next_nonneg h)

theorem next_none_iff {s : Walk} (h : 0 ≤ s.currentIndex) :
    s.plan.next = some (none, s.plan) ↔ s.cursor.items.length ≤ s.cursor.index := by
  rw [plan_next]
  split
  · rename_i hlt
    have hin : s.currentIndex.toNat < s.slots.length := (Int.toNat_lt h).mpr hlt
    rw [getItem_of_nonneg h, List.getElem?_eq_getElem hin]
    refine iff_of_false (fun hf => ?_) (Nat.not_le.mpr hin)
    cases hf
  · rename_i hlt
    exact iff_of_true rfl (Nat.not_lt.mp fun hin => hlt ((Int.toNat_lt h).mp hin))

theorem sound_iff {s : Walk} (h : 0 ≤ s.currentIndex) : s.Sound ↔ s.cursor.Sound :=
  ⟨fun hs => ⟨hs.once, fun hend => hs.all ((next_none_iff h).mpr hend)⟩,
    fun hs => ⟨hs.once, fun hn => hs.all ((next_none_iff h).mp hn)⟩⟩

/-- Whatever `next` returns from here on. -/
def Lasting (s : Walk) : Prop := ∀ k, (next^[k] s).Sound

theorem lasting_iff_cursor {s : Walk} (h : 0 ≤ s.currentIndex) : s.Lasting ↔ s.cursor.Lasting := by
  refine forall_congr' fun k => ?_
  obtain ⟨hc, hk⟩ := iterate_cursor h k
  rw [sound_iff hk, hc]

theorem place_cursor (s : Walk) :
    (s.place position o).cursor = s.cursor.insert position o := by
  have hle : s.currentIndex ≤ position ↔ s.currentIndex.toNat ≤ position := Int.toNat_le.symm
  have howed : (s.place position o).owed = (s.cursor.insert position o).owed := if_congr hle rfl rfl
  rw [cursor, howed]
  rfl

theorem steady_apply {s : Walk} (h : 0 ≤ s.currentIndex) (hs : s.cursor.Steady) (ha : s.Admits e)
    (hk : s.KeepsSides e) : (s.apply e).cursor.Steady := by
  cases e with
  | next =>
    rw [apply, next_cursor h]
    exact hs.advance
  | add o =>
    rw [apply, place_cursor]
    exact hs.insert le_rfl ha hk
  | insert index o =>
    rw [apply, place_cursor]
    exact hs.insert (insertPosition_le index _) ha hk
  | remove capability => exact hs.erase hk

theorem keepsSides_of_lasting {s : Walk} (h : 0 ≤ s.currentIndex) (hs : s.cursor.Steady)
    (hl : (s.apply e).Lasting) : s.KeepsSides e := by
  have hl := (lasting_iff_cursor (apply_nonneg h e)).mp hl
  cases e with
  | next => trivial
  | add o =>
    rw [apply, place_cursor] at hl
    exact hl.insertKeeps
  | insert index o =>
    rw [apply, place_cursor] at hl
    exact hl.insertKeeps
  | remove capability => exact Cursor.Lasting.eraseKeeps hl hs

theorem start_steady (plan : ExecutionPlan) : (start plan).cursor.Steady := by
  refine .start (List.Nodup.of_map (·.id) ?_) _
  have hids : (plan.capabilities.zipIdx.map fun c => (⟨c.2, c.1⟩ : Occurrence)).map (·.id) =
      plan.capabilities.zipIdx.map (·.2) := List.map_map
  rw [start, hids, List.zipIdx_map_snd]
  exact List.nodup_range'

theorem Step.unique {s t u : Walk} (h : Step s e t) (k : Step s e u) : t = u := by
  cases h
  cases k
  rfl

theorem Idle.negative {s : Walk} (h : s.Idle) : s.currentIndex < 0 :=
  (Int.le_add_of_nonneg_right (Int.natCast_nonneg _)).trans_lt h

theorem Idle.getItem {s : Walk} (h : s.Idle) : getItem s.slots s.currentIndex = none := by
  rw [Wire.getItem, if_neg (Int.not_le.mpr h.negative), if_neg (Int.not_le.mpr h)]

theorem Idle.lt {s : Walk} (h : s.Idle) : s.currentIndex < s.slots.length :=
  h.negative.trans_le (Int.natCast_nonneg _)

theorem Idle.next {s : Walk} (h : s.Idle) : s.next = s := next_of_error h.lt h.getItem

theorem Idle.lasting {s : Walk} (h : s.Idle) (hr : s.returned = []) : s.Lasting := by
  intro k
  rw [Function.iterate_fixed h.next k]
  refine ⟨hr ▸ List.nodup_nil, fun hnone => ?_⟩
  rw [plan_next, if_pos h.lt, h.getItem] at hnone
  cases hnone

theorem Idle.apply {s : Walk} (h : s.Idle) (e : Edit) :
    (s.apply e).currentIndex = s.currentIndex ∧ (s.apply e).returned = s.returned := by
  cases e with
  | next =>
    rw [Walk.apply, h.next]
    exact ⟨rfl, rfl⟩
  | add | insert | remove => exact ⟨rfl, rfl⟩

theorem getItem_inside {l : List α} {i : Int} (h : 0 ≤ i + l.length) (hlt : i < l.length) :
    ∃ o, getItem l i = some o := by
  rw [getItem, if_pos h]
  split
  · exact ⟨_, List.getElem?_eq_getElem (by omega)⟩
  · exact ⟨_, List.getElem?_eq_getElem (by omega)⟩

theorem next_item {s : Walk} (hlt : s.currentIndex < s.slots.length)
    (ho : getItem s.slots s.currentIndex = some o) : s.next.slots = s.slots ∧
      s.next.currentIndex = s.currentIndex + 1 ∧ s.next.returned = s.returned ++ [o] := by
  rw [next_of_item hlt ho]
  exact ⟨rfl, rfl, rfl⟩

theorem returns_again {s : Walk} {position : Nat} (ho : s.slots[position]? = some o)
    (hin : 0 ≤ s.currentIndex + s.slots.length) (hle : s.currentIndex ≤ position)
    (hmem : o ∈ s.returned) : ∃ k, ¬ (next^[k] s).returned.Nodup := by
  have hposition := (List.getElem?_eq_some_iff.mp ho).1
  have hlt : s.currentIndex < s.slots.length := by omega
  induction hm : (position - s.currentIndex).toNat generalizing s with
  | zero =>
    have heq : s.currentIndex = position := by omega
    have hx : getItem s.slots s.currentIndex = some o := by
      rw [heq, getItem_of_nonneg (Int.natCast_nonneg _), Int.toNat_natCast, ho]
    obtain ⟨-, -, hreturned⟩ := next_item hlt hx
    refine ⟨1, fun hn => ?_⟩
    rw [Function.iterate_one, hreturned] at hn
    exact (List.nodup_append.mp hn).2.2 _ hmem _ (List.mem_singleton_self _) rfl
  | succ m ih =>
    obtain ⟨x, hx⟩ := getItem_inside hin hlt
    obtain ⟨hslots, hindex, hreturned⟩ := next_item hlt hx
    have hlength := congrArg List.length hslots
    have hmem' : o ∈ s.next.returned := hreturned ▸ List.mem_append_left _ hmem
    obtain ⟨k, hk⟩ := ih (hslots ▸ ho) (by omega) (by omega) hmem' (hslots ▸ hposition)
      (by omega) (by omega)
    exact ⟨k + 1, hk⟩

theorem idle_of_lasting {s : Walk} (h : s.currentIndex < 0) (hl : s.Lasting) : s.Idle := by
  by_contra hidle
  have hin : 0 ≤ s.currentIndex + s.slots.length := Int.not_lt.mp hidle
  have hlt : s.currentIndex < s.slots.length := h.trans_le (Int.natCast_nonneg _)
  obtain ⟨o, ho⟩ := getItem_inside hin hlt
  have hposition : s.slots[(s.currentIndex + s.slots.length).toNat]? = some o := by
    rwa [getItem, if_neg (Int.not_le.mpr h), if_pos hin] at ho
  obtain ⟨hslots, hindex, hreturned⟩ := next_item hlt ho
  have hlength := congrArg List.length hslots
  have hmem : o ∈ s.next.returned :=
    hreturned ▸ List.mem_append_right _ (List.mem_singleton_self o)
  obtain ⟨k, hk⟩ := returns_again (hslots ▸ hposition) (by omega) (by omega) hmem
  exact hk (hl (k + 1)).once

/-- Nothing is on the wrong side of the cursor, or `next` has never returned. -/
inductive Steady (s : Walk) : Prop
  | walking : 0 ≤ s.currentIndex → s.cursor.Steady → Steady s
  | idle : s.Idle → s.returned = [] → Steady s

theorem Steady.lasting {s : Walk} (h : s.Steady) : s.Lasting := by
  cases h with
  | walking hindex hs => exact (lasting_iff_cursor hindex).mpr hs.lasting
  | idle hidle hr => exact hidle.lasting hr

theorem Steady.keeps {s : Walk} (h : s.Steady) (hl : (s.apply e).Lasting) : s.Keeps e := by
  cases h with
  | walking hindex hs =>
    exact ⟨fun _ => keepsSides_of_lasting hindex hs hl, fun hneg => absurd hindex hneg.not_ge⟩
  | idle hidle hr =>
    refine ⟨fun hindex => absurd hindex hidle.negative.not_ge, fun hneg => ?_⟩
    exact idle_of_lasting ((hidle.apply e).1 ▸ hneg) hl

theorem Steady.apply {s : Walk} (h : s.Steady) (ha : s.Admits e) (hk : s.Keeps e) :
    (s.apply e).Steady := by
  cases h with
  | walking hindex hs =>
    exact .walking (apply_nonneg hindex e) (steady_apply hindex hs ha (hk.sides hindex))
  | idle hidle hr => exact .idle (hk.idle hidle.negative) ((hidle.apply e).2.trans hr)

theorem Step.keeps {s t : Walk} (h : s.Steady) (st : Step s e t) (hl : t.Lasting) : s.Keeps e := by
  cases st
  exact h.keeps hl

theorem Step.steady {s t : Walk} (h : s.Steady) (st : Step s e t) (hk : s.Keeps e) : t.Steady := by
  cases st with
  | apply ha => exact h.apply ha hk

theorem steady_start {plan : ExecutionPlan} (h : plan.currentIndex < 0 → (start plan).Idle) :
    (start plan).Steady := by
  rcases lt_or_ge plan.currentIndex 0 with hneg | hindex
  · exact .idle (h hneg) rfl
  · exact .walking hindex (start_steady plan)

/-- `next` returns each occurrence once, and each that was placed ahead of the cursor, exactly if
every edit keeps what is before the cursor before it and what is after it after it; with a negative
cursor, exactly as long as the plan is too short for it. -/
theorem lasting_iff {plan : ExecutionPlan} (hr : Run walks (start plan) edits t) :
    (∀ before after u, edits = before ++ after → Run walks (start plan) before u → u.Lasting) ↔
      (plan.currentIndex < 0 → (start plan).Idle) ∧ Keeping walks Keeps (start plan) edits := by
  have hruns (h : (start plan).Steady) := hr.keeping_iff (P := Lasting) (G := Steady)
    Steady.lasting Step.keeps Step.steady Step.unique h
  constructor
  · intro h
    have hidle (hneg : plan.currentIndex < 0) : (start plan).Idle :=
      idle_of_lasting hneg (h [] edits _ rfl .nil)
    exact ⟨hidle, (hruns (steady_start hidle)).mp h⟩
  · rintro ⟨hidle, hk⟩
    exact (hruns (steady_start hidle)).mpr hk

def shortened : List Edit := [.next, .remove (py "a")]

def shortenedFrom : ExecutionPlan := ⟨[py "a", py "b"], 0⟩

theorem run_shortened :
    Run walks (start shortenedFrom) shortened
      (((start shortenedFrom).apply .next).apply (.remove (py "a"))) :=
  .cons (.apply trivial) (.single (.apply trivial))

theorem skips_shortened :
    ¬ (((start shortenedFrom).apply .next).apply (.remove (py "a"))).Lasting := by
  intro h
  have hall := (h 0).all rfl ⟨1, py "b"⟩ (by decide) (by decide)
  revert hall
  decide

/-- "b" has moved to before the cursor. -/
theorem shortened_not_lasting :
    Run walks (start shortenedFrom) shortened
      (((start shortenedFrom).apply .next).apply (.remove (py "a"))) ∧
      ¬ (((start shortenedFrom).apply .next).apply (.remove (py "a"))).Lasting :=
  ⟨run_shortened, skips_shortened⟩

theorem lasting_iff_shortened : ¬ Keeping walks Keeps (start shortenedFrom) shortened := by
  intro h
  have hlasting := (lasting_iff run_shortened).mpr ⟨fun hneg => absurd hneg (by decide), h⟩
  exact skips_shortened (hlasting shortened [] _ (List.append_nil _).symm run_shortened)

end Walk

end PrismPipe.Wire
