import Mathlib.Data.List.Nodup
import Mathlib.Data.List.Perm.Basic
import PrismPipe.Lib.Transition

/-! Unbounded queues whose readers wait in line: each item put wakes one of them, which takes what
it finds when it runs and may be cancelled before. -/

universe u v

namespace PrismPipe

open Transition

structure Mailbox (ι : Type u) (α : Type v) where
  items : List α
  /-- Who waits and has not been woken, the first in line first. -/
  getters : List ι
  /-- Who has been woken and has not run since. -/
  woken : List ι

namespace Mailbox

variable {ι : Type u} {α : Type v}

def empty : Mailbox ι α := ⟨[], [], []⟩

def wakeupNext (q : Mailbox ι α) : Mailbox ι α :=
  match q.getters with
  | [] => q
  | i :: rest => { q with getters := rest, woken := q.woken ++ [i] }

def put (q : Mailbox ι α) (a : α) : Mailbox ι α := { q with items := q.items ++ [a] }.wakeupNext

def get (q : Mailbox ι α) (i : ι) : Option α × Mailbox ι α :=
  match q.items with
  | a :: rest => (some a, { q with items := rest })
  | [] => (none, { q with getters := q.getters ++ [i] })

def Waits (q : Mailbox ι α) (i : ι) : Prop := i ∈ q.getters ∨ i ∈ q.woken

section Operations

variable {q : Mailbox ι α} {i j : ι} {a : α}

@[simp] theorem wakeupNext_items (q : Mailbox ι α) : q.wakeupNext.items = q.items := by
  unfold wakeupNext
  split <;> rfl

theorem wakeupNext_perm (q : Mailbox ι α) :
    (q.wakeupNext.getters ++ q.wakeupNext.woken).Perm (q.getters ++ q.woken) := by
  unfold wakeupNext
  split
  · exact .refl _
  · next i rest h =>
    rw [h]
    exact (List.perm_append_comm.append_left _).trans (by simp)

theorem waits_iff : q.Waits i ↔ i ∈ q.getters ++ q.woken := List.mem_append.symm

theorem put_perm (q : Mailbox ι α) (a : α) :
    ((q.put a).getters ++ (q.put a).woken).Perm (q.getters ++ q.woken) :=
  wakeupNext_perm { q with items := q.items ++ [a] }

theorem waits_put : (q.put a).Waits i ↔ q.Waits i := by
  simp only [waits_iff, (put_perm q a).mem_iff]

end Operations

/-- Nobody is in line twice, and nobody is left waiting while there are items that nobody has been
woken for. -/
structure Sound (q : Mailbox ι α) : Prop where
  nodup : (q.getters ++ q.woken).Nodup
  attended : q.getters = [] ∨ q.items.length ≤ q.woken.length

namespace Sound

variable {q : Mailbox ι α} {i j : ι} {a : α}

theorem empty : Sound (empty : Mailbox ι α) := ⟨.nil, .inl rfl⟩

theorem wakeupNext (hn : (q.getters ++ q.woken).Nodup)
    (ha : q.getters = [] ∨ q.items.length ≤ q.woken.length + 1) : q.wakeupNext.Sound := by
  refine ⟨(wakeupNext_perm q).nodup_iff.mpr hn, ?_⟩
  unfold Mailbox.wakeupNext
  split
  · next h => exact .inl h
  · next i rest h =>
    rw [h] at ha
    exact .inr (by simpa using ha)

theorem put (h : q.Sound) (a : α) : (q.put a).Sound :=
  wakeupNext h.nodup (h.attended.imp id fun ha => by simpa using ha)

theorem get (h : q.Sound) (hi : ¬ q.Waits i) : (q.get i).2.Sound := by
  unfold Mailbox.get
  split
  · next a rest hitems =>
    refine ⟨h.nodup, h.attended.imp id fun ha => ?_⟩
    rw [hitems, List.length_cons] at ha
    exact Nat.le_of_succ_le ha
  · next hitems =>
    refine ⟨?_, .inr (by simp [hitems])⟩
    have hmem : i ∉ q.getters ++ q.woken := fun hmem => hi (waits_iff.mpr hmem)
    have hperm : (q.getters ++ [i] ++ q.woken).Perm (i :: (q.getters ++ q.woken)) := by
      rw [List.append_assoc, List.singleton_append]
      exact List.perm_middle
    exact hperm.nodup_iff.mpr (List.nodup_cons.mpr ⟨hmem, h.nodup⟩)

end Sound

variable [DecidableEq ι]

def resume (q : Mailbox ι α) (i : ι) : Option α × Mailbox ι α :=
  { q with woken := q.woken.erase i }.get i

def cancel (q : Mailbox ι α) (i : ι) : Mailbox ι α :=
  if i ∈ q.getters then { q with getters := q.getters.erase i }
  else
    let q := { q with woken := q.woken.erase i }
    if q.items.isEmpty then q else q.wakeupNext

inductive Event (ι : Type u) (α : Type v)
  | put (a : α)
  | get (i : ι) (got : Option α)
  | resume (i : ι) (got : Option α)
  | cancel (i : ι)

inductive Step : Mailbox ι α → Event ι α → Mailbox ι α → Prop
  | put : Step q (.put a) (q.put a)
  | get : ¬ q.Waits i → Step q (.get i (q.get i).1) (q.get i).2
  | resume : i ∈ q.woken → Step q (.resume i (q.resume i).1) (q.resume i).2
  | cancel : q.Waits i → Step q (.cancel i) (q.cancel i)

def system : System (Mailbox ι α) (Event ι α) where
  init q := q = empty
  step := Step

def Event.puts : Event ι α → Option α
  | .put a => some a
  | _ => none

def Event.gets : Event ι α → Option α
  | .get _ got | .resume _ got => got
  | _ => none

namespace Sound

variable {q : Mailbox ι α} {i j : ι} {a : α}

theorem leave (h : q.Sound) (hi : i ∈ q.woken) :
    (q.getters ++ q.woken.erase i).Nodup ∧ i ∉ q.getters ++ q.woken.erase i := by
  obtain ⟨hg, hw, hne⟩ := List.nodup_append.mp h.nodup
  refine ⟨List.nodup_append.mpr ⟨hg, hw.erase i, fun j hj k hk =>
    hne j hj k (List.mem_of_mem_erase hk)⟩, fun hmem => ?_⟩
  rcases List.mem_append.mp hmem with hmem | hmem
  · exact hne i hmem i hi rfl
  · exact hw.not_mem_erase hmem

theorem length_woken (hi : i ∈ q.woken) : q.woken.length = (q.woken.erase i).length + 1 := by
  have hpos : 0 < q.woken.length := List.length_pos_of_mem hi
  rw [List.length_erase_of_mem hi]
  omega

theorem resume (h : q.Sound) (hi : i ∈ q.woken) : (q.resume i).2.Sound := by
  obtain ⟨hn, hmem⟩ := h.leave hi
  unfold Mailbox.resume Mailbox.get
  dsimp only
  split
  · next a rest hitems =>
    refine ⟨hn, h.attended.imp id fun ha => ?_⟩
    rw [hitems, List.length_cons, length_woken hi] at ha
    exact Nat.le_of_succ_le_succ ha
  · next hitems =>
    refine ⟨?_, .inr (by simp [hitems])⟩
    have hperm : (q.getters ++ [i] ++ q.woken.erase i).Perm
        (i :: (q.getters ++ q.woken.erase i)) := by
      rw [List.append_assoc, List.singleton_append]
      exact List.perm_middle
    exact hperm.nodup_iff.mpr (List.nodup_cons.mpr ⟨hmem, hn⟩)

theorem cancel (h : q.Sound) (hi : q.Waits i) : (q.cancel i).Sound := by
  unfold Mailbox.cancel
  split
  · next hg =>
    refine ⟨h.nodup.sublist (List.erase_sublist.append_right _), h.attended.imp (fun hnil => ?_) id⟩
    rw [hnil] at hg
    cases hg
  · next hg =>
    have hw : i ∈ q.woken := hi.resolve_left hg
    obtain ⟨hn, -⟩ := h.leave hw
    dsimp only
    split
    · next hempty => exact ⟨hn, .inr (by simp [List.isEmpty_iff.mp hempty])⟩
    · refine wakeupNext hn (h.attended.imp id fun ha => ?_)
      rwa [length_woken hw] at ha

theorem step {e : Event ι α} {p : Mailbox ι α} (h : q.Sound) (st : Step q e p) : p.Sound := by
  cases st with
  | put => exact h.put _
  | get hi => exact h.get hi
  | resume hi => exact h.resume hi
  | cancel hi => exact h.cancel hi

theorem attends {b : α} {rest : List α} (h : q.Sound) (hi : q.Waits i)
    (hq : q.items = b :: rest) :
    ∃ j ∈ q.woken, (q.resume j).1 = some b ∧ (q.resume j).2.items = rest := by
  have hw : q.woken ≠ [] := by
    intro hnil
    rcases h.attended with hg | hlen
    · rcases hi with hi | hi
      · rw [hg] at hi
        cases hi
      · rw [hnil] at hi
        cases hi
    · rw [hq, hnil] at hlen
      cases hlen
  obtain ⟨j, hj⟩ := List.exists_mem_of_ne_nil _ hw
  refine ⟨j, hj, ?_⟩
  simp [Mailbox.resume, Mailbox.get, hq]

theorem not_waits_resume (h : q.Sound) (hi : i ∈ q.woken) (hgot : (q.resume i).1 = some a) :
    ¬ (q.resume i).2.Waits i := by
  obtain ⟨-, hmem⟩ := h.leave hi
  rw [waits_iff]
  unfold Mailbox.resume Mailbox.get at hgot ⊢
  dsimp only at hgot ⊢
  split at hgot
  · exact hmem
  · cases hgot

end Sound

theorem Step.waits {q p : Mailbox ι α} {e : Event ι α} (st : Step q e p) (hj : p.Waits j) :
    q.Waits j ∨ ∃ got, e = .get j got := by
  cases st with
  | put => exact .inl (waits_put.mp hj)
  | @get _ i hi =>
    unfold Mailbox.get at hj ⊢
    split at hj
    · exact .inl hj
    · rcases hj with hj | hj
      · rcases List.mem_append.mp hj with hj | hj
        · exact .inl (.inl hj)
        · cases List.mem_singleton.mp hj
          exact .inr ⟨_, rfl⟩
      · exact .inl (.inr hj)
  | @resume _ i hi =>
    unfold Mailbox.resume Mailbox.get at hj
    dsimp only at hj
    split at hj
    · exact .inl (hj.imp id List.mem_of_mem_erase)
    · rcases hj with hj | hj
      · rcases List.mem_append.mp hj with hj | hj
        · exact .inl (.inl hj)
        · exact .inl (.inr (List.mem_singleton.mp hj ▸ hi))
      · exact .inl (.inr (List.mem_of_mem_erase hj))
  | cancel =>
    unfold Mailbox.cancel at hj
    split at hj
    · exact .inl (hj.imp List.mem_of_mem_erase id)
    · dsimp only at hj
      split at hj
      · exact .inl (hj.imp id List.mem_of_mem_erase)
      · rw [waits_iff, (wakeupNext_perm _).mem_iff, ← waits_iff] at hj
        exact .inl (hj.imp id List.mem_of_mem_erase)

omit [DecidableEq ι] in
theorem get_items (q : Mailbox ι α) (i : ι) :
    (q.get i).1.toList ++ (q.get i).2.items = q.items := by
  unfold get
  split <;> next hitems => simp [hitems]

theorem Step.items {q p : Mailbox ι α} {e : Event ι α} (st : Step q e p) :
    e.gets.toList ++ p.items = q.items ++ e.puts.toList := by
  cases st with
  | put => exact wakeupNext_items _
  | get => exact (get_items q _).trans (List.append_nil _).symm
  | resume => exact (get_items { q with woken := q.woken.erase _ } _).trans (List.append_nil _).symm
  | @cancel _ i =>
    have hitems : (q.cancel i).items = q.items := by
      unfold Mailbox.cancel
      split
      · rfl
      · dsimp only
        split
        · rfl
        · exact wakeupNext_items _
    exact hitems.trans (List.append_nil _).symm

theorem conserved {q p : Mailbox ι α} {es : List (Event ι α)} (h : Run system q es p) :
    es.filterMap Event.gets ++ p.items = q.items ++ es.filterMap Event.puts := by
  have hcons (f : Event ι α → Option α) (e : Event ι α) (es : List (Event ι α)) :
      (e :: es).filterMap f = (f e).toList ++ es.filterMap f := by
    cases hf : f e <;> simp [hf]
  induction h with
  | nil => exact (List.append_nil _).symm
  | cons st _ ih => rw [hcons, hcons, List.append_assoc, ih, ← List.append_assoc, st.items,
      List.append_assoc]

theorem sound {p : Mailbox ι α} {es : List (Event ι α)} (h : Run system empty es p) : p.Sound :=
  h.keeps (fun hq st => hq.step st) .empty

end Mailbox

end PrismPipe
