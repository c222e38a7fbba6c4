import Mathlib.Data.List.Nodup
import Mathlib.Data.List.Perm.Subperm
import Mathlib.Logic.Relation

/-! Breadth-first search of a graph with a set of the vertices visited: it ends, and has visited
what is reachable. -/

universe u

namespace PrismPipe

open Relation

structure Search (α : Type u) where
  queue : List (α × List α)
  visited : List α

namespace Search

variable {α : Type u} [DecidableEq α]

def start (a : α) : Search α := ⟨[(a, [a])], [a]⟩

def visit (path : List α) (s : Search α) (b : α) : Search α :=
  if b ∈ s.visited then s else ⟨s.queue ++ [(b, path ++ [b])], s.visited ++ [b]⟩

/-- One turn of the loop; `none` where the queue is empty. -/
def expand (next : α → List α) (s : Search α) : Option (Search α) :=
  match s.queue with
  | [] => none
  | (a, path) :: queue => some ((next a).foldl (visit path) ⟨queue, s.visited⟩)

/-- At most `fuel` turns; `none` where they are not enough. -/
def run (next : α → List α) : Nat → Search α → Option (Search α)
  | fuel, s =>
    match expand next s with
    | none => some s
    | some t =>
      match fuel with
      | 0 => none
      | fuel + 1 => run next fuel t

variable {next : α → List α} {s t : Search α} {a b : α} {path : List α}

section Visit

theorem visited_visit (path : List α) (s : Search α) (b : α) :
    s.visited <+: (visit path s b).visited := by
  unfold visit
  split
  · exact List.prefix_rfl
  · exact List.prefix_append ..

theorem mem_visit (path : List α) (s : Search α) (b : α) : b ∈ (visit path s b).visited := by
  unfold visit
  split
  · assumption
  · exact List.mem_append_right _ (List.mem_singleton.mpr rfl)

theorem visited_foldl (path : List α) (bs : List α) (s : Search α) :
    s.visited <+: (bs.foldl (visit path) s).visited := by
  induction bs generalizing s with
  | nil => exact List.prefix_rfl
  | cons b bs ih => exact (visited_visit path s b).trans (ih _)

theorem mem_foldl (path : List α) {bs : List α} (s : Search α) (h : b ∈ bs) :
    b ∈ (bs.foldl (visit path) s).visited := by
  induction bs generalizing s with
  | nil => cases h
  | cons c bs ih =>
    rcases List.mem_cons.mp h with rfl | h
    · exact (visited_foldl path bs _).subset (mem_visit path s b)
    · exact ih _ h

theorem length_foldl (path : List α) (bs : List α) (s : Search α) :
    (bs.foldl (visit path) s).queue.length + s.visited.length =
      (bs.foldl (visit path) s).visited.length + s.queue.length := by
  induction bs generalizing s with
  | nil => exact Nat.add_comm ..
  | cons b bs ih =>
    have hb : (visit path s b).queue.length + s.visited.length =
        (visit path s b).visited.length + s.queue.length := by
      unfold visit
      split
      · exact Nat.add_comm ..
      · simp only [List.length_append, List.length_singleton]
        omega
    have hbs := ih (visit path s b)
    rw [List.foldl_cons]
    omega

end Visit

def Reaches (next : α → List α) : α → α → Prop := ReflTransGen fun a b => b ∈ next a

/-- Each visited vertex is reachable and has been visited once, and is in the queue or has all its
successors visited, but for those that are being expanded. -/
structure Sound (next : α → List α) (root : α) (busy : α → Prop) (s : Search α) : Prop where
  root_mem : root ∈ s.visited
  nodup : s.visited.Nodup
  queued : ∀ p ∈ s.queue, p.1 ∈ s.visited
  reachable : ∀ a ∈ s.visited, Reaches next root a
  closed : ∀ a ∈ s.visited, busy a ∨ (∃ path, (a, path) ∈ s.queue) ∨ ∀ b ∈ next a, b ∈ s.visited

def idle (_ : α) : Prop := False

namespace Sound

variable {root : α} {busy : α → Prop}

omit [DecidableEq α] in
theorem start (root : α) : Sound next root idle (start root) where
  root_mem := List.mem_singleton.mpr rfl
  nodup := List.nodup_singleton root
  queued p hp := by
    cases List.mem_singleton.mp hp
    exact List.mem_singleton.mpr rfl
  reachable a ha := by
    cases List.mem_singleton.mp ha
    exact .refl
  closed a ha := by
    cases List.mem_singleton.mp ha
    exact .inr (.inl ⟨_, List.mem_singleton.mpr rfl⟩)

theorem visit (h : Sound next root busy s) (ha : a ∈ s.visited) (hb : b ∈ next a)
    (path : List α) : Sound next root busy (visit path s b) := by
  unfold Search.visit
  split
  · exact h
  · next hnew =>
    have hold : ∀ {c}, c ∈ s.visited → c ∈ s.visited ++ [b] := List.mem_append_left _
    have hlast : b ∈ s.visited ++ [b] := List.mem_append_right _ (List.mem_singleton.mpr rfl)
    constructor
    case root_mem => exact hold h.root_mem
    case nodup => exact List.nodup_append.mpr ⟨h.nodup, List.nodup_singleton b, fun c hc d hd heq =>
      hnew (List.mem_singleton.mp hd ▸ heq ▸ hc)⟩
    case queued =>
      intro p hp
      rcases List.mem_append.mp hp with hp | hp
      · exact hold (h.queued p hp)
      · cases List.mem_singleton.mp hp
        exact hlast
    case reachable =>
      intro c hc
      rcases List.mem_append.mp hc with hc | hc
      · exact h.reachable c hc
      · cases List.mem_singleton.mp hc
        exact (h.reachable a ha).tail hb
    case closed =>
      intro c hc
      rcases List.mem_append.mp hc with hc | hc
      · refine (h.closed c hc).imp_right fun hc => hc.imp ?_ fun hc d hd => hold (hc d hd)
        rintro ⟨way, hway⟩
        exact ⟨way, List.mem_append_left _ hway⟩
      · cases List.mem_singleton.mp hc
        exact .inr (.inl ⟨_, List.mem_append_right _ (List.mem_singleton.mpr rfl)⟩)

theorem foldl (path : List α) {bs : List α} (hbs : ∀ b ∈ bs, b ∈ next a)
    (h : Sound next root busy s) (ha : a ∈ s.visited) :
    Sound next root busy (bs.foldl (Search.visit path) s) := by
  induction bs generalizing s with
  | nil => exact h
  | cons b bs ih =>
    have hb := hbs b List.mem_cons_self
    exact ih (fun c hc => hbs c (List.mem_cons_of_mem _ hc)) (h.visit ha hb path)
      ((visited_visit path s b).subset ha)

theorem expand (h : Sound next root idle s) (ht : expand next s = some t) :
    Sound next root idle t := by
  unfold Search.expand at ht
  split at ht
  · cases ht
  · next a path queue hq =>
    cases ht
    have ha : a ∈ s.visited := h.queued _ (hq ▸ List.mem_cons_self)
    have hpopped : Sound next root (· = a) ⟨queue, s.visited⟩ := by
      refine ⟨h.root_mem, h.nodup, fun p hp => h.queued p (hq ▸ List.mem_cons_of_mem _ hp),
        h.reachable, fun b hb => ?_⟩
      rcases h.closed b hb with hb | ⟨way, hway⟩ | hb
      · exact hb.elim
      · rw [hq] at hway
        rcases List.mem_cons.mp hway with heq | hway
        · exact .inl (Prod.mk.inj heq).1
        · exact .inr (.inl ⟨way, hway⟩)
      · exact .inr (.inr hb)
    have hdone := hpopped.foldl path (fun _ hb => hb) ha
    refine ⟨hdone.root_mem, hdone.nodup, hdone.queued, hdone.reachable, fun b hb => ?_⟩
    rcases hdone.closed b hb with rfl | hb
    · exact .inr (.inr fun c hc => mem_foldl path _ hc)
    · exact .inr hb

omit [DecidableEq α] in
theorem mem_iff (h : Sound next root idle s) (hq : s.queue = []) :
    a ∈ s.visited ↔ Reaches next root a := by
  refine ⟨h.reachable a, fun hreach => ?_⟩
  induction hreach with
  | refl => exact h.root_mem
  | tail _ hb ih =>
    rcases h.closed _ ih with hidle | ⟨path, hpath⟩ | hclosed
    · exact hidle.elim
    · rw [hq] at hpath
      cases hpath
    · exact hclosed _ hb

omit [DecidableEq α] in
theorem length_le {vertices : List α} (h : Sound next root busy s)
    (hall : ∀ a, Reaches next root a → a ∈ vertices) : s.visited.length ≤ vertices.length :=
  (List.subperm_of_subset h.nodup fun a ha => hall a (h.reachable a ha)).length_le

end Sound

theorem length_expand (ht : expand next s = some t) :
    t.queue.length + s.visited.length + 1 = t.visited.length + s.queue.length := by
  unfold expand at ht
  split at ht
  · cases ht
  · next a path queue hq =>
    cases ht
    have hcount := length_foldl path (next a) ⟨queue, s.visited⟩
    rw [hq, List.length_cons]
    dsimp only at hcount
    omega

theorem queue_of_expand (ht : expand next s = none) : s.queue = [] := by
  unfold expand at ht
  split at ht
  · assumption
  · cases ht

theorem Sound.ends {root : α} {vertices : List α}
    (hall : ∀ a, Reaches next root a → a ∈ vertices) (fuel : Nat) (h : Sound next root idle s)
    (hfuel : vertices.length + s.queue.length ≤ s.visited.length + fuel) :
    ∃ t, run next fuel s = some t ∧ t.queue = [] ∧ Sound next root idle t := by
  induction fuel generalizing s with
  | zero =>
    have hle := h.length_le hall
    have hq : s.queue = [] := List.length_eq_zero_iff.mp (by omega)
    refine ⟨s, ?_, hq, h⟩
    unfold run Search.expand
    rw [hq]
  | succ fuel ih =>
    cases ht : Search.expand next s with
    | none =>
      refine ⟨s, ?_, queue_of_expand ht, h⟩
      unfold run
      rw [ht]
    | some t =>
      have hlength := length_expand ht
      obtain ⟨u, hu⟩ := ih (h.expand ht) (by omega)
      refine ⟨u, ?_, hu.2⟩
      unfold run
      rw [ht]
      exact hu.1

end Search

end PrismPipe
