import Mathlib.Data.List.Perm.Subperm
import Mathlib.Data.List.Nodup
import PrismPipe.Lib.Transition

/-! Numbered jobs behind a semaphore that lets them in by turns, each ending in some outcome while
others may still wait or run. -/

universe u

namespace PrismPipe.Gate

open Transition

variable {β : Type u}

structure Jobs (β : Type u) where
  /-- What the semaphore has left. -/
  value : Nat
  waiting : List Nat
  running : List Nat
  done : List (Nat × β)

inductive Event (β : Type u)
  | start (i : Nat)
  | finish (i : Nat) (outcome : β)

inductive Step : Jobs β → Event β → Jobs β → Prop
  | start : Step ⟨v + 1, i :: ws, rs, ds⟩ (.start i) ⟨v, ws, rs ++ [i], ds⟩
  | finish : Step ⟨v, ws, rs ++ i :: rs', ds⟩ (.finish i b) ⟨v + 1, ws, rs ++ rs', ds ++ [(i, b)]⟩

def init (permits n : Nat) : Jobs β := ⟨permits, List.range n, [], []⟩

def system (permits n : Nat) : System (Jobs β) (Event β) where
  init s := s = init permits n
  step := Step

def Jobs.Finished (s : Jobs β) : Prop := s.waiting = [] ∧ s.running = []

def Event.started : Event β → Option Nat
  | .start i => some i
  | .finish .. => none

def Event.finished : Event β → Option (Nat × β)
  | .start _ => none
  | .finish i b => some (i, b)

structure Accounted (permits n : Nat) (es : List (Event β)) (s : Jobs β) : Prop where
  value : s.value + s.running.length = permits
  started : es.filterMap Event.started ++ s.waiting = List.range n
  finished : es.filterMap Event.finished = s.done
  apart : (es.filterMap Event.started).Perm (s.running ++ s.done.map (·.1))

theorem accounted {es : List (Event β)} {s : Jobs β}
    (h : Run (system permits n) (init permits n) es s) : Accounted permits n es s := by
  suffices key : ∀ (past : List (Event β)) {t : Jobs β}, Accounted permits n past t →
      Run (system permits n) t es s → Accounted permits n (past ++ es) s from
    key [] ⟨rfl, rfl, rfl, .refl _⟩ h
  clear h
  intro past t ht hr
  induction hr generalizing past with
  | nil => simpa using ht
  | cons st _ ih =>
    rw [List.append_cons]
    refine ih _ ?_
    obtain ⟨hv, hs, hf, ha⟩ := ht
    cases st with
    | start =>
      refine ⟨?_, ?_, ?_, ?_⟩
      · dsimp only at hv
        simp only [List.length_append, List.length_singleton]
        omega
      · simpa [List.filterMap_cons, Event.started] using hs
      · simpa [List.filterMap_cons, Event.finished] using hf
      · simp only [List.filterMap_append, List.filterMap_cons, Event.started,
          List.filterMap_nil, List.append_assoc]
        refine (ha.append_right _).trans ?_
        rw [List.append_assoc]
        exact List.perm_append_comm.append_left _
    | finish =>
      refine ⟨?_, ?_, ?_, ?_⟩
      · simp only [List.length_append, List.length_cons] at hv ⊢
        omega
      · simpa [List.filterMap_cons, Event.started] using hs
      · simpa [List.filterMap_cons, Event.finished] using hf
      · simp only [List.filterMap_append, List.filterMap_cons, Event.started,
          List.filterMap_nil, List.append_nil, List.map_append, List.map_cons, List.map_nil]
        refine ha.trans ?_
        simp only [List.append_assoc, List.cons_append]
        refine List.Perm.append_left _ ?_
        rw [← List.append_assoc]
        exact (List.perm_append_singleton _ _).symm

namespace Accounted

variable {permits n : Nat} {es : List (Event β)} {s : Jobs β}

theorem running_le (h : Accounted permits n es s) : s.running.length ≤ permits := by
  have := h.value
  omega

theorem perm (h : Accounted permits n es s) :
    (s.running ++ s.done.map (·.1) ++ s.waiting).Perm (List.range n) := by
  rw [← h.started]
  exact (h.apart.append_right _).symm

theorem nodup (h : Accounted permits n es s) : (s.done.map (·.1)).Nodup := by
  have hall := h.perm.nodup_iff.mpr List.nodup_range
  exact (List.nodup_append.mp (List.nodup_append.mp hall).1).2.1

theorem all_done (h : Accounted permits n es s) (hs : s.Finished) :
    (s.done.map (·.1)).Perm (List.range n) := by
  have hperm := h.perm
  rw [hs.1, hs.2] at hperm
  simpa using hperm

theorem length (h : Accounted permits n es s) : es.length + s.waiting.length +
    (s.waiting.length + s.running.length) = 2 * n := by
  have hcount : es.length = (es.filterMap Event.started).length +
      (es.filterMap Event.finished).length := by
    clear h
    induction es with
    | nil => rfl
    | cons e es ih =>
      cases e with
      | start =>
        simp only [List.filterMap_cons, Event.started, Event.finished, List.length_cons, ih]
        omega
      | finish =>
        simp only [List.filterMap_cons, Event.started, Event.finished, List.length_cons, ih]
        omega
  have hstarted := congrArg List.length h.started
  have hfinished := congrArg List.length h.finished
  have hapart := h.apart.length_eq
  simp only [List.length_append, List.length_map, List.length_range] at hstarted hapart
  omega

theorem progress (h : Accounted permits n es s) (hp : permits ≠ 0) (b : β) (hs : ¬ s.Finished) :
    ∃ e t, Step s e t ∧ ∀ i c, e = .finish i c → c = b := by
  obtain ⟨v, ws, rs, ds⟩ := s
  cases rs with
  | cons i rs =>
    have st : Step ⟨v, ws, [] ++ i :: rs, ds⟩ (.finish i b) _ := .finish
    refine ⟨_, _, st, ?_⟩
    rintro _ _ ⟨⟩
    rfl
  | nil =>
    cases ws with
    | nil => exact absurd ⟨rfl, rfl⟩ hs
    | cons i ws =>
      obtain ⟨v, rfl⟩ : ∃ w, v = w + 1 := Nat.exists_eq_succ_of_ne_zero (by
        have := h.value
        simp only [List.length_nil, Nat.add_zero] at this
        omega)
      exact ⟨_, _, .start, nofun⟩

end Accounted

def outcome (s : Jobs β) (i : Nat) : Option β := (s.done.find? fun d => d.1 = i).map (·.2)

theorem outcome_eq_some_iff {s : Jobs β} (h : (s.done.map (·.1)).Nodup) :
    outcome s i = some b ↔ (i, b) ∈ s.done := by
  unfold outcome
  generalize s.done = ds at h
  induction ds with
  | nil => simp
  | cons d ds ih =>
    rw [List.map_cons, List.nodup_cons] at h
    by_cases hi : d.1 = i
    · have hout : (i, b) ∉ ds := fun hm => h.1 (hi ▸ List.mem_map.mpr ⟨_, hm, rfl⟩)
      subst hi
      simp [hout, Prod.ext_iff, eq_comm]
    · have hne : (i, b) ≠ d := fun he => hi (he ▸ rfl)
      simp [hi, hne, ih h.2]

theorem outcome_of_finished {permits n : Nat} {es : List (Event β)} {s : Jobs β}
    (h : Accounted permits n es s) (hs : s.Finished) (hi : i < n) :
    ∃ b, .finish i b ∈ es ∧ (∀ c, .finish i c ∈ es → c = b) ∧ outcome s i = some b := by
  have hmem : ∀ c, .finish i c ∈ es ↔ outcome s i = some c := by
    intro c
    rw [outcome_eq_some_iff h.nodup, ← h.finished, List.mem_filterMap]
    constructor
    · exact fun he => ⟨_, he, rfl⟩
    · rintro ⟨e, he, hc⟩
      cases e with
      | start => cases hc
      | finish =>
        cases hc
        exact he
  obtain ⟨⟨_, b⟩, hb, rfl⟩ := List.mem_map.mp ((h.all_done hs).mem_iff.mpr (List.mem_range.mpr hi))
  have hout := (outcome_eq_some_iff h.nodup).mpr hb
  refine ⟨b, (hmem b).mpr hout, fun c hc => ?_, hout⟩
  exact Option.some.inj (((hmem c).mp hc).symm.trans hout)

end PrismPipe.Gate
