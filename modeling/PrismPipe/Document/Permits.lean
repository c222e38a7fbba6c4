import Mathlib.Data.List.Basic
import PrismPipe.Lib.Transition

/-! The permits of `DocumentVectorizeConsumer`: its dispatcher, its handler tasks, `start` and
`stop`, interleaved by the event loop. -/

namespace PrismPipe.Permits

open Transition

/-- A task of `_active` that is not done. -/
structure Handler where
  id : Nat
  /-- It has taken its first step. -/
  begun : Bool
  cancelled : Bool
  deriving DecidableEq

/-- Where the task of `_consume` is: `over` is done, or none. -/
inductive Dispatcher
  | over
  | unbegun
  | receiving
  /-- At `acquire`, its future not set. -/
  | waiting
  /-- At `acquire`, its future set by a release. -/
  | granted
  /-- Past `acquire`. -/
  | holding
  deriving DecidableEq

/-- Who has `_lifecycle_lock`, and where: `stopped` is nobody since a `stop` returned. -/
inductive Lifecycle
  | idle
  | stopped
  | starting
  | stoppingRecovery (drain : Bool)
  | stoppingDispatcher (drain : Bool)
  | gathering (tasks : List Nat)
  deriving DecidableEq

structure Consumer where
  /-- The semaphore's `_value`. -/
  permits : Nat
  active : List Handler
  created : Nat
  dispatcher : Dispatcher
  dispatcherCancelled : Bool
  recovering : Bool
  stopping : Bool
  lifecycle : Lifecycle
  deriving DecidableEq

/-- `DocumentVectorizeConsumer(..)`. -/
def Consumer.init (maxConcurrency : Nat) : Consumer where
  permits := maxConcurrency
  active := []
  created := 0
  dispatcher := .over
  dispatcherCancelled := false
  recovering := false
  stopping := false
  lifecycle := .idle

namespace Consumer

/-- `Semaphore.release`: the permit goes to who waits, unless its wait was cancelled. -/
def release (s : Consumer) : Consumer :=
  if s.dispatcher = .waiting ∧ s.dispatcherCancelled = false then { s with dispatcher := .granted }
  else { s with permits := s.permits + 1 }

def held (s : Consumer) : Nat := if s.dispatcher = .granted ∨ s.dispatcher = .holding then 1 else 0

def cancelActive (s : Consumer) : List Handler := s.active.map fun h => { h with cancelled := true }

end Consumer

/-- `stop(drain=False)` cancels the active tasks: `early` if one of them is not begun. -/
inductive Event
  | internal
  | early
  deriving DecidableEq

def cancelling (active : List Handler) : Event :=
  if active.all (·.begun) then .internal else .early

inductive Consumer.Step : Consumer → Event → Consumer → Prop
  | startRunning : s.lifecycle = .idle ∨ s.lifecycle = .stopped → s.dispatcher ≠ .over →
      s.recovering = true → Step s .internal s
  | start : s.lifecycle = .idle ∨ s.lifecycle = .stopped →
      s.dispatcher = .over ∨ s.recovering = false →
      Step s .internal
        { s with lifecycle := .starting, dispatcherCancelled := s.dispatcher ≠ .over }
  /-- The previous tasks are gathered; the transport is up and the outbox drained. -/
  | started : s.lifecycle = .starting → s.dispatcher = .over → s.recovering = false →
      Step s .internal
        { s with
          lifecycle := .idle
          stopping := false
          dispatcher := .unbegun
          dispatcherCancelled := false
          recovering := true }
  /-- The transport or the drain raises. -/
  | startFailed : s.lifecycle = .starting → s.dispatcher = .over → s.recovering = false →
      Step s .internal { s with lifecycle := .idle, stopping := false }
  | stop : s.lifecycle = .idle ∨ s.lifecycle = .stopped →
      Step s .internal { s with lifecycle := .stoppingRecovery drain, stopping := true }
  | stopDispatcher : s.lifecycle = .stoppingRecovery drain → s.recovering = false →
      Step s .internal
        { s with
          lifecycle := .stoppingDispatcher drain
          dispatcherCancelled := s.dispatcher ≠ .over }
  | drain : s.lifecycle = .stoppingDispatcher true → s.dispatcher = .over →
      Step s .internal { s with lifecycle := .gathering (s.active.map (·.id)) }
  | cancel : s.lifecycle = .stoppingDispatcher false → s.dispatcher = .over →
      Step s (cancelling s.active)
        { s with lifecycle := .gathering (s.active.map (·.id)), active := s.cancelActive }
  | stopped : s.lifecycle = .gathering tasks → (∀ h ∈ s.active, h.id ∉ tasks) →
      Step s .internal { s with lifecycle := .stopped }
  /-- The transport raises. -/
  | stopFailed : s.lifecycle = .gathering tasks → (∀ h ∈ s.active, h.id ∉ tasks) →
      Step s .internal { s with lifecycle := .idle }
  /-- It is cancelled, or the drain raises, or it saw `_stopping`. -/
  | recovered : s.recovering = true → Step s .internal { s with recovering := false }
  | begin : s.dispatcher = .unbegun → s.dispatcherCancelled = false →
      Step s .internal { s with dispatcher := .receiving }
  /-- Cancelled before its first step. -/
  | unbegun : s.dispatcher = .unbegun → s.dispatcherCancelled = true →
      Step s .internal { s with dispatcher := .over }
  /-- The transport's messages end, or it raises, or it lets the cancellation through. -/
  | exhausted : s.dispatcher = .receiving → Step s .internal { s with dispatcher := .over }
  /-- A message, and `_stopping`. -/
  | declined : s.dispatcher = .receiving → s.stopping = true →
      Step s .internal { s with dispatcher := .over }
  /-- A message: a cancellation that came with it was lost. -/
  | acquired : s.dispatcher = .receiving → s.stopping = false → s.permits = free + 1 →
      Step s .internal
        { s with dispatcher := .holding, dispatcherCancelled := false, permits := free }
  | blocked : s.dispatcher = .receiving → s.stopping = false → s.permits = 0 →
      Step s .internal { s with dispatcher := .waiting, dispatcherCancelled := false }
  | resumed : s.dispatcher = .granted → s.dispatcherCancelled = false →
      Step s .internal { s with dispatcher := .holding }
  | unwaited : s.dispatcher = .waiting → s.dispatcherCancelled = true →
      Step s .internal { s with dispatcher := .over }
  /-- `acquire` gives the permit back. -/
  | ungranted : s.dispatcher = .granted → s.dispatcherCancelled = true →
      Step s .internal { s with dispatcher := .over, permits := s.permits + 1 }
  | released : s.dispatcher = .holding → s.stopping = true →
      Step s .internal { s.release with dispatcher := .over }
  | created : s.dispatcher = .holding → s.stopping = false →
      Step s .internal
        { s with
          dispatcher := .receiving
          active := s.active ++ [⟨s.created, false, false⟩]
          created := s.created + 1 }
  | enter : s.active = hs ++ h :: hs' → h.begun = false → h.cancelled = false →
      Step s .internal { s with active := hs ++ { h with begun := true } :: hs' }
  /-- `process_message` returns, raises or is cancelled: the `finally` of `_handle_and_release`. -/
  | finish : s.active = hs ++ h :: hs' → h.begun = true →
      Step s .internal ({ s with active := hs ++ hs' } : Consumer).release
  /-- Cancelled before its first step: there is no `finally`. -/
  | vanish : s.active = hs ++ h :: hs' → h.begun = false → h.cancelled = true →
      Step s .internal { s with active := hs ++ hs' }

def consumer (maxConcurrency : Nat) : System Consumer Event where
  init s := s = .init maxConcurrency
  step := Consumer.Step

/-- The permits free, the handlers not done and the message held are as many as there are permits;
and all are free once `stop` has returned. -/
structure Consumer.Accounted (maxConcurrency : Nat) (s : Consumer) : Prop where
  total : s.permits + s.active.length + s.held = maxConcurrency
  bounded : s.active.length ≤ maxConcurrency
  stopped : s.lifecycle = .stopped → s.permits = maxConcurrency

namespace Consumer

variable {s t : Consumer} {maxConcurrency lost : Nat}

@[simp] theorem release_active (s : Consumer) : s.release.active = s.active := by
  rw [release]
  split <;> rfl

@[simp] theorem release_lifecycle (s : Consumer) : s.release.lifecycle = s.lifecycle := by
  rw [release]
  split <;> rfl

theorem release_of_ne (h : s.dispatcher ≠ .waiting) :
    s.release = { s with permits := s.permits + 1 } := if_neg fun hw => h hw.1

theorem release_over (h : s.dispatcher = .over) : s.release.dispatcher = .over := by
  rw [release_of_ne (by simp [h])]
  exact h

theorem release_permits (s : Consumer) :
    s.release.permits + s.release.held = s.permits + s.held + 1 := by
  rw [release]
  split
  next h => simp [held, h.1]
  next => exact Nat.add_right_comm ..

def doomed (active : List Handler) : Nat := active.countP fun h => h.cancelled && !h.begun

/-- `lost` permits will not be released. -/
structure Kept (maxConcurrency lost : Nat) (s : Consumer) : Prop where
  total : s.permits + s.active.length + s.held + lost = maxConcurrency
  gathered : s.lifecycle = .gathering tasks →
    s.dispatcher = .over ∧ ∀ h ∈ s.active, h.id ∈ tasks
  stopped : s.lifecycle = .stopped → s.dispatcher = .over ∧ s.active = []

theorem Kept.init (maxConcurrency : Nat) : Kept maxConcurrency 0 (.init maxConcurrency) :=
  ⟨rfl, nofun, nofun⟩

theorem Kept.move (h : s.Kept maxConcurrency lost) (hactive : t.active = s.active)
    (htotal : t.permits + t.held = s.permits + s.held)
    (hl : t.lifecycle = s.lifecycle ∧ (s.dispatcher = .over → t.dispatcher = .over) ∨
      (∀ tasks, t.lifecycle ≠ .gathering tasks) ∧ t.lifecycle ≠ .stopped) :
    t.Kept maxConcurrency lost where
  total := by
    have := h.total
    rw [hactive]
    omega
  gathered ht := by
    rcases hl with ⟨hl, hd⟩ | ⟨hl, -⟩
    · rw [hactive]
      exact (h.gathered (hl ▸ ht)).imp_left hd
    · exact absurd ht (hl _)
  stopped ht := by
    rcases hl with ⟨hl, hd⟩ | ⟨-, hl⟩
    · rw [hactive]
      exact (h.stopped (hl ▸ ht)).imp_left hd
    · exact absurd ht hl

theorem Kept.handlers (h : s.Kept maxConcurrency lost) (hl : t.lifecycle = s.lifecycle)
    (hd : s.dispatcher = .over → t.dispatcher = .over)
    (hactive : t.active.map (·.id) ⊆ s.active.map (·.id))
    (htotal : t.permits + t.active.length + t.held + gone =
      s.permits + s.active.length + s.held) : t.Kept maxConcurrency (lost + gone) where
  total := by
    have := h.total
    omega
  gathered ht := by
    obtain ⟨ho, hids⟩ := h.gathered (hl ▸ ht)
    refine ⟨hd ho, fun x hx => ?_⟩
    obtain ⟨y, hy, he⟩ := List.mem_map.mp (hactive (List.mem_map_of_mem hx))
    exact he ▸ hids y hy
  stopped ht := by
    obtain ⟨ho, hn⟩ := h.stopped (hl ▸ ht)
    rw [hn] at hactive
    exact ⟨hd ho, List.map_eq_nil_iff.mp (List.subset_nil.mp hactive)⟩

theorem Kept.vanish (h : s.Kept maxConcurrency lost) (ha : s.active = hs ++ x :: hs') :
    Kept maxConcurrency (lost + 1) { s with active := hs ++ hs' } := by
  refine h.handlers rfl id ?_ ?_
  · simp [ha]
  · simp only [ha, List.length_append, List.length_cons, held]
    omega

theorem Kept.finish (h : s.Kept maxConcurrency lost) (ha : s.active = hs ++ x :: hs') :
    ({ s with active := hs ++ hs' } : Consumer).release.Kept maxConcurrency lost := by
  let u : Consumer := { s with active := hs ++ hs' }
  have hids : u.active.map (·.id) ⊆ s.active.map (·.id) := by simp [u, ha]
  have hr := u.release_permits
  refine h.handlers u.release_lifecycle (u.release_over ·) (u.release_active ▸ hids)
    (?_ : u.release.permits + u.release.active.length + u.release.held + 0 = _)
  rw [release_active, ha]
  simp only [u, List.length_append, List.length_cons, held] at hr ⊢
  omega

theorem Kept.create (h : s.Kept maxConcurrency lost) (hd : s.dispatcher = .holding) :
    Kept maxConcurrency lost
      { s with
        dispatcher := .receiving
        active := s.active ++ [⟨s.created, false, false⟩]
        created := s.created + 1 } where
  total := by
    have ht := h.total
    simp only [held, hd, or_true, if_true] at ht
    simp only [held, List.length_append, List.length_singleton, reduceCtorEq, or_self, if_false]
    omega
  gathered ht := by
    rw [(h.gathered ht).1] at hd
    cases hd
  stopped ht := by
    rw [(h.stopped ht).1] at hd
    cases hd

theorem Kept.gather {hs : List Handler} (h : s.Kept maxConcurrency lost)
    (hd : s.dispatcher = .over) (hids : hs.map (·.id) = s.active.map (·.id)) :
    Kept maxConcurrency lost
      { s with lifecycle := .gathering (s.active.map (·.id)), active := hs } where
  total := by
    have hlen := congrArg List.length hids
    rw [List.length_map, List.length_map] at hlen
    simpa [held, hlen] using h.total
  gathered ht := by
    cases ht
    exact ⟨hd, fun x hx => hids ▸ List.mem_map_of_mem hx⟩
  stopped := nofun

theorem Kept.settle (h : s.Kept maxConcurrency lost) (hl : s.lifecycle = .gathering tasks)
    (hn : ∀ h ∈ s.active, h.id ∉ tasks) :
    Kept maxConcurrency lost { s with lifecycle := .stopped } where
  total := h.total
  gathered := nofun
  stopped _ := by
    obtain ⟨hd, hids⟩ := h.gathered hl
    exact ⟨hd, List.eq_nil_iff_forall_not_mem.mpr fun x hx => hn x hx (hids x hx)⟩

theorem doomed_append (hs hs' : List Handler) :
    doomed (hs ++ h :: hs') = doomed (hs ++ hs') + doomed [h] := by
  simp only [doomed, List.countP_append, List.countP_cons, List.countP_nil]
  omega

theorem doomed_cancelActive (s : Consumer) :
    doomed s.cancelActive = 0 ↔ cancelling s.active = .internal := by
  have hall : doomed s.cancelActive = 0 ↔ s.active.all (·.begun) := by
    simp [doomed, cancelActive, List.countP_eq_zero]
  rw [hall, cancelling]
  split <;> simp_all

theorem doomed_le (s : Consumer) : doomed s.active ≤ doomed s.cancelActive := by
  rw [doomed, doomed, cancelActive, List.countP_map]
  exact List.countP_mono_left fun h _ hd => by simp_all

theorem Kept.step (h : s.Kept maxConcurrency lost) (st : s.Step e t) :
    ∃ gone, t.Kept maxConcurrency (lost + gone) ∧
      (lost + gone + doomed t.active = 0 ↔ lost + doomed s.active = 0 ∧ e = .internal) := by
  have same : ∀ {t : Consumer}, t.Kept maxConcurrency lost → t.active = s.active →
      ∃ gone, t.Kept maxConcurrency (lost + gone) ∧ (lost + gone + doomed t.active = 0 ↔
        lost + doomed s.active = 0 ∧ Event.internal = .internal) :=
    fun ht ha => ⟨0, ht, by simp [ha]⟩
  cases st with
  | startRunning => exact same h rfl
  | start hl => exact same (h.move rfl rfl (.inr ⟨nofun, nofun⟩)) rfl
  | started hl hd =>
    refine same (h.move rfl ?_ (.inr ⟨nofun, nofun⟩)) rfl
    simp [held, hd]
  | startFailed => exact same (h.move rfl rfl (.inr ⟨nofun, nofun⟩)) rfl
  | stop => exact same (h.move rfl rfl (.inr ⟨nofun, nofun⟩)) rfl
  | stopDispatcher => exact same (h.move rfl rfl (.inr ⟨nofun, nofun⟩)) rfl
  | drain hl hd => exact same (h.gather hd rfl) rfl
  | cancel hl hd =>
    refine ⟨0, h.gather hd (by simp [cancelActive]), ?_⟩
    have hle := s.doomed_le
    have hiff := s.doomed_cancelActive
    dsimp only
    rw [← hiff]
    omega
  | stopped hl hn => exact same (h.settle hl hn) rfl
  | stopFailed hl hn => exact same (h.move rfl rfl (.inr ⟨nofun, nofun⟩)) rfl
  | recovered => exact same (h.move rfl rfl (.inl ⟨rfl, id⟩)) rfl
  | begin hd | blocked hd | resumed hd =>
    refine same (h.move rfl ?_ (.inl ⟨rfl, fun ho => ?_⟩)) rfl
    · simp [held, hd]
    · rw [hd] at ho
      cases ho
  | unbegun hd | declined hd | exhausted hd | unwaited hd | ungranted hd =>
    refine same (h.move rfl ?_ (.inl ⟨rfl, fun _ => rfl⟩)) rfl
    simp [held, hd]
  | acquired hd hs hp =>
    refine same (h.move rfl ?_ (.inl ⟨rfl, fun ho => ?_⟩)) rfl
    · simp [held, hd, hp]
    · rw [hd] at ho
      cases ho
  | released hd =>
    refine same (h.move s.release_active ?_ (.inl ⟨s.release_lifecycle, fun _ => rfl⟩))
      s.release_active
    have hne : s.dispatcher ≠ .waiting := by simp [hd]
    simp [release_of_ne hne, held, hd]
  | created hd =>
    refine ⟨0, h.create hd, ?_⟩
    simp [doomed]
  | enter ha hb hc =>
    refine ⟨0, h.handlers rfl id ?_ ?_, ?_⟩
    · simp [ha]
    · simp [ha, held]
    · simp [ha, doomed, hc]
  | @finish hs x hs' _ ha hb =>
    refine ⟨0, h.finish ha, ?_⟩
    rw [release_active, ha, doomed_append]
    simp [doomed, hb]
  | vanish ha hb hc =>
    refine ⟨1, h.vanish ha, ?_⟩
    rw [ha, doomed_append]
    simp [doomed, hb, hc]

theorem Kept.run (h : s.Kept maxConcurrency lost) (hr : Run (consumer maxConcurrency) s es t) :
    ∃ lost', t.Kept maxConcurrency lost' ∧
      (lost' + doomed t.active = 0 ↔ lost + doomed s.active = 0 ∧ .early ∉ es) := by
  induction hr generalizing lost with
  | nil => exact ⟨lost, h, by simp⟩
  | @cons _ e _ _ _ st _ ih =>
    obtain ⟨gone, ht, he⟩ := h.step st
    obtain ⟨lost', hu, hes⟩ := ih ht
    refine ⟨lost', hu, hes.trans ?_⟩
    have hinternal : e = .internal ↔ ¬ .early = e := by cases e <;> decide
    rw [he, and_assoc, List.mem_cons, not_or, hinternal]

theorem Kept.accounted_iff (h : s.Kept maxConcurrency lost) :
    s.Accounted maxConcurrency ↔ lost = 0 := by
  have htotal := h.total
  constructor
  · intro ha
    have := ha.total
    omega
  · rintro rfl
    refine ⟨htotal, by omega, fun hl => ?_⟩
    obtain ⟨hd, hn⟩ := h.stopped hl
    simpa [held, hd, hn] using htotal

theorem Kept.exists_vanish (h : s.Kept maxConcurrency lost) (hd : doomed s.active ≠ 0) :
    ∃ t, s.Step .internal t ∧ t.Kept maxConcurrency (lost + 1) := by
  obtain ⟨x, hx, hd⟩ := List.countP_pos_iff.mp (Nat.pos_of_ne_zero hd)
  obtain ⟨hs, hs', ha⟩ := List.append_of_mem hx
  simp only [Bool.and_eq_true, Bool.not_eq_true'] at hd
  exact ⟨_, .vanish ha hd.2 hd.1, h.vanish ha⟩

end Consumer

/-- The permits are accounted for after a run, however it goes on without an early cancellation,
exactly when it has none; and there are never more handlers than permits. -/
theorem permits_accounted_iff (hr : Run (consumer maxConcurrency) (.init maxConcurrency) es s) :
    s.active.length ≤ maxConcurrency ∧
      ((∀ fs t, Run (consumer maxConcurrency) s fs t → .early ∉ fs → t.Accounted maxConcurrency) ↔
        .early ∉ es) := by
  obtain ⟨lost, h, hlost⟩ := (Consumer.Kept.init maxConcurrency).run hr
  have hes : lost + Consumer.doomed s.active = 0 ↔ .early ∉ es := hlost.trans (and_iff_right rfl)
  have hbound := h.total
  refine ⟨by omega, fun hall => hes.mp ?_, fun hn fs t hfs hfn => ?_⟩
  · have hzero : lost = 0 := h.accounted_iff.mp (hall [] s .nil List.not_mem_nil)
    by_contra hne
    obtain ⟨t, st, ht⟩ := h.exists_vanish (by omega)
    have := ht.accounted_iff.mp (hall _ t (.single st) (by decide))
    omega
  · obtain ⟨lost', ht, hlost'⟩ := h.run hfs
    refine ht.accounted_iff.mpr ?_
    have := hlost'.mpr ⟨hes.mpr hn, hfn⟩
    omega

def serving : Consumer where
  permits := 0
  active := [⟨0, false, false⟩]
  created := 1
  dispatcher := .receiving
  dispatcherCancelled := false
  recovering := true
  stopping := false
  lifecycle := .idle

theorem serving_run :
    Run (consumer 1) (.init 1) [.internal, .internal, .internal, .internal, .internal] serving :=
  .cons (.start (.inl rfl) (.inl rfl)) <| .cons (.started rfl rfl rfl) <|
    .cons (.begin rfl rfl) <| .cons (.acquired rfl rfl rfl) <| .cons (.created rfl rfl) .nil

theorem permits_accounted_iff_serving : serving.active.length ≤ 1 ∧
    ∀ fs t, Run (consumer 1) serving fs t → .early ∉ fs → t.Accounted 1 := by
  obtain ⟨hle, hiff⟩ := permits_accounted_iff serving_run
  exact ⟨hle, hiff.mpr (by simp)⟩

/-- The recovery task has failed and the messages have ended when `stop(drain=False)` comes, before
the handler has begun: the permit is not there again. -/
theorem early_stop_not_accounted : ∃ es s, Run (consumer 1) (.init 1) es s ∧
    s.lifecycle = .stopped ∧ s.active = [] ∧ s.permits = 0 ∧ ¬ s.Accounted 1 := by
  have hstop : Run (consumer 1) serving
      [.internal, .internal, .internal, .internal, .early, .internal, .internal]
      { serving with active := [], dispatcher := .over, recovering := false, stopping := true,
                     lifecycle := .stopped } :=
    .cons (.recovered rfl) <| .cons (.exhausted rfl) <| .cons (.stop (.inl rfl)) <|
      .cons (.stopDispatcher rfl rfl) <| .cons (.cancel rfl rfl) <|
        .cons (@Consumer.Step.vanish [] ⟨0, false, true⟩ [] _ rfl rfl rfl) <|
          .cons (.stopped rfl nofun) .nil
  exact ⟨_, _, serving_run.append hstop, rfl, rfl, rfl, fun h => absurd (h.stopped rfl) nofun⟩

end PrismPipe.Permits
