import Mathlib.Logic.Function.Basic
import PrismPipe.Lib.Transition

/-! Cancellation of calls of `OrganismExecutor.execute` around `_await_inflight_or_own` and
`_finish_inflight`: any number of tasks on one executor.  Futures are numbered as they are made. -/

namespace PrismPipe.Engine

open Transition

inductive FutureState
  | unresolved | resolved | cancelled
  deriving DecidableEq

inductive OwnerStage
  | acquiring | polling | stealing | computing
  deriving DecidableEq

/-- `away`: at no await between taking a flight and finishing it.  `dragged`: out by the
`CancelledError` of a future another task cancelled. -/
inductive TaskPoint
  | away
  | waiting (fut : Nat)
  | owning (stage : OwnerStage) (key : String) (fut : Nat)
  | cancelled
  | dragged

def TaskPoint.live : TaskPoint → Bool
  | cancelled | dragged => false
  | _ => true

structure SingleFlight where
  futures : Nat → FutureState
  drawn : Nat
  inflight : String → Option Nat
  tasks : Nat → TaskPoint

inductive FlightStep
  | internal
  | cancel (i : Nat)

namespace SingleFlight

def setPoint (s : SingleFlight) (i : Nat) (p : TaskPoint) : SingleFlight :=
  { s with tasks := Function.update s.tasks i p }

/-- `_await_inflight_or_own`, where there is no flight. -/
def ownInflight (s : SingleFlight) (key : String) : SingleFlight :=
  { s with drawn := s.drawn + 1, inflight := Function.update s.inflight key (some s.drawn) }

def finishInflight (s : SingleFlight) (key : String) (fut : Nat) : SingleFlight :=
  { s with
    futures := if s.futures fut = .unresolved then Function.update s.futures fut .resolved
      else s.futures
    inflight := if s.inflight key = some fut then Function.update s.inflight key none
      else s.inflight }

def compute (s : SingleFlight) (offload : String → Bool) (i : Nat) (key : String) (fut : Nat) :
    SingleFlight :=
  if offload key then s.setPoint i (.owning .computing key fut)
  else (s.finishInflight key fut).setPoint i .away

def cancelFuture (s : SingleFlight) : TaskPoint → SingleFlight
  | .waiting fut =>
    if s.futures fut = .unresolved then
      { s with futures := Function.update s.futures fut .cancelled }
    else s
  | _ => s

inductive Step (redis : Bool) (offload : String → Bool) :
    SingleFlight → FlightStep → SingleFlight → Prop
  | join : s.tasks i = .away → s.inflight key = some fut →
      Step redis offload s .internal (s.setPoint i (.waiting fut))
  | wake : s.tasks i = .waiting fut → s.futures fut = .resolved →
      Step redis offload s .internal (s.setPoint i .away)
  | drag : s.tasks i = .waiting fut → s.futures fut = .cancelled →
      Step redis offload s .internal (s.setPoint i .dragged)
  | own : s.tasks i = .away → s.inflight key = none → redis →
      Step redis offload s .internal
        ((s.ownInflight key).setPoint i (.owning .acquiring key s.drawn))
  | ownLocally : s.tasks i = .away → s.inflight key = none → redis = false →
      Step redis offload s .internal ((s.ownInflight key).compute offload i key s.drawn)
  | refused : s.tasks i = .owning .acquiring key fut →
      Step redis offload s .internal (s.setPoint i (.owning .polling key fut))
  | acquired : s.tasks i = .owning stage key fut → stage = .acquiring ∨ stage = .stealing →
      Step redis offload s .internal (s.compute offload i key fut)
  | found : s.tasks i = .owning .polling key fut →
      Step redis offload s .internal ((s.finishInflight key fut).setPoint i .away)
  | steal : s.tasks i = .owning .polling key fut →
      Step redis offload s .internal
        ((s.finishInflight key fut).setPoint i (.owning .stealing key fut))
  /-- The node's result is registered, or its exception caught. -/
  | computed : s.tasks i = .owning .computing key fut →
      Step redis offload s .internal ((s.finishInflight key fut).setPoint i .away)
  | cancel : (s.tasks i).live →
      Step redis offload s (.cancel i) ((s.cancelFuture (s.tasks i)).setPoint i .cancelled)

structure Isolated (s : SingleFlight) : Prop where
  dragged : ∀ i, s.tasks i ≠ .dragged
  resolvable : ∀ key fut, s.inflight key = some fut → s.futures fut = .unresolved →
    ∃ i stage, s.tasks i = .owning stage key fut

def Careful (s : SingleFlight) : FlightStep → Prop
  | .internal => True
  | .cancel i => match s.tasks i with
    | .owning _ key fut => s.inflight key ≠ some fut
    | .waiting fut => s.futures fut ≠ .unresolved
    | _ => True

end SingleFlight

def singleFlight (redis : Bool) (offload : String → Bool) : System SingleFlight FlightStep where
  init s := (∀ fut, s.futures fut = .unresolved) ∧ s.drawn = 0 ∧ (∀ key, s.inflight key = none) ∧
    ∀ i, s.tasks i = .away
  step := SingleFlight.Step redis offload

def carefulSingleFlight (redis : Bool) (offload : String → Bool) :
    System SingleFlight FlightStep where
  init := (singleFlight redis offload).init
  step s a t := s.Step redis offload a t ∧ s.Careful a

namespace SingleFlight

/-- Every flight is unresolved and has its owner, every awaited future is resolved or in flight, and
nothing is cancelled. -/
structure Kept (s : SingleFlight) : Prop where
  entry : ∀ {key fut}, s.inflight key = some fut → s.futures fut = .unresolved ∧
    ∃ i stage, s.tasks i = .owning stage key fut
  held : ∀ {i stage key fut}, s.tasks i = .owning stage key fut → fut < s.drawn
  unique : ∀ {i j stage stage' key key' fut}, s.tasks i = .owning stage key fut →
    s.tasks j = .owning stage' key' fut → i = j
  waits : ∀ {i fut}, s.tasks i = .waiting fut →
    s.futures fut = .resolved ∨ ∃ key, s.inflight key = some fut
  uncancelled : ∀ fut, s.futures fut ≠ .cancelled
  undragged : ∀ i, s.tasks i ≠ .dragged
  undrawn : ∀ fut, s.drawn ≤ fut → s.futures fut = .unresolved
  spare : ∃ n, ∀ i, n ≤ i → s.tasks i = .away

theorem tasks_setPoint (s : SingleFlight) (i : Nat) (p : TaskPoint) (j : Nat) :
    (s.setPoint i p).tasks j = if j = i then p else s.tasks j := Function.update_apply _ _ _ _

theorem spare_setPoint {s : SingleFlight} (h : ∃ n, ∀ j, n ≤ j → s.tasks j = .away) (i : Nat)
    (p : TaskPoint) : ∃ n, ∀ j, n ≤ j → (s.setPoint i p).tasks j = .away := by
  obtain ⟨n, hn⟩ := h
  refine ⟨n + i + 1, fun j hj => ?_⟩
  rw [tasks_setPoint, if_neg (by omega)]
  exact hn j (by omega)

theorem setPoint_finishInflight (s : SingleFlight) (i : Nat) (p q : TaskPoint) (key : String)
    (fut : Nat) : ((s.setPoint i p).finishInflight key fut).setPoint i q =
      (s.finishInflight key fut).setPoint i q := by
  dsimp only [setPoint, finishInflight]
  rw [Function.update_idem]

theorem finishInflight_inflight (s : SingleFlight) (key : String) (fut : Nat) :
    (s.finishInflight key fut).inflight key ≠ some fut := by
  dsimp only [finishInflight]
  split
  · simp
  · assumption

theorem finishInflight_futures_ne (s : SingleFlight) (key : String) (hf : f ≠ fut) :
    (s.finishInflight key fut).futures f = s.futures f := by
  dsimp only [finishInflight]
  split
  · exact Function.update_of_ne hf ..
  · rfl

theorem finishInflight_futures_self {s : SingleFlight} (key : String)
    (h : s.futures fut ≠ .cancelled) : (s.finishInflight key fut).futures fut = .resolved := by
  dsimp only [finishInflight]
  split
  · exact Function.update_self ..
  next hn =>
    cases hf : s.futures fut with
    | unresolved => exact absurd hf hn
    | resolved => rfl
    | cancelled => exact absurd hf h

theorem finishInflight_inflight_ne (s : SingleFlight) (key : String) (hf : f ≠ fut) :
    (s.finishInflight key fut).inflight key' = some f ↔ s.inflight key' = some f := by
  dsimp only [finishInflight]
  split
  next hk =>
    rw [Function.update_apply]
    split
    next hkey =>
      rw [hkey, hk]
      exact ⟨nofun, fun h => absurd (Option.some.inj h).symm hf⟩
    · rfl
  · rfl

theorem of_finishInflight_inflight {s : SingleFlight}
    (h : (s.finishInflight key fut).inflight key' = some f) : s.inflight key' = some f := by
  dsimp only [finishInflight] at h
  split at h
  · rw [Function.update_apply] at h
    split at h
    · cases h
    · exact h
  · exact h

theorem Kept.setPoint {s : SingleFlight} (h : s.Kept) (hd : p ≠ .dragged)
    (hw : ∀ fut, p = .waiting fut → s.futures fut = .resolved ∨ ∃ key, s.inflight key = some fut)
    (ho : ∀ stage key fut, p = .owning stage key fut → ∃ stage', s.tasks i = .owning stage' key fut)
    (hq : ∀ stage key fut, s.tasks i = .owning stage key fut → s.inflight key = some fut →
      ∃ stage', p = .owning stage' key fut) : (s.setPoint i p).Kept := by
  -- an owner was one before, of the same flight
  have hback {j stage key fut} (hj : (s.setPoint i p).tasks j = .owning stage key fut) :
      ∃ stage', s.tasks j = .owning stage' key fut := by
    rw [tasks_setPoint] at hj
    split at hj
    next hji =>
      subst hji
      exact ho _ _ _ hj
    · exact ⟨stage, hj⟩
  refine ⟨fun {key fut} hk => ?_, fun hj => ?_, fun hj hk => ?_, fun {j fut} hj => ?_,
    h.uncancelled, fun j hj => ?_, h.undrawn, spare_setPoint h.spare i p⟩
  · obtain ⟨hf, j, stage, hj⟩ := h.entry hk
    refine ⟨hf, j, ?_⟩
    rw [tasks_setPoint]
    split
    next hji =>
      subst hji
      exact hq _ _ _ hj hk
    · exact ⟨stage, hj⟩
  · obtain ⟨stage, hj⟩ := hback hj
    exact h.held hj
  · obtain ⟨_, hj⟩ := hback hj
    obtain ⟨_, hk⟩ := hback hk
    exact h.unique hj hk
  · rw [tasks_setPoint] at hj
    split at hj
    · exact hw _ hj
    · exact h.waits hj
  · rw [tasks_setPoint] at hj
    split at hj
    · exact hd hj
    · exact h.undragged j hj

theorem Kept.own {s : SingleFlight} (h : s.Kept) (hi : s.tasks i = .away)
    (hk : s.inflight key = none) (stage : OwnerStage) :
    ((s.ownInflight key).setPoint i (.owning stage key s.drawn)).Kept := by
  have hback {j stage' key' fut}
      (hj : ((s.ownInflight key).setPoint i (.owning stage key s.drawn)).tasks j =
        .owning stage' key' fut) :
      j = i ∧ fut = s.drawn ∨ s.tasks j = .owning stage' key' fut ∧ fut < s.drawn := by
    rw [tasks_setPoint] at hj
    split at hj
    next hji =>
      cases hj
      exact .inl ⟨hji, rfl⟩
    · exact .inr ⟨hj, h.held hj⟩
  refine ⟨fun {key' fut} hk' => ?_, fun hj => ?_, fun hj hl => ?_, fun {j fut} hj => ?_,
    h.uncancelled, fun j hj => ?_, fun fut hf => ?_, spare_setPoint h.spare i _⟩
  · change Function.update s.inflight key (some s.drawn) key' = some fut at hk'
    rw [Function.update_apply] at hk'
    split at hk'
    next hkey =>
      cases hk'
      subst hkey
      exact ⟨h.undrawn _ (Nat.le_refl _), i, stage, by rw [tasks_setPoint, if_pos rfl]⟩
    · obtain ⟨hf, j, stage', hj⟩ := h.entry hk'
      refine ⟨hf, j, stage', ?_⟩
      rw [tasks_setPoint, if_neg]
      · exact hj
      · rintro rfl
        rw [hi] at hj
        cases hj
  · rcases hback hj with ⟨-, rfl⟩ | ⟨-, hlt⟩
    · exact Nat.lt_succ_self _
    · exact Nat.lt_succ_of_lt hlt
  · rcases hback hj with ⟨rfl, rfl⟩ | ⟨hj, hlt⟩
    · rcases hback hl with ⟨rfl, -⟩ | ⟨-, hlt⟩
      · rfl
      · exact absurd hlt (Nat.lt_irrefl _)
    · rcases hback hl with ⟨rfl, rfl⟩ | ⟨hl, -⟩
      · exact absurd hlt (Nat.lt_irrefl _)
      · exact h.unique hj hl
  · rw [tasks_setPoint] at hj
    split at hj
    · cases hj
    · rcases h.waits hj with hf | ⟨key', hk'⟩
      · exact .inl hf
      · refine .inr ⟨key', ?_⟩
        change Function.update s.inflight key (some s.drawn) key' = some fut
        rw [Function.update_of_ne, hk']
        rintro rfl
        rw [hk] at hk'
        cases hk'
  · rw [tasks_setPoint] at hj
    split at hj
    · cases hj
    · exact h.undragged j hj
  · exact h.undrawn fut (Nat.le_of_succ_le hf)

theorem Kept.finishInflight {s : SingleFlight} (h : s.Kept)
    (hi : s.tasks i = .owning stage key fut) : (s.finishInflight key fut).Kept := by
  have hresolved := finishInflight_futures_self key (h.uncancelled fut)
  -- no other flight has the future
  have hne {key' f} (hk : (s.finishInflight key fut).inflight key' = some f) : f ≠ fut := by
    rintro rfl
    obtain ⟨-, j, stage', hj⟩ := h.entry (of_finishInflight_inflight hk)
    obtain rfl := h.unique hi hj
    rw [hi] at hj
    cases hj
    exact s.finishInflight_inflight key f hk
  refine ⟨fun hk => ?_, h.held, h.unique, fun {j f} hj => ?_, fun f hc => ?_, h.undragged,
    fun f hf => ?_, h.spare⟩
  · obtain ⟨hf, hown⟩ := h.entry (of_finishInflight_inflight hk)
    exact ⟨(s.finishInflight_futures_ne key (hne hk)).trans hf, hown⟩
  · by_cases hf : f = fut
    · exact .inl (hf ▸ hresolved)
    · rcases h.waits hj with hr | ⟨key', hk⟩
      · exact .inl ((s.finishInflight_futures_ne key hf).trans hr)
      · exact .inr ⟨key', (s.finishInflight_inflight_ne key hf).mpr hk⟩
  · by_cases hf : f = fut
    · subst hf
      rw [hresolved] at hc
      cases hc
    · exact h.uncancelled f ((s.finishInflight_futures_ne key hf).symm.trans hc)
  · have hne : f ≠ fut := Nat.ne_of_gt (Nat.lt_of_lt_of_le (h.held hi) hf)
    exact (s.finishInflight_futures_ne key hne).trans (h.undrawn f hf)

theorem Kept.release {s : SingleFlight} (h : s.Kept) (hp : p = .away ∨ p = .cancelled)
    (hq : ∀ stage key fut, s.tasks i = .owning stage key fut → s.inflight key ≠ some fut) :
    (s.setPoint i p).Kept := by
  refine h.setPoint (fun hd => ?_) (fun _ hw => ?_) (fun _ _ _ ho => ?_)
    fun _ _ _ hi hk => absurd hk (hq _ _ _ hi)
  · rcases hp with rfl | rfl <;> cases hd
  · rcases hp with rfl | rfl <;> cases hw
  · rcases hp with rfl | rfl <;> cases ho

theorem Kept.advance {s : SingleFlight} (h : s.Kept) (hi : s.tasks i = .owning stage key fut)
    (stage' : OwnerStage) : (s.setPoint i (.owning stage' key fut)).Kept := by
  refine h.setPoint (fun hp => ?_) (fun _ hp => ?_) (fun _ _ _ hp => ?_) fun _ _ _ hq _ => ?_
  · cases hp
  · cases hp
  · cases hp
    exact ⟨stage, hi⟩
  · rw [hi] at hq
    cases hq
    exact ⟨stage', rfl⟩

theorem Kept.finished {s : SingleFlight} (h : s.Kept) (hi : s.tasks i = .owning stage key fut) :
    ((s.finishInflight key fut).setPoint i .away).Kept := by
  refine (h.finishInflight hi).release (.inl rfl) fun _ _ _ hq => ?_
  rw [show (s.finishInflight key fut).tasks = s.tasks from rfl, hi] at hq
  cases hq
  exact s.finishInflight_inflight key fut

theorem Kept.compute {s : SingleFlight} (h : s.Kept) (hi : s.tasks i = .owning stage key fut)
    (offload : String → Bool) : (s.compute offload i key fut).Kept := by
  dsimp only [SingleFlight.compute]
  split
  · exact h.advance hi _
  · exact h.finished hi

theorem Kept.step {s : SingleFlight} (h : s.Kept) (st : s.Step redis offload a t)
    (hc : s.Careful a) : t.Kept := by
  cases st with
  | @join fut _ i key hi hk =>
    refine h.setPoint (fun hp => ?_) (fun _ hp => ?_) (fun _ _ _ hp => ?_) fun _ _ _ hq => ?_
    · cases hp
    · cases hp
      exact .inr ⟨key, hk⟩
    · cases hp
    · rw [hi] at hq
      cases hq
  | wake hi _ =>
    refine h.release (.inl rfl) fun _ _ _ hq => ?_
    rw [hi] at hq
    cases hq
  | drag _ hf => exact absurd hf (h.uncancelled _)
  | own hi hk _ => exact h.own hi hk _
  | @ownLocally _ key i hi hk _ =>
    have hown := h.own hi hk .computing
    have hpoint : ((s.ownInflight key).setPoint i (.owning .computing key s.drawn)).tasks i =
        .owning .computing key s.drawn := by rw [tasks_setPoint, if_pos rfl]
    dsimp only [SingleFlight.compute]
    split
    · exact hown
    · have hdone := hown.finished hpoint
      rwa [setPoint_finishInflight] at hdone
  | refused hi => exact h.advance hi _
  | acquired hi _ => exact h.compute hi offload
  | found hi => exact h.finished hi
  | steal hi => exact (h.finishInflight hi).advance hi _
  | computed hi => exact h.finished hi
  | @cancel _ i _ =>
    -- a careful cancellation leaves the futures alone
    have hsame : s.cancelFuture (s.tasks i) = s := by
      dsimp only [Careful] at hc
      unfold cancelFuture
      split
      next hi =>
        rw [hi] at hc
        exact if_neg hc
      · rfl
    rw [hsame]
    refine h.release (.inr rfl) fun _ _ _ hq => ?_
    dsimp only [Careful] at hc
    rwa [hq] at hc

theorem kept : Invariant (carefulSingleFlight redis offload) Kept where
  init := by
    rintro s ⟨hf, hd, hk, ht⟩
    refine ⟨fun he => ?_, fun hi => ?_, fun hi => ?_, fun hi => ?_, fun fut hc => ?_,
      fun i hi => ?_, fun fut _ => hf fut, 0, fun i _ => ht i⟩
    · rw [hk] at he
      cases he
    · rw [ht] at hi
      cases hi
    · rw [ht] at hi
      cases hi
    · rw [ht] at hi
      cases hi
    · rw [hf] at hc
      cases hc
    · rw [ht] at hi
      cases hi
  step h st := h.step st.1 st.2

theorem Kept.isolated {s : SingleFlight} (h : s.Kept) : s.Isolated where
  dragged := h.undragged
  resolvable _ _ hk _ := (h.entry hk).2

theorem Kept.orphan {s : SingleFlight} (h : s.Kept) (hi : s.tasks i = .owning stage key fut)
    (hk : s.inflight key = some fut) : ¬(s.setPoint i .cancelled).Isolated := by
  intro hiso
  obtain ⟨j, stage', hj⟩ := hiso.resolvable key fut hk (h.entry hk).1
  rw [tasks_setPoint] at hj
  split at hj
  · cases hj
  next hne => exact hne (h.unique hj hi)

theorem dragged_of_cancelled {s : SingleFlight} (hi : s.tasks i = .away)
    (hk : s.inflight key = some fut) (hf : s.futures fut = .cancelled) :
    ∃ es t, Run (carefulSingleFlight redis offload) s es t ∧ ¬t.Isolated := by
  have hjoined : (s.setPoint i (.waiting fut)).tasks i = .waiting fut := by
    rw [tasks_setPoint, if_pos rfl]
  refine ⟨[.internal, .internal], (s.setPoint i (.waiting fut)).setPoint i .dragged,
    .cons ⟨.join hi hk, trivial⟩ (.single ⟨.drag hjoined hf, trivial⟩), fun hiso => ?_⟩
  refine hiso.dragged i ?_
  rw [tasks_setPoint, if_pos rfl]

theorem Kept.cancelled {s : SingleFlight} (h : s.Kept) (hi : s.tasks i = .waiting fut)
    (hf : s.futures fut = .unresolved) :
    ∃ es t, Run (carefulSingleFlight redis offload)
      ((s.cancelFuture (s.tasks i)).setPoint i .cancelled) es t ∧ ¬t.Isolated := by
  obtain ⟨key, hk⟩ : ∃ key, s.inflight key = some fut :=
    (h.waits hi).resolve_left fun hr => by
      rw [hf] at hr
      cases hr
  -- there is always one more task to come
  obtain ⟨n, hn⟩ := h.spare
  have hne : n ≠ i := by
    rintro rfl
    rw [hn n (Nat.le_refl n)] at hi
    cases hi
  have hcancel : s.cancelFuture (s.tasks i) =
      { s with futures := Function.update s.futures fut .cancelled } := by
    rw [hi]
    exact if_pos hf
  rw [hcancel]
  refine dragged_of_cancelled (i := n) ?_ hk (Function.update_self ..)
  rw [tasks_setPoint, if_neg hne]
  exact hn n (Nat.le_refl n)

/-- Exactly: what a careful run reaches is isolated, and it stays so after a cancellation just if
that is careful. -/
theorem isolated_iff_careful {s t : SingleFlight} (hs : (singleFlight redis offload).init s)
    (hr : Run (carefulSingleFlight redis offload) s es t) :
    t.Isolated ∧ ∀ i u, t.Step redis offload (.cancel i) u →
      (t.Careful (.cancel i) ↔
        ∀ fs v, Run (carefulSingleFlight redis offload) u fs v → v.Isolated) := by
  have hkept : t.Kept :=
    kept.run hr (Invariant.init (S := carefulSingleFlight redis offload) kept hs)
  refine ⟨hkept.isolated, fun i u st => ⟨fun hc fs v hv => ?_, fun hiso => ?_⟩⟩
  · exact (kept.run hv (hkept.step st hc)).isolated
  · cases st
    dsimp only [Careful]
    split
    next hi =>
      intro hk
      have hcancelled := hiso [] _ .nil
      rw [hi] at hcancelled
      exact hkept.orphan hi hk hcancelled
    next hi =>
      intro hf
      obtain ⟨fs, v, hv, hnot⟩ := hkept.cancelled hi hf
      exact hnot (hiso fs v hv)
    · trivial

def idle : SingleFlight := ⟨fun _ => .unresolved, 0, fun _ => none, fun _ => .away⟩

/-- Task 0 is at `try_acquire_flight_lock`. -/
def owned : SingleFlight := (idle.ownInflight "k").setPoint 0 (.owning .acquiring "k" 0)

def joined : SingleFlight := (owned.setPoint 1 (.waiting 0)).setPoint 2 (.waiting 0)

theorem run_joined {S : System SingleFlight FlightStep} (hown : S.step idle .internal owned)
    (hjoin : ∀ {s : SingleFlight} {i}, s.tasks i = .away → s.inflight "k" = some 0 →
      S.step s .internal (s.setPoint i (.waiting 0))) :
    Run S idle [.internal, .internal, .internal] joined :=
  .cons hown <| .cons (hjoin (i := 1) rfl rfl) <| .single (hjoin (i := 2) rfl rfl)

theorem isolated_iff_careful_joined : joined.Isolated ∧
    ∀ i u, joined.Step true (fun _ => false) (.cancel i) u →
      (joined.Careful (.cancel i) ↔
        ∀ fs v, Run (carefulSingleFlight true fun _ => false) u fs v → v.Isolated) :=
  isolated_iff_careful (s := idle) ⟨fun _ => rfl, rfl, fun _ => rfl, fun _ => rfl⟩ <|
    run_joined ⟨.own rfl rfl rfl, trivial⟩ fun hi hk => ⟨.join hi hk, trivial⟩

/-- The owner is cancelled, and nobody resolves its future; or a waiter is, and the other is out. -/
theorem cancellation_not_isolated :
    (∃ es t, Run (singleFlight true fun _ => false) idle es t ∧ t.tasks 0 = .cancelled ∧
      t.inflight "k" = some 0 ∧ t.futures 0 = .unresolved ∧ ¬t.Isolated) ∧
    ∃ es t, Run (singleFlight true fun _ => false) idle es t ∧ t.tasks 1 = .cancelled ∧
      t.tasks 2 = .dragged ∧ ¬t.Isolated := by
  have hjoined : Run (singleFlight true fun _ => false) idle _ joined :=
    run_joined (.own rfl rfl rfl) .join
  constructor
  · have hcancel : joined.Step true (fun _ => false) (.cancel 0) (joined.setPoint 0 .cancelled) :=
      .cancel rfl
    refine ⟨_, _, hjoined.snoc hcancel, rfl, rfl, rfl, fun hiso => ?_⟩
    obtain ⟨i, stage, hi⟩ := hiso.resolvable "k" 0 rfl rfl
    match i with
    | 0 => cases hi
    | 1 => cases hi
    | 2 => cases hi
    | i + 3 => cases hi
  · have hcancel : joined.Step true (fun _ => false) (.cancel 1)
        ((joined.cancelFuture (.waiting 0)).setPoint 1 .cancelled) := .cancel rfl
    have hdrag : SingleFlight.Step true (fun _ => false)
        ((joined.cancelFuture (.waiting 0)).setPoint 1 .cancelled) .internal
        (((joined.cancelFuture (.waiting 0)).setPoint 1 .cancelled).setPoint 2 .dragged) :=
      .drag (show _ = TaskPoint.waiting 0 from rfl) rfl
    exact ⟨_, _, (hjoined.snoc hcancel).snoc hdrag, rfl, rfl, fun hiso => hiso.dragged 2 rfl⟩

end SingleFlight

end PrismPipe.Engine
