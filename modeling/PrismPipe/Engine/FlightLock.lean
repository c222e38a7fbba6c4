import Mathlib.Algebra.Order.Ring.Rat
import Mathlib.Logic.Function.Basic
import Mathlib.Tactic.NormNum
import PrismPipe.Lib.Transition

/-! The flight lock of one lookup key: `SET NX EX` and an unconditional `DELETE`, by any number of
calls of `execute` in any number of workers. -/

namespace PrismPipe.Engine

open Transition

structure FlightLock where
  setBy : Nat
  expiresAt : ℚ

inductive RedisCall
  | answered
  | unanswered
  | failed
  deriving DecidableEq

def flightTtl : ℚ := 5

def standing (now : ℚ) (lock : Option FlightLock) : Option FlightLock :=
  lock.filter fun l => now < l.expiresAt

/-- `SET key 1 NX EX 5`. -/
def setNx (now : ℚ) (lock : Option FlightLock) (i : Nat) : Bool × Option FlightLock :=
  match standing now lock with
  | some l => (false, some l)
  | none => (true, some ⟨i, now + flightTtl⟩)

def tryAcquireFlightLock (now : ℚ) (lock : Option FlightLock) (i : Nat) :
    RedisCall → Bool × Option FlightLock
  | .answered => setNx now lock i
  | .unanswered => (true, (setNx now lock i).2)
  | .failed => (true, lock)

def releaseFlightLock (lock : Option FlightLock) : RedisCall → Option FlightLock
  | .answered | .unanswered => none
  | .failed => lock

/-- Where a call of `execute` is with the lock.  `lease` is when a lock it set would expire: it is
there where `redis_owner` is true. -/
inductive FlightPoint
  | away
  | acquiring (steal : Bool)
  | polling
  | computing (lease : Option ℚ)
  | releasing (lease : ℚ)

structure Flights where
  now : ℚ
  lock : Option FlightLock
  calls : Nat → FlightPoint

inductive FlightAct
  | internal
  | acquire (i : Nat) (reply : RedisCall)
  | release (i : Nat) (reply : RedisCall)
  deriving DecidableEq

def FlightPoint.acquired (owner steal : Bool) (lease : ℚ) : FlightPoint :=
  if owner then .computing (some lease) else if steal then .computing none else .polling

inductive Flights.Step : Flights → FlightAct → Flights → Prop
  | tick : s.now ≤ later → Step s .internal { s with now := later }
  | enter : s.calls i = .away →
      Step s .internal { s with calls := Function.update s.calls i (.acquiring false) }
  | acquire : s.calls i = .acquiring steal →
      tryAcquireFlightLock s.now s.lock i reply = (owner, after) →
      Step s (.acquire i reply)
        { s with
          lock := after
          calls := Function.update s.calls i (.acquired owner steal (s.now + flightTtl)) }
  /-- Cancelled while the thread is at the command. -/
  | abandon : s.calls i = .acquiring steal →
      Step s .internal
        { s with
          lock := (tryAcquireFlightLock s.now s.lock i reply).2
          calls := Function.update s.calls i .away }
  | hit : s.calls i = .polling →
      Step s .internal { s with calls := Function.update s.calls i .away }
  | steal : s.calls i = .polling →
      Step s .internal { s with calls := Function.update s.calls i (.acquiring true) }
  | computed : s.calls i = .computing none →
      Step s .internal { s with calls := Function.update s.calls i .away }
  | finish : s.calls i = .computing (some lease) →
      Step s .internal { s with calls := Function.update s.calls i (.releasing lease) }
  | release : s.calls i = .releasing lease →
      Step s (.release i reply)
        { s with
          lock := releaseFlightLock s.lock reply
          calls := Function.update s.calls i .away }

def flights : System Flights FlightAct where
  init s := s.lock = none ∧ ∀ i, s.calls i = .away
  step := Flights.Step

namespace FlightPoint

def lease : FlightPoint → Option ℚ
  | computing lease => lease
  | releasing lease => some lease
  | _ => none

end FlightPoint

namespace Flights

def Owns (s : Flights) (i : Nat) : Prop := ∃ lease, (s.calls i).lease = some lease ∧ s.now < lease

/-- An acquisition does not fail open: an exception comes after a `SET` that took effect.  A release
deletes before its own lock has expired, or while no lock stands. -/
def Careful (s : Flights) : FlightAct → Prop
  | .internal => True
  | .acquire i reply =>
    reply = .answered ∨ (reply = .unanswered ∧ (setNx s.now s.lock i).1 = true)
  | .release i reply => reply = .failed ∨ s.Owns i ∨ standing s.now s.lock = none

end Flights

def carefulFlights : System Flights FlightAct where
  init := flights.init
  step s a t := s.Step a t ∧ s.Careful a

structure Flights.Owned (s : Flights) : Prop where
  set : ∀ i lease, (s.calls i).lease = some lease → s.now < lease → s.lock = some ⟨i, lease⟩
  late : ∀ i lease l, (s.calls i).lease = some lease → s.lock = some l → l.setBy = i →
    l.expiresAt = lease

theorem standing_some (hl : lock = some l) (h : now < l.expiresAt) :
    standing now lock = some l := by
  subst hl
  exact Option.filter_eq_some_iff.mpr ⟨rfl, by simpa using h⟩

theorem standing_eq_some (h : standing now lock = some l) : lock = some l ∧ now < l.expiresAt := by
  obtain ⟨h1, h2⟩ := Option.filter_eq_some_iff.mp h
  exact ⟨h1, by simpa using h2⟩

theorem tryAcquire_lock (now : ℚ) (lock : Option FlightLock) (i : Nat) (reply : RedisCall) :
    (tryAcquireFlightLock now lock i reply).2 = lock ∨ (standing now lock = none ∧
      (tryAcquireFlightLock now lock i reply).2 = some ⟨i, now + flightTtl⟩) := by
  have hset : (setNx now lock i).2 = lock ∨
      (standing now lock = none ∧ (setNx now lock i).2 = some ⟨i, now + flightTtl⟩) := by
    rw [setNx]
    cases hs : standing now lock with
    | none => exact .inr ⟨rfl, rfl⟩
    | some l => exact .inl (standing_eq_some hs).1.symm
  cases reply with
  | answered | unanswered => exact hset
  | failed => exact .inl rfl

theorem tryAcquire_cases {s : Flights} (hc : s.Careful (.acquire i reply))
    (h : tryAcquireFlightLock s.now s.lock i reply = (owner, lock)) :
    (owner = true ∧ standing s.now s.lock = none ∧ lock = some ⟨i, s.now + flightTtl⟩) ∨
      (owner = false ∧ ∃ l, standing s.now s.lock = some l ∧ lock = some l) := by
  have hset : setNx s.now s.lock i = (owner, lock) := by
    rcases hc with rfl | ⟨rfl, ho⟩
    · exact h
    · rw [tryAcquireFlightLock] at h
      cases h
      exact Prod.ext ho rfl
  rw [setNx] at hset
  cases hs : standing s.now s.lock with
  | none =>
    rw [hs] at hset
    cases hset
    exact .inl ⟨rfl, rfl, rfl⟩
  | some l =>
    rw [hs] at hset
    cases hset
    exact .inr ⟨rfl, l, rfl, rfl⟩

theorem lease_acquired (h : (FlightPoint.acquired owner steal e).lease = some lease) :
    owner = true ∧ lease = e := by
  unfold FlightPoint.acquired at h
  split at h
  next ho =>
    cases h
    exact ⟨ho, rfl⟩
  · split at h <;> cases h

namespace Flights

theorem Owned.none_of_standing {s : Flights} (h : s.Owned) (hn : standing s.now s.lock = none)
    (hl : (s.calls i).lease = some lease) : ¬ s.now < lease := by
  intro hlt
  have hs := standing_some (h.set i lease hl hlt) hlt
  rw [hn] at hs
  cases hs

theorem Owned.move {s : Flights} (h : s.Owned) {p : FlightPoint} (hlock : after = s.lock)
    (hp : p.lease = none ∨ p.lease = (s.calls i).lease) :
    Owned { s with lock := after, calls := Function.update s.calls i p } := by
  subst hlock
  have hlease : ∀ j lease, (Function.update s.calls i p j).lease = some lease →
      (s.calls j).lease = some lease := by
    intro j lease hj
    by_cases hji : j = i
    · subst hji
      rw [Function.update_self] at hj
      rcases hp with hp | hp
      · rw [hp] at hj
        cases hj
      · rwa [← hp]
    · rwa [Function.update_of_ne hji] at hj
  exact ⟨fun j lease hj => h.set j lease (hlease j lease hj),
    fun j lease l hj => h.late j lease l (hlease j lease hj)⟩

theorem Owned.newLock {s : Flights} (h : s.Owned) (hn : standing s.now s.lock = none)
    {p : FlightPoint} (hp : ∀ lease, p.lease = some lease → lease = s.now + flightTtl) :
    Owned { s with
      lock := some ⟨i, s.now + flightTtl⟩
      calls := Function.update s.calls i p } where
  set j lease hj hlt := by
    dsimp only at hj hlt ⊢
    by_cases hji : j = i
    · subst hji
      rw [Function.update_self] at hj
      rw [hp lease hj]
    · rw [Function.update_of_ne hji] at hj
      exact absurd hlt (h.none_of_standing hn hj)
  late j lease l hj hl hset := by
    cases hl
    obtain rfl : i = j := hset
    dsimp only at hj
    rw [Function.update_self] at hj
    exact (hp lease hj).symm

theorem Owned.release {s : Flights} (h : s.Owned)
    (hc : s.Owns i ∨ standing s.now s.lock = none) :
    Owned { s with lock := none, calls := Function.update s.calls i .away } where
  set j lease hj hlt := by
    dsimp only at hj hlt ⊢
    by_cases hji : j = i
    · subst hji
      rw [Function.update_self] at hj
      cases hj
    · rw [Function.update_of_ne hji] at hj
      rcases hc with ⟨e, he, hle⟩ | hn
      · have hj' := h.set j lease hj hlt
        rw [h.set i e he hle] at hj'
        exact absurd (congrArg FlightLock.setBy (Option.some.inj hj')).symm hji
      · exact absurd hlt (h.none_of_standing hn hj)
  late _ _ _ _ hl := by cases hl

end Flights

theorem careful_owned : Invariant carefulFlights Flights.Owned where
  init := by
    rintro s ⟨hl, hc⟩
    refine ⟨fun i lease hi => ?_, fun i lease l hi => ?_⟩
    · rw [hc i] at hi
      cases hi
    · rw [hc i] at hi
      cases hi
  step := by
    rintro s a t h ⟨st, hc⟩
    cases st with
    | tick hlt => exact ⟨fun i lease hi hl => h.set i lease hi (lt_of_le_of_lt hlt hl), h.late⟩
    | enter _ | hit _ | steal _ | computed _ => exact h.move rfl (.inl rfl)
    | finish hp => exact h.move rfl (.inr (by rw [hp]; rfl))
    | acquire hp hr =>
      rcases tryAcquire_cases hc hr with ⟨rfl, hn, rfl⟩ | ⟨rfl, l, hl, rfl⟩
      · exact h.newLock hn fun lease hl => (lease_acquired hl).2
      · refine h.move (standing_eq_some hl).1.symm (.inl ?_)
        rw [FlightPoint.acquired, if_neg Bool.false_ne_true]
        split <;> rfl
    | abandon hp =>
      rename_i i reply _
      rcases tryAcquire_lock s.now s.lock i reply with hl | ⟨hn, hl⟩
      · exact h.move hl (.inl rfl)
      · rw [hl]
        exact h.newLock hn fun _ hl => nomatch hl
    | release hp =>
      rename_i i reply _
      rcases hc with rfl | hc
      · exact h.move rfl (.inl rfl)
      · cases reply with
        | failed => exact h.move rfl (.inl rfl)
        | answered | unanswered => exact h.release hc

/-- In runs whose steps are careful at most one call owns the lock; and there a release deletes
another's standing lock exactly when it is not careful. -/
theorem flight_lock_owned (hs : Reachable carefulFlights s) :
    (∀ i j, s.Owns i → s.Owns j → i = j) ∧
      ∀ i reply t, s.Step (.release i reply) t → reply ≠ .failed →
        (s.Careful (.release i reply) ↔ ∀ l, standing s.now s.lock = some l → l.setBy = i) := by
  have h := careful_owned.reachable hs
  refine ⟨?_, ?_⟩
  · rintro i j ⟨e, he, hlt⟩ ⟨e', he', hlt'⟩
    have hij := (h.set i e he hlt).symm.trans (h.set j e' he' hlt')
    exact congrArg FlightLock.setBy (Option.some.inj hij)
  · intro i reply t st hr
    refine ⟨fun hc l hl => ?_, fun hall => .inr ?_⟩
    · obtain ⟨hlock, -⟩ := standing_eq_some hl
      rcases hc with rfl | ⟨e, he, hlt⟩ | hn
      · exact absurd rfl hr
      · rw [h.set i e he hlt] at hlock
        cases hlock
        rfl
      · rw [hn] at hl
        cases hl
    · cases hst : standing s.now s.lock with
      | none => exact .inr rfl
      | some l =>
        obtain ⟨hlock, hlt⟩ := standing_eq_some hst
        cases st with
        | release hp =>
          rename_i lease
          have hlease : (s.calls i).lease = some lease := by
            rw [hp]
            rfl
          refine .inl ⟨lease, hlease, ?_⟩
          rwa [← h.late i lease l hlease hlock (hall l hst)]

/-- A call acquires, computes and releases in time. -/
theorem flight_lock_owned_quick : ∃ s t : Flights, s.Step (.release 0 .answered) t ∧
    (∀ i j, s.Owns i → s.Owns j → i = j) ∧
      ∀ i reply t, s.Step (.release i reply) t → reply ≠ .failed →
        (s.Careful (.release i reply) ↔ ∀ l, standing s.now s.lock = some l → l.setBy = i) := by
  let s0 : Flights := ⟨0, none, fun _ => .away⟩
  let s1 : Flights := ⟨0, none, Function.update s0.calls 0 (.acquiring false)⟩
  let s2 : Flights := ⟨0, some ⟨0, 0 + flightTtl⟩,
    Function.update s1.calls 0 (.computing (some (0 + flightTtl)))⟩
  let s3 : Flights := ⟨0, s2.lock, Function.update s2.calls 0 (.releasing (0 + flightTtl))⟩
  have st1 : s0.Step .internal s1 := .enter (i := 0) rfl
  have st2 : s1.Step (.acquire 0 .answered) s2 := .acquire (i := 0) rfl rfl
  have st3 : s2.Step .internal s3 := .finish (i := 0) rfl
  have h0 : Reachable carefulFlights s0 := .init ⟨rfl, fun _ => rfl⟩
  have h1 : Reachable carefulFlights s1 := h0.step ⟨st1, trivial⟩
  have h2 : Reachable carefulFlights s2 := h1.step ⟨st2, .inl rfl⟩
  have h3 : Reachable carefulFlights s3 := h2.step ⟨st3, trivial⟩
  exact ⟨s3, _, .release (i := 0) rfl, flight_lock_owned h3⟩

/-- A computation that outlasts its lock: the release deletes the lock of the next. -/
theorem slow_release_not_owned : ∃ s t, Reachable flights s ∧ s.Step (.release 0 .answered) t ∧
    ∃ l, standing s.now s.lock = some l ∧ l.setBy = 1 := by
  let s0 : Flights := ⟨0, none, fun _ => .away⟩
  let s1 : Flights := ⟨0, none, Function.update s0.calls 0 (.acquiring false)⟩
  let s2 : Flights := ⟨0, some ⟨0, 0 + flightTtl⟩,
    Function.update s1.calls 0 (.computing (some (0 + flightTtl)))⟩
  let s3 : Flights := ⟨6, s2.lock, s2.calls⟩
  let s4 : Flights := ⟨6, s2.lock, Function.update s3.calls 1 (.acquiring false)⟩
  let s5 : Flights := ⟨6, some ⟨1, 6 + flightTtl⟩,
    Function.update s4.calls 1 (.computing (some (6 + flightTtl)))⟩
  let s6 : Flights := ⟨6, s5.lock, Function.update s5.calls 0 (.releasing (0 + flightTtl))⟩
  have hexpired : standing 6 s2.lock = none := by
    norm_num [standing, s2, flightTtl, Option.filter]
  have hset : tryAcquireFlightLock 6 s2.lock 1 .answered = (true, s5.lock) := by
    rw [tryAcquireFlightLock, setNx, hexpired]
  have st1 : s0.Step .internal s1 := .enter (i := 0) rfl
  have st2 : s1.Step (.acquire 0 .answered) s2 := .acquire (i := 0) rfl rfl
  have st3 : s2.Step .internal s3 := .tick (by norm_num [s2])
  have st4 : s3.Step .internal s4 := .enter (i := 1) rfl
  have st5 : s4.Step (.acquire 1 .answered) s5 :=
    .acquire (s := s4) (i := 1) rfl hset
  have st6 : s5.Step .internal s6 := .finish (i := 0) rfl
  have h0 : Reachable flights s0 := .init ⟨rfl, fun _ => rfl⟩
  have h : Reachable flights s6 := (((((h0.step st1).step st2).step st3).step st4).step st5).step st6
  have hlt : (6 : ℚ) < 6 + flightTtl := by norm_num [flightTtl]
  exact ⟨s6, _, h, .release (i := 0) rfl, _, standing_some rfl hlt, rfl⟩

end PrismPipe.Engine
