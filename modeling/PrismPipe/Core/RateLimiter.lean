import Mathlib.Algebra.Order.BigOperators.Group.List
import Mathlib.Data.List.AList
import Mathlib.Data.List.Chain
import Mathlib.Tactic.NormNum
import PrismPipe.Lib.TokenBucket
import PrismPipe.Lib.Transition

/-! `RateLimiter` of `resilience.py`, over exact numbers: what any sequence of calls on one key is
granted. -/

namespace PrismPipe.Core

open Transition TokenBucket

structure RateLimiter where
  rate : ℚ := 100
  burst : Int := 10
  /-- Up to their order. -/
  buckets : AList fun _ : String => ℚ × ℚ := ∅

namespace RateLimiter

def put (self : RateLimiter) (key : String) (bucket : ℚ × ℚ) : RateLimiter :=
  { self with buckets := self.buckets.insert key bucket }

def getTokens (self : RateLimiter) (key : String) (now : ℚ) : (ℚ × ℚ) × RateLimiter :=
  match self.buckets.lookup key with
  | none => ((now, (self.burst : ℚ)), self.put key (now, (self.burst : ℚ)))
  | some (lastTime, tokens) =>
    let elapsed := now - lastTime
    let tokens := refill self.rate self.burst tokens elapsed
    ((now, tokens), self.put key (now, tokens))

/-- One pass of the loop of `acquire`: whether it returns, and the `tokens` of the next pass. The
assignment binds the parameter anew, so that the comparison is of one number with itself. -/
def pass (self : RateLimiter) (key : String) (clock _tokens : ℚ) : (Bool × ℚ) × RateLimiter :=
  let ((now, tokens), self) := self.getTokens key clock
  if tokens ≥ tokens then ((true, tokens), self.put key (now, tokens - tokens))
  else ((false, tokens), self)

def level (self : RateLimiter) (key : String) : Option ℚ := (self.buckets.lookup key).map (·.2)

/-- `acquire`, from a reading of the clock to the one at which it returns, with what the bucket
held then. -/
inductive Acquires (key : String) : RateLimiter → ℚ → ℚ → RateLimiter → ℚ → ℚ → Prop
  | granted : s.pass key now tokens = ((true, left), t) →
      Acquires key s tokens now t now (s.getTokens key now).1.2
  | slept : s.pass key now tokens = ((false, left), t) → now ≤ later →
      Acquires key t left later u time before → Acquires key s tokens now u time before

structure Grant where
  called : ℚ
  tokens : ℚ
  time : ℚ
  before : ℚ
  after : ℚ

inductive Step (key : String) : RateLimiter × ℚ → Grant → RateLimiter × ℚ → Prop
  | acquire : last ≤ called → 0 ≤ tokens → tokens ≤ s.burst →
      Acquires key s tokens called t time before → t.level key = some after →
      Step key (s, last) ⟨called, tokens, time, before, after⟩ (t, time)

def acquisitions (key : String) : System (RateLimiter × ℚ) Grant where
  init s := s.1.buckets = ∅
  step := Step key

def draws (grants : List Grant) : List (ℚ × ℚ) := grants.map fun g => (g.time, g.tokens)

structure Limits (s : RateLimiter) (grants : List Grant) : Prop where
  window : ∀ start length, 0 ≤ length →
    total start (start + length) (draws grants) ≤ s.burst + s.rate * length
  exact : ∀ g ∈ grants, g.after = g.before - g.tokens

structure TakesAll (s : RateLimiter) (grants : List Grant) : Prop where
  rate : 0 ≤ s.rate
  burst : 0 ≤ s.burst
  first : ∀ g ∈ grants.head?, g.tokens = s.burst
  later : grants.IsChain fun g h =>
    h.tokens = min (s.burst : ℚ) ((h.called - g.called) * s.rate)

@[simp] theorem put_rate (s : RateLimiter) : (s.put key b).rate = s.rate := rfl

@[simp] theorem put_burst (s : RateLimiter) : (s.put key b).burst = s.burst := rfl

@[simp] theorem put_lookup (s : RateLimiter) : (s.put key b).buckets.lookup key = some b :=
  AList.lookup_insert _

theorem put_put (s : RateLimiter) : (s.put key a).put key b = s.put key b := by
  rw [put, put, put, AList.insert_insert]

theorem getTokens_snd (s : RateLimiter) :
    (s.getTokens key now).2 = s.put key (now, (s.getTokens key now).1.2) := by
  unfold getTokens
  split <;> rfl

theorem getTokens_now (s : RateLimiter) : (s.getTokens key now).1.1 = now := by
  unfold getTokens
  split <;> rfl

theorem pass_eq (s : RateLimiter) :
    s.pass key now tokens = ((true, (s.getTokens key now).1.2), s.put key (now, 0)) := by
  have hself : (s.getTokens key now).1.2 ≥ (s.getTokens key now).1.2 := le_refl _
  simp only [pass, if_pos hself, getTokens_snd, put_put, getTokens_now, sub_self]

theorem acquires (s : RateLimiter) (tokens : ℚ) :
    Acquires key s tokens now (s.put key (now, 0)) now (s.getTokens key now).1.2 :=
  .granted s.pass_eq

theorem Acquires.eq (h : Acquires key s tokens now t time before) :
    t = s.put key (now, 0) ∧ time = now ∧ before = (s.getTokens key now).1.2 := by
  cases h with
  | granted hp =>
    rw [pass_eq] at hp
    cases hp
    exact ⟨rfl, rfl, rfl⟩
  | slept hp =>
    rw [pass_eq] at hp
    cases hp

theorem Step.eq (st : Step key (s, last) g (t, now)) :
    t = s.put key (g.called, 0) ∧ now = g.called ∧ g.time = g.called ∧
      g.before = (s.getTokens key g.called).1.2 ∧ g.after = 0 := by
  cases st with
  | acquire _ _ _ ha hl =>
    obtain ⟨rfl, rfl, rfl⟩ := ha.eq
    rw [level, put_lookup] at hl
    exact ⟨rfl, rfl, rfl, rfl, (Option.some.inj hl).symm⟩

theorem Step.asks (st : Step key (s, last) g (t, now)) :
    last ≤ g.called ∧ 0 ≤ g.tokens ∧ g.tokens ≤ s.burst := by
  cases st with
  | acquire hle h0 hb _ _ => exact ⟨hle, h0, hb⟩

theorem getTokens_fresh {s : RateLimiter} (h : s.buckets.lookup key = none) :
    (s.getTokens key now).1.2 = s.burst := by
  rw [getTokens, h]

theorem getTokens_empty {s : RateLimiter} (h : s.buckets.lookup key = some (last, 0)) :
    (s.getTokens key now).1.2 = min (s.burst : ℚ) ((now - last) * s.rate) := by
  simp only [getTokens, h, refill, zero_add]

theorem tokens_nonneg (hr : Run (acquisitions key) s grants t) : ∀ g ∈ grants, 0 ≤ g.tokens := by
  induction hr with
  | nil => exact List.forall_mem_nil _
  | cons st _ ih =>
    exact List.forall_mem_cons.mpr ⟨st.asks.2.1, ih⟩

theorem total_nonneg {grants : List Grant} (h : ∀ g ∈ grants, 0 ≤ g.tokens) :
    0 ≤ total start stop (draws grants) := by
  refine List.sum_nonneg fun x hx => ?_
  obtain ⟨d, hd, rfl⟩ := List.mem_map.mp hx
  obtain ⟨g, hg, rfl⟩ := List.mem_map.mp (List.mem_filter.mp hd).1
  exact h g hg

theorem Limits.burst_nonneg (h : Limits s grants) (ht : ∀ g ∈ grants, 0 ≤ g.tokens) :
    0 ≤ s.burst := by
  have hw := (total_nonneg ht).trans (h.window 0 0 le_rfl)
  rw [mul_zero, add_zero] at hw
  exact_mod_cast hw

theorem Limits.rate_nonneg (h : Limits s grants) (ht : ∀ g ∈ grants, 0 ≤ g.tokens) :
    0 ≤ s.rate := by
  by_contra hneg
  have hpos : 0 < -s.rate := neg_pos.mpr (not_le.mp hneg)
  have hburst : (0 : ℚ) ≤ s.burst := by exact_mod_cast h.burst_nonneg ht
  have hlen : (0 : ℚ) ≤ (s.burst + 1) / -s.rate := div_nonneg (by linarith) hpos.le
  have hw := (total_nonneg ht).trans (h.window 0 _ hlen)
  have hcancel : s.rate * ((s.burst + 1) / -s.rate) = -(s.burst + 1) := by
    rw [← neg_neg (s.rate * _), ← neg_mul, mul_div_cancel₀ _ hpos.ne']
  linarith

theorem chain_of_exact (hr : Run (acquisitions key) (s, last) grants t)
    (hs : s.buckets.lookup key = some (last, 0)) (h : ∀ g ∈ grants, g.after = g.before - g.tokens)
    (hp : p.called = last) :
    (p :: grants).IsChain fun g h =>
      h.tokens = min (s.burst : ℚ) ((h.called - g.called) * s.rate) := by
  induction grants generalizing s last p with
  | nil => exact .singleton p
  | cons g grants ih =>
    cases hr with
    | @cons _ _ u _ _ st hr =>
      obtain ⟨u, now⟩ := u
      obtain ⟨rfl, rfl, -, hb, ha⟩ := Step.eq st
      have hg := h g List.mem_cons_self
      rw [ha, hb, getTokens_empty hs] at hg
      refine .cons_cons ?_ (ih (s := s.put key (g.called, 0)) hr (put_lookup s)
        (fun g hg => h g (List.mem_cons_of_mem _ hg)) rfl)
      rw [hp]
      linarith

theorem drawn_of_chain (hr : Run (acquisitions key) (s, last) grants t) (hp : p.called = last)
    (h : (p :: grants).IsChain fun g h =>
      h.tokens = min (s.burst : ℚ) ((h.called - g.called) * s.rate)) :
    Drawn s.rate (s.burst : ℚ) 0 last (draws grants) := by
  induction grants generalizing s last p with
  | nil => exact .nil
  | cons g grants ih =>
    cases hr with
    | @cons _ _ u _ _ st hr =>
      obtain ⟨u, now⟩ := u
      obtain ⟨hle, h0, -⟩ := Step.asks st
      obtain ⟨rfl, rfl, htime, -, -⟩ := Step.eq st
      obtain ⟨hg, hrest⟩ := List.isChain_cons_cons.mp h
      have hlevel : g.tokens = refill s.rate (s.burst : ℚ) 0 (g.called - last) := by
        rw [refill, zero_add, ← hp, hg]
      have hd := ih (s := s.put key (g.called, 0)) hr rfl hrest
      rw [draws, List.map_cons, htime]
      refine .cons hle h0 hlevel.le ?_
      rw [← hlevel, sub_self]
      exact hd

theorem drawn_of_takesAll (hr : Run (acquisitions key) (s, last) grants t)
    (h : s.TakesAll grants) : Drawn s.rate (s.burst : ℚ) s.burst last (draws grants) := by
  cases hr with
  | nil => exact .nil
  | @cons _ g u grants _ st hr =>
    obtain ⟨u, now⟩ := u
    obtain ⟨hle, h0, -⟩ := Step.asks st
    obtain ⟨rfl, rfl, htime, -, -⟩ := Step.eq st
    have hin : 0 ≤ (g.called - last) * s.rate := mul_nonneg (sub_nonneg.mpr hle) h.rate
    have hlevel : refill s.rate (s.burst : ℚ) s.burst (g.called - last) = g.tokens := by
      rw [refill, min_eq_left (by linarith), h.first g rfl]
    have hd := drawn_of_chain (s := s.put key (g.called, 0)) hr rfl h.later
    rw [draws, List.map_cons, htime]
    refine .cons hle h0 hlevel.ge ?_
    rw [hlevel, sub_self]
    exact hd

theorem exact_of_chain (hr : Run (acquisitions key) (s, last) grants t)
    (hs : s.buckets.lookup key = some (last, 0)) (hp : p.called = last)
    (h : (p :: grants).IsChain fun g h =>
      h.tokens = min (s.burst : ℚ) ((h.called - g.called) * s.rate)) :
    ∀ g ∈ grants, g.after = g.before - g.tokens := by
  induction grants generalizing s last p with
  | nil => exact List.forall_mem_nil _
  | cons g grants ih =>
    cases hr with
    | @cons _ _ u _ _ st hr =>
      obtain ⟨u, now⟩ := u
      obtain ⟨rfl, rfl, -, hb, ha⟩ := Step.eq st
      obtain ⟨hg, hrest⟩ := List.isChain_cons_cons.mp h
      refine List.forall_mem_cons.mpr ⟨?_, ih (s := s.put key (g.called, 0)) hr (put_lookup s) rfl
        hrest⟩
      rw [ha, hb, getTokens_empty hs, ← hp, hg, sub_self]

theorem exact_of_takesAll (hr : Run (acquisitions key) (s, last) grants t) (hs : s.buckets = ∅)
    (h : s.TakesAll grants) : ∀ g ∈ grants, g.after = g.before - g.tokens := by
  cases hr with
  | nil => exact List.forall_mem_nil _
  | @cons _ g u grants _ st hr =>
    obtain ⟨u, now⟩ := u
    obtain ⟨rfl, rfl, -, hb, ha⟩ := Step.eq st
    refine List.forall_mem_cons.mpr
      ⟨?_, exact_of_chain (s := s.put key (g.called, 0)) hr (put_lookup s) rfl h.later⟩
    rw [ha, hb, getTokens_fresh (hs ▸ AList.lookup_empty key), h.first g rfl, sub_self]

theorem takesAll_of_limits (hr : Run (acquisitions key) (s, last) grants t) (hs : s.buckets = ∅)
    (h : s.Limits grants) : s.TakesAll grants := by
  have ht := tokens_nonneg hr
  have hrate := h.rate_nonneg ht
  have hburst := h.burst_nonneg ht
  cases hr with
  | nil => exact ⟨hrate, hburst, nofun, .nil⟩
  | @cons _ g u grants _ st hr =>
    obtain ⟨u, now⟩ := u
    obtain ⟨rfl, rfl, -, hb, ha⟩ := Step.eq st
    refine ⟨hrate, hburst, ?_, chain_of_exact (s := s.put key (g.called, 0)) hr (put_lookup s)
      (fun g hg => h.exact g (List.mem_cons_of_mem _ hg)) rfl⟩
    rintro g ⟨⟩
    have hg := h.exact g List.mem_cons_self
    rw [ha, hb, getTokens_fresh (hs ▸ AList.lookup_empty key)] at hg
    linarith

theorem limits_of_takesAll (hr : Run (acquisitions key) (s, last) grants t) (hs : s.buckets = ∅)
    (h : s.TakesAll grants) : s.Limits grants where
  window start length hlen := by
    have hburst : (0 : ℚ) ≤ s.burst := by exact_mod_cast h.burst
    have hle := (drawn_of_takesAll hr h).total_le h.rate hburst
      (le_add_of_nonneg_right hlen : start ≤ start + length)
    rw [add_sub_cancel_left, mul_comm] at hle
    exact hle
  exact := exact_of_takesAll hr hs h

/-- As no call waits and each leaves its bucket empty, the limit is kept exactly if each call asks
for all that its bucket holds. -/
theorem limits_iff (hr : Run (acquisitions key) (s, last) grants t) (hs : s.buckets = ∅) :
    s.Limits grants ↔ s.TakesAll grants :=
  ⟨takesAll_of_limits hr hs, limits_of_takesAll hr hs⟩

def slow : RateLimiter := { rate := 1, burst := 1 }

def rush : List Grant := [⟨0, 1, 0, 1, 0⟩, ⟨0, 1, 0, 0, 0⟩]

theorem run_rush :
    Run (acquisitions "k") (slow, 0) rush ((slow.put "k" (0, 0)).put "k" (0, 0), 0) := by
  have hempty : ((slow.put "k" (0, 0)).getTokens "k" 0).1.2 = 0 := by
    rw [getTokens_empty (put_lookup slow)]
    simp [slow]
  have hagain : Acquires "k" _ 1 0 _ 0 _ := acquires (slow.put "k" (0, 0)) 1
  rw [hempty] at hagain
  exact .cons (.acquire le_rfl zero_le_one le_rfl (acquires slow 1) (congrArg _ (put_lookup slow)))
    (.single (.acquire le_rfl zero_le_one le_rfl hagain (congrArg _ (put_lookup _))))

/-- Both are granted, from a bucket of one token. -/
theorem rush_not_limited :
    Run (acquisitions "k") (slow, 0) rush ((slow.put "k" (0, 0)).put "k" (0, 0), 0) ∧
      ¬ slow.Limits rush := by
  refine ⟨run_rush, fun h => ?_⟩
  have hw := h.window 0 0 le_rfl
  norm_num [total, draws, rush, slow] at hw

theorem limits_iff_rush : ¬ slow.Limits rush := by
  intro h
  have hlater := List.isChain_pair.mp ((limits_iff run_rush rfl).mp h).later
  norm_num [slow] at hlater

end RateLimiter

end PrismPipe.Core
