import Mathlib.Algebra.Order.Field.Basic
import Mathlib.Tactic.Linarith
import Mathlib.Tactic.Ring

/-! Token buckets: a level that refills at a rate up to a cap, and is drawn from. -/

universe u

namespace PrismPipe.TokenBucket

variable {K : Type u} [Field K] [LinearOrder K]

def refill (rate cap level elapsed : K) : K := min cap (level + elapsed * rate)

inductive Drawn (rate cap : K) : K → K → List (K × K) → Prop
  | nil : Drawn rate cap level now []
  | cons : now ≤ later → 0 ≤ amount → amount ≤ refill rate cap level (later - now) →
      Drawn rate cap (refill rate cap level (later - now) - amount) later rest →
      Drawn rate cap level now ((later, amount) :: rest)

def total (start stop : K) (draws : List (K × K)) : K :=
  ((draws.filter fun d => start ≤ d.1 ∧ d.1 ≤ stop).map (·.2)).sum

variable {rate cap level now start stop : K} {draws : List (K × K)}

@[simp] theorem total_nil : total start stop [] = 0 := rfl

theorem total_cons_of_mem (h : start ≤ d.1 ∧ d.1 ≤ stop) :
    total start stop (d :: draws) = d.2 + total start stop draws := by
  rw [total, List.filter_cons_of_pos (by simpa using h), List.map_cons, List.sum_cons, total]

theorem total_cons_of_notMem (h : ¬ (start ≤ d.1 ∧ d.1 ≤ stop)) :
    total start stop (d :: draws) = total start stop draws := by
  rw [total, List.filter_cons_of_neg (by simpa using h), total]

theorem total_eq_zero (h : ∀ d ∈ draws, stop < d.1) : total start stop draws = 0 := by
  induction draws with
  | nil => rfl
  | cons d draws ih =>
    rw [total_cons_of_notMem fun hd => absurd hd.2 (not_le.mpr (h d List.mem_cons_self)),
      ih fun d hd => h d (List.mem_cons_of_mem _ hd)]

theorem refill_le_cap (rate cap level elapsed : K) : refill rate cap level elapsed ≤ cap :=
  min_le_left _ _

theorem refill_le (rate cap level elapsed : K) :
    refill rate cap level elapsed ≤ level + elapsed * rate :=
  min_le_right _ _

theorem Drawn.later (h : Drawn rate cap level now draws) : ∀ d ∈ draws, now ≤ d.1 := by
  induction h with
  | nil => exact List.forall_mem_nil _
  | cons hle _ _ _ ih =>
    exact List.forall_mem_cons.mpr ⟨hle, fun d hd => hle.trans (ih d hd)⟩

variable [IsStrictOrderedRing K]

theorem Drawn.total_le_level (hr : 0 ≤ rate) (h : Drawn rate cap level now draws)
    (hl : 0 ≤ level) (hn : now ≤ stop) : total start stop draws ≤ level + (stop - now) * rate := by
  induction h with
  | nil =>
    rw [total_nil]
    exact add_nonneg hl (mul_nonneg (sub_nonneg.mpr hn) hr)
  | @cons now later amount level rest hle h0 ha hrest ih =>
    by_cases hs : later ≤ stop
    · have hi := ih (sub_nonneg.mpr ha) hs
      have hb := refill_le rate cap level (later - now)
      have hsplit : (stop - now) * rate = (stop - later) * rate + (later - now) * rate := by ring
      by_cases hw : start ≤ later
      · rw [total_cons_of_mem ⟨hw, hs⟩]
        linarith
      · rw [total_cons_of_notMem fun hd => hw hd.1]
        linarith
    · rw [total_eq_zero]
      · exact add_nonneg hl (mul_nonneg (sub_nonneg.mpr hn) hr)
      · exact List.forall_mem_cons.mpr
          ⟨not_le.mp hs, fun d hd => (not_le.mp hs).trans_le (hrest.later d hd)⟩

theorem Drawn.total_le (hr : 0 ≤ rate) (hc : 0 ≤ cap) (h : Drawn rate cap level now draws)
    (hw : start ≤ stop) : total start stop draws ≤ cap + (stop - start) * rate := by
  have hin : 0 ≤ (stop - start) * rate := mul_nonneg (sub_nonneg.mpr hw) hr
  induction h with
  | nil =>
    rw [total_nil]
    exact add_nonneg hc hin
  | @cons now later amount level rest hle h0 ha hrest ih =>
    by_cases hd : start ≤ later ∧ later ≤ stop
    · have htail : total start stop rest ≤ _ := hrest.total_le_level hr (sub_nonneg.mpr ha) hd.2
      have hcap := refill_le_cap rate cap level (later - now)
      have hlate : (stop - later) * rate ≤ (stop - start) * rate :=
        mul_le_mul_of_nonneg_right (sub_le_sub_left hd.1 stop) hr
      rw [total_cons_of_mem hd]
      linarith
    · rw [total_cons_of_notMem hd]
      exact ih

end PrismPipe.TokenBucket
