import Mathlib.Data.List.Basic
import Mathlib.Data.List.Nodup

/-! A queue served in rounds: a batch is taken off its head, and some of it goes back to the
end. -/

universe u

namespace PrismPipe

variable {α : Type u}

/-- `m` rounds of at most `limit` serve these, in this order. -/
inductive Rounds (limit : Nat) : List α → List α → Nat → List α → Prop
  | nil : Rounds limit queue [] 0 queue
  | round {queue back served queue' : List α} {m : Nat} : back.Sublist (queue.take limit) →
      Rounds limit (queue.drop limit ++ back) served m queue' →
      Rounds limit queue (queue.take limit ++ served) (m + 1) queue'

namespace Rounds

theorem front {limit : Nat} {served front back queue' : List α} {m : Nat}
    (h : Rounds limit (front ++ back) served m queue') :
    served <+: front ∧ served.length = m * limit ∨ front <+: served := by
  generalize hq : front ++ back = queue at h
  induction h generalizing front back with
  | nil => exact .inl ⟨List.nil_prefix, (Nat.zero_mul _).symm⟩
  | @round queue again served queue' m _ _ ih =>
    subst hq
    by_cases hl : limit ≤ front.length
    · have htake : (front ++ back).take limit = front.take limit :=
        List.take_append_of_le_length hl
      have hdrop : (front ++ back).drop limit = front.drop limit ++ back :=
        List.drop_append_of_le_length hl
      rw [htake]
      have hf : front.take limit ++ front.drop limit = front := List.take_append_drop _ _
      have hq : front.drop limit ++ (back ++ again) = (front ++ back).drop limit ++ again := by
        rw [hdrop, List.append_assoc]
      rcases ih hq with ⟨hp, hn⟩ | hp
      · refine .inl ⟨?_, ?_⟩
        · have hle := (List.prefix_append_right_inj (front.take limit)).mpr hp
          rwa [hf] at hle
        · rw [List.length_append, List.length_take, hn, Nat.min_eq_left hl, Nat.succ_mul,
            Nat.add_comm]
      · refine .inr ?_
        have hle := (List.prefix_append_right_inj (front.take limit)).mpr hp
        rwa [hf] at hle
    · refine .inr ?_
      rw [List.take_append, List.take_of_length_le (Nat.le_of_not_le hl), List.append_assoc]
      exact List.prefix_append _ _

theorem fair {limit : Nat} {queue served pre post queue' : List α} {m : Nat}
    (h : Rounds limit queue served m queue') (hn : queue.Nodup) (hs : served = pre ++ a :: post)
    (ha : a ∈ pre) : ∀ b ∈ queue, b ∈ pre := by
  have hpre : ¬ (pre ++ [a]) <+: queue := by
    intro hp
    have := hn.sublist hp.sublist
    rw [List.nodup_append] at this
    exact this.2.2 a ha a (List.mem_singleton_self a) rfl
  have hserved : (pre ++ [a]) <+: served := ⟨post, by rw [hs, List.append_assoc]; rfl⟩
  rw [← List.append_nil queue] at h
  rcases h.front with ⟨hp, -⟩ | hp
  · exact absurd (hserved.trans hp) hpre
  · rcases List.prefix_or_prefix_of_prefix hserved hp with hle | hle
    · exact absurd hle hpre
    · rcases List.prefix_concat_iff.mp hle with he | hle
      · exact absurd (he ▸ List.prefix_rfl) hpre
      · exact fun b hb => hle.subset hb

theorem all {limit : Nat} {queue served queue' : List α} {m : Nat}
    (h : Rounds limit queue served m queue') (hm : queue.length ≤ m * limit) :
    ∀ a ∈ queue, a ∈ served := by
  rw [← List.append_nil queue] at h
  rcases h.front with ⟨hp, hn⟩ | hp
  · have := hp.eq_of_length_le (by rw [hn]; exact hm)
    exact fun a ha => this ▸ ha
  · exact fun a ha => hp.subset ha

end Rounds

end PrismPipe
