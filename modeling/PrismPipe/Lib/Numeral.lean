import Mathlib.Algebra.Group.Nat.Defs
import Mathlib.Data.List.Lex
import Mathlib.Order.Interval.Set.Defs
import Mathlib.Order.Lattice
import Mathlib.Order.Monotone.Basic

/-! Numerals of a fixed width, and the lexicographic order of texts made of them. -/

universe u

namespace PrismPipe.Numeral

variable {α : Type u} [LinearOrder α]

theorem append_lt_append_iff {a b : List α} (h : a.length = b.length) (s t : List α) :
    a ++ s < b ++ t ↔ a < b ∨ a = b ∧ s < t := by
  induction a generalizing b with
  | nil =>
    cases b with
    | nil => simp
    | cons => cases h
  | cons x a ih =>
    cases b with
    | nil => cases h
    | cons y b =>
      simp only [List.cons_append, List.cons_lt_cons_iff, ih (Nat.succ.inj h), List.cons.injEq]
      tauto

/-- The last `n` digits of a number to a base, the first one first. -/
def padded (digit : Nat → α) (base : Nat) : Nat → Nat → List α
  | 0, _ => []
  | n + 1, k => padded digit base n (k / base) ++ [digit (k % base)]

variable {digit : Nat → α} {base : Nat}

omit [LinearOrder α] in
@[simp] theorem length_padded (digit : Nat → α) (base n k : Nat) :
    (padded digit base n k).length = n := by
  induction n generalizing k with
  | zero => rfl
  | succ n ih => simp [padded, ih]

omit [LinearOrder α] in
theorem mem_padded (hbase : 0 < base) {n k : Nat} {c : α} (h : c ∈ padded digit base n k) :
    ∃ l < base, c = digit l := by
  induction n generalizing k with
  | zero => cases h
  | succ n ih =>
    rcases List.mem_append.mp h with h | h
    · exact ih h
    · exact ⟨_, Nat.mod_lt k hbase, List.mem_singleton.mp h⟩

theorem div_mod_lt_iff (k l base : Nat) :
    k / base < l / base ∨ k / base = l / base ∧ k % base < l % base ↔ k < l := by
  have hk := Nat.div_add_mod k base
  have hl := Nat.div_add_mod l base
  constructor
  · rintro (h | ⟨h, hmod⟩)
    · exact Nat.lt_of_div_lt_div h
    · rw [h] at hk
      omega
  · intro h
    rcases (Nat.div_le_div_right h.le : k / base ≤ l / base).lt_or_eq with hdiv | hdiv
    · exact .inl hdiv
    · rw [hdiv] at hk
      exact .inr ⟨hdiv, by omega⟩

section Order

variable (hdigit : StrictMonoOn digit (Set.Iio base))
include hdigit

theorem padded_lt_iff (hk : k < base ^ n) (hl : l < base ^ n) :
    padded digit base n k < padded digit base n l ↔ k < l := by
  induction n generalizing k l with
  | zero => simp_all [padded]
  | succ n ih =>
    have hbase : 0 < base := Nat.pos_of_ne_zero fun h => by simp [h] at hk
    have hkdiv : k / base < base ^ n := Nat.div_lt_of_lt_mul (by rwa [← Nat.pow_succ'])
    have hldiv : l / base < base ^ n := Nat.div_lt_of_lt_mul (by rwa [← Nat.pow_succ'])
    have heq : padded digit base n (k / base) = padded digit base n (l / base) ↔
        k / base = l / base := by
      refine ⟨fun h => ?_, fun h => by rw [h]⟩
      have hlt := (ih hkdiv hldiv).not.mp h.not_lt
      have hgt := (ih hldiv hkdiv).not.mp h.not_gt
      omega
    have hlast : [digit (k % base)] < [digit (l % base)] ↔ k % base < l % base := by
      rw [List.cons_lt_cons_iff]
      simp [hdigit.lt_iff_lt (Nat.mod_lt k hbase) (Nat.mod_lt l hbase)]
    rw [padded, padded, append_lt_append_iff (by simp), ih hkdiv hldiv, heq, hlast, div_mod_lt_iff]

theorem padded_injective (hk : k < base ^ n) (hl : l < base ^ n)
    (h : padded digit base n k = padded digit base n l) : k = l := by
  have hlt := (padded_lt_iff hdigit hk hl).not.mp h.not_lt
  have hgt := (padded_lt_iff hdigit hl hk).not.mp h.not_gt
  omega

theorem padded_append_lt_iff (hk : k < base ^ n) (hl : l < base ^ n) (s t : List α) :
    padded digit base n k ++ s < padded digit base n l ++ t ↔ k < l ∨ k = l ∧ s < t := by
  have heq : padded digit base n k = padded digit base n l ↔ k = l :=
    ⟨padded_injective hdigit hk hl, fun h => by rw [h]⟩
  rw [append_lt_append_iff (by simp), padded_lt_iff hdigit hk hl, heq]

end Order

end PrismPipe.Numeral
