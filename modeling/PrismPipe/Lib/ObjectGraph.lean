import Mathlib.Data.List.Forall2

/-! Heaps of objects that refer to each other: what two heaps have in common up to the addresses,
with sharing (`Iso`) and without (`Same`), and deep copies. -/

universe u v

namespace PrismPipe.ObjectGraph

inductive Slot (A : Type u)
  | atom (a : A)
  | ref (p : Nat)

structure Cell (L : Type v) (A : Type u) where
  label : L
  slots : List (Slot A)

abbrev Heap (L : Type v) (A : Type u) := List (Cell L A)

variable {L : Type v} {A : Type u} {H K M : Heap L A} {R S : Nat → Nat → Prop}

inductive Slot.Rel (R : Nat → Nat → Prop) : Slot A → Slot A → Prop
  | atom : Rel R (.atom a) (.atom a)
  | ref : R p q → Rel R (.ref p) (.ref q)

structure Cell.Rel (R : Nat → Nat → Prop) (c d : Cell L A) : Prop where
  label : c.label = d.label
  slots : List.Forall₂ (Slot.Rel R) c.slots d.slots

def Corresponds (R : Nat → Nat → Prop) (H K : Heap L A) : Prop :=
  ∀ p q, R p q → ∃ c d, H[p]? = some c ∧ K[q]? = some d ∧ c.Rel R d

def Same (H : Heap L A) (s : Slot A) (K : Heap L A) (t : Slot A) : Prop :=
  ∃ R, Corresponds R H K ∧ s.Rel R t

structure Iso (R : Nat → Nat → Prop) (H K : Heap L A) : Prop where
  corresponds : Corresponds R H K
  left : R p q → R p q' → q = q'
  right : R p q → R p' q → p = p'

theorem Slot.Rel.mono {s t : Slot A} (h : s.Rel R t) (hRS : ∀ p q, R p q → S p q) : s.Rel S t := by
  cases h with
  | atom => exact .atom
  | ref h => exact .ref (hRS _ _ h)

theorem Cell.Rel.mono {c d : Cell L A} (h : c.Rel R d) (hRS : ∀ p q, R p q → S p q) :
    c.Rel S d :=
  ⟨h.label, h.slots.imp fun _ _ hs => hs.mono hRS⟩

theorem Slot.Rel.flip {s t : Slot A} (h : s.Rel R t) : t.Rel (fun q p => R p q) s := by
  cases h with
  | atom => exact .atom
  | ref h => exact .ref h

theorem Slot.Rel.comp {s t w : Slot A} (h : s.Rel R t) (k : t.Rel S w) :
    s.Rel (fun p r => ∃ q, R p q ∧ S q r) w := by
  cases h with
  | atom =>
    cases k
    exact .atom
  | ref h =>
    cases k with
    | ref k => exact .ref ⟨_, h, k⟩

theorem forall₂_comp {P : α → β → Prop} {Q : β → γ → Prop} {T : α → γ → Prop}
    (hT : ∀ a b c, P a b → Q b c → T a c) (h : List.Forall₂ P l m) (k : List.Forall₂ Q m n) :
    List.Forall₂ T l n := by
  induction h generalizing n with
  | nil =>
    cases k
    exact .nil
  | cons h _ ih =>
    cases k with
    | cons k ks => exact .cons (hT _ _ _ h k) (ih ks)

theorem Same.symm {s t : Slot A} (h : Same H s K t) : Same K t H s := by
  obtain ⟨R, hR, hs⟩ := h
  refine ⟨fun q p => R p q, fun q p hpq => ?_, hs.flip⟩
  obtain ⟨c, d, hc, hd, hl, hr⟩ := hR p q hpq
  exact ⟨d, c, hd, hc, hl.symm, List.Forall₂.flip (hr.imp fun _ _ h => h.flip)⟩

theorem Same.trans {s t w : Slot A} (h : Same H s K t) (k : Same K t M w) : Same H s M w := by
  obtain ⟨R, hR, hs⟩ := h
  obtain ⟨S, hS, ht⟩ := k
  refine ⟨fun p r => ∃ q, R p q ∧ S q r, ?_, hs.comp ht⟩
  rintro p r ⟨q, hpq, hqr⟩
  obtain ⟨c, d, hc, hd, hl, hcd⟩ := hR p q hpq
  obtain ⟨d', e, hd', he, hl', hde⟩ := hS q r hqr
  obtain rfl : d = d' := Option.some.inj (hd.symm.trans hd')
  exact ⟨c, e, hc, he, hl.trans hl', forall₂_comp (fun _ _ _ h k => h.comp k) hcd hde⟩

theorem Iso.same {s t : Slot A} (h : Iso R H K) (hs : s.Rel R t) : Same H s K t :=
  ⟨R, h.corresponds, hs⟩

theorem Iso.lt (h : Iso R H K) (hpq : R p q) : p < H.length ∧ q < K.length := by
  obtain ⟨c, d, hc, hd, -⟩ := h.corresponds p q hpq
  exact ⟨(List.getElem?_eq_some_iff.mp hc).1, (List.getElem?_eq_some_iff.mp hd).1⟩

def Heap.slot (H : Heap L A) (p : Nat) (i : Nat) (default : Slot A) : Slot A :=
  (H[p]?).elim default fun c => c.slots.getD i default

def Heap.assign (H : Heap L A) (p : Nat) (i : Nat) (s : Slot A) : Heap L A :=
  H.modify p fun c => { c with slots := c.slots.set i s }

theorem forall₂_getElem? {P : α → β → Prop} (h : List.Forall₂ P l m) (i : Nat) :
    (l[i]? = none ∧ m[i]? = none) ∨ ∃ a b, l[i]? = some a ∧ m[i]? = some b ∧ P a b := by
  induction h generalizing i with
  | nil => exact .inl ⟨rfl, rfl⟩
  | cons h _ ih =>
    cases i with
    | zero => exact .inr ⟨_, _, rfl, rfl, h⟩
    | succ i => simpa using ih i

theorem forall₂_set {P : α → β → Prop} (h : List.Forall₂ P l m) (hab : P a b) (i : Nat) :
    List.Forall₂ P (l.set i a) (m.set i b) := by
  induction h generalizing i with
  | nil => exact .nil
  | cons h hs ih =>
    cases i with
    | zero => exact .cons hab hs
    | succ i => exact .cons h (ih i)

theorem Corresponds.slot (h : Corresponds R H K) (hpq : R p q) (i : Nat) (a : A) :
    (H.slot p i (.atom a)).Rel R (K.slot q i (.atom a)) := by
  obtain ⟨c, d, hc, hd, -, hr⟩ := h p q hpq
  unfold Heap.slot
  rw [hc, hd, Option.elim_some, Option.elim_some, List.getD_eq_getElem?_getD,
    List.getD_eq_getElem?_getD]
  rcases forall₂_getElem? hr i with ⟨hl, hm⟩ | ⟨s, t, hl, hm, hst⟩
  · rw [hl, hm]
    exact .atom
  · rw [hl, hm]
    exact hst

theorem Iso.modify {f g : Cell L A → Cell L A} (h : Iso R H K) (hpq : R p q)
    (hf : ∀ c d, c.Rel R d → (f c).Rel R (g d)) : Iso R (H.modify p f) (K.modify q g) where
  corresponds p' q' hr := by
    obtain ⟨c, d, hc, hd, hcd⟩ := h.corresponds p' q' hr
    rw [List.getElem?_modify, List.getElem?_modify, hc, hd]
    by_cases hp : p = p'
    · subst hp
      obtain rfl := h.left hpq hr
      exact ⟨f c, g d, by simp, by simp, hf c d hcd⟩
    · have hq : q ≠ q' := by
        rintro rfl
        exact hp (h.right hpq hr)
      exact ⟨c, d, by simp [hp], by simp [hq], hcd⟩
  left := h.left
  right := h.right

theorem Iso.assign (h : Iso R H K) (hpq : R p q) (i : Nat) {s t : Slot A} (hs : s.Rel R t) :
    Iso R (H.assign p i s) (K.assign q i t) :=
  h.modify hpq fun _ _ hcd => ⟨hcd.label, forall₂_set hcd.slots hs i⟩

def extend (R : Nat → Nat → Prop) (a b : Nat) (p q : Nat) : Prop := R p q ∨ (p = a ∧ q = b)

theorem Iso.alloc {c d : Cell L A} (h : Iso R H K) (hcd : c.Rel R d) :
    Iso (extend R H.length K.length) (H ++ [c]) (K ++ [d]) where
  corresponds p q hr := by
    rcases hr with hr | ⟨rfl, rfl⟩
    · obtain ⟨hp, hq⟩ := h.lt hr
      obtain ⟨c', d', hc', hd', hr'⟩ := h.corresponds p q hr
      refine ⟨c', d', ?_, ?_, hr'.mono fun _ _ => .inl⟩
      · rwa [List.getElem?_append_left hp]
      · rwa [List.getElem?_append_left hq]
    · exact ⟨c, d, by simp, by simp, hcd.mono fun _ _ => .inl⟩
  left := by
    rintro p q q' (h1 | ⟨rfl, rfl⟩) (h2 | ⟨h2, rfl⟩)
    · exact h.left h1 h2
    · exact absurd (h.lt h1).1 (by omega)
    · exact absurd (h.lt h2).1 (by omega)
    · rfl
  right := by
    rintro p q p' (h1 | ⟨rfl, rfl⟩) (h2 | ⟨rfl, h2⟩)
    · exact h.right h1 h2
    · exact absurd (h.lt h1).2 (by omega)
    · exact absurd (h.lt h2).2 (by omega)
    · rfl

def Slot.Below (n : Nat) : Slot A → Prop
  | .atom _ => True
  | .ref p => p < n

def Heap.Closed (H : Heap L A) : Prop := ∀ c ∈ H, ∀ s ∈ c.slots, s.Below H.length

def Slot.shift (n : Nat) : Slot A → Slot A
  | .atom a => .atom a
  | .ref p => .ref (p + n)

def Cell.shift (n : Nat) (c : Cell L A) : Cell L A := { c with slots := c.slots.map (·.shift n) }

/-- `copy.deepcopy`.  What the copied value does not reach is copied too, and unreachable. -/
def deepcopy (H : Heap L A) (s : Slot A) : Heap L A × Slot A :=
  (H ++ H.map (·.shift H.length), s.shift H.length)

theorem Slot.Below.mono {s : Slot A} (h : s.Below n) (hnm : n ≤ m) : s.Below m := by
  cases s with
  | atom a => trivial
  | ref p => exact Nat.lt_of_lt_of_le h hnm

theorem Slot.Below.shift_rel {s : Slot A} (h : s.Below n) (k : Nat) :
    s.Rel (fun p q => p < n ∧ q = p + k) (s.shift k) := by
  cases s with
  | atom a => exact .atom
  | ref p => exact .ref ⟨h, rfl⟩

theorem forall₂_map_right {P : α → β → Prop} {f : α → β} {l : List α} (h : ∀ a ∈ l, P a (f a)) :
    List.Forall₂ P l (l.map f) := by
  induction l with
  | nil => exact .nil
  | cons a l ih =>
    exact .cons (h a List.mem_cons_self) (ih fun b hb => h b (List.mem_cons_of_mem _ hb))

theorem Iso.shift (hc : H.Closed) (hk : ∀ p < H.length, K[p + k]? = (H[p]?).map (·.shift k)) :
    Iso (fun p q => p < H.length ∧ q = p + k) H K where
  corresponds p q := by
    rintro ⟨hp, rfl⟩
    refine ⟨H[p], H[p].shift k, List.getElem?_eq_getElem hp, ?_, rfl, ?_⟩
    · rw [hk p hp, List.getElem?_eq_getElem hp, Option.map_some]
    · exact forall₂_map_right fun s hs => (hc _ (List.getElem_mem hp) s hs).shift_rel k
  left := by
    rintro p _ _ ⟨-, rfl⟩ ⟨-, rfl⟩
    rfl
  right := by
    rintro p _ p' ⟨-, rfl⟩ ⟨-, h⟩
    omega

theorem Cell.shift_zero (c : Cell L A) : c.shift 0 = c := by
  have hs : ∀ s : Slot A, s.shift 0 = s := fun s => by cases s <;> rfl
  cases c with
  | mk label slots =>
    exact congrArg _ ((List.map_congr_left fun s _ => hs s).trans (List.map_id' _))

theorem Iso.of_agree (hc : H.Closed) (h : ∀ p < H.length, K[p]? = H[p]?) :
    Iso (fun p q => p < H.length ∧ q = p) H K :=
  Iso.shift (k := 0) hc fun p hp => by
    rw [Nat.add_zero, h p hp, List.getElem?_eq_getElem hp, Option.map_some, Cell.shift_zero]

theorem getElem?_deepcopy (H : Heap L A) (s : Slot A) (p : Nat) :
    (deepcopy H s).1[p + H.length]? = (H[p]?).map (·.shift H.length) := by
  rw [deepcopy, List.getElem?_append_right (by omega), Nat.add_sub_cancel, List.getElem?_map]

theorem deepcopy_extends (H : Heap L A) (s : Slot A) : H <+: (deepcopy H s).1 :=
  List.prefix_append _ _

theorem Slot.Below.shift {s : Slot A} (h : s.Below n) (k : Nat) : (s.shift k).Below (n + k) := by
  cases s with
  | atom a => trivial
  | ref p => exact Nat.add_lt_add_right h k

theorem closed_deepcopy (hc : H.Closed) (s : Slot A) : (deepcopy H s).1.Closed := by
  have hl : (deepcopy H s).1.length = H.length + H.length := by
    rw [deepcopy, List.length_append, List.length_map]
  intro c hm t ht
  rw [hl]
  rcases List.mem_append.mp hm with hm | hm
  · exact (hc c hm t ht).mono (by omega)
  · obtain ⟨c', hm', rfl⟩ := List.mem_map.mp hm
    obtain ⟨t', ht', rfl⟩ := List.mem_map.mp ht
    exact (hc c' hm' t' ht').shift _

theorem getElem?_of_extends (h : H <+: K) (hp : p < H.length) : K[p]? = H[p]? := by
  obtain ⟨M, rfl⟩ := h
  exact List.getElem?_append_left hp

theorem slot_of_prefix (h : H <+: K) (hp : p < H.length) (i : Nat) (s : Slot A) :
    K.slot p i s = H.slot p i s := by
  unfold Heap.slot
  rw [getElem?_of_extends h hp]

end PrismPipe.ObjectGraph
