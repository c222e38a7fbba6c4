import Mathlib.Logic.Relation

/-! Labelled transition systems: runs, reachability, and the two inductions over them, one for
an invariant of states and one for a preorder between the ends of a run. -/

universe u v

namespace PrismPipe.Transition

structure System (σ : Type u) (ε : Type v) where
  init : σ → Prop
  step : σ → ε → σ → Prop

inductive Run (S : System σ ε) : σ → List ε → σ → Prop
  | nil : Run S s [] s
  | cons : S.step s e t → Run S t es u → Run S s (e :: es) u

inductive Reachable (S : System σ ε) : σ → Prop
  | init : S.init s → Reachable S s
  | step : Reachable S s → S.step s e t → Reachable S t

variable {σ : Type u} {ε : Type v} {S : System σ ε}

theorem Run.single (h : S.step s e t) : Run S s [e] t := .cons h .nil

theorem Run.append (h : Run S s es t) (k : Run S t fs u) : Run S s (es ++ fs) u := by
  induction h with
  | nil => exact k
  | cons step _ ih => exact .cons step (ih k)

theorem Run.snoc (h : Run S s es t) (k : S.step t e u) : Run S s (es ++ [e]) u :=
  h.append (.single k)

theorem Run.mono {S' : System σ ε} (hS : ∀ {s e t}, S.step s e t → S'.step s e t)
    (h : Run S s es t) : Run S' s es t := by
  induction h with
  | nil => exact .nil
  | cons step _ ih => exact .cons (hS step) ih

theorem Run.split (h : Run S s (es ++ e :: fs) t) :
    ∃ u v, Run S s es u ∧ S.step u e v ∧ Run S v fs t := by
  induction es generalizing s with
  | nil =>
    cases h with
    | cons st hr => exact ⟨s, _, .nil, st, hr⟩
  | cons f es ih =>
    cases h with
    | cons st hr =>
      obtain ⟨u, v, hu, hst, hv⟩ := ih hr
      exact ⟨u, v, .cons st hu, hst, hv⟩

theorem Run.unique (hS : ∀ {s e t u}, S.step s e t → S.step s e u → t = u) (h : Run S s es t)
    (k : Run S s es u) : t = u := by
  induction h with
  | nil =>
    cases k
    rfl
  | cons st _ ih =>
    cases k with
    | cons st' k =>
      cases hS st st'
      exact ih k

theorem Run.reachable (h : Run S s es t) (hs : Reachable S s) : Reachable S t := by
  induction h with
  | nil => exact hs
  | cons step _ ih => exact ih (.step hs step)

theorem Reachable.run (h : Reachable S t) : ∃ s es, S.init s ∧ Run S s es t := by
  induction h with
  | init h => exact ⟨_, [], h, .nil⟩
  | step _ st ih =>
    obtain ⟨s, es, hs, hr⟩ := ih
    exact ⟨s, _, hs, hr.snoc st⟩

structure Invariant (S : System σ ε) (I : σ → Prop) : Prop where
  init : ∀ {s}, S.init s → I s
  step : ∀ {s e t}, I s → S.step s e t → I t

theorem Invariant.reachable {I : σ → Prop} (h : Invariant S I) (hs : Reachable S s) : I s := by
  induction hs with
  | init hs => exact h.init hs
  | step _ st ih => exact h.step ih st

theorem Run.keeps {I : σ → Prop} (hI : ∀ {s e t}, I s → S.step s e t → I t) (hr : Run S s es t)
    (hs : I s) : I t := by
  induction hr with
  | nil => exact hs
  | cons st _ ih => exact ih (hI hs st)

theorem Invariant.run {I : σ → Prop} (h : Invariant S I) (hr : Run S s es t) (hs : I s) : I t :=
  hr.keeps h.step hs

theorem Invariant.run_rel {I : σ → Prop} {R : σ → σ → Prop} (h : Invariant S I)
    (refl : ∀ s, R s s) (trans : ∀ {s t u}, R s t → R t u → R s u)
    (step : ∀ {s e t}, I s → S.step s e t → R s t)
    (hr : Run S s es t) (hs : I s) : R s t := by
  induction hr with
  | nil => exact refl _
  | cons st _ ih => exact trans (step hs st) (ih (h.step hs st))

def Keeping (S : System σ ε) (K : σ → ε → Prop) (s : σ) (es : List ε) : Prop :=
  ∀ before e after u, es = before ++ e :: after → Run S s before u → K u e

section Keeping

variable {K L : σ → ε → Prop} {P G : σ → Prop}

theorem Keeping.nil : Keeping S K s [] := by
  intro before e after u he
  cases before <;> cases he

theorem Keeping.cons (hS : ∀ {s e t u}, S.step s e t → S.step s e u → t = u)
    (st : S.step s e t) (h : K s e) (k : Keeping S K t es) : Keeping S K s (e :: es) := by
  intro before f after u he hu
  cases before with
  | nil =>
    cases he
    cases hu
    exact h
  | cons g before =>
    cases he
    cases hu with
    | cons st' hu =>
      cases hS st st'
      exact k before f after u rfl hu

theorem Keeping.head (h : Keeping S K s (e :: es)) : K s e := h [] e es s rfl .nil

theorem Keeping.tail (h : Keeping S K s (e :: es)) (st : S.step s e t) : Keeping S K t es := by
  rintro before f after u rfl hr
  exact h (e :: before) f after u rfl (.cons st hr)

theorem Keeping.of_append (h : Keeping S K s (es ++ fs)) : Keeping S K s es := by
  rintro before e after u rfl hr
  exact h before e (after ++ fs) u (by simp) hr

theorem Keeping.run (h : Keeping S K s es) (hr : Run S s es t) (hs : G s)
    (hG : ∀ {s e t}, G s → S.step s e t → K s e → G t) : G t := by
  induction hr with
  | nil => exact hs
  | cons st _ ih => exact ih (h.tail st) (hG hs st h.head)

theorem Run.keeping_iff (hP : ∀ {s}, G s → P s)
    (hK : ∀ {s e t}, G s → S.step s e t → P t → K s e)
    (hG : ∀ {s e t}, G s → S.step s e t → K s e → G t)
    (hS : ∀ {s e t u}, S.step s e t → S.step s e u → t = u) (hr : Run S s es t) (hs : G s) :
    (∀ before after u, es = before ++ after → Run S s before u → P u) ↔ Keeping S K s es := by
  constructor
  · intro h
    induction hr with
    | nil => exact .nil
    | cons st _ ih =>
      have hkeeps := hK hs st (h [_] _ _ rfl (.single st))
      refine .cons hS st hkeeps (ih (hG hs st hkeeps) fun before after u he hu => ?_)
      exact h (_ :: before) after u (by rw [he]; rfl) (.cons st hu)
  · rintro hk before after u rfl hu
    exact hP (hk.of_append.run hu hs hG)

theorem Run.keeping_imp (hKL : ∀ {s e t}, G s → S.step s e t → K s e → L s e)
    (hG : ∀ {s e t}, G s → S.step s e t → K s e → G t)
    (hS : ∀ {s e t u}, S.step s e t → S.step s e u → t = u) (hr : Run S s es t) (hs : G s)
    (h : Keeping S K s es) : Keeping S L s es := by
  induction hr with
  | nil => exact .nil
  | cons st _ ih => exact .cons hS st (hKL hs st h.head) (ih (hG hs st h.head) (h.tail st))

theorem Run.keeping_congr (hKL : ∀ {s e t}, G s → S.step s e t → (K s e ↔ L s e))
    (hG : ∀ {s e t}, G s → S.step s e t → L s e → G t)
    (hS : ∀ {s e t u}, S.step s e t → S.step s e u → t = u) (hr : Run S s es t) (hs : G s) :
    Keeping S K s es ↔ Keeping S L s es where
  mp := hr.keeping_imp (fun h st => (hKL h st).mp) (fun h st hk => hG h st ((hKL h st).mp hk)) hS hs
  mpr := hr.keeping_imp (fun h st => (hKL h st).mpr) hG hS hs

end Keeping

end PrismPipe.Transition
