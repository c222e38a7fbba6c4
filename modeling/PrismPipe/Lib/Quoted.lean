import Mathlib.Computability.DFA

/-! Texts with quoted parts, in which a separator outside the quotes is followed by a blank. -/

universe u v

namespace PrismPipe.Quoted

structure Marks (α : Type u) where
  quote : α
  escape : α
  separator : α
  blank : α
  nodup : [quote, escape, separator, blank].Nodup

inductive Mode
  | outside
  | due
  | inside
  | escaped
  | broken

inductive Mode.Bare : Mode → Prop
  | outside : Bare .outside
  | due : Bare .due

inductive Mode.Opposite : Mode → Mode → Prop
  | left : s.Bare → Opposite s .inside
  | right : s.Bare → Opposite .inside s

theorem Mode.Opposite.symm {s t : Mode} (h : s.Opposite t) : t.Opposite s := by
  cases h with
  | left hb => exact .right hb
  | right hb => exact .left hb

theorem flatMap_inj {α : Type u} {β : Type v} {code : β → List α}
    {read : List α → Option (β × List α)} {stop : α} {l l' : List β} {x y : List α}
    (hl : ∀ b ∈ l, ∀ t, read (code b ++ t) = some (b, t))
    (hl' : ∀ b ∈ l', ∀ t, read (code b ++ t) = some (b, t)) (hstop : ∀ t, read (stop :: t) = none)
    (h : l.flatMap code ++ stop :: x = l'.flatMap code ++ stop :: y) : l = l' ∧ x = y := by
  induction l generalizing l' with
  | nil =>
    cases l' with
    | nil => exact ⟨rfl, (List.cons.inj h).2⟩
    | cons b' l' =>
      have hb := hl' b' List.mem_cons_self (l'.flatMap code ++ stop :: y)
      rw [← List.append_assoc, ← List.flatMap_cons, ← h, List.flatMap_nil, List.nil_append,
        hstop] at hb
      cases hb
  | cons b l ih =>
    have hb := hl b List.mem_cons_self (l.flatMap code ++ stop :: x)
    rw [← List.append_assoc, ← List.flatMap_cons, h] at hb
    cases l' with
    | nil =>
      rw [List.flatMap_nil, List.nil_append, hstop] at hb
      cases hb
    | cons b' l' =>
      rw [List.flatMap_cons, List.append_assoc, hl' b' List.mem_cons_self] at hb
      obtain ⟨rfl, ht⟩ := Prod.mk.inj (Option.some.inj hb)
      obtain ⟨rfl, hxy⟩ := ih (fun c hc => hl c (List.mem_cons_of_mem _ hc))
        (fun c hc => hl' c (List.mem_cons_of_mem _ hc)) ht.symm
      exact ⟨rfl, hxy⟩

namespace Marks

variable {α : Type u} (m : Marks α)

theorem escape_ne_quote : m.escape ≠ m.quote := by
  have := m.nodup
  grind

theorem separator_ne_quote : m.separator ≠ m.quote := by
  have := m.nodup
  grind

theorem separator_ne_escape : m.separator ≠ m.escape := by
  have := m.nodup
  grind

theorem separator_ne_blank : m.separator ≠ m.blank := by
  have := m.nodup
  grind

theorem blank_ne_quote : m.blank ≠ m.quote := by
  have := m.nodup
  grind

theorem blank_ne_escape : m.blank ≠ m.escape := by
  have := m.nodup
  grind

variable [DecidableEq α]

def step : Mode → α → Mode
  | .outside, c =>
    if c = m.quote then .inside
    else if c = m.escape then .broken
    else if c = m.separator then .due
    else .outside
  | .due, c => if c = m.blank then .outside else .broken
  | .inside, c =>
    if c = m.quote then .outside else if c = m.escape then .escaped else .inside
  | .escaped, _ => .inside
  | .broken, _ => .broken

def scanner : DFA α Mode := ⟨m.step, .outside, {.outside}⟩

def Closed (x : List α) : Prop := m.scanner.evalFrom .outside x = .outside

def Body (x : List α) : Prop := m.scanner.evalFrom .inside x = .inside

@[simp] theorem scanner_step (s : Mode) (c : α) : m.scanner.step s c = m.step s c := rfl

@[simp] theorem step_outside_quote : m.step .outside m.quote = .inside := by simp [step]

@[simp] theorem step_outside_separator : m.step .outside m.separator = .due := by
  simp [step, m.separator_ne_quote, m.separator_ne_escape]

@[simp] theorem step_due_blank : m.step .due m.blank = .outside := by simp [step]

@[simp] theorem step_due_separator : m.step .due m.separator = .broken := by
  simp [step, m.separator_ne_blank]

@[simp] theorem step_inside_quote : m.step .inside m.quote = .outside := by simp [step]

@[simp] theorem step_inside_escape : m.step .inside m.escape = .escaped := by
  simp [step, m.escape_ne_quote]

@[simp] theorem step_inside_separator : m.step .inside m.separator = .inside := by
  simp [step, m.separator_ne_quote, m.separator_ne_escape]

@[simp] theorem step_escaped (c : α) : m.step .escaped c = .inside := rfl

@[simp] theorem step_broken (c : α) : m.step .broken c = .broken := rfl

@[simp] theorem evalFrom_broken (x : List α) : m.scanner.evalFrom .broken x = .broken := by
  induction x with
  | nil => rfl
  | cons c x ih => exact ih

section Build

variable {m}

theorem Closed.nil : m.Closed [] := rfl

theorem Closed.append (hx : m.Closed x) (hy : m.Closed y) : m.Closed (x ++ y) := by
  rw [Closed, DFA.evalFrom_of_append, hx, hy]

theorem Body.nil : m.Body [] := rfl

theorem Body.append (hx : m.Body x) (hy : m.Body y) : m.Body (x ++ y) := by
  rw [Body, DFA.evalFrom_of_append, hx, hy]

theorem Body.flatMap {β : Type v} {f : β → List α} (h : ∀ b, m.Body (f b)) (l : List β) :
    m.Body (l.flatMap f) := by
  induction l with
  | nil => exact .nil
  | cons b l ih =>
    rw [List.flatMap_cons]
    exact (h b).append ih

theorem Body.plain (hquote : m.quote ∉ x) (hescape : m.escape ∉ x) : m.Body x := by
  induction x with
  | nil => exact .nil
  | cons c x ih =>
    rw [List.mem_cons, not_or] at hquote hescape
    have hc : m.step .inside c = .inside := by
      simp [step, Ne.symm hquote.1, Ne.symm hescape.1]
    rw [Body, DFA.evalFrom_cons, scanner_step, hc]
    exact ih hquote.2 hescape.2

theorem Body.escaped (c : α) (h : m.Body x) : m.Body (m.escape :: c :: x) := by
  rw [Body, DFA.evalFrom_cons, DFA.evalFrom_cons, scanner_step, scanner_step, step_inside_escape,
    step_escaped]
  exact h

theorem Closed.plain (hquote : m.quote ∉ x) (hescape : m.escape ∉ x)
    (hseparator : m.separator ∉ x) : m.Closed x := by
  induction x with
  | nil => exact .nil
  | cons c x ih =>
    rw [List.mem_cons, not_or] at hquote hescape hseparator
    have hc : m.step .outside c = .outside := by
      simp [step, Ne.symm hquote.1, Ne.symm hescape.1, Ne.symm hseparator.1]
    rw [Closed, DFA.evalFrom_cons, scanner_step, hc]
    exact ih hquote.2 hescape.2 hseparator.2

theorem Closed.quoted (h : m.Body x) : m.Closed (m.quote :: x ++ [m.quote]) := by
  rw [Closed, List.cons_append, DFA.evalFrom_cons, DFA.evalFrom_of_append, scanner_step,
    step_outside_quote, h, DFA.evalFrom_singleton, scanner_step, step_inside_quote]

theorem Closed.separated (hx : m.Closed x) (hy : m.Closed y) :
    m.Closed (x ++ m.separator :: m.blank :: y) := by
  rw [Closed, DFA.evalFrom_of_append, hx, DFA.evalFrom_cons, DFA.evalFrom_cons, scanner_step,
    scanner_step, step_outside_separator, step_due_blank]
  exact hy

end Build

variable {m}

theorem opposite_step {s t : Mode} (h : s.Opposite t) (c : α) (hs : m.step s c ≠ .broken)
    (ht : m.step t c ≠ .broken) : (m.step s c).Opposite (m.step t c) := by
  have hbare {s : Mode} (hb : s.Bare) (hs : m.step s c ≠ .broken) :
      (m.step s c).Opposite (m.step .inside c) := by
    cases hb with
    | outside =>
      by_cases hquote : c = m.quote
      · subst hquote
        simpa using .right .outside
      · have hescape : c ≠ m.escape := by
          rintro rfl
          simp [step, hquote] at hs
        have hinside : m.step .inside c = .inside := by simp [step, hquote, hescape]
        rw [hinside]
        by_cases hseparator : c = m.separator
        · subst hseparator
          simpa using .left .due
        · simpa [step, hquote, hescape, hseparator] using .left .outside
    | due =>
      have hblank : c = m.blank := by
        by_contra hne
        simp [step, hne] at hs
      subst hblank
      simpa [step, m.blank_ne_quote, m.blank_ne_escape] using .left .outside
  cases h with
  | left hb => exact hbare hb hs
  | right hb => exact (hbare hb ht).symm

theorem opposite_run {s t : Mode} (h : s.Opposite t) (x : List α)
    (hs : m.scanner.evalFrom s x ≠ .broken) (ht : m.scanner.evalFrom t x ≠ .broken) :
    (m.scanner.evalFrom s x).Opposite (m.scanner.evalFrom t x) := by
  induction x generalizing s t with
  | nil => exact h
  | cons c x ih =>
    have hne {s : Mode} (hs : m.scanner.evalFrom s (c :: x) ≠ .broken) : m.step s c ≠ .broken := by
      intro hb
      rw [DFA.evalFrom_cons, scanner_step, hb, evalFrom_broken] at hs
      exact hs rfl
    exact ih (opposite_step h c (hne hs) (hne ht)) hs ht

theorem Closed.ne_outside (h : m.Closed x) : m.scanner.evalFrom .inside x ≠ .outside := by
  intro hi
  have ho := opposite_run (m := m) (.left .outside) x (by rw [h]; nofun) (by rw [hi]; nofun)
  rw [h, hi] at ho
  cases ho

theorem Closed.blank_of_suffix (h : m.Closed (x ++ m.separator :: y)) (hy : m.Closed y) :
    ∃ z, y = m.blank :: z := by
  rw [Closed, DFA.evalFrom_of_append, DFA.evalFrom_cons, scanner_step] at h
  generalize m.scanner.evalFrom .outside x = s at h
  cases s with
  | outside =>
    rw [step_outside_separator] at h
    cases y with
    | nil => cases h
    | cons c z =>
      by_cases hc : c = m.blank
      · exact ⟨z, by rw [hc]⟩
      · rw [DFA.evalFrom_cons, scanner_step, step, if_neg hc, evalFrom_broken] at h
        cases h
  | due =>
    rw [step_due_separator, evalFrom_broken] at h
    cases h
  | inside =>
    rw [step_inside_separator] at h
    exact absurd h hy.ne_outside
  | escaped => exact absurd h hy.ne_outside
  | broken =>
    rw [step_broken, evalFrom_broken] at h
    cases h

section Prefixed

variable {β : Type v} {f : α → β}

theorem Closed.eq_nil_of_append (hf : Function.Injective f) (hx : m.Closed x) (hy : m.Closed y)
    (hblank : y.head? ≠ some m.blank) {a : List β}
    (h : f m.separator :: x.map f = a ++ f m.separator :: y.map f) : a = [] := by
  cases a with
  | nil => rfl
  | cons b a =>
    rw [List.cons_append, List.cons.injEq, List.map_eq_append_iff] at h
    obtain ⟨-, x₁, x₂, rfl, -, hx₂⟩ := h
    have hx₂ : x₂ = m.separator :: y := hf.list_map hx₂
    obtain ⟨z, rfl⟩ := (hx₂ ▸ hx).blank_of_suffix hy
    exact absurd rfl hblank

theorem Closed.append_inj (hf : Function.Injective f) (hx : m.Closed x) (hy : m.Closed y)
    (hxblank : x.head? ≠ some m.blank) (hyblank : y.head? ≠ some m.blank) {v w : List β} :
    v ++ f m.separator :: x.map f = w ++ f m.separator :: y.map f ↔ v = w ∧ x = y := by
  constructor
  · intro h
    have hvw : v = w := by
      obtain ⟨a, rfl, ha⟩ | ⟨a, rfl, ha⟩ := List.append_eq_append_iff.mp h
      · rw [hx.eq_nil_of_append hf hy hyblank ha, List.append_nil]
      · rw [hy.eq_nil_of_append hf hx hxblank ha, List.append_nil]
    subst hvw
    exact ⟨rfl, hf.list_map (List.cons.inj (List.append_cancel_left h)).2⟩
  · rintro ⟨rfl, rfl⟩
    rfl

end Prefixed

end Marks

end PrismPipe.Quoted
