import PrismPipe.Lib.Crew

/-! The world that writes down what it answers, and which answers it may give after which. -/

namespace PrismPipe

variable {I : Interface} {α β ε : Type}

abbrev Log (I : Interface) := List (Answer I)

def logged (sane : Log I → (o : I.Op) → I.Reply o → Prop) : World I (Log I) where
  step l o r t := sane l o r ∧ t = l ++ [⟨o, r⟩]
  abandon _ _ := False

namespace Program

variable {sane : Log I → (o : I.Op) → I.Reply o → Prop} {l : Log I}

theorem completes_call {o : I.Op} {k : I.Reply o → Program I α} {Q : α → Log I → Prop}
    (ha : ∃ r, sane l o r)
    (h : ∀ r, sane l o r → (k r).Completes (logged sane) Q (l ++ [⟨o, r⟩])) :
    (Program.call o k).Completes (logged sane) Q l := by
  refine ⟨?_, ?_⟩
  · obtain ⟨r, hr⟩ := ha
    exact ⟨r, _, hr, rfl⟩
  · rintro r _ ⟨hr, rfl⟩
    exact h r hr

theorem completes_op {o : I.Op} {Q : I.Reply o → Log I → Prop} (ha : ∃ r, sane l o r)
    (h : ∀ r, sane l o r → Q r (l ++ [⟨o, r⟩])) :
    (Program.op o).Completes (logged sane) Q l := completes_call ha h

theorem Completes.extends {p : Program I α} {Q : α → Log I → Prop}
    (h : p.Completes (logged sane) Q l) :
    p.Completes (logged sane) (fun a m => Q a m ∧ l <+: m) l := by
  induction p generalizing l with
  | pure a => exact ⟨h, List.prefix_rfl⟩
  | call o k ih =>
    refine ⟨h.1, ?_⟩
    rintro r _ ⟨hr, rfl⟩
    refine (ih r (h.2 r _ ⟨hr, rfl⟩)).mono ?_
    exact fun a m hm => ⟨hm.1, (List.prefix_append _ _).trans hm.2⟩

theorem Completes.bind {σ : Type} {W : World I σ} {p : Program I α} {f : α → Program I β}
    {P : α → σ → Prop} {Q : β → σ → Prop} {s : σ} (h : p.Completes W P s)
    (hf : ∀ a t, P a t → (f a).Completes W Q t) : (p.bind f).Completes W Q s :=
  completes_bind.mpr (h.mono hf)

theorem ends_lift {σ : Type} {W : World I σ} {p : Program I α} {Q : α → σ → Prop}
    {E : ε → σ → Prop} {s : σ} (h : p.Completes W Q s) :
    Ends W (liftM p : ExceptT ε (Program I) α) Q E s := h.bind fun _ _ hq => hq

theorem Completes.lift {σ : Type} {W : World I σ} {p : Program I α}
    {f : α → ExceptT ε (Program I) β} {P : α → σ → Prop} {Q : β → σ → Prop} {E : ε → σ → Prop}
    {s : σ} (h : p.Completes W P s) (hf : ∀ a t, P a t → Ends W (f a) Q E t) :
    Ends W ((liftM p : ExceptT ε (Program I) α) >>= f) Q E s :=
  Ends.bind (ends_lift h) hf fun _ _ he => he

end Program

/-- The world that keeps beside its state what `note` makes of each answer. -/
def World.noting {σ δ : Type} (W : World I σ) (note : (o : I.Op) → I.Reply o → List δ) :
    World I (σ × List δ) where
  step s o r t := W.step s.1 o r t.1 ∧ t.2 = s.2 ++ note o r
  abandon := W.abandon

namespace Program

variable {σ : Type} {W : World I σ}

/-- What ends so where notes are kept ends so without them. -/
theorem Completes.forget {δ : Type} {note : (o : I.Op) → I.Reply o → List δ} {p : Program I α}
    {Q : α → σ × List δ → Prop} {l : List δ} (h : p.Completes (W.noting note) Q (s, l)) :
    p.Completes W (fun a t => ∃ m, Q a (t, m)) s := by
  induction p generalizing s l with
  | pure a => exact ⟨l, h⟩
  | call o k ih =>
    refine ⟨?_, fun r t st => ih r (h.2 r (t, l ++ note o r) ⟨st, rfl⟩)⟩
    obtain ⟨r, t, st⟩ := h.1
    exact ⟨r, t.1, st.1⟩

theorem Ends.forget {δ : Type} {note : (o : I.Op) → I.Reply o → List δ}
    {p : ExceptT ε (Program I) α} {Q : α → σ × List δ → Prop} {E : ε → σ × List δ → Prop}
    {l : List δ} (h : Ends (W.noting note) p Q E (s, l)) :
    Ends W p (fun a t => ∃ m, Q a (t, m)) (fun e t => ∃ m, E e (t, m)) s := by
  refine (Completes.forget h).mono ?_
  rintro (e | a) t hm <;> exact hm

/-- Alone in the world, the program can end with `a` in `t`. -/
inductive Executes (W : World I σ) : Program I α → σ → α → σ → Prop
  | pure : Executes W (.pure a) s a s
  | call : W.step s o r t → Executes W (k r) t a u → Executes W (.call o k) s a u

theorem Completes.executes {p : Program I α} {Q : α → σ → Prop} (h : p.Completes W Q s)
    (he : Executes W p s a t) : Q a t := by
  induction he with
  | pure => exact h
  | call st _ ih => exact ih (h.2 _ _ st)

theorem exists_executes (ha : ∀ s o, ∃ r t, W.step s o r t) (p : Program I α) (s : σ) :
    ∃ a t, Executes W p s a t := by
  induction p generalizing s with
  | pure a => exact ⟨a, s, .pure⟩
  | call o k ih =>
    obtain ⟨r, t, st⟩ := ha s o
    obtain ⟨a, u, he⟩ := ih r t
    exact ⟨a, u, .call st he⟩

theorem Executes.bind {p : Program I α} {f : α → Program I β} (h : Executes W p s a t)
    (hf : Executes W (f a) t b u) : Executes W (p.bind f) s b u := by
  induction h with
  | pure => exact hf
  | call st _ ih => exact .call st (ih hf)

theorem Executes.noted {δ : Type} {note : (o : I.Op) → I.Reply o → List δ} {p : Program I α}
    {s t : σ × List δ} (h : Executes (W.noting note) p s a t) : ∃ notes, t.2 = s.2 ++ notes := by
  induction h with
  | pure => exact ⟨[], (List.append_nil _).symm⟩
  | call st _ ih =>
    obtain ⟨notes, hn⟩ := ih
    exact ⟨_, by rw [hn, st.2, List.append_assoc]⟩

end Program

end PrismPipe
