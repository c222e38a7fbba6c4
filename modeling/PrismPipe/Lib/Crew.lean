import PrismPipe.Lib.Program

/-! Pools whose tasks keep what they come to and whose steps are labelled by the answers given, and
a judgement on tasks that looks at answers only. -/

namespace PrismPipe

abbrev Answer (I : Interface) := (o : I.Op) × I.Reply o

namespace Program

variable {I : Interface} {α β ε : Type} {sane : (o : I.Op) → I.Reply o → Prop}

/-- While its answers are `sane`, it can only come to `Q`. -/
def Yields (sane : (o : I.Op) → I.Reply o → Prop) (Q : α → Prop) : Program I α → Prop
  | .pure a => Q a
  | .call o k => ∀ r, sane o r → (k r).Yields sane Q

theorem Yields.bind {p : Program I α} {f : α → Program I β} {Q : α → Prop} {R : β → Prop}
    (h : p.Yields sane Q) (hf : ∀ a, Q a → (f a).Yields sane R) : (p.bind f).Yields sane R := by
  induction p with
  | pure a => exact hf a h
  | call o k ih => exact fun r hr => ih r (h r hr)

theorem Yields.mono {p : Program I α} {Q R : α → Prop} (h : p.Yields sane Q)
    (hQ : ∀ a, Q a → R a) : p.Yields sane R := by
  have := h.bind (f := .pure) (R := R) hQ
  rwa [bind_pure'] at this

/-- The judgement at `ExceptT`: `P` of a value, `E` of an exception. -/
def Gives (sane : (o : I.Op) → I.Reply o → Prop) (E : ε → Prop) (p : ExceptT ε (Program I) α)
    (P : α → Prop) : Prop :=
  p.run.Yields sane fun
    | .ok a => P a
    | .error e => E e

section Gives

variable {E : ε → Prop} {P Q : α → Prop} {R : β → Prop}

theorem Gives.pure {a : α} (h : P a) :
    Gives sane E (Pure.pure a : ExceptT ε (Program I) α) P := h

theorem Gives.throw {e : ε} (h : E e) : Gives sane E (throw e : ExceptT ε (Program I) α) P := h

theorem Gives.bind {p : ExceptT ε (Program I) α} {f : α → ExceptT ε (Program I) β}
    (h : Gives sane E p P) (hf : ∀ a, P a → Gives sane E (f a) R) : Gives sane E (p >>= f) R := by
  refine Yields.bind h ?_
  rintro (e | a) hr
  · exact hr
  · exact hf a hr

theorem Gives.tryCatch {F : ε → Prop} {p : ExceptT ε (Program I) α}
    {g : ε → ExceptT ε (Program I) α} (h : Gives sane F p P)
    (hg : ∀ e, F e → Gives sane E (g e) P) : Gives sane E (tryCatch p g) P := by
  refine Yields.bind h ?_
  rintro (e | a) hr
  · exact hg e hr
  · exact hr

theorem Gives.map {p : ExceptT ε (Program I) α} {f : α → β} (h : Gives sane E p P)
    (hf : ∀ a, P a → R (f a)) : Gives sane E (f <$> p) R := by
  rw [map_eq_pure_bind]
  exact h.bind fun a ha => .pure (hf a ha)

theorem Only.yields {calls : I.Op → Prop} {p : Program I α} {Q : α → Prop}
    (h : p.Only calls sane Q) : p.Yields sane Q := by
  induction p with
  | pure a => exact h
  | call o k ih => exact fun r hr => ih r (h.2 r hr)

theorem Confined.gives {calls : I.Op → Prop} {p : ExceptT ε (Program I) α}
    (h : Confined calls sane E p P) : Gives sane E p P := Only.yields h

end Gives

end Program

structure Crew (I : Interface) (σ α : Type) where
  world : σ
  tasks : List (Program I (Option α))

namespace Crew

variable {I : Interface} {σ α : Type} {W W' : World I σ}
  {allowed : Program I (Option α) → Prop} {allowed' : Program I Unit → Prop}

/-- The steps of `Pool`, with the answers given. -/
inductive Step (W : World I σ) (allowed : Program I (Option α) → Prop) :
    Crew I σ α → Option (Answer I) → Crew I σ α → Prop
  | spawn : allowed p → Step W allowed ⟨s, ps⟩ none ⟨s, p :: ps⟩
  | call : W.step s o r t → Step W allowed ⟨s, ps ++ .call o k :: qs⟩ (some ⟨o, r⟩)
      ⟨t, ps ++ k r :: qs⟩
  | abandon : W.abandon o r → Step W allowed ⟨s, ps ++ .call o k :: qs⟩ none
      ⟨s, ps ++ k r :: .call o (fun _ => .pure none) :: qs⟩

def system (W : World I σ) (init : σ → Prop) (allowed : Program I (Option α) → Prop) :
    Transition.System (Crew I σ α) (Option (Answer I)) where
  init c := init c.world ∧ c.tasks = []
  step := Step W allowed

def pool (c : Crew I σ α) : Pool I σ := ⟨c.world, c.tasks.map fun p => p.bind fun _ => .pure ()⟩

theorem Step.pool (hW : ∀ {s o r t}, W.step s o r t → W'.step s o r t)
    (ha : ∀ {o r}, W.abandon o r → W'.abandon o r)
    (hp : ∀ p, allowed p → allowed' (p.bind fun _ => .pure ())) {c d : Crew I σ α}
    (st : Step W allowed c e d) : Pool.Step W' allowed' c.pool d.pool := by
  cases st with
  | spawn h => exact .spawn (hp _ h)
  | call h =>
    simp only [Crew.pool, List.map_append, List.map_cons, Program.call_bind]
    exact .call (hW h)
  | abandon h =>
    simp only [Crew.pool, List.map_append, List.map_cons, Program.call_bind]
    exact .abandon (ha h)

theorem Step.yields {sane : (o : I.Op) → I.Reply o → Prop} {Q : Option α → Prop} (hn : Q none)
    (hp : ∀ p, allowed p → p.Yields sane Q) {c d : Crew I σ α} (st : Step W allowed c e d)
    (hW : ∀ {o r}, W.step c.world o r d.world → sane o r)
    (ha : ∀ {o r}, W.abandon o r → sane o r) (hc : ∀ q ∈ c.tasks, q.Yields sane Q) :
    ∀ q ∈ d.tasks, q.Yields sane Q := by
  cases st with
  | spawn h => exact List.forall_mem_cons.mpr ⟨hp _ h, hc⟩
  | call h =>
    obtain ⟨hps, hqs⟩ := List.forall_mem_append.mp hc
    obtain ⟨hk, hqs⟩ := List.forall_mem_cons.mp hqs
    exact List.forall_mem_append.mpr ⟨hps, List.forall_mem_cons.mpr ⟨hk _ (hW h), hqs⟩⟩
  | abandon h =>
    obtain ⟨hps, hqs⟩ := List.forall_mem_append.mp hc
    obtain ⟨hk, hqs⟩ := List.forall_mem_cons.mp hqs
    refine List.forall_mem_append.mpr ⟨hps, List.forall_mem_cons.mpr ⟨hk _ (ha h), ?_⟩⟩
    exact List.forall_mem_cons.mpr ⟨fun _ _ => hn, hqs⟩

theorem drive_run (S : Server W) {p : Program I (Option α)} (n : Nat) {s : σ} :
    ∃ es, Transition.Run (system W init allowed) ⟨s, [p]⟩ es
      ⟨(S.drive n s p).1, [(S.drive n s p).2]⟩ := by
  induction n generalizing s p with
  | zero => exact ⟨[], .nil⟩
  | succ n ih =>
    cases p with
    | pure a => exact ⟨[], .nil⟩
    | call o k =>
      obtain ⟨es, hr⟩ := ih (s := (S.serve s o).2) (p := k (S.serve s o).1)
      have st : Step W allowed ⟨s, [] ++ .call o k :: []⟩ _ ⟨_, [] ++ k _ :: []⟩ :=
        .call (S.sound s o)
      exact ⟨_, .cons st hr⟩

end Crew

end PrismPipe
