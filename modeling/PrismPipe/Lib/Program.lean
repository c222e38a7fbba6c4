import Mathlib.Control.Monad.Basic
import PrismPipe.Lib.Transition

/-! Programs that call a shared world and may be interrupted between any two calls, pools of
them, and a rely/guarantee judgement that composes along `bind`. -/

namespace PrismPipe

structure Interface where
  Op : Type
  Reply : Op → Type

inductive Program (I : Interface) (α : Type) : Type
  | pure : α → Program I α
  | call : (o : I.Op) → (I.Reply o → Program I α) → Program I α

namespace Program

variable {I : Interface} {α β γ ε : Type}

def bind : Program I α → (α → Program I β) → Program I β
  | .pure a, f => f a
  | .call o k, f => .call o fun r => (k r).bind f

instance : Monad (Program I) where
  pure := .pure
  bind := bind

def op (o : I.Op) : Program I (I.Reply o) := .call o .pure

def next : Program I α → Option I.Op
  | .pure _ => none
  | .call o _ => some o

theorem exists_call {p : Program I α} (h : p.next = some o) : ∃ k, p = .call o k := by
  cases p with
  | pure => cases h
  | call o' k =>
    cases h
    exact ⟨k, rfl⟩

@[simp] theorem pure_bind' (a : α) (f : α → Program I β) : (Program.pure a).bind f = f a := rfl

@[simp] theorem call_bind (o : I.Op) (k : I.Reply o → Program I α) (f : α → Program I β) :
    (Program.call o k).bind f = .call o fun r => (k r).bind f := rfl

@[simp] theorem op_bind (o : I.Op) (f : I.Reply o → Program I β) : (op o).bind f = .call o f := rfl

theorem bind_pure' (p : Program I α) : p.bind .pure = p := by
  induction p with
  | pure a => rfl
  | call o k ih => simp [ih]

theorem bind_assoc' (p : Program I α) (f : α → Program I β) (g : β → Program I γ) :
    (p.bind f).bind g = p.bind fun a => (f a).bind g := by
  induction p with
  | pure a => rfl
  | call o k ih => simp [ih]

instance : LawfulMonad (Program I) :=
  LawfulMonad.mk' (Program I) bind_pure' pure_bind' bind_assoc'

end Program

/-- How a world answers a call.  `abandon` lists the replies a caller may see while the call
itself is still to happen, on a worker thread nobody waits for. -/
structure World (I : Interface) (σ : Type) where
  step : σ → (o : I.Op) → I.Reply o → σ → Prop
  abandon : (o : I.Op) → I.Reply o → Prop

/-- What every party keeps (`inv`) and what every party may do to the world (`rel`). -/
structure Discipline (σ : Type) where
  inv : σ → Prop
  rel : σ → σ → Prop
  refl : ∀ s, rel s s
  trans : ∀ {s t u}, rel s t → rel t u → rel s u

namespace Program

variable {I : Interface} {σ α β ε : Type} {W : World I σ} {D : Discipline σ}

/-- Whatever the others do between its calls, the program keeps the discipline and ends in `Q`. -/
def Safe (W : World I σ) (D : Discipline σ) (Q : α → σ → Prop) : Program I α → σ → Prop
  | .pure a, s => Q a s
  | .call o k, s => ∀ t r, D.rel s t → D.inv t →
      (∀ u, W.step t o r u → D.inv u ∧ D.rel t u ∧ (k r).Safe W D Q u) ∧
      (W.abandon o r → (k r).Safe W D Q t)

theorem Safe.evolve {p : Program I α} {Q : α → σ → Prop} (h : p.Safe W D Q s) (hr : D.rel s t)
    (hQ : ∀ a, Q a s → Q a t) : p.Safe W D Q t := by
  cases p with
  | pure a => exact hQ a h
  | call o k => exact fun u r hu => h u r (D.trans hr hu)

theorem Safe.bind {p : Program I α} {f : α → Program I β} {Q : α → σ → Prop} {R : β → σ → Prop}
    (h : p.Safe W D Q s) (hf : ∀ a t, D.rel s t → Q a t → (f a).Safe W D R t) :
    (p.bind f).Safe W D R s := by
  induction p generalizing s with
  | pure a => exact hf a s (D.refl s) h
  | call o k ih =>
    intro t r ht hi
    obtain ⟨hs, ha⟩ := h t r ht hi
    constructor
    · intro u hu
      obtain ⟨hui, hur, hk⟩ := hs u hu
      exact ⟨hui, hur, ih r hk fun a v hv => hf a v (D.trans ht (D.trans hur hv))⟩
    · intro hab
      exact ih r (ha hab) fun a v hv => hf a v (D.trans ht hv)

theorem Safe.mono {p : Program I α} {Q R : α → σ → Prop} (h : p.Safe W D Q s)
    (hQ : ∀ a t, D.rel s t → Q a t → R a t) : p.Safe W D R s := by
  have := h.bind (f := .pure) (R := R) fun a t ht hq => hQ a t ht hq
  rwa [bind_pure'] at this

theorem Safe.detached {o : I.Op} {k : I.Reply o → Program I α} {Q : α → σ → Prop}
    (h : (Program.call o k).Safe W D Q s) :
    (Program.call o fun _ => Program.pure ()).Safe W D (fun _ _ => True) s := by
  intro t r ht hi
  exact ⟨fun u hu => ⟨((h t r ht hi).1 u hu).1, ((h t r ht hi).1 u hu).2.1, trivial⟩,
    fun _ => trivial⟩

/-- Calls that may raise: the judgement at `ExceptT`. -/
abbrev Ensures (W : World I σ) (D : Discipline σ) (p : ExceptT ε (Program I) α)
    (Q : Except ε α → σ → Prop) (s : σ) : Prop := Safe W D Q p.run s

theorem Ensures.pure {a : α} {Q : Except ε α → σ → Prop} (h : Q (.ok a) s) :
    Ensures W D (Pure.pure a : ExceptT ε (Program I) α) Q s := h

theorem Ensures.throw {e : ε} {Q : Except ε α → σ → Prop} (h : Q (.error e) s) :
    Ensures W D (throw e : ExceptT ε (Program I) α) Q s := h

theorem Ensures.bind {p : ExceptT ε (Program I) α} {f : α → ExceptT ε (Program I) β}
    {Q : Except ε α → σ → Prop} {R : Except ε β → σ → Prop} (h : Ensures W D p Q s)
    (hok : ∀ a t, D.rel s t → Q (.ok a) t → Ensures W D (f a) R t)
    (herr : ∀ e t, D.rel s t → Q (.error e) t → R (.error e) t) :
    Ensures W D (p >>= f) R s := by
  refine Safe.bind h ?_
  intro r t ht hq
  cases r with
  | ok a => exact hok a t ht hq
  | error e => exact herr e t ht hq

theorem Ensures.tryCatch {p : ExceptT ε (Program I) α} {g : ε → ExceptT ε (Program I) α}
    {Q R : Except ε α → σ → Prop} (h : Ensures W D p Q s)
    (hok : ∀ a t, D.rel s t → Q (.ok a) t → R (.ok a) t)
    (herr : ∀ e t, D.rel s t → Q (.error e) t → Ensures W D (g e) R t) :
    Ensures W D (tryCatch p g) R s := by
  refine Safe.bind h ?_
  intro r t ht hq
  cases r with
  | ok a => exact hok a t ht hq
  | error e => exact herr e t ht hq

theorem Ensures.mono {p : ExceptT ε (Program I) α} {Q R : Except ε α → σ → Prop}
    (h : Ensures W D p Q s) (hQ : ∀ r t, D.rel s t → Q r t → R r t) : Ensures W D p R s :=
  Safe.mono h hQ

theorem error_ne_ok {e : ε} {P : α → Prop} (a : α) (h : (Except.error e : Except ε α) = .ok a) :
    P a := by
  cases h

/-- Whenever it returns a value, the value satisfies `P`; what it raises says nothing. -/
def Keeps (W : World I σ) (D : Discipline σ) (p : ExceptT ε (Program I) α) (P : α → σ → Prop)
    (s : σ) : Prop := Ensures W D p (fun r t => ∀ a, r = .ok a → P a t) s

theorem Keeps.pure {a : α} {P : α → σ → Prop} (h : P a s) :
    Keeps W D (Pure.pure a : ExceptT ε (Program I) α) P s := by
  rintro _ ⟨⟩
  exact h

theorem Keeps.throw {e : ε} {P : α → σ → Prop} :
    Keeps W D (throw e : ExceptT ε (Program I) α) P s := error_ne_ok

theorem Keeps.bind {p : ExceptT ε (Program I) α} {f : α → ExceptT ε (Program I) β}
    {P : α → σ → Prop} {R : β → σ → Prop} (h : Keeps W D p P s)
    (hf : ∀ a t, D.rel s t → P a t → Keeps W D (f a) R t) : Keeps W D (p >>= f) R s :=
  Ensures.bind h (fun a t ht hq => hf a t ht (hq a rfl)) fun _ _ _ _ => error_ne_ok

theorem Keeps.tryCatch {p : ExceptT ε (Program I) α} {g : ε → ExceptT ε (Program I) α}
    {P : α → σ → Prop} (h : Keeps W D p P s) (hg : ∀ e t, D.rel s t → Keeps W D (g e) P t) :
    Keeps W D (tryCatch p g) P s :=
  Ensures.tryCatch h (fun _ _ _ hq => hq) fun e t ht _ => hg e t ht

theorem Keeps.mono {p : ExceptT ε (Program I) α} {P R : α → σ → Prop} (h : Keeps W D p P s)
    (hP : ∀ a t, D.rel s t → P a t → R a t) : Keeps W D p R s :=
  Ensures.mono h fun _ t ht hq a ha => hP a t ht (hq a ha)

theorem Keeps.map {p : ExceptT ε (Program I) α} {P : α → σ → Prop} {R : β → σ → Prop}
    {f : α → β} (h : Keeps W D p P s) (hf : ∀ a t, D.rel s t → P a t → R (f a) t) :
    Keeps W D (f <$> p) R s := by
  rw [map_eq_pure_bind]
  exact h.bind fun a t ht ha => .pure (hf a t ht ha)

/-- Alone in the world, whatever it answers, the program ends, and in `Q`. -/
def Completes (W : World I σ) (Q : α → σ → Prop) : Program I α → σ → Prop
  | .pure a, s => Q a s
  | .call o k, s => (∃ r t, W.step s o r t) ∧ ∀ r t, W.step s o r t → (k r).Completes W Q t

theorem completes_bind {p : Program I α} {f : α → Program I β} {Q : β → σ → Prop} :
    (p.bind f).Completes W Q s ↔ p.Completes W (fun a t => (f a).Completes W Q t) s := by
  induction p generalizing s with
  | pure a => rfl
  | call o k ih => exact and_congr_right fun _ => forall₂_congr fun r t => by rw [ih]

theorem Completes.mono {p : Program I α} {Q R : α → σ → Prop} (h : p.Completes W Q s)
    (hQ : ∀ a t, Q a t → R a t) : p.Completes W R s := by
  induction p generalizing s with
  | pure a => exact hQ a s h
  | call o k ih => exact ⟨h.1, fun r t st => ih r (h.2 r t st)⟩

/-- `Q` of a value, `E` of an exception. -/
def outcome (Q : α → σ → Prop) (E : ε → σ → Prop) : Except ε α → σ → Prop
  | .ok a => Q a
  | .error e => E e

/-- Alone in the world, it returns into `Q` or raises into `E`. -/
def Ends (W : World I σ) (p : ExceptT ε (Program I) α) (Q : α → σ → Prop) (E : ε → σ → Prop)
    (s : σ) : Prop := p.run.Completes W (outcome Q E) s

section Ends

variable {Q R : α → σ → Prop} {E F : ε → σ → Prop}

@[simp] theorem ends_pure {a : α} :
    Ends W (Pure.pure a : ExceptT ε (Program I) α) Q E s ↔ Q a s := .rfl

@[simp] theorem ends_throw {e : ε} :
    Ends W (throw e : ExceptT ε (Program I) α) Q E s ↔ E e s := .rfl

theorem ends_bind {p : ExceptT ε (Program I) α} {f : α → ExceptT ε (Program I) β}
    {Q : β → σ → Prop} : Ends W (p >>= f) Q E s ↔ Ends W p (fun a => Ends W (f a) Q E) E s := by
  refine completes_bind.trans ⟨fun h => h.mono ?_, fun h => h.mono ?_⟩ <;>
    · rintro (e | a) t hr <;> exact hr

theorem ends_tryCatch {p : ExceptT ε (Program I) α} {g : ε → ExceptT ε (Program I) α} :
    Ends W (tryCatch p g) Q E s ↔ Ends W p Q (fun e => Ends W (g e) Q E) s := by
  refine completes_bind.trans ⟨fun h => h.mono ?_, fun h => h.mono ?_⟩ <;>
    · rintro (e | a) t hr <;> exact hr

theorem Ends.mono {p : ExceptT ε (Program I) α} (h : Ends W p Q E s)
    (hQ : ∀ a t, Q a t → R a t) (hE : ∀ e t, E e t → F e t) : Ends W p R F s := by
  refine Completes.mono h ?_
  rintro (e | a) t hr
  · exact hE e t hr
  · exact hQ a t hr

theorem Ends.bind {p : ExceptT ε (Program I) α} {f : α → ExceptT ε (Program I) β}
    {R : β → σ → Prop} (h : Ends W p Q F s) (hf : ∀ a t, Q a t → Ends W (f a) R E t)
    (hE : ∀ e t, F e t → E e t) : Ends W (p >>= f) R E s := ends_bind.mpr (h.mono hf hE)

/-- It returns a value, in `Q`. -/
def Returns (W : World I σ) (p : ExceptT ε (Program I) α) (Q : α → σ → Prop) (s : σ) : Prop :=
  Ends W p Q (fun _ _ => False) s

theorem Returns.mono {p : ExceptT ε (Program I) α} (h : Returns W p Q s)
    (hQ : ∀ a t, Q a t → R a t) : Returns W p R s := Ends.mono h hQ fun _ _ => False.elim

theorem Returns.bind {p : ExceptT ε (Program I) α} {f : α → ExceptT ε (Program I) β}
    {R : β → σ → Prop} (h : Returns W p Q s) (hf : ∀ a t, Q a t → Ends W (f a) R E t) :
    Ends W (p >>= f) R E s := Ends.bind h hf fun _ _ => False.elim

end Ends

/-- Its calls are among `calls`, and while the answers are `sane` it can only come to `Q`. -/
def Only (calls : I.Op → Prop) (sane : (o : I.Op) → I.Reply o → Prop) (Q : α → Prop) :
    Program I α → Prop
  | .pure a => Q a
  | .call o k => calls o ∧ ∀ r, sane o r → (k r).Only calls sane Q

section Only

variable {calls : I.Op → Prop} {sane : (o : I.Op) → I.Reply o → Prop}

theorem Only.bind {p : Program I α} {f : α → Program I β} {Q : α → Prop} {R : β → Prop}
    (h : p.Only calls sane Q) (hf : ∀ a, Q a → (f a).Only calls sane R) :
    (p.bind f).Only calls sane R := by
  induction p with
  | pure a => exact hf a h
  | call o k ih => exact ⟨h.1, fun r hr => ih r (h.2 r hr)⟩

theorem Only.safe {p : Program I α} {Q : α → Prop} (h : p.Only calls sane Q)
    (hs : ∀ {o s r t}, calls o → D.inv s → W.step s o r t → sane o r ∧ D.inv t ∧ D.rel s t)
    (ha : ∀ {o r}, calls o → W.abandon o r → sane o r) : p.Safe W D (fun a _ => Q a) s := by
  induction p generalizing s with
  | pure a => exact h
  | call o k ih =>
    intro t r _ hi
    refine ⟨fun u st => ?_, fun hab => ih r (h.2 r (ha h.1 hab))⟩
    obtain ⟨hr, hu, hrel⟩ := hs h.1 hi st
    exact ⟨hu, hrel, ih r (h.2 r hr)⟩

theorem Only.completes {p : Program I α} {Q : α → Prop} {J : σ → Prop}
    (h : p.Only calls sane Q) (hs : J s)
    (hW : ∀ {o s}, calls o → J s → (∃ r t, W.step s o r t) ∧
      ∀ r t, W.step s o r t → sane o r ∧ J t) : p.Completes W (fun a t => Q a ∧ J t) s := by
  induction p generalizing s with
  | pure a => exact ⟨h, hs⟩
  | call o k ih =>
    obtain ⟨hans, hall⟩ := hW h.1 hs
    refine ⟨hans, fun r t st => ?_⟩
    obtain ⟨hr, ht⟩ := hall r t st
    exact ih r (h.2 r hr) ht

/-- The judgement at `ExceptT`: `P` of a value, `E` of an exception. -/
def Confined (calls : I.Op → Prop) (sane : (o : I.Op) → I.Reply o → Prop) (E : ε → Prop)
    (p : ExceptT ε (Program I) α) (P : α → Prop) : Prop :=
  p.run.Only calls sane fun
    | .ok a => P a
    | .error e => E e

variable {E : ε → Prop} {P : α → Prop} {R : β → Prop}

theorem Confined.pure {a : α} (h : P a) :
    Confined calls sane E (Pure.pure a : ExceptT ε (Program I) α) P := h

theorem Confined.throw {e : ε} (h : E e) :
    Confined calls sane E (throw e : ExceptT ε (Program I) α) P := h

theorem Confined.bind {p : ExceptT ε (Program I) α} {f : α → ExceptT ε (Program I) β}
    (h : Confined calls sane E p P) (hf : ∀ a, P a → Confined calls sane E (f a) R) :
    Confined calls sane E (p >>= f) R := by
  refine Only.bind h ?_
  rintro (e | a) hr
  · exact hr
  · exact hf a hr

theorem Confined.tryCatch {F : ε → Prop} {p : ExceptT ε (Program I) α}
    {g : ε → ExceptT ε (Program I) α} (h : Confined calls sane F p P)
    (hg : ∀ e, F e → Confined calls sane E (g e) P) :
    Confined calls sane E (tryCatch p g) P := by
  refine Only.bind h ?_
  rintro (e | a) hr
  · exact hg e hr
  · exact hr

theorem Confined.keeps {p : ExceptT ε (Program I) α} (h : Confined calls sane E p P)
    (hs : ∀ {o s r t}, calls o → D.inv s → W.step s o r t → sane o r ∧ D.inv t ∧ D.rel s t)
    (ha : ∀ {o r}, calls o → W.abandon o r → sane o r) : Keeps W D p (fun a _ => P a) s := by
  refine (Only.safe h hs ha).mono ?_
  rintro _ t - hr a rfl
  exact hr

theorem Confined.ends {p : ExceptT ε (Program I) α} {J : σ → Prop}
    (h : Confined calls sane E p P) (hs : J s)
    (hW : ∀ {o s}, calls o → J s → (∃ r t, W.step s o r t) ∧
      ∀ r t, W.step s o r t → sane o r ∧ J t) :
    Ends W p (fun a t => P a ∧ J t) (fun e t => E e ∧ J t) s := by
  refine (Only.completes h hs hW).mono ?_
  rintro (e | a) t hr
  · exact hr
  · exact hr

end Only

end Program

structure Pool (I : Interface) (σ : Type) where
  world : σ
  tasks : List (Program I Unit)

namespace Pool

variable {I : Interface} {σ : Type}

/-- One scheduling choice: a new task, one call of some task, or a task that stops waiting for
a call which then runs by itself.  A crashed task is one never chosen again. -/
inductive Step (W : World I σ) (allowed : Program I Unit → Prop) : Pool I σ → Pool I σ → Prop
  | spawn : allowed p → Step W allowed ⟨s, ps⟩ ⟨s, p :: ps⟩
  | call : W.step s o r t → Step W allowed ⟨s, ps ++ .call o k :: qs⟩ ⟨t, ps ++ k r :: qs⟩
  | abandon : W.abandon o r → Step W allowed ⟨s, ps ++ .call o k :: qs⟩
      ⟨s, ps ++ k r :: .call o (fun _ => .pure ()) :: qs⟩

def system (W : World I σ) (init : σ → Prop) (allowed : Program I Unit → Prop) :
    Transition.System (Pool I σ) Unit where
  init p := init p.world ∧ p.tasks = []
  step p _ q := Step W allowed p q

def Sound (W : World I σ) (D : Discipline σ) (p : Pool I σ) : Prop :=
  D.inv p.world ∧ ∀ q ∈ p.tasks, q.Safe W D (fun _ _ => True) p.world

theorem Step.rel {W : World I σ} {D : Discipline σ} {allowed : Program I Unit → Prop}
    {p q : Pool I σ} (h : Sound W D p) (st : Step W allowed p q) : D.rel p.world q.world := by
  cases st with
  | spawn => exact D.refl _
  | call hs =>
    have hcall := h.2 _ (List.mem_append_right _ List.mem_cons_self)
    exact ((hcall _ _ (D.refl _) h.1).1 _ hs).2.1
  | abandon => exact D.refl _

theorem Step.sound {W : World I σ} {D : Discipline σ} {allowed : Program I Unit → Prop}
    (hp : ∀ p, allowed p → ∀ s, D.inv s → p.Safe W D (fun _ _ => True) s)
    {p q : Pool I σ} (h : Sound W D p) (st : Step W allowed p q) : Sound W D q := by
  have hrel := st.rel h
  obtain ⟨hi, ht⟩ := h
  cases st with
  | spawn ha =>
    refine ⟨hi, ?_⟩
    intro q hq
    rcases List.mem_cons.mp hq with rfl | hq
    · exact hp _ ha _ hi
    · exact ht q hq
  | call hs =>
    have hcall := ht _ (List.mem_append_right _ List.mem_cons_self)
    obtain ⟨hi', _, hk⟩ := (hcall _ _ (D.refl _) hi).1 _ hs
    refine ⟨hi', ?_⟩
    intro q hq
    rcases List.mem_append.mp hq with hq | hq
    · exact (ht q (by simp [hq])).evolve hrel fun _ h => h
    · rcases List.mem_cons.mp hq with rfl | hq
      · exact hk
      · exact (ht q (by simp [hq])).evolve hrel fun _ h => h
  | abandon ha =>
    have hcall := ht _ (List.mem_append_right _ List.mem_cons_self)
    refine ⟨hi, ?_⟩
    intro q hq
    rcases List.mem_append.mp hq with hq | hq
    · exact ht q (by simp [hq])
    · rcases List.mem_cons.mp hq with rfl | hq
      · exact (hcall _ _ (D.refl _) hi).2 ha
      · rcases List.mem_cons.mp hq with rfl | hq
        · exact hcall.detached
        · exact ht q (by simp [hq])

theorem sound {W : World I σ} {D : Discipline σ} {init : σ → Prop}
    {allowed : Program I Unit → Prop} (hinit : ∀ s, init s → D.inv s)
    (hp : ∀ p, allowed p → ∀ s, D.inv s → p.Safe W D (fun _ _ => True) s) :
    Transition.Invariant (system W init allowed) (Sound W D) where
  init h := ⟨hinit _ h.1, by simp [h.2]⟩
  step h st := Step.sound hp h st

end Pool

structure Server {I : Interface} {σ : Type} (W : World I σ) where
  serve : σ → (o : I.Op) → I.Reply o × σ
  sound : ∀ s o, W.step s o (serve s o).1 (serve s o).2

namespace Server

variable {I : Interface} {σ α : Type} {W : World I σ}

/-- The task alone, for at most `n` calls. -/
def drive (S : Server W) : Nat → σ → Program I α → σ × Program I α
  | 0, s, p => (s, p)
  | _ + 1, s, .pure a => (s, .pure a)
  | n + 1, s, .call o k => S.drive n (S.serve s o).2 (k (S.serve s o).1)

theorem drive_reachable (S : Server W) {init : σ → Prop} {allowed : Program I Unit → Prop}
    {p : Program I Unit} (n : Nat) {s : σ}
    (h : Transition.Reachable (Pool.system W init allowed) ⟨s, [p]⟩) :
    Transition.Reachable (Pool.system W init allowed)
      ⟨(S.drive n s p).1, [(S.drive n s p).2]⟩ := by
  induction n generalizing s p with
  | zero => exact h
  | succ n ih =>
    cases p with
    | pure a => exact h
    | call o k =>
      have st : Pool.Step W allowed ⟨s, [] ++ .call o k :: []⟩ ⟨_, [] ++ k _ :: []⟩ :=
        .call (S.sound s o)
      exact ih (h.step (e := ()) st)

end Server

end PrismPipe
