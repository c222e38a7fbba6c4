import PrismPipe.Lib.Program

/-! Programs of several parties over one world, where what a party relies on is what every other
one guarantees to it by name, and what their calls come to in any run that may lose them all. -/

universe u

namespace PrismPipe

structure Shared (I : Interface) (σ : Type) where
  step : Nat → σ → (o : I.Op) → I.Reply o → σ → Prop

/-- What every step keeps (`inv`), what every step may only add to (`grows`), and what a step of
one party leaves alone of another (`mine`). -/
structure Contract (σ : Type) where
  inv : σ → Prop
  grows : σ → σ → Prop
  mine : Nat → σ → σ → Prop
  grows_refl : ∀ s, grows s s
  grows_trans : ∀ {s t u}, grows s t → grows t u → grows s u
  mine_refl : ∀ i s, mine i s s
  mine_trans : ∀ {i s t u}, mine i s t → mine i t u → mine i s u

namespace Contract

variable {σ : Type}

def rely (C : Contract σ) (i : Nat) (s t : σ) : Prop := C.grows s t ∧ C.mine i s t

theorem rely_refl (C : Contract σ) (i : Nat) (s : σ) : C.rely i s s :=
  ⟨C.grows_refl s, C.mine_refl i s⟩

theorem rely_trans {C : Contract σ} (h : C.rely i s t) (k : C.rely i t u) : C.rely i s u :=
  ⟨C.grows_trans h.1 k.1, C.mine_trans h.2 k.2⟩

end Contract

namespace Program

variable {I : Interface} {σ α β ε : Type} {W : Shared I σ} {C : Contract σ} {i : Nat}

/-- Each call of the party keeps the contract, and it ends in `Q`. -/
def Meets (W : Shared I σ) (C : Contract σ) (i : Nat) (Q : α → σ → Prop) : Program I α → σ → Prop
  | .pure a, s => Q a s
  | .call o k, s => ∀ t r u, C.rely i s t → C.inv t → W.step i t o r u →
      C.inv u ∧ C.grows t u ∧ (∀ j, j ≠ i → C.mine j t u) ∧ (k r).Meets W C i Q u

theorem Meets.evolve {p : Program I α} {Q : α → σ → Prop} (h : p.Meets W C i Q s)
    (hr : C.rely i s t) (hQ : ∀ a, Q a s → Q a t) : p.Meets W C i Q t := by
  cases p with
  | pure a => exact hQ a h
  | call o k => exact fun u r v hu => h u r v (C.rely_trans hr hu)

theorem Meets.bind {p : Program I α} {f : α → Program I β} {Q : α → σ → Prop} {R : β → σ → Prop}
    (h : p.Meets W C i Q s) (hf : ∀ a t, C.grows s t → Q a t → (f a).Meets W C i R t) :
    (p.bind f).Meets W C i R s := by
  induction p generalizing s with
  | pure a => exact hf a s (C.grows_refl s) h
  | call o k ih =>
    intro t r u ht hi st
    obtain ⟨hu, hg, hm, hk⟩ := h t r u ht hi st
    exact ⟨hu, hg, hm, ih r hk fun a v hv => hf a v (C.grows_trans ht.1 (C.grows_trans hg hv))⟩

theorem Meets.mono {p : Program I α} {Q R : α → σ → Prop} (h : p.Meets W C i Q s)
    (hQ : ∀ a t, Q a t → R a t) : p.Meets W C i R s := by
  have := h.bind (f := .pure) (R := R) fun a t _ hq => hQ a t hq
  rwa [bind_pure'] at this

/-- The judgement at `ExceptT`: `Q` of a value, `E` of an exception. -/
def Fulfils (W : Shared I σ) (C : Contract σ) (i : Nat) (p : ExceptT ε (Program I) α)
    (Q : α → σ → Prop) (E : ε → σ → Prop) (s : σ) : Prop := p.run.Meets W C i (outcome Q E) s

section Fulfils

variable {Q : α → σ → Prop} {R : β → σ → Prop} {E F : ε → σ → Prop}

theorem Fulfils.pure {a : α} (h : Q a s) :
    Fulfils W C i (Pure.pure a : ExceptT ε (Program I) α) Q E s := h

theorem Fulfils.throw {e : ε} (h : E e s) :
    Fulfils W C i (throw e : ExceptT ε (Program I) α) Q E s := h

theorem Fulfils.bind {p : ExceptT ε (Program I) α} {f : α → ExceptT ε (Program I) β}
    (h : Fulfils W C i p Q E s)
    (hf : ∀ a t, C.grows s t → Q a t → Fulfils W C i (f a) R E t) :
    Fulfils W C i (p >>= f) R E s := by
  refine Meets.bind h ?_
  rintro (e | a) t ht hq
  · exact hq
  · exact hf a t ht hq

theorem Fulfils.tryCatch {p : ExceptT ε (Program I) α} {g : ε → ExceptT ε (Program I) α}
    (h : Fulfils W C i p Q F s)
    (hg : ∀ e t, C.grows s t → F e t → Fulfils W C i (g e) Q E t) :
    Fulfils W C i (tryCatch p g) Q E s := by
  refine Meets.bind h ?_
  rintro (e | a) t ht hq
  · exact hg e t ht hq
  · exact hq

theorem Fulfils.call {o : I.Op} {k : I.Reply o → ExceptT ε (Program I) α}
    (h : ∀ t r u, C.rely i s t → C.inv t → W.step i t o r u →
      C.inv u ∧ C.grows t u ∧ (∀ j, j ≠ i → C.mine j t u) ∧ Fulfils W C i (k r) Q E u) :
    Fulfils W C i (Program.call o fun r => (k r).run) Q E s := h

end Fulfils

end Program

open Program

structure Flight (I : Interface) (σ α κ : Type) where
  call : κ
  start : σ
  rest : Program I α

structure Parties (I : Interface) (σ α κ : Type) where
  world : σ
  flights : List (Flight I σ α κ)

namespace Parties

variable {I : Interface} {σ α κ : Type}

/-- A call begins, or goes one step on, or all are lost with what the world loses.  One that is
never chosen again was killed. -/
inductive Step (W : Shared I σ) (lost : σ → σ → Prop) (allowed : κ → Prop)
    (body : κ → Program I α) : Parties I σ α κ → Parties I σ α κ → Prop
  | begin : allowed c → Step W lost allowed body ⟨s, fs⟩ ⟨s, fs ++ [⟨c, s, body c⟩]⟩
  | advance {s t : σ} {o : I.Op} {r : I.Reply o} {k : I.Reply o → Program I α} :
      fs[i]? = some ⟨c, s₀, .call o k⟩ → W.step i s o r t →
      Step W lost allowed body ⟨s, fs⟩ ⟨t, fs.set i ⟨c, s₀, k r⟩⟩
  | lose : lost s t → Step W lost allowed body ⟨s, fs⟩ ⟨t, []⟩

theorem Step.alone {W : Shared I σ} {lost : σ → σ → Prop} {allowed : κ → Prop}
    {body : κ → Program I α} {s t : σ} {o : I.Op} {r : I.Reply o} {k : I.Reply o → Program I α}
    (st : W.step 0 s o r t) : Step W lost allowed body ⟨s, [⟨c, s₀, .call o k⟩]⟩
      ⟨t, [⟨c, s₀, k r⟩]⟩ :=
  .advance (i := 0) rfl st

def system (W : Shared I σ) (lost : σ → σ → Prop) (allowed : κ → Prop) (body : κ → Program I α)
    (init : σ → Prop) : Transition.System (Parties I σ α κ) Unit where
  init p := init p.world ∧ p.flights = []
  step p _ q := Step W lost allowed body p q

variable {W : Shared I σ} {C : Contract σ} {lost : σ → σ → Prop} {allowed : κ → Prop}
  {body : κ → Program I α} {init : σ → Prop} {Q : κ → σ → α → σ → Prop}

structure Good (W : Shared I σ) (C : Contract σ) (Q : κ → σ → α → σ → Prop)
    (p : Parties I σ α κ) : Prop where
  inv : C.inv p.world
  grows : ∀ f ∈ p.flights, C.grows f.start p.world
  meets : ∀ i (f : Flight I σ α κ), p.flights[i]? = some f →
    f.rest.Meets W C i (Q f.call f.start) p.world

structure Specified (W : Shared I σ) (C : Contract σ) (lost : σ → σ → Prop) (allowed : κ → Prop)
    (body : κ → Program I α) (init : σ → Prop) (Q : κ → σ → α → σ → Prop) : Prop where
  init : ∀ s, init s → C.inv s
  lose : ∀ s t, C.inv s → lost s t → C.inv t
  meets : ∀ c i s, allowed c → C.inv s → (body c).Meets W C i (Q c s) s
  stable : ∀ {c s a t u}, C.grows t u → Q c s a t → Q c s a u

theorem Step.good (h : Specified W C lost allowed body init Q) {p q : Parties I σ α κ}
    (hp : Good W C Q p) (st : Step W lost allowed body p q) : Good W C Q q := by
  cases st with
  | @begin c s fs ha =>
    refine ⟨hp.inv, ?_, ?_⟩
    · intro f hf
      rcases List.mem_append.mp hf with hf | hf
      · exact hp.grows f hf
      · cases List.mem_singleton.mp hf
        exact C.grows_refl s
    · intro i f hf
      rw [List.getElem?_append] at hf
      split at hf
      · exact hp.meets i f hf
      · cases List.mem_singleton.mp (List.mem_of_getElem? hf)
        exact h.meets c i s ha hp.inv
  | @advance fs i c s₀ s t o r k hi st =>
    have hself := hp.meets i _ hi
    obtain ⟨hinv, hgrows, hmine, hk⟩ := hself s r t (C.rely_refl i s) hp.inv st
    refine ⟨hinv, ?_, ?_⟩
    · intro f hf
      rcases List.mem_or_eq_of_mem_set hf with hf | rfl
      · exact C.grows_trans (hp.grows f hf) hgrows
      · exact C.grows_trans (hp.grows ⟨c, s₀, .call o k⟩ (List.mem_of_getElem? hi)) hgrows
    · intro j f hf
      by_cases hj : j = i
      · subst hj
        obtain ⟨hlt, -⟩ := List.getElem?_eq_some_iff.mp hi
        rw [List.getElem?_set_self hlt] at hf
        cases hf
        exact hk
      · rw [List.getElem?_set_ne (Ne.symm hj)] at hf
        exact (hp.meets j f hf).evolve ⟨hgrows, hmine j hj⟩ fun a => h.stable hgrows
  | lose hl => exact ⟨h.lose _ _ hp.inv hl, by simp, by simp⟩

theorem good_reachable (h : Specified W C lost allowed body init Q) {p : Parties I σ α κ}
    (hp : Transition.Reachable (system W lost allowed body init) p) : Good W C Q p := by
  have hinv : Transition.Invariant (system W lost allowed body init) (Good W C Q) := by
    refine ⟨fun {p} hp => ⟨h.init _ hp.1, ?_, ?_⟩, fun hs st => st.good h hs⟩
    · simp [hp.2]
    · simp [hp.2]
  exact hinv.reachable hp

theorem inv_reachable (h : Specified W C lost allowed body init Q) {p : Parties I σ α κ}
    (hp : Transition.Reachable (system W lost allowed body init) p) : C.inv p.world :=
  (good_reachable h hp).inv

theorem returned (h : Specified W C lost allowed body init Q) {p : Parties I σ α κ}
    (hp : Transition.Reachable (system W lost allowed body init) p) (hf : f ∈ p.flights)
    (ha : f.rest = .pure a) : Q f.call f.start a p.world := by
  obtain ⟨i, hi⟩ := List.getElem?_of_mem hf
  have hmeets := (good_reachable h hp).meets i f hi
  rwa [ha] at hmeets

end Parties

end PrismPipe
