import PrismPipe.Transport.RedisStreams

/-! Which entry `acknowledge` and `retry` settle: the table behind them is keyed by message id and
written when the generator is resumed, so it knows the last delivery resumed under that id. -/

namespace PrismPipe.RedisStreams

open Python Transition

/-- The delivery transport `τ` writes down under the message id, in this event. -/
def Event.records (τ : Nat) (messageId : PyStr) : Event → Option Delivery
  | .resumed σ d => if σ = τ ∧ d.message.messageId = messageId then some d else none
  | _ => none

/-- The last delivery of the message id after which `τ`'s generator was resumed. -/
def lastResumed (τ : Nat) (messageId : PyStr) : List Event → Option Delivery
  | [] => none
  | e :: es => (lastResumed τ messageId es).or (e.records τ messageId)

/-- What stands under the message id in transport `τ`. -/
def World.recorded (s : World) (τ : Nat) (messageId : PyStr) : Option (String × EntryId) :=
  (s.transports[τ]?).bind (·.entryIds messageId)

theorem Transport.Step.entryIds {streams written : String → Stream} {p q : Transport}
    (h : p.Step streams τ e written q) (messageId : PyStr) :
    q.entryIds messageId = ((e.records τ messageId).map (·.entry)).or (p.entryIds messageId) := by
  cases h with
  | @resume g topic n fields hg =>
    by_cases hm : messageId = fields.messageId
    · simp [Event.records, setPhase, record, Delivery.message, hm]
    · simp [Event.records, setPhase, record, Delivery.message, hm, Ne.symm hm]
  | _ => rfl

theorem Transport.Step.records_ne {streams written : String → Stream} {p q : Transport}
    (h : p.Step streams τ e written q) (hσ : τ ≠ σ) : e.records σ messageId = none := by
  cases h with
  | resume => simp [Event.records, hσ]
  | _ => rfl

theorem World.Live.recorded {s : World} {p q : Transport} (hp : s.Live σ p)
    (st : p.Step s.streams σ e written q) (τ : Nat) (messageId : PyStr) :
    World.recorded ⟨written, s.transports.set σ q⟩ τ messageId =
      ((e.records τ messageId).map (·.entry)).or (s.recorded τ messageId) := by
  have hlt := (List.getElem?_eq_some_iff.mp hp.1).1
  by_cases hσ : σ = τ
  · subst hσ
    rw [World.recorded, World.recorded, hp.1, List.getElem?_set_self hlt]
    exact st.entryIds messageId
  · simp [World.recorded, hσ, st.records_ne hσ]

theorem World.Step.recorded {s t : World} (h : s.Step e t) (τ : Nat) (messageId : PyStr) :
    t.recorded τ messageId =
      ((e.records τ messageId).map (·.entry)).or (s.recorded τ messageId) := by
  cases h with
  | launch =>
    simp only [World.recorded, Event.records, List.getElem?_append, List.getElem?_singleton]
    split
    · rfl
    next hlt =>
      rw [List.getElem?_eq_none (not_lt.mp hlt)]
      split <;> rfl
  | publish => rfl
  | act hp st => exact hp.recorded st τ messageId

theorem Run.recorded {s t : World} (h : Run system s es t) (τ : Nat) (messageId : PyStr) :
    t.recorded τ messageId =
      ((lastResumed τ messageId es).map (·.entry)).or (s.recorded τ messageId) := by
  induction h with
  | nil => rfl
  | cons st _ ih =>
    rw [ih, World.Step.recorded st, lastResumed]
    cases lastResumed τ messageId _ <;> simp

/-- The call issued for a delivery, and the entry it sends an `XACK` for. -/
def Event.settles : Event → Option (Delivery × Option (String × EntryId))
  | .acknowledged _ d target | .retried _ d target => some (d, target)
  | _ => none

def Event.Exact (e : Event) : Prop :=
  ∀ d target, e.settles = some (d, target) → target = some d.entry

/-- At the lookup, the last delivery resumed under the message id is the call's own; `retry` reads
the entry id alone. -/
def Event.Current (history : List Event) : Event → Prop
  | .acknowledged τ d _ => (lastResumed τ d.message.messageId history).map (·.entry) = some d.entry
  | .retried τ d _ => (lastResumed τ d.message.messageId history).map (·.id) = some d.id
  | _ => True

theorem World.recorded_init (τ : Nat) (messageId : PyStr) :
    ({} : World).recorded τ messageId = none := rfl

theorem World.Live.entryIds {s : World} {p : Transport} (h : s.Live τ p) (messageId : PyStr) :
    p.entryIds messageId = s.recorded τ messageId := by
  simp [World.recorded, h.1]

theorem Transport.retry_eq (p : Transport) (d : Delivery) :
    p.retry d.message = (p.entryIds d.message.messageId).map fun entry => (d.topic, entry.2) := by
  unfold retry
  cases p.entryIds d.message.messageId <;> rfl

theorem Event.exact_iff_current {s t : World} (hr : Run system {} history s) (st : s.Step e t) :
    e.Exact ↔ e.Current history := by
  have hrec (τ) (messageId) : s.recorded τ messageId =
      (lastResumed τ messageId history).map (·.entry) := by
    rw [Run.recorded hr, World.recorded_init, Option.or_none]
  cases st with
  | launch | publish => simp [Exact, Current, settles]
  | act hp st =>
    cases st with
    | acknowledge =>
      rw [Transport.acknowledge, hp.entryIds, hrec]
      simp [Exact, Current, settles]
    | retried =>
      rw [Transport.retry_eq, hp.entryIds, hrec]
      simp [Exact, Current, settles, Delivery.entry]
    | _ => simp [Exact, Current, settles]

/-- Every `XACK` on its way satisfies `P`. -/
def World.Sends (s : World) (P : Delivery → String × EntryId → Prop) : Prop :=
  ∀ (τ : Nat) (p : Transport), s.transports[τ]? = some p →
    ∀ d entry, .acking d entry ∈ p.calls → P d entry

theorem mem_sending (h : .acking d entry ∈ sending d' target) : d = d' ∧ target = some entry := by
  cases target with
  | none => cases h
  | some entry =>
    cases List.mem_singleton.mp h
    exact ⟨rfl, rfl⟩

theorem Transport.Step.sends {streams written : String → Stream} {p q : Transport}
    (h : p.Step streams τ e written q) (hm : .acking d entry ∈ q.calls) :
    .acking d entry ∈ p.calls ∨ e.settles = some (d, some entry) := by
  cases h with
  | acknowledge =>
    rcases List.mem_append.mp hm with hm | hm
    · obtain ⟨rfl, ht⟩ := mem_sending hm
      exact .inr (by simp [Event.settles, ht])
    · exact .inl hm
  | retried hc =>
    rw [hc]
    rcases List.mem_append.mp hm with hm | hm
    · rcases List.mem_append.mp hm with hm | hm
      · exact .inl (List.mem_append_left _ hm)
      · obtain ⟨rfl, ht⟩ := mem_sending hm
        exact .inr (by simp [Event.settles, ht])
    · exact .inl (List.mem_append_right _ (List.mem_cons_of_mem _ hm))
  | retry => exact .inl (by simpa using hm)
  | republish hc | xack hc | failed hc =>
    rw [hc]
    refine .inl ?_
    rcases List.mem_append.mp hm with hm | hm
    · exact List.mem_append_left _ hm
    · refine List.mem_append_right _ ?_
      simp_all
  | _ => exact .inl hm

theorem Transport.Step.xacked {streams written : String → Stream} {p q : Transport}
    (h : p.Step streams τ (.xacked σ d entry) written q) : .acking d entry ∈ p.calls := by
  cases h with
  | xack hc => simp [hc]

theorem World.Step.sends {s t : World} {P : Delivery → String × EntryId → Prop} (h : s.Step e t)
    (hs : s.Sends P) (he : ∀ d entry, e.settles = some (d, some entry) → P d entry) :
    t.Sends P := by
  intro τ q hq d entry hm
  cases h with
  | launch =>
    rw [List.getElem?_append] at hq
    split at hq
    · exact hs τ q hq d entry hm
    · rw [List.getElem?_singleton] at hq
      split at hq
      · cases hq
        cases hm
      · cases hq
  | publish => exact hs τ q hq d entry hm
  | act hp st =>
    rw [List.getElem?_set] at hq
    split at hq
    · split at hq
      · cases hq
        exact (st.sends hm).elim (hs _ _ hp.1 d entry) (he d entry)
      · cases hq
    · exact hs τ q hq d entry hm

theorem Run.xacked {s t : World} {P : Delivery → String × EntryId → Prop}
    (hr : Run system s es t) (hs : s.Sends P)
    (he : ∀ e ∈ es, ∀ d entry, e.settles = some (d, some entry) → P d entry) :
    .xacked τ d entry ∈ es → P d entry := by
  induction hr with
  | nil => exact fun hm => absurd hm List.not_mem_nil
  | cons st _ ih =>
    intro hm
    rcases List.mem_cons.mp hm with rfl | hm
    · cases st with
      | act hp st => exact hs _ _ hp.1 _ _ st.xacked
    · exact ih (World.Step.sends st hs (he _ List.mem_cons_self))
        (fun e hm => he e (List.mem_cons_of_mem _ hm)) hm

/-- In every run a call settles its own entry exactly if its delivery is the current one; where every
call's is, nothing but a delivery's own entry is ever acknowledged for it. -/
theorem settles_own_iff_current {t : World} (hr : Run system {} es t) :
    (∀ history e future, es = history ++ e :: future → (e.Exact ↔ e.Current history)) ∧
      ((∀ history e future, es = history ++ e :: future → e.Current history) →
        ∀ τ d entry, .xacked τ d entry ∈ es → entry = d.entry) := by
  have hexact : ∀ history e future, es = history ++ e :: future →
      (e.Exact ↔ e.Current history) := by
    rintro history e future rfl
    obtain ⟨u, v, hu, st, -⟩ := hr.split
    exact Event.exact_iff_current hu st
  refine ⟨hexact, fun hcurrent τ d entry => ?_⟩
  have hs : World.Sends {} fun d entry => entry = d.entry := fun _ _ hp => nomatch hp
  refine Run.xacked hr hs ?_
  intro e he d entry hs
  obtain ⟨history, future, hes⟩ := List.append_of_mem he
  exact Option.some.inj ((hexact _ _ _ hes).mpr (hcurrent _ _ _ hes) d _ hs)

theorem early_run : ∃ t d, Run system {} [.silent, .silent, .silent, .silent, .silent, .silent,
    .silent, .yielded 0 d, .acknowledged 0 d none] t := by
  let fields : Fields := ⟨[], .null, [], 1⟩
  have h0 : Run system {} [] {} := .nil
  have h1 := h0.snoc (World.Step.publish "t" fields (n := 1) List.not_mem_nil)
  have h2 := h1.snoc World.Step.launch
  have h3 := h2.snoc (World.Step.act (τ := 0) ⟨rfl, rfl⟩ .start)
  have h4 := h3.snoc (World.Step.act (τ := 0) ⟨rfl, rfl⟩ (.consume "t"))
  have h5 := h4.snoc (World.Step.act (τ := 0) ⟨rfl, rfl⟩ (.enter (g := 0) rfl))
  have h6 := h5.snoc (World.Step.act (τ := 0) ⟨rfl, rfl⟩ (.group (g := 0) rfl))
  have h7 := h6.snoc (World.Step.act (τ := 0) ⟨rfl, rfl⟩ (.read (g := 0) rfl rfl))
  have h8 := h7.snoc (World.Step.act (τ := 0) ⟨rfl, rfl⟩ (.yield (g := 0) rfl))
  have h9 := h8.snoc (World.Step.act (τ := 0) ⟨rfl, rfl⟩ (.acknowledge List.mem_cons_self rfl))
  exact ⟨_, ⟨"t", 1, fields⟩, h9⟩

theorem settles_own_early : ∃ (es : List Event) (t : World), Run system {} es t ∧ es.length = 9 ∧
    ∀ history e future, es = history ++ e :: future → (e.Exact ↔ e.Current history) := by
  obtain ⟨t, d, hr⟩ := early_run
  exact ⟨_, t, hr, rfl, (settles_own_iff_current hr).1⟩

/-- It is looked up and not found: nothing is acknowledged. -/
theorem early_not_exact : ∃ (es : List Event) (t : World) (e : Event),
    Run system {} es t ∧ e ∈ es ∧ ¬ e.Exact := by
  obtain ⟨t, d, hr⟩ := early_run
  refine ⟨_, t, .acknowledged 0 d none, hr, by simp, fun h => ?_⟩
  cases h d none rfl

end PrismPipe.RedisStreams
