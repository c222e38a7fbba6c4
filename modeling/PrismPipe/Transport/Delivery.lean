import PrismPipe.Transport.RedisStreams

/-! What can still be delivered: entries the group never read, and answers on their way to a live
generator.  Nothing reads the group's history or claims a pending entry. -/

namespace PrismPipe.RedisStreams

open Transition

structure Stream.Evolves (s t : Stream) : Prop where
  delivered : ∀ entry ∈ s.delivered, entry ∈ t.delivered
  fresh : ∀ entry ∈ t.fresh, entry ∈ s.fresh ∨ entry.1 ∉ s.ids
  nodup : s.ids.Nodup → t.ids.Nodup

theorem Stream.Evolves.refl (s : Stream) : s.Evolves s := ⟨fun _ => id, fun _ => .inl, id⟩

theorem Stream.evolves_xgroupCreate (s : Stream) : s.Evolves s.xgroupCreate :=
  ⟨fun _ => id, fun _ => .inl, id⟩

theorem Stream.evolves_xack (s : Stream) (id : EntryId) : s.Evolves (s.xack id) :=
  ⟨fun _ h => h, fun _ => .inl, fun h => h⟩

theorem Stream.evolves_xadd {s : Stream} {entry : Entry} (h : entry.1 ∉ s.ids) :
    s.Evolves (s.xadd entry) where
  delivered _ := id
  fresh e he := by
    rcases List.mem_append.mp he with he | he
    · exact .inl he
    · exact .inr (List.mem_singleton.mp he ▸ h)
  nodup hn := by
    have hids : (s.xadd entry).ids = s.ids ++ [entry.1] := by simp [Stream.ids, Stream.xadd]
    rw [hids]
    refine List.nodup_append.mpr ⟨hn, List.nodup_singleton _, ?_⟩
    rintro a ha _ hb rfl
    exact h (List.mem_singleton.mp hb ▸ ha)

theorem Stream.evolves_xreadgroup {s t : Stream} (h : s.xreadgroup = (reply, t)) :
    s.Evolves t := by
  unfold Stream.xreadgroup at h
  split at h
  · cases h
    exact .refl s
  next entry rest hf =>
    cases h
    refine ⟨fun e he => List.mem_append_left _ he, fun e he => .inl ?_, fun hn => ?_⟩
    · rw [hf]
      exact List.mem_cons_of_mem _ he
    · simpa [Stream.ids, hf] using hn

theorem Stream.xreadgroup_fresh {s t : Stream} (h : s.xreadgroup = (some entry, t)) :
    entry ∈ s.fresh := by
  unfold Stream.xreadgroup at h
  split at h
  · cases h
  next hf =>
    cases h
    simp [hf]

theorem evolves_update {streams : String → Stream} {stream : Stream}
    (h : (streams topic).Evolves stream) (k : String) :
    (streams k).Evolves (Function.update streams topic stream k) := by
  by_cases hk : k = topic
  · subst hk
    simpa using h
  · rw [Function.update_of_ne hk]
    exact .refl _

theorem Transport.Step.evolves {streams streams' : String → Stream} {p q : Transport}
    (h : p.Step streams τ e streams' q) (topic : String) :
    (streams topic).Evolves (streams' topic) := by
  cases h with
  | group => exact evolves_update (Stream.evolves_xgroupCreate _) topic
  | read _ hr => exact evolves_update (Stream.evolves_xreadgroup hr) topic
  | republish _ hid => exact evolves_update (Stream.evolves_xadd hid) topic
  | xack => exact evolves_update (Stream.evolves_xack _ _) topic
  | _ => exact .refl _

theorem World.Step.evolves {s t : World} (h : s.Step e t) (topic : String) :
    (s.streams topic).Evolves (t.streams topic) := by
  cases h with
  | launch => exact .refl _
  | publish _ _ hid => exact evolves_update (Stream.evolves_xadd hid) topic
  | act _ st => exact st.evolves topic

theorem ids_nodup : Invariant system fun s => ∀ topic, (s.streams topic).ids.Nodup where
  init := by
    rintro _ rfl topic
    exact List.nodup_nil
  step h st topic := (World.Step.evolves st topic).nodup (h topic)

def Transport.Answered (p : Transport) (topic : String) (entry : Entry) : Prop :=
  ∃ g : Nat, p.generators[g]? = some ⟨topic, .answered entry⟩

def World.Holds (s : World) (topic : String) (entry : Entry) : Prop :=
  ∃ τ p, s.Live τ p ∧ p.Answered topic entry

theorem Transport.loop_ne_answered (p : Transport) : p.loop ≠ .answered entry := by
  unfold loop
  split <;> exact Phase.noConfusion

theorem Transport.enter_ne_answered (p : Transport) : p.enter topic ≠ .answered entry := by
  unfold enter
  split
  · exact Phase.noConfusion
  split
  · exact p.loop_ne_answered
  · exact Phase.noConfusion

theorem Transport.Answered.of_setPhase {p : Transport}
    (h : (p.setPhase g k phase).Answered topic entry) :
    p.Answered topic entry ∨ k = topic ∧ phase = .answered entry := by
  obtain ⟨i, hi⟩ := h
  simp only [Transport.setPhase, List.getElem?_set] at hi
  split at hi
  · split at hi
    · cases hi
      exact .inr ⟨rfl, rfl⟩
    · cases hi
  · exact .inl ⟨i, hi⟩

theorem Transport.Step.answered {streams streams' : String → Stream} {p q : Transport}
    (h : p.Step streams τ e streams' q) (ha : q.Answered topic entry) :
    p.Answered topic entry ∨ entry ∈ (streams topic).fresh := by
  cases h with
  | crash | start | stop | refuse | acknowledge | retry | republish | retried | xack | failed =>
    exact .inl ha
  | consume =>
    obtain ⟨g, hg⟩ := ha
    refine .inl ⟨g, ?_⟩
    rw [List.getElem?_append] at hg
    split at hg
    · exact hg
    · simp [List.getElem?_singleton] at hg
  | enter => exact .inl (ha.of_setPhase.resolve_right fun h => p.enter_ne_answered h.2)
  | group => exact .inl (ha.of_setPhase.resolve_right fun h => p.loop_ne_answered h.2)
  | read _ hr =>
    rcases ha.of_setPhase with ha | ⟨rfl, he⟩
    · exact .inl ha
    · cases he
      exact .inr (Stream.xreadgroup_fresh hr)
  | idle => exact .inl (ha.of_setPhase.resolve_right fun h => p.loop_ne_answered h.2)
  | yield => exact .inl (ha.of_setPhase.resolve_right fun h => nomatch h.2)
  | resume => exact .inl (ha.of_setPhase.resolve_right fun h => p.loop_ne_answered h.2)
  | close => exact .inl (ha.of_setPhase.resolve_right fun h => nomatch h.2)

/-- Read by the group, and in nobody's hands on the way to a `yield`. -/
structure World.Lost (s : World) (topic : String) (entry : Entry) : Prop where
  delivered : entry ∈ (s.streams topic).delivered
  unique : entry.1 ∉ (s.streams topic).fresh.map (·.1)
  unheld : ¬ s.Holds topic entry

theorem World.Step.lost {s t : World} (h : s.Step e t) (hl : s.Lost topic entry) :
    t.Lost topic entry := by
  have hev := h.evolves topic
  refine ⟨hev.delivered _ hl.delivered, fun hf => ?_, fun hh => ?_⟩
  · obtain ⟨f, hf, he⟩ := List.mem_map.mp hf
    rcases hev.fresh f hf with hf | hn
    · exact hl.unique (he ▸ List.mem_map_of_mem hf)
    · refine hn (he ▸ List.mem_map_of_mem (List.mem_append_left _ hl.delivered))
  · obtain ⟨τ, q, ⟨hq, hlive⟩, ha⟩ := hh
    cases h with
    | launch =>
      rw [List.getElem?_append] at hq
      split at hq
      · exact hl.unheld ⟨τ, q, ⟨hq, hlive⟩, ha⟩
      · rw [List.getElem?_singleton] at hq
        split at hq
        · cases hq
          obtain ⟨g, hg⟩ := ha
          cases hg
        · cases hq
    | publish => exact hl.unheld ⟨τ, q, ⟨hq, hlive⟩, ha⟩
    | act hp st =>
      simp only [List.getElem?_set] at hq
      split at hq
      · split at hq
        · cases hq
          rcases st.answered ha with ha | hf
          · exact hl.unheld ⟨_, _, hp, ha⟩
          · exact hl.unique (List.mem_map_of_mem hf)
        · cases hq
      · exact hl.unheld ⟨τ, q, ⟨hq, hlive⟩, ha⟩

theorem World.Step.holds_of_yielded {s t : World} (h : s.Step (.yielded τ ⟨topic, n, fields⟩) t) :
    s.Holds topic (n, fields) := by
  cases h with
  | act hp st =>
    cases st with
    | yield hg => exact ⟨_, _, hp, _, hg⟩

theorem World.Lost.never {s t : World} (h : s.Lost topic entry) (hr : Run system s es t) :
    .yielded τ ⟨topic, entry.1, entry.2⟩ ∉ es := by
  induction hr with
  | nil => exact List.not_mem_nil
  | cons st _ ih =>
    intro hm
    rcases List.mem_cons.mp hm with he | hm
    · subst he
      exact h.unheld (World.Step.holds_of_yielded st)
    · exact ih (World.Step.lost st h) hm

def World.Deliverable (s : World) (topic : String) (entry : Entry) : Prop :=
  ∃ es t, Run system s es t ∧ ∃ τ, .yielded τ ⟨topic, entry.1, entry.2⟩ ∈ es

theorem World.Deliverable.of_run {s t : World} (h : t.Deliverable topic entry)
    (hr : Run system s es t) : s.Deliverable topic entry := by
  obtain ⟨fs, u, hu, τ, hm⟩ := h
  exact ⟨es ++ fs, u, hr.append hu, τ, List.mem_append_right _ hm⟩

/-- Generator `g` of the live, connected transport `τ` stands at `phase`. -/
def World.At (s : World) (τ g : Nat) (topic : String) (phase : Phase) : Prop :=
  ∃ p, s.Live τ p ∧ p.connected ∧ p.generators[g]? = some ⟨topic, phase⟩

theorem World.Live.act {s : World} {p q : Transport} (h : s.Live τ p)
    (st : p.Step s.streams τ e written q) (hq : q.live) :
    ∃ t : World, Run system s [e] t ∧ t.Live τ q ∧ t.streams = written := by
  refine ⟨⟨written, s.transports.set τ q⟩, .single (World.Step.act h st), ⟨?_, hq⟩, rfl⟩
  have hlt := (List.getElem?_eq_some_iff.mp h.1).1
  simp [hlt]

theorem Transport.setPhase_getElem {p : Transport} {x : Generator}
    (h : p.generators[g]? = some x) (topic : String) (phase : Phase) :
    (p.setPhase g topic phase).generators[g]? = some ⟨topic, phase⟩ := by
  have hlt := (List.getElem?_eq_some_iff.mp h).1
  simp [setPhase, hlt]

theorem Transport.loop_connected {p : Transport} (h : p.connected) : p.loop = .reading :=
  if_pos h

theorem World.At.read {s : World} (h : s.At τ g topic .reading)
    (hf : (s.streams topic).fresh = entry :: rest) : ∃ t, Run system s [.silent] t ∧
      t.At τ g topic (.answered entry) ∧ (t.streams topic).fresh = rest := by
  obtain ⟨p, hp, hc, hg⟩ := h
  have hr : (s.streams topic).xreadgroup = (some entry, { s.streams topic with
      delivered := (s.streams topic).delivered ++ [entry]
      fresh := rest
      pending := (s.streams topic).pending ++ [entry.1] }) := by
    rw [Stream.xreadgroup, hf]
  obtain ⟨t, ht, hlive, hs⟩ := hp.act (.read hg hr) hp.2
  refine ⟨t, ht, ⟨_, hlive, hc, Transport.setPhase_getElem hg _ _⟩, ?_⟩
  simp [hs]

theorem World.At.yield {s : World} (h : s.At τ g topic (.answered (n, fields))) :
    ∃ t, Run system s [.yielded τ ⟨topic, n, fields⟩] t ∧
      t.At τ g topic (.yielded (n, fields)) ∧ t.streams = s.streams := by
  obtain ⟨p, hp, hc, hg⟩ := h
  obtain ⟨t, ht, hlive, hs⟩ := hp.act (.yield hg) hp.2
  exact ⟨t, ht, ⟨_, hlive, hc, Transport.setPhase_getElem hg _ _⟩, hs⟩

theorem World.At.resume {s : World} (h : s.At τ g topic (.yielded (n, fields))) :
    ∃ t, Run system s [.resumed τ ⟨topic, n, fields⟩] t ∧
      t.At τ g topic .reading ∧ t.streams = s.streams := by
  obtain ⟨p, hp, hc, hg⟩ := h
  obtain ⟨t, ht, hlive, hs⟩ := hp.act (.resume hg) hp.2
  refine ⟨t, ht, ⟨_, hlive, hc, ?_⟩, hs⟩
  rw [← Transport.loop_connected hc]
  exact Transport.setPhase_getElem hg _ _

theorem World.At.deliverable {s : World} (h : s.At τ g topic .reading)
    (hf : (s.streams topic).fresh = before ++ entry :: after) : s.Deliverable topic entry := by
  induction before generalizing s with
  | nil =>
    obtain ⟨t, hread, hat, -⟩ := h.read hf
    obtain ⟨u, hyield, -, -⟩ := hat.yield
    exact ⟨_, u, hread.append hyield, τ, by simp⟩
  | cons first rest ih =>
    -- one turn of the loop: read, yield, resume, and read again
    obtain ⟨t, hread, hat, hrest⟩ := h.read hf
    obtain ⟨u, hyield, hat, hu⟩ := hat.yield
    obtain ⟨v, hresume, hat, hv⟩ := hat.resume
    have hf : (v.streams topic).fresh = rest ++ entry :: after := by
      rw [hv, hu]
      exact hrest
    exact (ih hat hf).of_run ((hread.append hyield).append hresume)

theorem exists_reading (s : World) (topic : String) : ∃ es t τ, Run system s es t ∧
    t.At τ 0 topic .reading ∧ (t.streams topic).fresh = (s.streams topic).fresh := by
  have hlaunch : Run system s [.silent] { s with transports := s.transports ++ [{}] } :=
    .single .launch
  have hp : World.Live { s with transports := s.transports ++ [{}] } s.transports.length {} :=
    ⟨by simp, rfl⟩
  obtain ⟨t₁, hstart, hp, hs₁⟩ := hp.act .start rfl
  obtain ⟨t₂, hconsume, hp, hs₂⟩ := hp.act (.consume topic) rfl
  have hcreated : ([⟨topic, .created⟩] : List Generator)[0]? = some ⟨topic, .created⟩ := rfl
  obtain ⟨t₃, henter, hp, hs₃⟩ := hp.act (.enter hcreated) rfl
  have hensuring : ([⟨topic, .ensuring⟩] : List Generator)[0]? = some ⟨topic, .ensuring⟩ := rfl
  obtain ⟨t₄, hgroup, hp, hs₄⟩ := hp.act (.group hensuring) rfl
  refine ⟨_, t₄, s.transports.length,
    (((hlaunch.append hstart).append hconsume).append henter).append hgroup, ⟨_, hp, rfl, rfl⟩, ?_⟩
  rw [hs₄, hs₃, hs₂, hs₁, Function.update_self]
  rfl

theorem World.deliverable_of_fresh {s : World} (h : entry ∈ (s.streams topic).fresh) :
    s.Deliverable topic entry := by
  obtain ⟨before, after, hf⟩ := List.append_of_mem h
  obtain ⟨es, t, τ, hr, hat, ht⟩ := exists_reading s topic
  exact (hat.deliverable (ht.trans hf)).of_run hr

theorem World.Holds.deliverable {s : World} (h : s.Holds topic entry) :
    s.Deliverable topic entry := by
  obtain ⟨τ, p, hp, g, hg⟩ := h
  obtain ⟨t, ht, -, -⟩ := hp.act (.yield hg) hp.2
  exact ⟨_, t, ht, τ, List.mem_cons_self⟩

/-- A published entry can still be delivered exactly if the group has not read it, or its answer is
on the way to a live generator. -/
theorem deliverable_iff {s : World} (hs : Reachable system s)
    (he : entry ∈ (s.streams topic).delivered ++ (s.streams topic).fresh) :
    s.Deliverable topic entry ↔ entry ∈ (s.streams topic).fresh ∨ s.Holds topic entry := by
  constructor
  · rintro ⟨es, t, hr, τ, hm⟩
    by_contra hn
    obtain ⟨hf, hh⟩ := not_or.mp hn
    have hd := (List.mem_append.mp he).resolve_right hf
    have hu : entry.1 ∉ (s.streams topic).fresh.map (·.1) := by
      have hn := ids_nodup.reachable hs topic
      rw [Stream.ids, List.map_append, List.nodup_append] at hn
      exact fun hm => hn.2.2 _ (List.mem_map_of_mem hd) _ hm rfl
    exact World.Lost.never ⟨hd, hu, hh⟩ hr hm
  · rintro (hf | hh)
    · exact World.deliverable_of_fresh hf
    · exact hh.deliverable

/-- A first entry, published and not read. -/
theorem deliverable_published : World.Deliverable
    (({} : World).setStream "t" (Stream.xadd {} (1, ⟨[], .null, [], 1⟩))) "t"
    (1, ⟨[], .null, [], 1⟩) :=
  (deliverable_iff ((Reachable.init rfl).step (World.Step.publish "t" _ List.not_mem_nil))
    (by simp [World.setStream, Stream.xadd])).mpr (.inl (by simp [World.setStream, Stream.xadd]))

theorem World.Live.reachable {s : World} {p q : Transport} (hp : s.Live τ p)
    (h : Reachable system s) (st : p.Step s.streams τ e written q) :
    Reachable system ⟨written, s.transports.set τ q⟩ := h.step (World.Step.act hp st)

/-- A process reads an entry, yields it and crashes: pending forever, and never yielded again. -/
theorem crashed_not_deliverable : ∃ s topic entry, Reachable system s ∧
    entry.1 ∈ (s.streams topic).pending ∧ ¬ s.Deliverable topic entry := by
  let entry : Entry := (1, ⟨[], .null, [], 1⟩)
  have h0 : Reachable system {} := .init rfl
  have h1 := h0.step (World.Step.publish "t" entry.2 (n := 1) List.not_mem_nil)
  have h2 := h1.step World.Step.launch
  have h3 := World.Live.reachable (τ := 0) ⟨rfl, rfl⟩ h2 .start
  have h4 := World.Live.reachable (τ := 0) ⟨rfl, rfl⟩ h3 (.consume "t")
  have h5 := World.Live.reachable (τ := 0) ⟨rfl, rfl⟩ h4 (.enter (g := 0) rfl)
  have h6 := World.Live.reachable (τ := 0) ⟨rfl, rfl⟩ h5 (.group (g := 0) rfl)
  have h7 := World.Live.reachable (τ := 0) ⟨rfl, rfl⟩ h6 (.read (g := 0) rfl rfl)
  have h8 := World.Live.reachable (τ := 0) ⟨rfl, rfl⟩ h7 (.yield (g := 0) rfl)
  have h9 := World.Live.reachable (τ := 0) ⟨rfl, rfl⟩ h8 .crash
  refine ⟨_, "t", entry, h9, by decide +kernel, ?_⟩
  rintro ⟨es, t, hr, τ, hm⟩
  refine World.Lost.never ⟨?_, by decide +kernel, ?_⟩ hr hm
  · exact List.mem_cons_self
  · rintro ⟨τ, p, ⟨hp, hlive⟩, -⟩
    cases τ with
    | zero =>
      obtain rfl := Option.some.inj hp
      cases hlive
    | succ τ => cases hp

end PrismPipe.RedisStreams
