import PrismPipe.Lib.Transition
import PrismPipe.Transport.Bus

/-! Entries as any producer writes them, through `RedisStreamsDeepiriTransport.consume` into the
dispatcher of a started `DocumentVectorizeConsumer`. -/

namespace PrismPipe.Malformed

open Python Transition

/-- What `json.loads` and `int` make of a text; `none` raises. -/
structure Codec where
  loads : PyStr → Option Json
  int : PyStr → Option Int

structure Entry where
  id : PyStr
  field : String → Option PyStr

structure Received where
  messageId : PyStr
  payload : Json
  headers : Json
  deliveryAttempt : Int

def Codec.decode (c : Codec) (entry : Entry) : Option Received := do
  let payload ← c.loads ((entry.field "payload").getD (py "{}"))
  let headers ← c.loads ((entry.field "headers").getD (py "{}"))
  let deliveryAttempt ← c.int ((entry.field "delivery_attempt").getD (py "1"))
  some ⟨(entry.field "message_id").getD entry.id, payload, headers, deliveryAttempt⟩

def Codec.WellFormed (c : Codec) (entry : Entry) : Prop :=
  (∃ json, c.loads ((entry.field "payload").getD (py "{}")) = some json) ∧
    (∃ json, c.loads ((entry.field "headers").getD (py "{}")) = some json) ∧
    ∃ n, c.int ((entry.field "delivery_attempt").getD (py "1")) = some n

theorem Codec.wellFormed_iff (c : Codec) (entry : Entry) :
    c.WellFormed entry ↔ (c.decode entry).isSome := by
  unfold WellFormed decode
  cases c.loads ((entry.field "payload").getD (py "{}")) <;>
    cases c.loads ((entry.field "headers").getD (py "{}")) <;>
    cases c.int ((entry.field "delivery_attempt").getD (py "1")) <;> simp

/-- Where the dispatcher and the generator it runs are: `finished` by an exception, which nobody
awaits. -/
inductive Point
  | reading
  | answered (entry : Entry)
  | acquiring (message : Received)
  | finished

structure Consumption where
  /-- What the group has not read. -/
  fresh : List Entry
  /-- What the generator has gone over. -/
  taken : List Entry
  point : Point
  received : List Received
  permits : Nat
  active : List Received

def Consumption.entries (s : Consumption) : List Entry :=
  s.taken ++ (match s.point with
    | .answered entry => [entry]
    | _ => []) ++ s.fresh

/-- `DocumentVectorizeConsumer(.., max_concurrency)` once it has started. -/
def Consumption.start (maxConcurrency : Nat) (entries : List Entry) : Consumption :=
  ⟨entries, [], .reading, [], maxConcurrency, []⟩

/-- `XREADGROUP` with `COUNT 1`, the decoding, `acquire` and the task of the message, and the end of
a task. -/
inductive Own (c : Codec) : Consumption → Unit → Consumption → Prop
  | read : s.point = .reading → s.fresh = entry :: fresh →
      Own c s () { s with fresh := fresh, point := .answered entry }
  | yield : s.point = .answered entry → c.decode entry = some message →
      Own c s ()
        { s with
          taken := s.taken ++ [entry]
          received := s.received ++ [message]
          point := .acquiring message }
  | raise : s.point = .answered entry → c.decode entry = none →
      Own c s () { s with taken := s.taken ++ [entry], point := .finished }
  | acquire : s.point = .acquiring message → s.permits = n + 1 →
      Own c s () { s with permits := n, active := message :: s.active, point := .reading }
  | release : s.active = before ++ message :: after →
      Own c s () { s with permits := s.permits + 1, active := before ++ after }

inductive Step (c : Codec) : Consumption → Unit → Consumption → Prop
  | xadd (entry : Entry) : Step c s () { s with fresh := s.fresh ++ [entry] }
  | own : Own c s e t → Step c s e t

def consuming (c : Codec) (maxConcurrency : Nat) : System Consumption Unit where
  init s := ∃ entries, s = .start maxConcurrency entries
  step := Step c

def draining (c : Codec) : System Consumption Unit where
  init _ := True
  step := Own c

def Consumption.Settled (c : Codec) (s : Consumption) : Prop := ∀ e t, ¬ Own c s e t

def Consumption.work (s : Consumption) : Nat :=
  4 * s.fresh.length + (match s.point with
    | .reading | .finished => 0
    | .answered _ => 3
    | .acquiring _ => 2) + s.active.length

/-- However the consumer goes on, it comes to an end of the stream, has yielded the entries that are
well formed, in order, and waits for more. -/
def Consumption.Consumes (c : Codec) (s : Consumption) : Prop :=
  ∀ es t, Run (draining c) s es t → es.length ≤ s.work ∧ (t.Settled c →
    t.point = .reading ∧ t.taken = s.entries ∧ t.received = s.entries.filterMap c.decode)

variable {c : Codec} {maxConcurrency : Nat} {s t : Consumption}

theorem Own.work (st : Own c s e t) : t.work < s.work := by
  cases st with
  | read hp hf =>
    simp only [Consumption.work, hp, hf, List.length_cons]
    omega
  | yield hp _ => simp [Consumption.work, hp]
  | raise hp _ => simp [Consumption.work, hp]
  | acquire hp _ =>
    simp only [Consumption.work, hp, List.length_cons]
    omega
  | release ha => simp [Consumption.work, ha]

theorem Own.entries (st : Own c s e t) : t.entries = s.entries := by
  cases st with
  | read hp hf => simp [Consumption.entries, hp, hf]
  | yield hp _ => simp [Consumption.entries, hp]
  | raise hp _ => simp [Consumption.entries, hp]
  | acquire hp _ => simp [Consumption.entries, hp]
  | release _ => rfl

/-- What was yielded are the well-formed entries of what the generator went over, and a malformed
one has ended it. -/
structure Decoded (c : Codec) (maxConcurrency : Nat) (s : Consumption) : Prop where
  received : s.received = s.taken.filterMap c.decode
  finished : s.point = .finished ↔ ∃ entry ∈ s.taken, c.decode entry = none
  permits : s.permits + s.active.length = maxConcurrency

theorem Own.decoded (st : Own c s e t) (h : Decoded c maxConcurrency s) :
    Decoded c maxConcurrency t := by
  have hgoing (hp : s.point ≠ .finished) : ¬ ∃ entry ∈ s.taken, c.decode entry = none :=
    fun he => hp (h.finished.mpr he)
  cases st with
  | read hp _ => exact ⟨h.received, iff_of_false nofun (hgoing (by simp [hp])), h.permits⟩
  | yield hp hd =>
    refine ⟨by simp [h.received, hd], iff_of_false nofun ?_, h.permits⟩
    rintro ⟨entry, hm, hn⟩
    rcases List.mem_append.mp hm with hm | hm
    · exact hgoing (by simp [hp]) ⟨entry, hm, hn⟩
    · obtain rfl := List.mem_singleton.mp hm
      rw [hd] at hn
      cases hn
  | raise hp hd =>
    exact ⟨by simp [h.received, hd], iff_of_true rfl ⟨_, by simp, hd⟩, h.permits⟩
  | acquire hp hn =>
    refine ⟨h.received, iff_of_false nofun (hgoing (by simp [hp])), ?_⟩
    have := h.permits
    simp only [List.length_cons]
    omega
  | release ha =>
    refine ⟨h.received, h.finished, ?_⟩
    have := h.permits
    rw [ha] at this
    simp only [List.length_append, List.length_cons] at this ⊢
    omega

theorem consuming_decoded : Invariant (consuming c maxConcurrency) (Decoded c maxConcurrency) where
  init := by
    rintro s ⟨entries, rfl⟩
    exact ⟨rfl, by simp [Consumption.start], rfl⟩
  step h st := by
    cases st with
    | xadd => exact ⟨h.received, h.finished, h.permits⟩
    | own st => exact st.decoded h

theorem draining_decoded (hr : Run (draining c) s es t) (h : Decoded c maxConcurrency s) :
    Decoded c maxConcurrency t ∧ t.entries = s.entries ∧ es.length + t.work ≤ s.work := by
  induction hr with
  | nil => exact ⟨h, rfl, by simp⟩
  | cons st _ ih =>
    obtain ⟨ht, he, hw⟩ := ih (Own.decoded st h)
    have hlt := Own.work st
    refine ⟨ht, he.trans (Own.entries st), ?_⟩
    rw [List.length_cons]
    omega

theorem exists_settled (s : Consumption) : ∃ es t, Run (draining c) s es t ∧ t.Settled c := by
  by_cases hs : s.Settled c
  · exact ⟨[], s, .nil, hs⟩
  · simp only [Consumption.Settled, not_forall, not_not] at hs
    obtain ⟨e, u, st⟩ := hs
    obtain ⟨es, t, hr, ht⟩ := exists_settled u
    exact ⟨e :: es, t, .cons st hr, ht⟩
termination_by s.work
decreasing_by exact Own.work ‹_›

theorem Decoded.settled (h : Decoded c maxConcurrency s) (hpos : 0 < maxConcurrency)
    (hs : s.Settled c) : s.point = .reading ∧ s.fresh = [] ∨ s.point = .finished := by
  cases hp : s.point with
  | reading =>
    cases hf : s.fresh with
    | nil => exact .inl ⟨rfl, rfl⟩
    | cons entry fresh => exact absurd (Own.read hp hf) (hs _ _)
  | answered entry =>
    cases hd : c.decode entry with
    | none => exact absurd (Own.raise hp hd) (hs _ _)
    | some message => exact absurd (Own.yield hp hd) (hs _ _)
  | acquiring message =>
    cases hn : s.permits with
    | succ n => exact absurd (Own.acquire hp hn) (hs _ _)
    | zero =>
      have hlen := h.permits
      rw [hn, Nat.zero_add] at hlen
      obtain ⟨message, after, ha⟩ := List.exists_cons_of_length_pos (hlen ▸ hpos)
      have ha : s.active = [] ++ message :: after := ha
      exact absurd (Own.release ha) (hs _ _)
  | finished => exact .inr rfl

/-- Whenever the consumer is left with the stream, it goes through it and goes on waiting exactly if
no entry is malformed. -/
theorem consumes_iff (hpos : 0 < maxConcurrency)
    (hs : Reachable (consuming c maxConcurrency) s) :
    s.Consumes c ↔ ∀ entry ∈ s.entries, c.WellFormed entry := by
  have h := consuming_decoded.reachable hs
  constructor
  · intro hc entry hm
    obtain ⟨es, t, hr, ht⟩ := exists_settled (c := c) s
    obtain ⟨hpoint, htaken, -⟩ := (hc es t hr).2 ht
    obtain ⟨hd, -, -⟩ := draining_decoded hr h
    rw [c.wellFormed_iff, Option.isSome_iff_ne_none]
    intro hn
    have hfin := hd.finished.mpr ⟨entry, htaken ▸ hm, hn⟩
    rw [hpoint] at hfin
    cases hfin
  · intro hw es t hr
    obtain ⟨hd, he, hwork⟩ := draining_decoded hr h
    refine ⟨by omega, fun ht => ?_⟩
    rcases hd.settled hpos ht with ⟨hp, hf⟩ | hp
    · have htaken : t.taken = s.entries := by
        rw [← he]
        simp [Consumption.entries, hp, hf]
      exact ⟨hp, htaken, htaken ▸ hd.received⟩
    · obtain ⟨entry, hm, hn⟩ := hd.finished.mp hp
      have hsome := (c.wellFormed_iff entry).mp (hw entry (he ▸ by simp [Consumption.entries, hm]))
      rw [hn] at hsome
      cases hsome

/-- As `json.loads` and `int` are of these texts. -/
def sample : Codec where
  loads s := if s = py "{}" then some (.dict []) else none
  int s := if s = py "1" then some 1 else none

def bare : Entry := ⟨py "1-0", fun _ => none⟩

theorem bare_wellFormed : sample.WellFormed bare :=
  (sample.wellFormed_iff bare).mpr (by decide +kernel)

theorem consumes_iff_bare : (Consumption.start 4 [bare, bare]).Consumes sample := by
  refine (consumes_iff (by decide) (.init ⟨_, rfl⟩)).mpr fun entry hm => ?_
  obtain rfl : entry = bare := by simpa [Consumption.entries, Consumption.start] using hm
  exact bare_wellFormed

def bad : Entry := ⟨py "1-0", fun field => if field = "delivery_attempt" then some (py "x") else none⟩

/-- What stands behind it is well formed, and is never read. -/
theorem bad_ends : sample.WellFormed bare ∧
    ¬ (Consumption.start 4 [bad, bare]).Consumes sample ∧ ∃ t,
      Run (draining sample) (.start 4 [bad, bare]) [(), ()] t ∧ t.Settled sample ∧
        t.point = .finished ∧ t.received = [] ∧ t.fresh = [bare] := by
  let s1 : Consumption := ⟨[bare], [], .answered bad, [], 4, []⟩
  let s2 : Consumption := ⟨[bare], [bad], .finished, [], 4, []⟩
  have h1 : Own sample (.start 4 [bad, bare]) () s1 := .read rfl rfl
  have h2 : Own sample s1 () s2 := .raise rfl (by decide +kernel)
  have hr : Run (draining sample) (.start 4 [bad, bare]) [(), ()] s2 := .cons h1 (.single h2)
  have hs : s2.Settled sample := by
    rintro e t st
    cases st with
    | read hp | yield hp | raise hp | acquire hp => cases hp
    | release ha => exact absurd ha (by simp [s2])
  refine ⟨bare_wellFormed, fun hc => ?_, s2, hr, hs, rfl, rfl,
    rfl⟩
  exact nomatch ((hc _ _ hr).2 hs).1

end PrismPipe.Malformed
