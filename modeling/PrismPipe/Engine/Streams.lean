import Mathlib.Data.List.TakeWhile
import Mathlib.Logic.Function.Basic
import PrismPipe.Lib.Transition
import PrismPipe.Python.Json

/-! `StreamManager`: what the queue of a `stream` context gets of what is emitted for its envelope,
where contexts of one envelope may overlap. -/

namespace PrismPipe.Streams

open Python Transition

structure StreamChunk where
  capability : String
  data : Json
  isFinal : Bool
  progress : PyFloat

/-- What `emit` puts into a queue: the chunk, and `None` behind a final one. -/
def StreamChunk.items (c : StreamChunk) : List (Option StreamChunk) :=
  if c.isFinal then [some c, none] else [some c]

structure StreamManager where
  streams : String → Option Nat
  /-- All that was put into each queue. -/
  queues : Nat → List (Option StreamChunk)
  /-- The envelope of each context that was entered. -/
  contexts : List String
  entered : List Nat

namespace StreamManager

def init : StreamManager := ⟨fun _ => none, fun _ => [], [], []⟩

def enter (self : StreamManager) (id : String) : StreamManager where
  streams := Function.update self.streams id (some self.contexts.length)
  queues := self.queues
  contexts := self.contexts ++ [id]
  entered := self.entered ++ [self.contexts.length]

/-- The `finally` of the context. -/
def leave (self : StreamManager) (n : Nat) (id : String) : StreamManager :=
  { self with
    streams := if (self.streams id).isSome then Function.update self.streams id none
      else self.streams
    entered := self.entered.erase n }

def emit (self : StreamManager) (id : String) (c : StreamChunk) : StreamManager :=
  match self.streams id with
  | none => self
  | some q => { self with queues := Function.update self.queues q (self.queues q ++ c.items) }

end StreamManager

inductive Event
  | enter (id : String)
  | leave (n : Nat) (id : String)
  | emit (id : String) (c : StreamChunk)

inductive Step : StreamManager → Event → StreamManager → Prop
  | enter {id : String} : Step s (.enter id) (s.enter id)
  | leave {id : String} : n ∈ s.entered → s.contexts[n]? = some id →
    Step s (.leave n id) (s.leave n id)
  | emit {id : String} : Step s (.emit id c) (s.emit id c)

def manager : System StreamManager Event where
  init s := s = .init
  step := Step

def Event.touches (id : String) : Event → Bool
  | .enter id' | .leave _ id' => id' = id
  | .emit .. => false

def Event.puts (id : String) : Event → List (Option StreamChunk)
  | .emit id' c => if id' = id then c.items else []
  | _ => []

/-- What follows the entering of the `n`-th context. -/
def since : Nat → List Event → List Event
  | _, [] => []
  | 0, .enter _ :: es => es
  | n + 1, .enter _ :: es => since n es
  | n, _ :: es => since n es

def heard (id : String) (es : List Event) : List (Option StreamChunk) :=
  (es.takeWhile fun e => !e.touches id).flatMap (Event.puts id)

def Untouched (id : String) (es : List Event) : Prop := ∀ e ∈ es, e.touches id = false

variable {id : String}

theorem Event.puts_of_touches {e : Event} (h : e.touches id) : e.puts id = [] := by
  cases e with
  | enter | leave => rfl
  | emit => cases h

theorem heard_concat {es : List Event} (h : Untouched id es) (e : Event) :
    heard id (es ++ [e]) = heard id es ++ e.puts id := by
  have hall : ∀ x ∈ es, (!x.touches id) = true := fun x hx => by simp [h x hx]
  rw [heard, heard, List.takeWhile_append_of_pos hall, List.takeWhile_eq_self_iff.mpr hall]
  cases he : e.touches id with
  | true => simp [he, Event.puts_of_touches he]
  | false => simp [he]

theorem heard_touched {es : List Event} (h : ¬ Untouched id es) (e : Event) :
    heard id (es ++ [e]) = heard id es := by
  obtain ⟨x, hx, ht⟩ : ∃ x ∈ es, x.touches id = true := by simpa [Untouched] using h
  rw [heard, heard, List.takeWhile_append, if_neg]
  intro hlen
  have hself := List.takeWhile_eq_self_iff.mp
    ((List.takeWhile_prefix (fun e : Event => !e.touches id)).eq_of_length hlen)
  simpa [ht] using hself x hx

theorem untouched_concat {es : List Event} {e : Event} :
    Untouched id (es ++ [e]) ↔ Untouched id es ∧ e.touches id = false := by
  simp [Untouched, or_imp, forall_and]

def enters (es : List Event) : Nat := es.countP fun | .enter _ => true | _ => false

theorem since_concat {n : Nat} {es : List Event} (h : n < enters es) (e : Event) :
    since n (es ++ [e]) = since n es ++ [e] := by
  induction es generalizing n with
  | nil => simp [enters] at h
  | cons f es ih =>
    cases f with
    | enter id =>
      cases n with
      | zero => rfl
      | succ n =>
        refine ih ?_
        simpa [enters] using h
    | leave m id =>
      cases n <;> exact ih (by simpa [enters] using h)
    | emit id c =>
      cases n <;> exact ih (by simpa [enters] using h)

theorem since_enter (es : List Event) (id : String) :
    since (enters es) (es ++ [.enter id]) = [] := by
  induction es with
  | nil => rfl
  | cons f es ih =>
    cases f with
    | enter => simpa [enters, since] using ih
    | leave m id =>
      rw [show enters (.leave m id :: es) = enters es by simp [enters], List.cons_append]
      cases hn : enters es <;> rw [hn] at ih <;> exact ih
    | emit id' c =>
      rw [show enters (.emit id' c :: es) = enters es by simp [enters], List.cons_append]
      cases hn : enters es <;> rw [hn] at ih <;> exact ih

theorem enters_concat (es : List Event) (e : Event) :
    enters (es ++ [e]) = enters es + enters [e] := List.countP_append

structure Tracks (es : List Event) (s : StreamManager) : Prop where
  count : s.contexts.length = enters es
  later : ∀ n, s.contexts.length ≤ n → s.queues n = []
  heard : ∀ n id, s.contexts[n]? = some id → s.queues n = heard id (since n es)
  standing : ∀ n id, s.contexts[n]? = some id →
    (s.streams id = some n ↔ Untouched id (since n es))
  registered : ∀ n id, s.streams id = some n → s.contexts[n]? = some id

theorem Tracks.lt {s : StreamManager} (h : Tracks es s) (hn : s.contexts[n]? = some id) :
    n < enters es := by
  rw [← h.count]
  exact (List.getElem?_eq_some_iff.mp hn).1

theorem Tracks.silent {s : StreamManager} (h : Tracks es s) (hn : s.contexts[n]? = some id)
    (he : e.puts id = []) : s.queues n = Streams.heard id (since n (es ++ [e])) := by
  rw [since_concat (h.lt hn), h.heard n id hn]
  by_cases hu : Untouched id (since n es)
  · rw [heard_concat hu, he, List.append_nil]
  · rw [heard_touched hu]

theorem Tracks.enter {s : StreamManager} (h : Tracks es s) (id : String) :
    Tracks (es ++ [.enter id]) (s.enter id) := by
  have hcases : ∀ n id', (s.contexts ++ [id])[n]? = some id' →
      s.contexts[n]? = some id' ∨ n = s.contexts.length ∧ id' = id := by
    intro n id' hn
    rw [List.getElem?_append] at hn
    split at hn
    · exact .inl hn
    next hlt =>
      obtain ⟨hlt', hid⟩ := List.getElem?_eq_some_iff.mp hn
      simp only [List.length_singleton] at hlt'
      refine .inr ⟨by omega, ?_⟩
      simpa using hid.symm
  refine ⟨?_, fun n hn => h.later n ?_, fun n id' hn => ?_, fun n id' hn => ?_, fun n id' hn => ?_⟩
  · rw [enters_concat, ← h.count]
    simp [StreamManager.enter, enters]
  · simp only [StreamManager.enter, List.length_append] at hn
    omega
  · rcases hcases n id' hn with hn | ⟨rfl, rfl⟩
    · exact h.silent hn rfl
    · rw [h.count, since_enter]
      exact h.later _ h.count.le
  · rcases hcases n id' hn with hn | ⟨rfl, rfl⟩
    · have hne := (h.lt hn).ne'
      rw [← h.count] at hne
      rw [since_concat (h.lt hn), untouched_concat, ← h.standing n id' hn]
      by_cases hid : id' = id
      · subst hid
        simp [StreamManager.enter, Event.touches, hne]
      · simp [StreamManager.enter, Event.touches, Function.update_of_ne hid, Ne.symm hid]
    · rw [h.count, since_enter]
      simp [StreamManager.enter, Untouched, h.count]
  · by_cases hid : id' = id
    · subst hid
      simp only [StreamManager.enter, Function.update_self, Option.some.injEq] at hn
      simp [StreamManager.enter, ← hn]
    · replace hn : s.streams id' = some n := (Function.update_of_ne hid _ _).symm.trans hn
      have hold := h.registered n id' hn
      rw [StreamManager.enter, List.getElem?_append_left (List.getElem?_eq_some_iff.mp hold).1]
      exact hold

theorem StreamManager.leave_streams (s : StreamManager) (n : Nat) (id id' : String) :
    (s.leave n id).streams id' = if id' = id then none else s.streams id' := by
  unfold leave
  split
  next h => by_cases hid : id' = id <;> simp [hid]
  next h =>
    by_cases hid : id' = id
    · subst hid
      simpa using h
    · simp [hid]

theorem Tracks.leave {s : StreamManager} (h : Tracks es s) (m : Nat) (id : String) :
    Tracks (es ++ [.leave m id]) (s.leave m id) := by
  refine ⟨?_, h.later, fun n id' hn => h.silent hn rfl, fun n id' hn => ?_, fun n id' hn => ?_⟩
  · rw [enters_concat, ← h.count]
    rfl
  · rw [since_concat (h.lt hn), untouched_concat, ← h.standing n id' hn, s.leave_streams]
    by_cases hid : id' = id
    · simp [Event.touches, hid]
    · simp [Event.touches, hid, Ne.symm hid]
  · rw [s.leave_streams] at hn
    split at hn
    · cases hn
    · exact h.registered n id' hn

theorem Tracks.emit {s : StreamManager} (h : Tracks es s) (id : String) (c : StreamChunk) :
    Tracks (es ++ [.emit id c]) (s.emit id c) := by
  have hcount : enters (es ++ [.emit id c]) = enters es := enters_concat es _
  have hstanding : ∀ n id', s.contexts[n]? = some id' →
      (s.streams id' = some n ↔ Untouched id' (since n (es ++ [.emit id c]))) := by
    intro n id' hn
    rw [since_concat (h.lt hn), untouched_concat, ← h.standing n id' hn]
    simp [Event.touches]
  -- a context that is not registered hears nothing, whatever it was entered for
  have hother : ∀ n id', s.contexts[n]? = some id' → s.streams id ≠ some n →
      s.queues n = Streams.heard id' (since n (es ++ [.emit id c])) := by
    intro n id' hn hne
    by_cases hid : id = id'
    · subst hid
      rw [since_concat (h.lt hn), heard_touched (mt (h.standing n id hn).mpr hne)]
      exact h.heard n id hn
    · exact h.silent hn (if_neg hid)
  unfold StreamManager.emit
  cases hq : s.streams id with
  | none =>
    dsimp only
    exact ⟨hcount ▸ h.count, h.later, fun n id' hn => hother n id' hn (by simp [hq]),
      hstanding, h.registered⟩
  | some q =>
    dsimp only
    have hreg := h.registered q id hq
    refine ⟨hcount ▸ h.count, fun n hn => ?_, fun n id' hn => ?_, hstanding, h.registered⟩
    · have hne : n ≠ q := ((List.getElem?_eq_some_iff.mp hreg).1.trans_le hn).ne'
      exact (Function.update_of_ne hne _ _).trans (h.later n hn)
    · by_cases hne : n = q
      · subst hne
        cases hreg.symm.trans hn
        rw [since_concat (h.lt hn), heard_concat ((h.standing n id hn).mp hq),
          ← h.heard n id hn]
        simp [Event.puts]
      · have hother' := hother n id' hn (by simpa [hq] using Ne.symm hne)
        exact (Function.update_of_ne hne _ _).trans hother'

theorem Step.tracks {s t : StreamManager} (st : Step s e t) (h : Tracks es s) :
    Tracks (es ++ [e]) t := by
  cases st with
  | enter => exact h.enter _
  | leave => exact h.leave _ _
  | emit => exact h.emit _ _

theorem run_tracks {past : List Event} {s t : StreamManager} (hr : Run manager s es t)
    (h : Tracks past s) : Tracks (past ++ es) t := by
  induction hr generalizing past with
  | nil => rwa [List.append_nil]
  | cons st _ ih =>
    rw [List.append_cons]
    exact ih (st.tracks h)

theorem tracks_init : Tracks [] .init where
  count := rfl
  later _ _ := rfl
  heard _ _ h := nomatch h
  standing _ _ h := nomatch h
  registered _ _ h := nomatch h

/-- Whatever is emitted for the envelope of an entered context is put into the context's queue. -/
def Delivering (s : StreamManager) : Prop := ∀ n ∈ s.entered, ∀ id, s.contexts[n]? = some id →
  ∀ c, (s.emit id c).queues n = s.queues n ++ c.items

def Apart (s : StreamManager) : Prop := ∀ n ∈ s.entered, ∀ m ∈ s.entered, ∀ id,
  s.contexts[n]? = some id → s.contexts[m]? = some id → n = m

def Registered (s : StreamManager) : Prop := ∀ n ∈ s.entered, ∀ id, s.contexts[n]? = some id →
  s.streams id = some n

theorem delivering_iff {s : StreamManager} : Delivering s ↔ Registered s := by
  constructor
  · intro h n hn id hid
    have hput := h n hn id hid ⟨"", .null, false, .nan⟩
    unfold StreamManager.emit at hput
    cases hq : s.streams id with
    | none =>
      rw [hq] at hput
      simp [StreamChunk.items] at hput
    | some q =>
      by_cases hne : n = q
      · rw [hne]
      · rw [hq] at hput
        simp [Function.update_of_ne hne, StreamChunk.items] at hput
  · intro h n hn id hid c
    simp [StreamManager.emit, h n hn id hid]

theorem Registered.apart {s : StreamManager} (h : Registered s) : Apart s := by
  intro n hn m hm id hid hid'
  exact Option.some.inj ((h n hn id hid).symm.trans (h m hm id hid'))

structure Entered (s : StreamManager) : Prop where
  lt : ∀ n ∈ s.entered, n < s.contexts.length
  nodup : s.entered.Nodup

theorem Entered.init : Entered .init := ⟨nofun, List.nodup_nil⟩

theorem Step.entered {s t : StreamManager} (st : Step s e t) (h : Entered s) : Entered t := by
  cases st with
  | enter =>
    refine ⟨?_, ?_⟩
    · intro n hn
      simp only [StreamManager.enter, List.length_append, List.length_singleton]
      rcases List.mem_append.mp hn with hn | hn
      · exact (h.lt n hn).trans (Nat.lt_succ_self _)
      · rw [List.mem_singleton.mp hn]
        exact Nat.lt_succ_self _
    · refine List.nodup_append.mpr ⟨h.nodup, List.nodup_singleton _, fun n hn m hm => ?_⟩
      rw [List.mem_singleton.mp hm]
      exact (h.lt n hn).ne
  | leave => exact ⟨fun n hn => h.lt n (List.mem_of_mem_erase hn), h.nodup.erase _⟩
  | emit =>
    unfold StreamManager.emit
    split
    · exact h
    · exact ⟨h.lt, h.nodup⟩

theorem Step.registered {s t : StreamManager} (st : Step s e t) (he : Entered s)
    (h : Registered s) (hs : Apart s) (ht : Apart t) : Registered t := by
  cases st with
  | @enter _ id =>
    intro n hn id' hid'
    have hlast : (s.enter id).contexts[s.contexts.length]? = some id := by
      simp [StreamManager.enter]
    have hmem : s.contexts.length ∈ (s.enter id).entered := by simp [StreamManager.enter]
    by_cases hid : id' = id
    · subst hid
      rw [ht n hn _ hmem id' hid' hlast]
      exact Function.update_self ..
    · have hn' : n ∈ s.entered := by
        rcases List.mem_append.mp hn with hn | hn
        · exact hn
        · rw [List.mem_singleton.mp hn, hlast] at hid'
          exact absurd (Option.some.inj hid').symm hid
      have hold : s.contexts[n]? = some id' := by
        rwa [StreamManager.enter, List.getElem?_append_left (he.lt n hn')] at hid'
      exact (Function.update_of_ne hid _ _).trans (h n hn' id' hold)
  | @leave m _ id hm hid =>
    intro n hn id' hid'
    have hn' := List.mem_of_mem_erase hn
    have hne : n ≠ m := by
      rintro rfl
      exact (List.Nodup.not_mem_erase he.nodup) hn
    rw [s.leave_streams, if_neg]
    · exact h n hn' id' hid'
    · rintro rfl
      exact hne (hs n hn' m hm id' hid' hid)
  | emit =>
    unfold StreamManager.emit
    split <;> exact h

theorem registered_of_apart {s : StreamManager} (hr : Run manager .init es s)
    (h : ∀ before after u, es = before ++ after → Run manager .init before u → Apart u) :
    Entered s ∧ Registered s := by
  have key : ∀ {past : List Event} {t : StreamManager}, Run manager .init past t →
      Run manager t es s → (∀ before after u, past ++ es = before ++ after →
        Run manager .init before u → Apart u) → Entered t → Registered t →
          Entered s ∧ Registered s := by
    clear h hr
    intro past t hp hr h he hreg
    induction hr generalizing past with
    | nil => exact ⟨he, hreg⟩
    | @cons t e u es s st hr ih =>
      have hs := h past (e :: es) t rfl hp
      have ht := h (past ++ [e]) es u (by simp) (hp.snoc st)
      refine ih (hp.snoc st) (fun before after v hv => h before after v ?_) (st.entered he)
        (st.registered he hreg hs ht)
      rw [← hv, List.append_assoc, List.singleton_append]
  exact key .nil hr (by simpa using h) .init nofun

/-- The queue of a context holds what was emitted for its envelope from its entering on, until
another context of the envelope is entered or any is left; so all entered contexts get all that is
emitted for them exactly if no two of one envelope overlap. -/
theorem stream_delivery_iff (es : List Event) (s : StreamManager)
    (hr : Run manager .init es s) :
    (∀ (n : Nat) (id : String), s.contexts[n]? = some id → s.queues n = heard id (since n es)) ∧
    ((∀ before after u, es = before ++ after → Run manager .init before u → Delivering u) ↔
      ∀ before after u, es = before ++ after → Run manager .init before u → Apart u) := by
  refine ⟨(run_tracks hr tracks_init).heard, fun h before after u he hu => ?_,
    fun h before after u he hu => ?_⟩
  · exact (delivering_iff.mp (h before after u he hu)).apart
  · refine delivering_iff.mpr (registered_of_apart hu fun before' after' v he' => ?_).2
    exact h before' (after' ++ after) v (by rw [he, he', List.append_assoc])

def chunk (isFinal : Bool) : StreamChunk := ⟨"c", .null, isFinal, .finite false 0⟩

/-- The second context of an envelope takes the stream from the first. -/
theorem stream_delivery_iff_overlapping :
    let s := (((StreamManager.init.enter "a").emit "a" (chunk false)).enter "a").emit "a"
      (chunk true)
    (∀ (n : Nat) (id : String), s.contexts[n]? = some id → s.queues n = heard id (since n
      [.enter "a", .emit "a" (chunk false), .enter "a", .emit "a" (chunk true)])) ∧
      ¬ ∀ before after u, [Event.enter "a", .emit "a" (chunk false), .enter "a",
        .emit "a" (chunk true)] = before ++ after → Run manager .init before u → Delivering u := by
  intro s
  have hrun : Run manager .init [.enter "a", .emit "a" (chunk false), .enter "a",
      .emit "a" (chunk true)] s := .cons .enter (.cons .emit (.cons .enter (.cons .emit .nil)))
  obtain ⟨hheard, hiff⟩ := stream_delivery_iff _ _ hrun
  refine ⟨hheard, fun h => ?_⟩
  have hapart := hiff.mp h _ [] s rfl hrun
  exact absurd (hapart 0 (by decide) 1 (by decide) "a" rfl rfl) (by decide)

end PrismPipe.Streams
