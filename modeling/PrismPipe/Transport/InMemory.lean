import Mathlib.Logic.Function.Basic
import PrismPipe.Lib.Mailbox
import PrismPipe.Lib.Ranking
import PrismPipe.Transport.Bus

/-! `InMemoryDeepiriTransport`, under any interleaving of what is sent, consumed, settled and
cancelled. -/

namespace PrismPipe.InMemory

open Function Python Ranking Transition

variable {ι : Type}

/-- The message objects there are, by number, and what the transport has of them. `ended` has the
generators of `consume` that are over. -/
structure Transport (ι : Type) where
  objects : List DeepiriMessage
  started : Bool
  connected : Bool
  queues : String → Mailbox ι Nat
  ended : ι → Bool
  published : List (String × Nat)
  acknowledged : List PyStr
  retried : List PyStr
  failPublications : Int

def disconnected : String := "Deepiri transport is disconnected"

def injected : String := "Injected publication failure"

/-- `message.topic or DeepiriStreamTopics.DOCUMENT_VECTORIZE.value`. -/
def retryTopic (message : DeepiriMessage) : String :=
  match message.topic with
  | some topic => if topic = "" then "document.vectorize" else topic
  | none => "document.vectorize"

def again (message : DeepiriMessage) : DeepiriMessage := { message with
  deliveryAttempt := message.deliveryAttempt + 1
  topic := some (retryTopic message) }

namespace Transport

def init (failPublications : Int) : Transport ι where
  objects := []
  started := false
  connected := false
  queues _ := .empty
  ended _ := false
  published := []
  acknowledged := []
  retried := []
  failPublications := failPublications

def make (self : Transport ι) (message : DeepiriMessage) : Transport ι :=
  { self with objects := self.objects ++ [message] }

def write (self : Transport ι) (r : Nat) (f : DeepiriMessage → DeepiriMessage) : Transport ι :=
  { self with objects := self.objects.modify r f }

def setQueue (self : Transport ι) (topic : String) (q : Mailbox ι Nat) : Transport ι :=
  { self with queues := update self.queues topic q }

def put (self : Transport ι) (topic : String) (r : Nat) : Transport ι :=
  self.setQueue topic ((self.queues topic).put r)

def start (self : Transport ι) : Transport ι := { self with started := true, connected := true }

def stop (self : Transport ι) : Transport ι := { self with started := false, connected := false }

def send (self : Transport ι) (topic : String) (r : Nat) : Transport ι :=
  (self.write r fun message => { message with topic := some topic }).put topic r

def publish (self : Transport ι) (topic : String) (payload : Dict) (messageId : PyStr)
    (headers : Dict) : Except String Nat × Transport ι :=
  if !self.connected then (.error disconnected, self)
  else if 0 < self.failPublications then
    (.error injected, { self with failPublications := self.failPublications - 1 })
  else (.ok self.objects.length, { self.make ⟨messageId, .dict payload, headers, 1, some topic⟩ with
    published := self.published ++ [(topic, self.objects.length)] })

def acknowledge (self : Transport ι) (message : DeepiriMessage) : Option String × Transport ι :=
  if !self.connected then (some disconnected, self)
  else if message.messageId ∈ self.acknowledged then (none, self)
  else (none, { self with acknowledged := self.acknowledged ++ [message.messageId] })

def retry (self : Transport ι) (message : DeepiriMessage) : Except String Nat × Transport ι :=
  if !self.connected then (.error disconnected, self)
  else (.ok self.objects.length,
    ({ self with retried := self.retried ++ [message.messageId] }.make (again message)).put
      (retryTopic message) self.objects.length)

end Transport

/-- A call, or a turn of a consumer, with what comes of it. Objects are also made and written into
by whoever has them. -/
inductive Event (ι : Type)
  | make (r : Nat) (message : DeepiriMessage)
  | write (r : Nat) (f : DeepiriMessage → DeepiriMessage)
  | start
  | stop
  | send (topic : String) (r : Nat)
  | next (i : ι) (got : Option Nat)
  | exhausted (i : ι)
  | resume (i : ι) (got : Option Nat)
  | cancel (i : ι)
  | publish (topic : String) (payload : Dict) (messageId : PyStr) (headers : Dict)
    (made : Except String Nat)
  | acknowledge (message : DeepiriMessage) (error : Option String)
  | retry (message : DeepiriMessage) (made : Except String Nat)

section Consumers

variable [DecidableEq ι] (topicOf : ι → String)

def queueOf (s : Transport ι) (i : ι) : Mailbox ι Nat := s.queues (topicOf i)

structure Ready (s : Transport ι) (i : ι) : Prop where
  live : s.ended i = false
  idle : ¬ (queueOf topicOf s i).Waits i

inductive Step : Transport ι → Event ι → Transport ι → Prop
  | make : Step s (.make s.objects.length m) (s.make m)
  | write : Step s (.write r f) (s.write r f)
  | start : Step s .start s.start
  | stop : Step s .stop s.stop
  | send : r < s.objects.length → Step s (.send topic r) (s.send topic r)
  | next : Ready topicOf s i → s.started = true →
    Step s (.next i ((queueOf topicOf s i).get i).1)
      (s.setQueue (topicOf i) ((queueOf topicOf s i).get i).2)
  | exhausted : Ready topicOf s i → s.started = false →
    Step s (.exhausted i) { s with ended := update s.ended i true }
  | resume : i ∈ (queueOf topicOf s i).woken →
    Step s (.resume i ((queueOf topicOf s i).resume i).1)
      (s.setQueue (topicOf i) ((queueOf topicOf s i).resume i).2)
  | cancel : (queueOf topicOf s i).Waits i →
    Step s (.cancel i) { s.setQueue (topicOf i) ((queueOf topicOf s i).cancel i) with
      ended := update s.ended i true }
  | publish : Step s (.publish topic payload messageId headers
      (s.publish topic payload messageId headers).1)
    (s.publish topic payload messageId headers).2
  | acknowledge : Step s (.acknowledge m (s.acknowledge m).1) (s.acknowledge m).2
  | retry : Step s (.retry m (s.retry m).1) (s.retry m).2

def transport (failPublications : Int) : System (Transport ι) (Event ι) where
  init s := s = .init failPublications
  step := Step topicOf

def atQueue (topic : String) : Event ι → Option (Mailbox.Event ι Nat)
  | .send t r => if t = topic then some (.put r) else none
  | .next i got => if topicOf i = topic then some (.get i got) else none
  | .resume i got => if topicOf i = topic then some (.resume i got) else none
  | .cancel i => if topicOf i = topic then some (.cancel i) else none
  | .retry m (.ok r) => if retryTopic m = topic then some (.put r) else none
  | _ => none

def sent (topic : String) (es : List (Event ι)) : List Nat :=
  (es.filterMap (atQueue topicOf topic)).filterMap Mailbox.Event.puts

def consumed (topic : String) (es : List (Event ι)) : List Nat :=
  (es.filterMap (atQueue topicOf topic)).filterMap Mailbox.Event.gets

end Consumers

def Event.givenTo [DecidableEq ι] (i : ι) : Event ι → Option Nat
  | .next j got | .resume j got => if j = i then got else none
  | _ => none

def Event.makes : Event ι → Option (Nat × DeepiriMessage)
  | .make r message => some (r, message)
  | .publish topic payload messageId headers (.ok r) =>
    some (r, ⟨messageId, .dict payload, headers, 1, some topic⟩)
  | .retry message (.ok r) => some (r, again message)
  | _ => none

def Event.changes (r : Nat) : Event ι → DeepiriMessage → DeepiriMessage
  | .write q f, message => if q = r then f message else message
  | .send topic q, message => if q = r then { message with topic := some topic } else message
  | _, message => message

def Event.publication : Event ι → Option (String × Nat)
  | .publish topic _ _ _ (.ok r) => some (topic, r)
  | _ => none

def Event.acknowledged : Event ι → Option PyStr
  | .acknowledge m none => some m.messageId
  | _ => none

def Event.retried : Event ι → Option PyStr
  | .retry m (.ok _) => some m.messageId
  | _ => none

section Queues

theorem queues_setQueue (s : Transport ι) (topic other : String) (q : Mailbox ι Nat) :
    (s.setQueue topic q).queues other = if topic = other then q else s.queues other := by
  by_cases h : topic = other
  · subst h
    simp [Transport.setQueue]
  · rw [if_neg h, Transport.setQueue]
    exact update_of_ne (Ne.symm h) ..

theorem queues_publish (s : Transport ι) (topic : String) (payload : Dict) (messageId : PyStr)
    (headers : Dict) : (s.publish topic payload messageId headers).2.queues = s.queues := by
  unfold Transport.publish
  split
  · rfl
  · split <;> rfl

theorem queues_acknowledge (s : Transport ι) (m : DeepiriMessage) :
    (s.acknowledge m).2.queues = s.queues := by
  unfold Transport.acknowledge
  split
  · rfl
  · split <;> rfl

theorem atQueue_get {topicOf : ι → String} {e : Event ι} {topic : String} {i : ι}
    {got : Option Nat}
    (h : atQueue topicOf topic e = some (.get i got)) : e = .next i got ∧ topicOf i = topic := by
  unfold atQueue at h
  split at h
  case h_2 j =>
    split at h
    · next hj =>
      cases h
      exact ⟨rfl, hj⟩
    · cases h
  all_goals simp at h

variable [DecidableEq ι] {topicOf : ι → String} {s s' : Transport ι} {e : Event ι}

theorem queue_set {t : String} {f : Mailbox.Event ι Nat}
    {q : Mailbox ι Nat} (hstep : Mailbox.Step (s.queues t) f q) (topic : String) :
    match if t = topic then some f else none with
    | some f => Mailbox.Step (s.queues topic) f ((s.setQueue t q).queues topic)
    | none => (s.setQueue t q).queues topic = s.queues topic := by
  by_cases h : t = topic
  · subst h
    rw [if_pos rfl, queues_setQueue, if_pos rfl]
    exact hstep
  · rw [if_neg h]
    exact (queues_setQueue ..).trans (if_neg h)

theorem Step.queue (st : Step topicOf s e s') (topic : String) :
    match atQueue topicOf topic e with
    | some f => Mailbox.Step (s.queues topic) f (s'.queues topic)
    | none => s'.queues topic = s.queues topic := by
  cases st with
  | make => rfl
  | write => rfl
  | start => rfl
  | stop => rfl
  | send => exact queue_set .put topic
  | next hr => exact queue_set (.get hr.idle) topic
  | exhausted => rfl
  | resume hw => exact queue_set (.resume hw) topic
  | cancel hw => exact queue_set (.cancel hw) topic
  | publish => exact congrFun (queues_publish ..) topic
  | acknowledge => exact congrFun (queues_acknowledge ..) topic
  | @retry _ m =>
    cases hc : s.connected with
    | false =>
      have h : s.retry m = (.error disconnected, s) := by simp [Transport.retry, hc]
      rw [h]
      rfl
    | true =>
      have h : s.retry m = (.ok s.objects.length,
          ({ s with retried := s.retried ++ [m.messageId] }.make (again m)).put
            (retryTopic m) s.objects.length) := by simp [Transport.retry, hc]
      rw [h]
      exact queue_set .put topic

theorem run_queue {es : List (Event ι)} {failPublications : Int}
    (h : Run (transport topicOf failPublications) s es s') (topic : String) :
    Run Mailbox.system (s.queues topic) (es.filterMap (atQueue topicOf topic))
      (s'.queues topic) := by
  induction h with
  | nil => exact .nil
  | @cons _ e _ _ _ st _ ih =>
    have hq := Step.queue st topic
    rw [List.filterMap_cons]
    cases ha : atQueue topicOf topic e with
    | none =>
      rw [ha] at hq
      exact hq ▸ ih
    | some f =>
      rw [ha] at hq
      exact .cons hq ih

structure Attended (topicOf : ι → String) (s : Transport ι) : Prop where
  sound : ∀ topic, (s.queues topic).Sound
  own : ∀ topic i, (s.queues topic).Waits i → topicOf i = topic

theorem Attended.step (h : Attended topicOf s) (st : Step topicOf s e s') :
    Attended topicOf s' := by
  constructor
  · intro topic
    have hq := st.queue topic
    split at hq
    · exact (h.sound topic).step hq
    · exact hq ▸ h.sound topic
  · intro topic i hi
    have hq := st.queue topic
    split at hq
    · next f hf =>
      rcases hq.waits hi with hi | ⟨got, rfl⟩
      · exact h.own topic i hi
      · exact (atQueue_get hf).2
    · exact h.own topic i (hq ▸ hi)

theorem attended {es : List (Event ι)} {failPublications : Int}
    (h : Run (transport topicOf failPublications) (.init failPublications) es s) :
    Attended topicOf s := by
  refine h.keeps Attended.step ⟨fun _ => .empty, fun topic i hi => ?_⟩
  rcases hi with hi | hi <;> cases hi

end Queues

section Stopped

variable [DecidableEq ι] {topicOf : ι → String} {s s' : Transport ι} {e : Event ι} {i : ι}

theorem Step.stopped (st : Step topicOf s e s') (h : s.started = false) (he : e ≠ .start) :
    s'.started = false := by
  cases st with
  | start => exact absurd rfl he
  | stop => rfl
  | next _ hs => exact h
  | publish =>
    unfold Transport.publish
    split
    · exact h
    · split <;> exact h
  | acknowledge =>
    unfold Transport.acknowledge
    split
    · exact h
    · split <;> exact h
  | retry =>
    unfold Transport.retry
    split <;> exact h
  | _ => exact h

theorem Step.given (st : Step topicOf s e s') (hs : Attended topicOf s) (h : s.started = false)
    (hg : e.givenTo i = some m) :
    (queueOf topicOf s i).Waits i ∧ ¬ (queueOf topicOf s' i).Waits i := by
  cases st with
  | next _ hstarted =>
    rw [h] at hstarted
    cases hstarted
  | @resume _ j hw =>
    unfold Event.givenTo at hg
    dsimp only at hg
    split at hg
    · next hj =>
      subst hj
      refine ⟨.inr hw, ?_⟩
      rw [queueOf, queues_setQueue, if_pos rfl]
      exact (hs.sound _).not_waits_resume hw hg
    · cases hg
  | _ => cases hg

theorem Step.waits (st : Step topicOf s e s') (h : s.started = false)
    (hi : (queueOf topicOf s' i).Waits i) : (queueOf topicOf s i).Waits i := by
  have hq := st.queue (topicOf i)
  split at hq
  · next f hf =>
    rcases hq.waits hi with hi | ⟨got, rfl⟩
    · exact hi
    · obtain ⟨rfl, -⟩ := atQueue_get hf
      cases st with
      | next _ hstarted =>
        rw [h] at hstarted
        cases hstarted
  · rw [queueOf, hq] at hi
    exact hi

theorem given_stopped {es : List (Event ι)} {failPublications : Int}
    (hr : Run (transport topicOf failPublications) s es s') (hs : Attended topicOf s)
    (h : s.started = false) (he : Event.start ∉ es) :
    (¬ (queueOf topicOf s i).Waits i → es.filterMap (Event.givenTo i) = []) ∧
      (es.filterMap (Event.givenTo i)).length ≤ 1 := by
  induction hr with
  | nil => simp
  | @cons s e t es u st _ ih =>
    have hne : e ≠ .start := fun h => he (h ▸ List.mem_cons_self)
    obtain ⟨hnone, hone⟩ := ih (hs.step st) (Step.stopped st h hne)
      fun hmem => he (List.mem_cons_of_mem _ hmem)
    rw [List.filterMap_cons]
    cases hg : e.givenTo i with
    | none => exact ⟨fun hi => hnone fun hi' => hi (Step.waits st h hi'), hone⟩
    | some m =>
      obtain ⟨hwaits, hleft⟩ := Step.given st hs h hg
      exact ⟨fun hi => absurd hwaits hi, by simp [hnone hleft]⟩

end Stopped

section Logs

variable {s s' : Transport ι} {e : Event ι}

structure Noted (es : List (Event ι)) (s : Transport ι) : Prop where
  published : s.published = es.filterMap Event.publication
  acknowledged : s.acknowledged = firsts (es.filterMap Event.acknowledged)
  retried : s.retried = es.filterMap Event.retried

structure Notes (s : Transport ι) (e : Event ι) (s' : Transport ι) : Prop where
  published : s'.published = s.published ++ e.publication.toList
  acknowledged : s'.acknowledged = match e.acknowledged with
    | some id => if id ∈ s.acknowledged then s.acknowledged else s.acknowledged ++ [id]
    | none => s.acknowledged
  retried : s'.retried = s.retried ++ e.retried.toList

theorem Notes.silent (hp : s'.published = s.published) (ha : s'.acknowledged = s.acknowledged)
    (hr : s'.retried = s.retried) (hpe : e.publication = none) (hae : e.acknowledged = none)
    (hre : e.retried = none) : Notes s e s' :=
  ⟨by rw [hp, hpe]; exact (List.append_nil _).symm, by rw [ha, hae],
    by rw [hr, hre]; exact (List.append_nil _).symm⟩

theorem filterMap_concat {β : Type} (f : Event ι → Option β) (es : List (Event ι)) (e : Event ι) :
    (es ++ [e]).filterMap f = es.filterMap f ++ (f e).toList := by
  cases h : f e <;> simp [h]

variable [DecidableEq ι] {topicOf : ι → String}

theorem Step.notes (st : Step topicOf s e s') : Notes s e s' := by
  cases st with
  | publish =>
    unfold Transport.publish
    split
    · exact .silent rfl rfl rfl rfl rfl rfl
    · split
      · exact .silent rfl rfl rfl rfl rfl rfl
      · exact ⟨rfl, rfl, (List.append_nil _).symm⟩
  | acknowledge =>
    unfold Transport.acknowledge
    split
    · exact .silent rfl rfl rfl rfl rfl rfl
    · split
      · next h => exact ⟨(List.append_nil _).symm, (if_pos h).symm, (List.append_nil _).symm⟩
      · next h => exact ⟨(List.append_nil _).symm, (if_neg h).symm, (List.append_nil _).symm⟩
  | retry =>
    unfold Transport.retry
    split
    · exact .silent rfl rfl rfl rfl rfl rfl
    · exact ⟨(List.append_nil _).symm, rfl, rfl⟩
  | _ => exact .silent rfl rfl rfl rfl rfl rfl

theorem Noted.step {es : List (Event ι)} (h : Noted es s) (st : Step topicOf s e s') :
    Noted (es ++ [e]) s' := by
  obtain ⟨hp, ha, hr⟩ := st.notes
  refine ⟨by rw [hp, h.published, filterMap_concat], ?_,
    by rw [hr, h.retried, filterMap_concat]⟩
  rw [ha, h.acknowledged, filterMap_concat]
  cases e.acknowledged with
  | none => exact (congrArg firsts (List.append_nil _)).symm
  | some id =>
    by_cases hid : id ∈ firsts (es.filterMap Event.acknowledged)
    · exact (if_pos hid).trans ((firsts_concat _ id).trans (if_pos hid)).symm
    · exact (if_neg hid).trans ((firsts_concat _ id).trans (if_neg hid)).symm

theorem Noted.run {es past : List (Event ι)} {failPublications : Int}
    (hr : Run (transport topicOf failPublications) s es s') (h : Noted past s) :
    Noted (past ++ es) s' := by
  induction hr generalizing past with
  | nil => simpa using h
  | cons st _ ih =>
    rw [List.append_cons]
    exact ih (h.step st)

end Logs

section Objects

variable {s s' : Transport ι} {e : Event ι} {r : Nat} {m : DeepiriMessage}

@[simp] theorem objects_put (s : Transport ι) (topic : String) (r : Nat) :
    (s.put topic r).objects = s.objects := rfl

@[simp] theorem objects_setQueue (s : Transport ι) (topic : String) (q : Mailbox ι Nat) :
    (s.setQueue topic q).objects = s.objects := rfl

theorem get_write (f : DeepiriMessage → DeepiriMessage) (q : Nat) (h : s.objects[r]? = some m) :
    (s.write q f).objects[r]? = some (if q = r then f m else m) := by
  rw [Transport.write, List.getElem?_modify, h]
  rfl

theorem get_make (message : DeepiriMessage) (h : s.objects[r]? = some m) :
    (s.make message).objects[r]? = some m := by
  rw [Transport.make, List.getElem?_append_left (List.getElem?_eq_some_iff.mp h).1, h]

theorem get_made (s : Transport ι) (message : DeepiriMessage) :
    (s.make message).objects[s.objects.length]? = some message := by
  simp [Transport.make]

variable [DecidableEq ι] {topicOf : ι → String}

theorem Step.get (st : Step topicOf s e s') (h : s.objects[r]? = some m) :
    s'.objects[r]? = some (e.changes r m) := by
  cases st with
  | make => exact get_make _ h
  | write => exact get_write _ _ h
  | send => exact get_write _ _ h
  | publish =>
    unfold Transport.publish
    split
    · exact h
    · split
      · exact h
      · exact get_make _ h
  | acknowledge =>
    unfold Transport.acknowledge
    split
    · exact h
    · split <;> exact h
  | retry =>
    unfold Transport.retry
    split
    · exact h
    · exact get_make _ h
  | _ => exact h

theorem Step.made (st : Step topicOf s e s') (h : e.makes = some (r, m)) :
    s'.objects[r]? = some m := by
  cases st with
  | make =>
    cases h
    exact get_made _ _
  | publish =>
    unfold Transport.publish at h ⊢
    split at h
    · cases h
    · split at h
      · cases h
      · cases h
        rw [if_neg ‹_›, if_neg ‹_›]
        exact get_made _ _
  | retry =>
    unfold Transport.retry at h ⊢
    split at h
    · cases h
    · cases h
      rw [if_neg ‹_›]
      exact get_made _ _
  | _ => cases h

theorem run_get {es : List (Event ι)} {failPublications : Int}
    (hr : Run (transport topicOf failPublications) s es s') (h : s.objects[r]? = some m) :
    s'.objects[r]? = some (es.foldl (fun m e => e.changes r m) m) := by
  induction hr generalizing m with
  | nil => exact h
  | cons st _ ih => exact ih (Step.get st h)

end Objects

/-- In any run: what the consumers of a topic were given and what is queued are the objects that were
sent and that retries made, in that order; a message that is queued while a consumer waits is the
next one that a woken consumer takes; a consumer is given at most one message after a stop; what is
published, acknowledged and retried is noted, an acknowledgement once; and an object holds what it
was made with, but for what has been written into it since, by `send` its topic. -/
theorem in_memory_delivers [DecidableEq ι] (topicOf : ι → String) (failPublications : Int)
    {es : List (Event ι)} {s : Transport ι}
    (h : Run (transport topicOf failPublications) (.init failPublications) es s) :
    (∀ topic, consumed topicOf topic es ++ (s.queues topic).items = sent topicOf topic es) ∧
    (∀ topic i r rest, (s.queues topic).items = r :: rest → (s.queues topic).Waits i →
      ∃ j s', topicOf j = topic ∧ Step topicOf s (.resume j (some r)) s' ∧
        (s'.queues topic).items = rest) ∧
    (∀ before after, es = before ++ .stop :: after → .start ∉ after →
      ∀ i, (after.filterMap (Event.givenTo i)).length ≤ 1) ∧
    Noted es s ∧
    (∀ before e after r m, es = before ++ e :: after → e.makes = some (r, m) →
      s.objects[r]? = some (after.foldl (fun m e => e.changes r m) m)) := by
  refine ⟨fun topic => ?_, fun topic i r rest hitems hi => ?_, fun before after he hstart i => ?_,
    ?_, fun before e after r m he hmakes => ?_⟩
  · exact Mailbox.conserved (run_queue h topic)
  · have hs := attended h
    obtain ⟨j, hj, hgot, hleft⟩ := (hs.sound topic).attends hi hitems
    have htopic := hs.own topic j (.inr hj)
    subst htopic
    have st : Step topicOf s (.resume j (some r))
        (s.setQueue (topicOf j) ((queueOf topicOf s j).resume j).2) := by
      rw [← hgot]
      exact .resume hj
    refine ⟨j, _, rfl, st, ?_⟩
    rw [queues_setQueue, if_pos rfl]
    exact hleft
  · subst he
    obtain ⟨u, v, hbefore, st, hafter⟩ := h.split
    cases st
    exact (given_stopped hafter ((attended hbefore).step .stop) rfl hstart).2
  · have hnone : Noted ([] : List (Event ι)) (.init failPublications) := ⟨rfl, rfl, rfl⟩
    exact hnone.run h
  · subst he
    obtain ⟨u, v, -, st, hafter⟩ := h.split
    exact run_get hafter (Step.made st hmakes)

def sample : DeepiriMessage := ⟨py "m", .null, [], 1, none⟩

/-- One object is sent to two topics: the consumer of the first reads the second in it. -/
theorem in_memory_delivers_sample :
    ∃ s : Transport Nat, Run (transport (fun _ => "t") 0) (.init 0)
        [.start, .make 0 sample, .send "t" 0, .send "u" 0, .next 0 (some 0)] s ∧
      (s.queues "t").items = [] ∧ (s.queues "u").items = [0] ∧
      s.objects[0]? = some { sample with topic := some "u" } := by
  have hrun : Run (transport (fun _ : Nat => "t") 0) (.init 0)
      [.start, .make 0 sample, .send "t" 0, .send "u" 0, .next 0 (some 0)] _ :=
    .cons .start (.cons .make (.cons (.send (by decide)) (.cons (.send (by decide))
      (.single (.next ⟨rfl, by rintro (h | h) <;> cases h⟩ rfl)))))
  obtain ⟨hqueues, -, -, -, hobjects⟩ := in_memory_delivers (fun _ => "t") 0 hrun
  exact ⟨_, hrun, List.append_cancel_left (hqueues "t"), hqueues "u",
    hobjects [.start] (.make 0 sample) _ 0 sample rfl rfl⟩

end PrismPipe.InMemory
