import PrismPipe.Lib.Transition
import PrismPipe.Transport.Bus

/-! `redis_streams_transport.py`: one consumer group over any number of streams, read through any
number of transports.  A generator, and a call of `acknowledge` or `retry`, moves one await at a
time. -/

namespace PrismPipe.RedisStreams

open Python

abbrev EntryId := Nat

/-- The fields `publish` writes, the JSON texts given by what `json.loads` reads back. -/
structure Fields where
  messageId : PyStr
  payload : Json
  headers : Dict
  deliveryAttempt : Int

abbrev Entry := EntryId × Fields

/-- A stream and its group.  `>` reads `fresh`; `pending` is what was read and not yet `XACK`ed. -/
structure Stream where
  group : Bool := false
  delivered : List Entry := []
  fresh : List Entry := []
  pending : List EntryId := []

def Stream.ids (s : Stream) : List EntryId := (s.delivered ++ s.fresh).map (·.1)

def Stream.xgroupCreate (s : Stream) : Stream := { s with group := true }

def Stream.xadd (s : Stream) (entry : Entry) : Stream := { s with fresh := s.fresh ++ [entry] }

/-- `XREADGROUP ... COUNT 1 ... >`. -/
def Stream.xreadgroup (s : Stream) : Option Entry × Stream :=
  match s.fresh with
  | [] => (none, s)
  | entry :: rest => (some entry, { s with
      delivered := s.delivered ++ [entry]
      fresh := rest
      pending := s.pending ++ [entry.1] })

def Stream.xack (s : Stream) (id : EntryId) : Stream :=
  { s with pending := s.pending.filter (· ≠ id) }

structure Delivery where
  topic : String
  id : EntryId
  fields : Fields

def Delivery.entry (d : Delivery) : String × EntryId := (d.topic, d.id)

def Delivery.message (d : Delivery) : DeepiriMessage where
  messageId := d.fields.messageId
  payload := d.fields.payload
  headers := d.fields.headers
  deliveryAttempt := d.fields.deliveryAttempt
  topic := some d.topic

/-- Where `consume` stands: before its first `__anext__`, at an await, at its `yield`, or ended.
`answered` holds what the server answered and the generator has not seen. -/
inductive Phase
  | created
  | ensuring
  | reading
  | answered (entry : Entry)
  | yielded (entry : Entry)
  | closed

structure Generator where
  topic : String
  phase : Phase

/-- A call of `retry` before and after its `XADD` ran, and an `XACK` sent for a delivery. -/
inductive Call
  | retrying (d : Delivery)
  | republished (d : Delivery)
  | acking (d : Delivery) (entry : String × EntryId)

structure Transport where
  live : Bool := true
  started : Bool := false
  connected : Bool := false
  knownGroups : List String := []
  entryIds : PyStr → Option (String × EntryId) := fun _ => none
  generators : List Generator := []
  handed : List Delivery := []
  calls : List Call := []

/-- `while self._connected`. -/
def Transport.loop (p : Transport) : Phase := if p.connected then .reading else .closed

def Transport.setPhase (p : Transport) (g : Nat) (topic : String) (phase : Phase) : Transport :=
  { p with generators := p.generators.set g ⟨topic, phase⟩ }

/-- `consume` up to its first await. -/
def Transport.enter (p : Transport) (topic : String) : Phase :=
  if !p.started then .closed
  else if topic ∈ p.knownGroups then p.loop
  else .ensuring

/-- `self._entry_ids[message_id] = (topic, entry_id)`. -/
def Transport.record (p : Transport) (d : Delivery) : Transport :=
  { p with entryIds := Function.update p.entryIds d.message.messageId (some d.entry) }

/-- What `acknowledge` sends. -/
def Transport.acknowledge (p : Transport) (message : DeepiriMessage) : Option (String × EntryId) :=
  p.entryIds message.messageId

/-- What `retry` sends once its publication is through. -/
def Transport.retry (p : Transport) (message : DeepiriMessage) : Option (String × EntryId) :=
  match message.topic, p.entryIds message.messageId with
  | some topic, some (_, id) => some (topic, id)
  | _, _ => none

/-- The fields `retry` publishes. -/
def retryFields (message : DeepiriMessage) : Fields where
  messageId := message.messageId
  payload := message.payload
  headers := message.headers
  deliveryAttempt := message.deliveryAttempt + 1

def sending (d : Delivery) : Option (String × EntryId) → List Call
  | some entry => [.acking d entry]
  | none => []

structure World where
  streams : String → Stream := fun _ => {}
  transports : List Transport := []

def World.setStream (s : World) (topic : String) (stream : Stream) : World :=
  { s with streams := Function.update s.streams topic stream }

inductive Event
  | silent
  | yielded (τ : Nat) (d : Delivery)
  | resumed (τ : Nat) (d : Delivery)
  | refused (τ : Nat) (d : Delivery)
  | acknowledged (τ : Nat) (d : Delivery) (target : Option (String × EntryId))
  | retried (τ : Nat) (d : Delivery) (target : Option (String × EntryId))
  | xacked (τ : Nat) (d : Delivery) (entry : String × EntryId)

def World.Live (s : World) (τ : Nat) (p : Transport) : Prop :=
  s.transports[τ]? = some p ∧ p.live

/-- What one live process, transport `p`, does to itself and to a stream. -/
inductive Transport.Step (streams : String → Stream) (τ : Nat) (p : Transport) :
    Event → (String → Stream) → Transport → Prop
  | crash : Step streams τ p .silent streams { p with live := false }
  | start : Step streams τ p .silent streams { p with started := true, connected := true }
  | stop : Step streams τ p .silent streams { p with connected := false }
  | consume (topic : String) :
      Step streams τ p .silent streams { p with generators := p.generators ++ [⟨topic, .created⟩] }
  | enter : p.generators[g]? = some ⟨topic, .created⟩ →
      Step streams τ p .silent streams (p.setPhase g topic (p.enter topic))
  | group : p.generators[g]? = some ⟨topic, .ensuring⟩ →
      Step streams τ p .silent (Function.update streams topic (streams topic).xgroupCreate)
        ({ p with knownGroups := topic :: p.knownGroups }.setPhase g topic p.loop)
  | read : p.generators[g]? = some ⟨topic, .reading⟩ →
      (streams topic).xreadgroup = (some entry, stream) →
      Step streams τ p .silent (Function.update streams topic stream)
        (p.setPhase g topic (.answered entry))
  | idle : p.generators[g]? = some ⟨topic, .reading⟩ →
      (streams topic).xreadgroup = (none, stream) →
      Step streams τ p .silent streams (p.setPhase g topic p.loop)
  | yield : p.generators[g]? = some ⟨topic, .answered (n, fields)⟩ →
      Step streams τ p (.yielded τ ⟨topic, n, fields⟩) streams
        ({ p with handed := ⟨topic, n, fields⟩ :: p.handed }.setPhase g topic
          (.yielded (n, fields)))
  | resume : p.generators[g]? = some ⟨topic, .yielded (n, fields)⟩ →
      Step streams τ p (.resumed τ ⟨topic, n, fields⟩) streams
        ((p.record ⟨topic, n, fields⟩).setPhase g topic p.loop)
  -- an exception, a cancellation, or the generator dropped
  | close : p.generators[g]? = some ⟨topic, phase⟩ →
      Step streams τ p .silent streams (p.setPhase g topic .closed)
  | refuse : d ∈ p.handed → ¬ p.connected → Step streams τ p (.refused τ d) streams p
  | acknowledge : d ∈ p.handed → p.connected →
      Step streams τ p (.acknowledged τ d (p.acknowledge d.message)) streams
        { p with calls := sending d (p.acknowledge d.message) ++ p.calls }
  | retry : d ∈ p.handed → p.connected →
      Step streams τ p .silent streams { p with calls := .retrying d :: p.calls }
  | republish : p.calls = before ++ .retrying d :: after → n ∉ (streams d.topic).ids →
      Step streams τ p .silent
        (Function.update streams d.topic ((streams d.topic).xadd (n, retryFields d.message)))
        { p with calls := before ++ .republished d :: after }
  | retried : p.calls = before ++ .republished d :: after →
      Step streams τ p (.retried τ d (p.retry d.message)) streams
        { p with calls := before ++ sending d (p.retry d.message) ++ after }
  | xack : p.calls = before ++ .acking d (topic, n) :: after →
      Step streams τ p (.xacked τ d (topic, n))
        (Function.update streams topic ((streams topic).xack n))
        { p with calls := before ++ after }
  | failed : p.calls = before ++ call :: after →
      Step streams τ p .silent streams { p with calls := before ++ after }

inductive World.Step : World → Event → World → Prop
  | launch : Step s .silent { s with transports := s.transports ++ [{}] }
  | publish (topic : String) (fields : Fields) : n ∉ (s.streams topic).ids →
      Step s .silent (s.setStream topic ((s.streams topic).xadd (n, fields)))
  | act : s.Live τ p → p.Step s.streams τ e written q →
      Step s e ⟨written, s.transports.set τ q⟩

def system : Transition.System World Event where
  init s := s = {}
  step := World.Step

end PrismPipe.RedisStreams
