import PrismPipe.Engine.Hibernation

/-! What wakes of an organism that hibernated. -/

namespace PrismPipe.Wire

open Python

variable {D : Type}

def HistoryEntry.sorted (entry : HistoryEntry D) : HistoryEntry D :=
  { entry with
    inputSnapshot := entry.inputSnapshot.map Json.sortedFields
    outputSnapshot := entry.outputSnapshot.map Json.sortedFields }

def RequestEnvelope.sorted (envelope : RequestEnvelope D) : RequestEnvelope D :=
  { envelope with
    input := envelope.input.sortKeys
    state := Json.sortedFields envelope.state
    history := envelope.history.map HistoryEntry.sorted }

def KnowledgeAtom.sorted (k : KnowledgeAtom) : KnowledgeAtom := { k with value := k.value.sortKeys }

structure Organism.Plain (organism : Organism D) : Prop where
  metadata : organism.metadata = ReplayEngine.defaultMetadata
  plan : organism.plan = ⟨[], 0⟩

structure Organism.Same (woken organism : Organism D) : Prop where
  envelope : woken.envelope.sorted = organism.envelope.sorted
  knowledge : woken.knowledge.map KnowledgeAtom.sorted = organism.knowledge.map KnowledgeAtom.sorted

namespace Organism

end Organism

namespace OrganismPersistence

variable {C : Construct D} {P : Pydantic D}

structure Reads (C : Construct D) (P : Pydantic D) (now : D) (data : Dumped D)
    (organism : Organism D) : Prop where
  id : data.get "id" = some (.json (.str organism.id))
  intent : data.get "intent" = some (.json (.str organism.intent.value))
  input : ∃ j, data.get "input" = some (.json j) ∧ Json.Similar j organism.input
  state : ∃ d, data.get "state" = some (.json (.dict d)) ∧
    Json.sortedFields d = Json.sortedFields organism.state
  history : ∃ h items entries, data.get "history" = some h ∧ h.toItems = some items ∧
    items.mapM (HistoryEntry.ofDump C P now) = some entries ∧
    entries.map HistoryEntry.sorted = organism.history.map HistoryEntry.sorted
  knowledge : ∃ k items atoms, data.get "knowledge" = some k ∧ k.toItems = some items ∧
    items.mapM KnowledgeAtom.ofDump = some atoms ∧
    atoms.map KnowledgeAtom.sorted = organism.knowledge.map KnowledgeAtom.sorted
  next : data.get "_next_capability" = some (.json (optionalJson .str organism.nextCapability))
  parent : data.get "_parent_organism_id" =
    some (.json (optionalJson .str organism.parentOrganismId))

@[simp] theorem get_cons (k key : String) (v : Dumped D) (items : List (PyStr × Dumped D)) :
    (Dumped.dict ((py k, v) :: items)).get key =
      if k = key then some v else (Dumped.dict items).get key := by
  by_cases h : k = key
  · subst h
    simp [Dumped.get]
  · have hp : py k ≠ py key := fun e => h (py_inj.mp e)
    simp [Dumped.get, h, hp]

def Wakes (C : Construct D) (P : Pydantic D) (S : JsonStorage D) (self : OrganismPersistence D)
    (hibernationId : PyStr) (organism : Organism D) (fresh : PyStr) (now : D) : Prop :=
  ∃ woken after, self.wake C P S hibernationId fresh now = some (some woken, after) ∧
    woken.Same organism

section Hibernate

variable {S : JsonStorage D}

structure RoundTrips (C : Construct D) (P : Pydantic D) (S : JsonStorage D) (isoformat : D → PyStr)
    (persistence : OrganismPersistence D) (organism : Organism D) (hibernationId fresh : PyStr)
    (hibernated now : D) : Prop where
  hibernates : (persistence.hibernate isoformat S organism hibernationId hibernated).1.isSome
  here : (persistence.hibernate isoformat S organism hibernationId hibernated).2.Wakes C P S
    hibernationId organism fresh now
  restarted : (persistence.hibernate isoformat S organism hibernationId hibernated).2.restart.Wakes
    C P S hibernationId organism fresh now

end Hibernate

def clock : Unit → PyStr := fun _ => py "2026-01-01 00:00:00+00:00"

def reading : Pydantic Unit where
  str := ReplayEngine.readStr
  int | .int i => some i | _ => none
  float := ReplayEngine.readFloat
  bool | .bool b => some b | _ => none
  datetime | .str _ => some () | _ => none

def spawned : Organism Unit :=
  Organism.init (py "org") () (.of (py "persist")) (.dict [(py "x", .int 1)]) (some (py "a")) none

end OrganismPersistence

end PrismPipe.Wire
