import PrismPipe.Engine.Snapshots
import PrismPipe.Python.Reread
import PrismPipe.Python.Similar

/-! `OrganismPersistence`: organisms that hibernate, in the process or in a storage that keeps
JSON. -/

namespace PrismPipe.Wire

open Python
open Core (Intent OrganismState)

/-- A member of `Intent`, or a string that is the value of none. -/
inductive OrganismIntent
  | known (intent : Intent)
  | custom (value : PyStr) (h : Intent.read (.str value) = none)

namespace OrganismIntent

def of (value : PyStr) : OrganismIntent :=
  match h : Intent.read (.str value) with
  | some intent => .known intent
  | none => .custom value h

def value : OrganismIntent → PyStr
  | known intent => py intent.value
  | custom value _ => value

def intent : OrganismIntent → Intent
  | known intent => intent
  | custom _ _ => .custom

end OrganismIntent

/-- `timestamp` is not read. -/
structure KnowledgeAtom where
  key : PyStr
  value : Json
  confidence : PyFloat
  sourceCapability : Option PyStr
  tags : List PyStr

/-- An organism: `{}` is its only input that is falsy, and it knows one thing under a key. -/
structure Organism (D : Type) where
  id : PyStr
  intent : OrganismIntent
  input : Json
  state : Dict
  history : List (HistoryEntry D)
  metadata : Metadata
  status : OrganismState
  plan : ExecutionPlan
  nextCapability : Option PyStr
  parentOrganismId : Option PyStr
  knowledge : List KnowledgeAtom
  createdAt : D
  input_or : input.or (.dict []) = input
  nodup : (knowledge.map (·.key)).Nodup

variable {D : Type}

theorem or_or (a b : Json) : (a.or b).or b = a.or b := by
  by_cases h : a.truthy <;> simp [Json.or, h]

/-- `a < b`. -/
def lessThan : PyFloat → PyFloat → Bool
  | .nan, _ => false
  | _, .nan => false
  | .inf neg, .inf neg' => neg && !neg'
  | .inf neg, .finite _ _ => neg
  | .finite _ _, .inf neg => !neg
  | .finite neg m, .finite neg' m' =>
    (if neg then -(m : ℚ) else m) < if neg' then -(m' : ℚ) else m'

/-- `max(a, b)`. -/
def maximum (a b : PyFloat) : PyFloat := if lessThan a b then b else a

def KnowledgeAtom.update (existing : KnowledgeAtom) (value : Json) (confidence : PyFloat) :
    KnowledgeAtom :=
  { existing with value, confidence := maximum existing.confidence confidence }

theorem nodup_update {knowledge : List KnowledgeAtom} (h : (knowledge.map (·.key)).Nodup)
    (key : PyStr) (value : Json) (confidence : PyFloat) :
    ((knowledge.map fun existing => if existing.key = key then existing.update value confidence
      else existing).map (·.key)).Nodup := by
  rw [List.map_map]
  convert h using 2
  funext existing
  rw [Function.comp_apply]
  split <;> rfl

theorem nodup_snoc {knowledge : List KnowledgeAtom} {atom : KnowledgeAtom}
    (h : (knowledge.map (·.key)).Nodup)
    (hatom : atom.key ∉ knowledge.map (·.key)) :
    ((knowledge ++ [atom]).map (·.key)).Nodup := by
  rw [List.map_append, List.map_singleton, ← List.concat_eq_append]
  exact h.concat hatom

namespace Organism

/-- `Organism(intent, input_data, initial_capability, parent_organism_id)`, at `now` and with a
`fresh` id. -/
def init (fresh : PyStr) (now : D) (intent : OrganismIntent) (inputData : Json)
    (initialCapability parentOrganismId : Option PyStr) : Organism D where
  id := fresh
  intent
  input := inputData.or (.dict [])
  state := []
  history := []
  metadata := ReplayEngine.defaultMetadata
  status := .spawned
  plan := ⟨[], 0⟩
  nextCapability := initialCapability
  parentOrganismId
  knowledge := []
  createdAt := now
  input_or := or_or _ _
  nodup := List.nodup_nil

def envelope (self : Organism D) : RequestEnvelope D where
  id := self.id
  intent := self.intent.intent
  input := self.input
  state := self.state
  history := self.history
  metadata := self.metadata
  plan := self.plan
  next := self.nextCapability
  error := none
  terminated := false
  parentId := self.parentOrganismId

def ingestKnowledge (self : Organism D) (key : PyStr) (value : Json) (confidence : PyFloat)
    (capability : Option PyStr) (tags : Option (List PyStr)) : Organism D :=
  if h : key ∈ self.knowledge.map (·.key) then
    { self with
      knowledge := self.knowledge.map fun existing =>
        if existing.key = key then existing.update value confidence else existing
      nodup := nodup_update self.nodup key value confidence }
  else
    { self with
      knowledge := self.knowledge ++ [⟨key, value, confidence, capability, tags.getD []⟩]
      nodup := nodup_snoc self.nodup h }

end Organism

namespace Dumped

/-- `d.get(key)`, where `none` is no item. -/
def get (d : Dumped D) (key : String) : Option (Dumped D) :=
  match d with
  | .dict items => (items.find? fun kv => kv.1 = py key).map (·.2)
  | .json (.dict items) => (Dict.find items (py key)).map .json
  | _ => none

def toItems : Dumped D → Option (List (Dumped D))
  | .list items => some items
  | .json (.list items) => some (items.map .json)
  | _ => none

def toJson : Dumped D → Option Json
  | .json j => some j
  | _ => none

def toStr : Dumped D → Option PyStr
  | .json (.str s) => some s
  | _ => none

def toOptional : Dumped D → Option (Option PyStr)
  | .json j => optional ReplayEngine.readStr j
  | _ => none

def toFloat : Dumped D → Option PyFloat
  | .json (.float f) => some f
  | _ => none

def toDict : Dumped D → Option Dict
  | .json (.dict d) => some d
  | _ => none

def toStrs : Dumped D → Option (List PyStr)
  | .json j => readList ReplayEngine.readStr j
  | _ => none

/-- `d[key]`. -/
def required (d : Dumped D) (key : String) (read : Dumped D → Option α) : Option α :=
  (d.get key).bind read

/-- `d.get(key, default)`. -/
def given (d : Dumped D) (key : String) (read : Dumped D → Option α) (default : α) : Option α :=
  match d.get key with
  | some value => read value
  | none => some default

/-- `json.dumps` with `default=str`; its text is given by the value it stands for. -/
def dumps (str : D → PyStr) : Dumped D → Json
  | .json j => j
  | .enum value => .str value
  | .datetime d => .str (str d)
  | .list items => .list (dumpsItems items)
  | .dict items => .dict (dumpsFields items)
where
  dumpsItems : List (Dumped D) → List Json
    | [] => []
    | x :: xs => x.dumps str :: dumpsItems xs
  dumpsFields : List (PyStr × Dumped D) → Dict
    | [] => []
    | (k, x) :: xs => (k, x.dumps str) :: dumpsFields xs

end Dumped

def KnowledgeAtom.dump (k : KnowledgeAtom) : Dumped D := .dict [
  (py "key", .json (.str k.key)),
  (py "value", .json k.value),
  (py "confidence", .json (.float k.confidence)),
  (py "source_capability", .json (optionalJson .str k.sourceCapability)),
  (py "tags", .json (.list (k.tags.map .str)))]

def KnowledgeAtom.ofDump (k : Dumped D) : Option KnowledgeAtom := do
  let key ← k.required "key" Dumped.toStr
  let value ← k.required "value" Dumped.toJson
  let confidence ← k.given "confidence" Dumped.toFloat (.finite false 1)
  let sourceCapability ← k.given "source_capability" Dumped.toOptional none
  let tags ← k.given "tags" Dumped.toStrs []
  return ⟨key, value, confidence, sourceCapability, tags⟩

/-- `HistoryEntry(**h)`. -/
def HistoryEntry.ofDump (C : Construct D) (P : Pydantic D) (now : D) :
    Dumped D → Option (HistoryEntry D)
  | .json j => HistoryEntry.read P now j
  | d => (C.entry d).toOption

/-- A storage that keeps JSON: `str` is of its `default=str`, and `sorts` its `sort_keys`. -/
structure JsonStorage (D : Type) where
  str : D → PyStr
  limits : JsonLimits
  sorts : Bool

namespace JsonStorage

def arrange (S : JsonStorage D) (j : Json) : Json := if S.sorts then j.sortKeys else j

/-- What `json.loads` makes of the text; `none` where it raises. -/
def reload (S : JsonStorage D) (j : Json) : Option Json := S.limits.reread (S.arrange j)

structure Takes (S : JsonStorage D) (j : Json) : Prop where
  dumps : S.limits.dumps j
  loads : S.limits.loads (S.arrange j)

end JsonStorage

def fileStorage (limits : JsonLimits) (str : D → PyStr) : JsonStorage D := ⟨str, limits, true⟩

structure OrganismPersistence (D : Type) where
  persisted : AList fun _ : PyStr => Dumped D
  stored : Option (AList fun _ : PyStr => Json)

namespace OrganismPersistence

def serialize (isoformat : D → PyStr) (organism : Organism D) (now : D) : Dumped D := .dict [
  (py "id", .json (.str organism.id)),
  (py "intent", .json (.str organism.intent.value)),
  (py "input", .json organism.input),
  (py "state", .json (.dict organism.state)),
  (py "history", .list (organism.history.map HistoryEntry.modelDump)),
  (py "knowledge", .list (organism.knowledge.map KnowledgeAtom.dump)),
  (py "_next_capability", .json (optionalJson .str organism.nextCapability)),
  (py "_parent_organism_id", .json (optionalJson .str organism.parentOrganismId)),
  (py "created_at", .json (.str (isoformat organism.createdAt))),
  (py "hibernated_at", .json (.str (isoformat now)))]

/-- `none` where it raises. -/
def deserialize (C : Construct D) (P : Pydantic D) (fresh : PyStr) (now : D) (data : Dumped D) :
    Option (Organism D) := do
  let intent ← data.required "intent" Dumped.toStr
  let input ← data.required "input" Dumped.toJson
  let parent ← data.given "_parent_organism_id" Dumped.toOptional none
  let id ← data.required "id" Dumped.toStr
  let state ← data.required "state" Dumped.toDict
  let next ← data.given "_next_capability" Dumped.toOptional none
  let history ← data.given "history"
    (fun h => h.toItems.bind (·.mapM (HistoryEntry.ofDump C P now))) []
  let knowledge ← data.given "knowledge" (fun k => k.toItems.bind (·.mapM KnowledgeAtom.ofDump)) []
  let organism := { Organism.init fresh now (.of intent) input none parent with
    id, state, nextCapability := next, history }
  return knowledge.foldl (fun organism k =>
    organism.ingestKnowledge k.key k.value k.confidence k.sourceCapability (some k.tags)) organism

/-- `none` where the storage raises; what is persisted in the process stays. -/
def hibernate (isoformat : D → PyStr) (S : JsonStorage D) (self : OrganismPersistence D)
    (organism : Organism D) (hibernationId : PyStr) (now : D) :
    Option (Organism D) × OrganismPersistence D :=
  let data := serialize isoformat organism now
  let text := data.dumps S.str
  let persisted := self.persisted.insert hibernationId data
  match self.stored with
  | none => (some { organism with status := .suspended }, ⟨persisted, none⟩)
  | some stored =>
    if S.limits.dumps text then
      (some { organism with status := .suspended },
        ⟨persisted, some (stored.insert hibernationId text)⟩)
    else (none, ⟨persisted, some stored⟩)

/-- `none` where it raises. -/
def wake (C : Construct D) (P : Pydantic D) (S : JsonStorage D) (self : OrganismPersistence D)
    (hibernationId fresh : PyStr) (now : D) :
    Option (Option (Organism D) × OrganismPersistence D) :=
  match self.persisted.lookup hibernationId, self.stored.bind (·.lookup hibernationId) with
  | some data, _ => do
    let organism ← deserialize C P fresh now data
    return (some { organism with status := .spawned }, self)
  | none, some text => do
    let data ← S.reload text
    let organism ← deserialize C P fresh now (.json data)
    return (some { organism with status := .spawned },
      { self with persisted := self.persisted.insert hibernationId (.json data) })
  | none, none => some (none, self)

def restart (self : OrganismPersistence D) : OrganismPersistence D := ⟨∅, self.stored⟩

end OrganismPersistence

end PrismPipe.Wire
