import PrismPipe.Core.Kinds
import PrismPipe.Python.Reread

/-! `core/envelope.py` on the wire: the body `RemoteExecutor.execute_remote` builds of an envelope,
and the envelope built of that body. -/

namespace PrismPipe.Wire

open Python
open Core (Intent)

/-- What `model_dump()` returns: python mode keeps members of enumerations and datetimes, which
`D` are. -/
inductive Dumped (D : Type)
  | json (j : Json)
  | enum (value : PyStr)
  | datetime (d : D)
  | list (items : List (Dumped D))
  | dict (items : List (PyStr × Dumped D))

structure TypeError where
  message : PyStr
  deriving DecidableEq

variable {D : Type}

/-- `json.dumps` without `default`; its text is given by the value it stands for.  A member of a
`str` enumeration is written as its value. -/
def Dumped.encode : Dumped D → Except TypeError Json
  | .json j => .ok j
  | .enum value => .ok (.str value)
  | .datetime _ => .error ⟨py "Object of type datetime is not JSON serializable"⟩
  | .list items => .list <$> encodeItems items
  | .dict items => .dict <$> encodeFields items
where
  encodeItems : List (Dumped D) → Except TypeError (List Json)
    | [] => .ok []
    | x :: xs => do
      let x ← x.encode
      let xs ← encodeItems xs
      return x :: xs
  encodeFields : List (PyStr × Dumped D) → Except TypeError Dict
    | [] => .ok []
    | (k, x) :: xs => do
      let x ← x.encode
      let xs ← encodeFields xs
      return (k, x) :: xs

def optionalJson (wrap : α → Json) : Option α → Json
  | none => .null
  | some a => wrap a

structure HistoryEntry (D : Type) where
  nodeId : PyStr
  nodeType : PyStr
  capability : PyStr
  action : PyStr
  timestamp : D
  durationMs : Option PyFloat
  inputSnapshot : Option Dict
  outputSnapshot : Option Dict

structure Metadata where
  source : Option PyStr
  correlationId : Option PyStr
  traceId : Option PyStr
  userAgent : Option PyStr
  ipAddress : Option PyStr
  ttl : Option Int
  priority : Int
  tags : List (PyStr × PyStr)
  custom : Dict

structure ExecutionPlan where
  capabilities : List PyStr
  currentIndex : Int

structure RequestEnvelope (D : Type) where
  id : PyStr
  intent : Intent
  input : Json
  state : Dict
  history : List (HistoryEntry D)
  metadata : Metadata
  plan : ExecutionPlan
  next : Option PyStr
  error : Option PyStr
  terminated : Bool
  parentId : Option PyStr

def HistoryEntry.modelDump (entry : HistoryEntry D) : Dumped D := .dict [
  (py "node_id", .json (.str entry.nodeId)),
  (py "node_type", .json (.str entry.nodeType)),
  (py "capability", .json (.str entry.capability)),
  (py "action", .json (.str entry.action)),
  (py "timestamp", .datetime entry.timestamp),
  (py "duration_ms", .json (optionalJson .float entry.durationMs)),
  (py "input_snapshot", .json (optionalJson .dict entry.inputSnapshot)),
  (py "output_snapshot", .json (optionalJson .dict entry.outputSnapshot))]

def Metadata.modelDump (metadata : Metadata) : Dumped D := .dict [
  (py "source", .json (optionalJson .str metadata.source)),
  (py "correlation_id", .json (optionalJson .str metadata.correlationId)),
  (py "trace_id", .json (optionalJson .str metadata.traceId)),
  (py "user_agent", .json (optionalJson .str metadata.userAgent)),
  (py "ip_address", .json (optionalJson .str metadata.ipAddress)),
  (py "ttl", .json (optionalJson .int metadata.ttl)),
  (py "priority", .json (.int metadata.priority)),
  (py "tags", .json (.dict (metadata.tags.map fun kv => (kv.1, .str kv.2)))),
  (py "custom", .json (.dict metadata.custom))]

def ExecutionPlan.modelDump (plan : ExecutionPlan) : Dumped D := .dict [
  (py "capabilities", .json (.list (plan.capabilities.map .str))),
  (py "current_index", .json (.int plan.currentIndex))]

namespace RequestEnvelope

def modelDump (envelope : RequestEnvelope D) : Dumped D := .dict [
  (py "id", .json (.str envelope.id)),
  (py "intent", .enum (py envelope.intent.value)),
  (py "input", .json envelope.input),
  (py "state", .json (.dict envelope.state)),
  (py "history", .list (envelope.history.map HistoryEntry.modelDump)),
  (py "metadata", envelope.metadata.modelDump),
  (py "plan", envelope.plan.modelDump),
  (py "next", .json (optionalJson .str envelope.next)),
  (py "error", .json (optionalJson .str envelope.error)),
  (py "terminated", .json (.bool envelope.terminated)),
  (py "parent_id", .json (optionalJson .str envelope.parentId))]

/-- `record`, at `timestamp`. -/
def record (envelope : RequestEnvelope D) (timestamp : D)
    (nodeId nodeType capability action : PyStr) (durationMs : Option PyFloat) :
    RequestEnvelope D :=
  { envelope with history := envelope.history ++
    [⟨nodeId, nodeType, capability, action, timestamp, durationMs, some envelope.state, none⟩] }

end RequestEnvelope

structure Pydantic (D : Type) where
  str : Json → Option PyStr
  int : Json → Option Int
  float : Json → Option PyFloat
  bool : Json → Option Bool
  datetime : Json → Option D

structure Pydantic.Keeps (P : Pydantic D) : Prop where
  str (s : PyStr) : P.str (.str s) = some s
  int (i : Int) : P.int (.int i) = some i
  bool (b : Bool) : P.bool (.bool b) = some b

section Construct

variable (P : Pydantic D)

def optional (read : Json → Option α) : Json → Option (Option α)
  | .null => some none
  | j => some <$> read j

def readList (read : Json → Option α) : Json → Option (List α)
  | .list items => items.mapM read
  | _ => none

def readDict (read : Json → Option α) : Json → Option (List (PyStr × α))
  | .dict items => items.mapM fun kv => (kv.1, ·) <$> read kv.2
  | _ => none

def field (d : Dict) (name : String) (read : Json → Option α) (default : Option α) : Option α :=
  match d.find (py name) with
  | some j => read j
  | none => default

def Intent.read : Json → Option Intent
  | .str s => [.httpRequest, .webhook, .scheduledTask, .stream, .batch, .aiTask, .custom].find?
      fun intent => py intent.value = s
  | _ => none

def HistoryEntry.read (now : D) : Json → Option (HistoryEntry D)
  | .dict d => do
    let nodeId ← field d "node_id" P.str none
    let nodeType ← field d "node_type" P.str none
    let capability ← field d "capability" P.str none
    let action ← field d "action" P.str none
    let timestamp ← field d "timestamp" P.datetime (some now)
    let durationMs ← field d "duration_ms" (optional P.float) (some none)
    let inputSnapshot ← field d "input_snapshot" (optional (readDict some)) (some none)
    let outputSnapshot ← field d "output_snapshot" (optional (readDict some)) (some none)
    return ⟨nodeId, nodeType, capability, action, timestamp, durationMs, inputSnapshot,
      outputSnapshot⟩
  | _ => none

def Metadata.read : Json → Option Metadata
  | .dict d => do
    let source ← field d "source" (optional P.str) (some none)
    let correlationId ← field d "correlation_id" (optional P.str) (some none)
    let traceId ← field d "trace_id" (optional P.str) (some none)
    let userAgent ← field d "user_agent" (optional P.str) (some none)
    let ipAddress ← field d "ip_address" (optional P.str) (some none)
    let ttl ← field d "ttl" (optional P.int) (some none)
    let priority ← field d "priority" P.int (some 0)
    let tags ← field d "tags" (readDict P.str) (some [])
    let custom ← field d "custom" (readDict some) (some [])
    return ⟨source, correlationId, traceId, userAgent, ipAddress, ttl, priority, tags, custom⟩
  | _ => none

def ExecutionPlan.read : Json → Option ExecutionPlan
  | .dict d => do
    let capabilities ← field d "capabilities" (readList P.str) (some [])
    let currentIndex ← field d "current_index" P.int (some 0)
    return ⟨capabilities, currentIndex⟩
  | _ => none

/-- `RequestEnvelope(**d)`; `none` is a `ValidationError`.  `id` and `now` are what the factories of
the defaults return. -/
def RequestEnvelope.read (id : PyStr) (now : D) : Json → Option (RequestEnvelope D)
  | .dict d => do
    let id ← field d "id" P.str (some id)
    let intent ← field d "intent" Intent.read (some .httpRequest)
    let input ← field d "input" some (some (.dict []))
    let state ← field d "state" (readDict some) (some [])
    let history ← field d "history" (readList (HistoryEntry.read P now)) (some [])
    let metadata ← field d "metadata" (Metadata.read P)
      (some ⟨none, none, none, none, none, none, 0, [], []⟩)
    let plan ← field d "plan" (ExecutionPlan.read P) (some ⟨[], 0⟩)
    let next ← field d "next" (optional P.str) (some none)
    let error ← field d "error" (optional P.str) (some none)
    let terminated ← field d "terminated" P.bool (some false)
    let parentId ← field d "parent_id" (optional P.str) (some none)
    return ⟨id, intent, input, state, history, metadata, plan, next, error, terminated, parentId⟩
  | _ => none

end Construct

section Laws

variable {P : Pydantic D}

@[simp] theorem field_cons {k name : String} {j : Json} {d : Dict} {read : Json → Option α}
    {default : Option α} : field ((py k, j) :: d) name read default =
      if k = name then read j else field d name read default := by
  by_cases h : k = name
  · subst h
    simp [field, Dict.find]
  · have hp : py k ≠ py name := fun e => h (py_inj.mp e)
    simp [field, Dict.find, h, hp]

theorem optional_optionalJson {read : Json → Option α} {wrap : α → Json}
    (h : ∀ a, read (wrap a) = some a) (hn : ∀ a, wrap a ≠ .null) (o : Option α) :
    optional read (optionalJson wrap o) = some o := by
  cases o with
  | none => rfl
  | some a =>
    have ha := h a
    have hna := hn a
    simp only [optionalJson]
    unfold optional
    split
    next he => exact absurd he hna
    · rw [ha]
      rfl

theorem mapM_self {f : α → Option α} (h : ∀ a, f a = some a) (l : List α) : l.mapM f = some l := by
  induction l with
  | nil => rfl
  | cons a l ih => simp [h, ih]

@[simp] theorem readDict_some (d : Dict) : readDict some (.dict d) = some d :=
  mapM_self (fun _ => rfl) d

theorem readList_map {read : Json → Option α} {wrap : α → Json}
    (h : ∀ a, read (wrap a) = some a) (l : List α) :
    readList read (.list (l.map wrap)) = some l := by
  simp only [readList, List.mapM_map]
  exact mapM_self h l

theorem readDict_map {read : Json → Option α} {wrap : α → Json}
    (h : ∀ a, read (wrap a) = some a) (l : List (PyStr × α)) :
    readDict read (.dict (l.map fun kv => (kv.1, wrap kv.2))) = some l := by
  simp only [readDict, List.mapM_map]
  refine mapM_self (fun kv => ?_) l
  simp [h]

@[simp] theorem Intent.read_value (intent : Intent) :
    read (.str (py intent.value)) = some intent := by
  cases intent <;> rfl

variable (h : P.Keeps)

include h

theorem optional_str (o : Option PyStr) : optional P.str (optionalJson .str o) = some o :=
  optional_optionalJson h.str nofun o

theorem optional_int (o : Option Int) : optional P.int (optionalJson .int o) = some o :=
  optional_optionalJson h.int nofun o

omit h

end Laws

namespace RequestEnvelope

variable {P : Pydantic D} {envelope : RequestEnvelope D}

def metadataBody (metadata : Metadata) : Json := .dict [
  (py "source", optionalJson .str metadata.source),
  (py "correlation_id", optionalJson .str metadata.correlationId),
  (py "trace_id", optionalJson .str metadata.traceId),
  (py "user_agent", optionalJson .str metadata.userAgent),
  (py "ip_address", optionalJson .str metadata.ipAddress),
  (py "ttl", optionalJson .int metadata.ttl),
  (py "priority", .int metadata.priority),
  (py "tags", .dict (metadata.tags.map fun kv => (kv.1, .str kv.2))),
  (py "custom", .dict metadata.custom)]

def planBody (plan : ExecutionPlan) : Json := .dict [
  (py "capabilities", .list (plan.capabilities.map .str)),
  (py "current_index", .int plan.currentIndex)]

def body (envelope : RequestEnvelope D) : Json := .dict [
  (py "id", .str envelope.id),
  (py "intent", .str (py envelope.intent.value)),
  (py "input", envelope.input),
  (py "state", .dict envelope.state),
  (py "history", .list []),
  (py "metadata", metadataBody envelope.metadata),
  (py "plan", planBody envelope.plan),
  (py "next", optionalJson .str envelope.next),
  (py "error", optionalJson .str envelope.error),
  (py "terminated", .bool envelope.terminated),
  (py "parent_id", optionalJson .str envelope.parentId)]

theorem encode_eq (h : envelope.history = []) : envelope.modelDump.encode = .ok envelope.body := by
  rw [modelDump, h]
  rfl

theorem encode_error (h : envelope.history ≠ []) : envelope.modelDump.encode =
    .error ⟨py "Object of type datetime is not JSON serializable"⟩ := by
  obtain ⟨entry, rest, he⟩ := List.exists_cons_of_ne_nil h
  rw [modelDump, he]
  rfl

theorem read_body (h : P.Keeps) (hn : envelope.history = []) (id : PyStr) (now : D) :
    RequestEnvelope.read P id now envelope.body = some envelope := by
  obtain ⟨id', intent, input, state, history, metadata, plan, next, error, terminated, parentId⟩ :=
    envelope
  obtain rfl : history = [] := hn
  have hhistory : readList (HistoryEntry.read P now) (.list []) = some [] := rfl
  simp only [body, metadataBody, planBody, RequestEnvelope.read, field_cons]
  simp [h.str, h.int, h.bool, optional_str h, optional_int h, Metadata.read, ExecutionPlan.read,
    readList_map h.str, readDict_map h.str, hhistory]

theorem reread_optional (o : Option PyStr) :
    (optionalJson .str o).reread = optionalJson .str (o.map PyStr.reread) := by
  cases o <;> rfl

theorem reread_ttl (o : Option Int) : (optionalJson .int o).reread = optionalJson .int o := by
  cases o <;> rfl

theorem reread_intent (intent : Intent) : (py intent.value).reread = py intent.value := by
  cases intent <;> decide

theorem set_tags (tags : List (PyStr × PyStr)) (k v : PyStr) : ∃ tags' : List (PyStr × PyStr),
    Dict.set (tags.map fun kv => (kv.1, .str kv.2)) k (.str v) =
      tags'.map fun kv => (kv.1, .str kv.2) := by
  rw [Dict.set]
  split
  · refine ⟨tags.map fun kv => if kv.1 = k then (k, v) else kv, ?_⟩
    rw [List.map_map, List.map_map]
    refine List.map_congr_left fun kv _ => ?_
    by_cases hk : kv.1 = k <;> simp [hk]
  · exact ⟨tags ++ [(k, v)], by simp⟩

theorem reread_tags (read tags : List (PyStr × PyStr)) : ∃ tags' : List (PyStr × PyStr),
    Json.reread.rereadFields (read.map fun kv => (kv.1, .str kv.2))
      (tags.map fun kv => (kv.1, .str kv.2)) = tags'.map fun kv => (kv.1, .str kv.2) := by
  induction tags generalizing read with
  | nil => exact ⟨read, rfl⟩
  | cons kv tags ih =>
    obtain ⟨read', hread⟩ := set_tags read kv.1.reread kv.2.reread
    obtain ⟨tags', htags⟩ := ih read'
    refine ⟨tags', ?_⟩
    rw [← htags, ← hread]
    rfl

theorem reread_metadata (metadata : Metadata) :
    ∃ metadata', (metadataBody metadata).reread = metadataBody metadata' := by
  obtain ⟨tags, htags⟩ := reread_tags [] metadata.tags
  rw [metadataBody, Json.reread_named ["source", "correlation_id", "trace_id", "user_agent",
    "ip_address", "ttl", "priority", "tags", "custom"] rfl (by decide) (by decide)]
  refine ⟨⟨metadata.source.map .reread, metadata.correlationId.map .reread,
    metadata.traceId.map .reread, metadata.userAgent.map .reread, metadata.ipAddress.map .reread,
    metadata.ttl, metadata.priority, tags, Json.reread.rereadFields [] metadata.custom⟩, ?_⟩
  simp only [metadataBody, List.map_cons, List.map_nil, reread_optional, reread_ttl, ← htags]
  rfl

theorem reread_plan (plan : ExecutionPlan) : ∃ plan', (planBody plan).reread = planBody plan' := by
  rw [planBody, Json.reread_named ["capabilities", "current_index"] rfl (by decide) (by decide)]
  refine ⟨⟨plan.capabilities.map .reread, plan.currentIndex⟩, ?_⟩
  simp only [planBody, List.map_cons, List.map_nil, Json.reread, Json.rereadItems_eq, List.map_map]
  rfl

theorem reread_body (envelope : RequestEnvelope D) :
    ∃ envelope' : RequestEnvelope D, envelope'.history = [] ∧
      envelope.body.reread = envelope'.body := by
  obtain ⟨metadata, hmetadata⟩ := reread_metadata envelope.metadata
  obtain ⟨plan, hplan⟩ := reread_plan envelope.plan
  rw [body, Json.reread_named ["id", "intent", "input", "state", "history", "metadata", "plan",
    "next", "error", "terminated", "parent_id"] rfl (by decide) (by decide)]
  refine ⟨⟨envelope.id.reread, envelope.intent, envelope.input.reread,
    Json.reread.rereadFields [] envelope.state, [], metadata, plan, envelope.next.map .reread,
    envelope.error.map .reread, envelope.terminated, envelope.parentId.map .reread⟩, rfl, ?_⟩
  simp only [body, List.map_cons, List.map_nil, reread_optional, ← hmetadata, ← hplan, Json.reread,
    reread_intent]
  rfl

def RoundTrips (limits : JsonLimits) (P : Pydantic D) (envelope : RequestEnvelope D) : Prop :=
  ∃ body read, envelope.modelDump.encode = .ok body ∧ limits.dumps body ∧
    limits.reread body = some read ∧
    ∀ id now, RequestEnvelope.read P id now read = some envelope

/-- An envelope goes over the wire exactly while nothing is recorded in it, `json` has room for what
it holds, and no two surrogates of its strings are read as one code point. -/
theorem round_trips_iff [Nonempty D] (limits : JsonLimits) (h : P.Keeps)
    (hu : envelope.body.unique) :
    RoundTrips limits P envelope ↔ envelope.history = [] ∧ limits.dumps envelope.body ∧
      limits.loads envelope.body ∧ envelope.body.All (fun _ => true) PyStr.unpaired := by
  rw [← Json.reread_eq_iff _ hu]
  constructor
  · rintro ⟨body, read, hbody, hdumps, hread, henvelope⟩
    have hn : envelope.history = [] := by
      by_contra hn
      rw [encode_error hn] at hbody
      cases hbody
    rw [encode_eq hn] at hbody
    cases hbody
    rw [JsonLimits.reread] at hread
    split at hread
    next hloads =>
      obtain ⟨envelope', hn', hreread⟩ := reread_body envelope
      obtain ⟨now⟩ := ‹Nonempty D›
      have hsame := henvelope [] now
      rw [← Option.some.inj hread, hreread, read_body h hn'] at hsame
      exact ⟨hn, hdumps, hloads, hreread.trans (congrArg body (Option.some.inj hsame))⟩
    · cases hread
  · rintro ⟨hn, hdumps, hloads, hreread⟩
    refine ⟨_, _, encode_eq hn, hdumps, if_pos hloads, fun id now => ?_⟩
    rw [hreread]
    exact read_body h hn id now

def keeping : Pydantic Nat where
  str | .str s => some s | _ => none
  int | .int i => some i | _ => none
  float | .float f => some f | _ => none
  bool | .bool b => some b | _ => none
  datetime _ := none

theorem keeping_keeps : keeping.Keeps := ⟨fun _ => rfl, fun _ => rfl, fun _ => rfl⟩

def planned : RequestEnvelope Nat where
  id := py "req_1"
  intent := .aiTask
  input := .dict [(py "q", .int 1)]
  state := []
  history := []
  metadata := ⟨some (py "web"), none, none, none, none, some 60, 0, [(py "k", py "v")], []⟩
  plan := ⟨[py "a", py "b"], 1⟩
  next := some (py "b")
  error := none
  terminated := false
  parentId := none

theorem planned_round_trips : RoundTrips .roomy keeping planned :=
  (round_trips_iff .roomy keeping_keeps (by decide)).mpr ⟨rfl, rfl, rfl, by decide⟩

/-- After one local step the envelope cannot be sent. -/
theorem recorded_not_round_trips : ¬ ∀ (P : Pydantic Nat) (envelope : RequestEnvelope Nat),
    P.Keeps → RoundTrips .roomy P envelope := by
  intro h
  let recorded := planned.record 0 (py "n") (py "Node") (py "a") (py "execute") none
  obtain ⟨body, read, hbody, -⟩ := h keeping recorded keeping_keeps
  rw [encode_error (List.append_ne_nil_of_right_ne_nil _ (List.cons_ne_nil _ _))] at hbody
  cases hbody

end RequestEnvelope

end PrismPipe.Wire
