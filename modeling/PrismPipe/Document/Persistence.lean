import PrismPipe.Document.BackendLaws
import PrismPipe.Document.Poison

/-! An output that validation passed, and when the store can write it: `json.dumps` knows fewer
numbers, mappings and strings than `_validate_backend_result` lets through. -/

namespace PrismPipe.Document

open Python

variable {T : Type}

namespace Key

/-- The text `json.dumps` writes a key as; `none` where it raises. -/
def jsonText : Key → Option PyStr
  | .str s => some s
  | .bool b => some (py (if b then "true" else "false"))
  | .int i => some (py (toString i))
  | .float f text => if f.isFinite then some text else Option.none
  | .none => some (py "null")
  | .other _ => Option.none

def isStr : Key → Bool
  | .str _ => true
  | _ => false

def isNumber : Key → Bool
  | .bool _ | .int _ | .float _ _ => true
  | _ => false

/-- `sorted` can compare them: `sort_keys=True`. -/
def comparable (keys : List Key) : Bool :=
  keys.all isStr || keys.all isNumber || keys.length ≤ 1

end Key

namespace PyValue

/-- The value `json.dumps` writes; `none` where it raises `TypeError`, or `ValueError` on a key. -/
def written : PyValue → Option Json
  | .none => some .null
  | .bool b => some (.bool b)
  | .int i => some (.int i)
  | .float f => some (.float f)
  | .real _ => Option.none
  | .str s => some (.str s)
  | .list items => (writtenItems items).map .list
  | .tuple items => (writtenItems items).map .list
  | .mapping isDict items =>
    if isDict && Key.comparable (items.map (·.1)) then (writtenFields items).map .dict
    else Option.none
  | .other => Option.none
where
  writtenItems : List PyValue → Option (List Json)
    | [] => some []
    | x :: xs => do
      let j ← x.written
      let js ← writtenItems xs
      return j :: js
  writtenFields : List (Key × PyValue) → Option Dict
    | [] => some []
    | (k, x) :: xs => do
      let text ← k.jsonText
      let j ← x.written
      let js ← writtenFields xs
      return (text, j) :: js

/-- `canonical_json` and UTF-8 both take it. -/
def plain : PyValue → Bool
  | .none => true
  | .bool _ => true
  | .int _ => true
  | .float f => f.isFinite
  | .real _ => false
  | .str s => s.encodable
  | .list items => plainItems items
  | .tuple items => plainItems items
  | .mapping isDict items =>
    isDict && Key.comparable (items.map (·.1)) && plainFields items
  | .other => false
where
  plainItems : List PyValue → Bool
    | [] => true
    | x :: xs => x.plain && plainItems xs
  plainFields : List (Key × PyValue) → Bool
    | [] => true
    | (k, x) :: xs => k.jsonText.any PyStr.encodable && x.plain && plainFields xs

theorem writable_list_cons (j : Json) (js : List Json) :
    Json.writable (.list (j :: js)) = (j.writable && Json.writable (.list js)) := by
  simp only [Json.writable, Json.finite, Json.encodable, Json.all_list, List.all_cons]
  grind

mutual

theorem plain_iff : ∀ v : PyValue, v.plain ↔ ∃ j, v.written = some j ∧ j.writable
  | .none | .bool _ | .int _ => ⟨fun _ => ⟨_, rfl, rfl⟩, fun _ => rfl⟩
  | .float f => by simp [plain, written, Json.writable, Json.encodable]
  | .real _ | .other => by simp [plain, written]
  | .str s => by simp [plain, written]
  | .list items | .tuple items => by
    simp only [plain, written, Option.map_eq_some_iff, plainItems_iff items]
    exact ⟨fun ⟨js, hj, hw⟩ => ⟨_, ⟨js, hj, rfl⟩, hw⟩, fun ⟨_, ⟨js, hj, rfl⟩, hw⟩ => ⟨js, hj, hw⟩⟩
  | .mapping isDict items => by
    unfold plain written
    split
    next h =>
      rw [h, Bool.true_and, plainFields_iff items]
      simp only [Option.map_eq_some_iff]
      exact ⟨fun ⟨js, hj, hw⟩ => ⟨_, ⟨js, hj, rfl⟩, hw⟩,
        fun ⟨_, ⟨js, hj, rfl⟩, hw⟩ => ⟨js, hj, hw⟩⟩
    next h => simp [h]

theorem plainItems_iff : ∀ items : List PyValue, plain.plainItems items ↔
    ∃ js, written.writtenItems items = some js ∧ Json.writable (.list js)
  | [] => ⟨fun _ => ⟨_, rfl, rfl⟩, fun _ => rfl⟩
  | x :: xs => by
    simp only [plain.plainItems, written.writtenItems, Bool.and_eq_true, plain_iff x,
      plainItems_iff xs, bind, Option.bind_eq_some_iff, pure, Option.some.injEq]
    constructor
    · rintro ⟨⟨j, hj, hw⟩, js, hjs, hws⟩
      exact ⟨_, ⟨j, hj, js, hjs, rfl⟩, by rw [writable_list_cons, hw, hws]; rfl⟩
    · rintro ⟨_, ⟨j, hj, js, hjs, rfl⟩, hw⟩
      rw [writable_list_cons, Bool.and_eq_true] at hw
      exact ⟨⟨j, hj, hw.1⟩, js, hjs, hw.2⟩

theorem plainFields_iff : ∀ items : List (Key × PyValue), plain.plainFields items ↔
    ∃ js, written.writtenFields items = some js ∧ Json.writable (.dict js)
  | [] => ⟨fun _ => ⟨_, rfl, rfl⟩, fun _ => rfl⟩
  | (k, x) :: xs => by
    simp only [plain.plainFields, written.writtenFields, Bool.and_eq_true, plain_iff x,
      plainFields_iff xs, bind, Option.bind_eq_some_iff, pure, Option.some.injEq,
      Option.any_eq_true]
    constructor
    · rintro ⟨⟨⟨text, ht, he⟩, j, hj, hw⟩, js, hjs, hws⟩
      exact ⟨_, ⟨text, ht, j, hj, js, hjs, rfl⟩, by
        rw [Json.writable_dict_cons, he, hw, hws]
        rfl⟩
    · rintro ⟨_, ⟨text, ht, j, hj, js, hjs, rfl⟩, hw⟩
      rw [Json.writable_dict_cons, Bool.and_eq_true, Bool.and_eq_true] at hw
      exact ⟨⟨⟨text, ht, hw.1.1⟩, j, hj, hw.1.2⟩, js, hjs, hw.2⟩

end

theorem comparable_ofFields (items : Dict) :
    Key.comparable ((ofJson.ofFields items).map (·.1)) := by
  have h : ((ofJson.ofFields items).map (·.1)).all Key.isStr := by
    induction items with
    | nil => rfl
    | cons kv items ih => simpa [ofJson.ofFields, Key.isStr] using ih
  rw [Key.comparable, h]
  rfl

mutual

theorem plain_ofJson : ∀ j : Json, (ofJson j).plain = j.writable
  | .null | .bool _ | .int _ => rfl
  | .float f => by simp [ofJson, plain, Json.writable, Json.encodable]
  | .str s => by simp [ofJson, plain]
  | .list items => by
    simp only [ofJson, plain]
    exact plain_ofItems items
  | .dict items => by
    simp only [ofJson, plain, comparable_ofFields, Bool.true_and]
    exact plain_ofFields items

theorem plain_ofItems : ∀ items : List Json,
    plain.plainItems (ofJson.ofItems items) = Json.writable (.list items)
  | [] => rfl
  | x :: xs => by
    simp only [ofJson.ofItems, plain.plainItems]
    rw [plain_ofJson x, plain_ofItems xs, writable_list_cons]

theorem plain_ofFields : ∀ items : List (PyStr × Json),
    plain.plainFields (ofJson.ofFields items) = Json.writable (.dict items)
  | [] => rfl
  | (k, x) :: xs => by
    simp only [ofJson.ofFields, plain.plainFields, Key.jsonText, Option.any_some]
    rw [plain_ofJson x, plain_ofFields xs, Json.writable_dict_cons]

end

theorem plainItems_eq (items : List PyValue) : plain.plainItems items = items.all plain := by
  induction items with
  | nil => rfl
  | cons x xs ih => rw [plain.plainItems, ih, List.all_cons]

end PyValue

/-- The call of `finish` that `process` makes with the output of a claimed row. -/
def outputArgs (row : Row T) (claimToken : String) (output : Dict) : FinishArgs where
  idempotencyKey := row.idempotencyKey
  claimToken := claimToken
  status := .succeeded
  result := some (.dict output)
  error := none
  outboundTopic := "document.artifacts"
  outboundMessageId := "document-result-" ++ row.operationId
  outboundPayload := .dict (resultMessage (.fromRow row) true (some output) none)

/-- What of an output may be nested, or have too many digits, and the containers it stands in. -/
def DocumentVectorizeOutput.values (self : DocumentVectorizeOutput) : List (Nat × PyValue) :=
  self.chunks.map (fun c => (3, .mapping true c.metadata)) ++
    self.metadata.map fun kv => (2, kv.2)

/-- `process` from where its node has returned an output, which need not be JSON: the output is
copied, and serialised where `finish` has found the row. -/
def settleOutput (host : Host) (record : DocumentOperationRecord T)
    (idempotencyKey operationId claimToken : String) (output : DocumentVectorizeOutput) :
    Task T (DocumentProcessingResult T) :=
  tryCatch
    (do
      let output ← deepcopy (output.values.all host.copies) output
      match output.toPayload.written with
      | some (.dict result) =>
        if output.values.all host.dumps then
          succeed record idempotencyKey operationId claimToken result
        else throw .recursionError
      | _ => throw (.other (py "TypeError")))
    (vectorizeFailed record idempotencyKey claimToken)

/-- The values of a request that its output repeats. -/
def repeated (request : DocumentVectorizeInput) : List Json :=
  [.str request.documentId, .str request.routeId, request.manifestVersion.toPayload,
    asJson .str request.correlationId, asJson .str request.embeddingModel,
    asJson .str request.documentType, asJson .str request.schemaId,
    asJson .str request.schemaVersion, .dict request.provenance, request.options.toPayload] ++
    request.artifactRequests.map fun a => .str a.artifactType

/-- What of the output of a request and its result may be nested, or have too many digits. -/
def outputValues (request : DocumentVectorizeInput) (result : VectorizeBackendResult) :
    List (Nat × PyValue) :=
  result.chunks.map (fun c => (3, .mapping true c.metadata)) ++ [
    (2, .ofJson (.str request.routeId)),
    (2, .ofJson request.manifestVersion.toPayload),
    (2, .ofJson (asJson .str request.correlationId)),
    (2, .ofJson (asJson .str request.embeddingModel)),
    (2, .ofJson (asJson .str request.documentType)),
    (2, .ofJson (asJson .str request.schemaId)),
    (2, .ofJson (asJson .str request.schemaVersion)),
    (2, .ofJson (.dict request.provenance)),
    (2, .mapping true result.metadata),
    (2, .ofJson request.options.toPayload)]

/-- A component that is an `int` or a `float`. -/
def PyValue.builtin : PyValue → Bool
  | .int _ => true
  | .float _ => true
  | _ => false

structure Written (request : DocumentVectorizeInput) (result : VectorizeBackendResult)
    (provider model : PyStr) : Prop where
  request : ∀ j ∈ repeated request, j.writable
  provider : provider.encodable
  model : model.encodable
  texts : ∀ c ∈ result.chunks, c.chunkId.encodable ∧ c.text.encodable
  vectors : ∀ c ∈ result.chunks, ∀ components, c.vector = .list components →
    ∀ v ∈ components, v.builtin
  chunkMetadata : ∀ c ∈ result.chunks, (PyValue.mapping true c.metadata).plain
  metadata : (PyValue.mapping true result.metadata).plain

/-- What the store can write of a request and its result, once it is copied. -/
structure Persistable (host : Host) (request : DocumentVectorizeInput)
    (result : VectorizeBackendResult) (provider model : PyStr) : Prop where
  plain : Written request result provider model
  copies : ∀ v ∈ outputValues request result, host.copies v
  dumps : ∀ v ∈ outputValues request result, host.dumps v

theorem plain_of_converts {v : PyValue} (h : v.converts) : v.plain = v.builtin := by
  cases v with
  | float f =>
    simp only [PyValue.converts, PyValue.finiteReal, PyValue.oversized, Bool.not_false,
      Bool.and_true] at h
    simp [PyValue.plain, PyValue.builtin, h]
  | int | real => rfl
  | none | bool | str | list | tuple | mapping | other => cases h

section Plain

attribute [local simp] PyValue.plain PyValue.plain.plainFields PyValue.plain_ofJson Key.comparable
  Key.isStr Key.jsonText

theorem VectorizedChunk.plain_toPayload (c : VectorizedChunk) : c.toPayload.plain ↔
    (c.chunkId.encodable ∧ c.text.encodable) ∧ c.vector.plain ∧
      (PyValue.mapping true c.metadata).plain := by
  simp [toPayload, and_assoc]

theorem writable_artifact (a : ArtifactRequest) (dimensions : Int) (hp : provider.encodable)
    (hm : model.encodable) :
    (DocumentVectorizeOutput.artifact dimensions provider model a).toPayload.writable ↔
      a.artifactType.encodable := by
  unfold DocumentVectorizeOutput.artifact
  split
  next h => simp [ArtifactResult.toPayload, hp, hm, h]
  next h => simp [ArtifactResult.toPayload]

theorem plain_output
    (hb : DocumentVectorizeOutput.fromBackend host request (some result) provider model = .ok output) :
    output.toPayload.plain ↔ (∀ j ∈ repeated request, j.writable) ∧ provider.encodable ∧
      model.encodable ∧ (∀ c ∈ result.chunks, c.toPayload.plain) ∧
        (PyValue.mapping true result.metadata).plain := by
  obtain ⟨dimensions, -, h⟩ := bind_eq_ok hb
  cases h
  have hart (hp : provider.encodable) (hm : model.encodable) :
      (∀ a ∈ request.artifactRequests,
        (DocumentVectorizeOutput.artifact dimensions provider model a).toPayload.writable) ↔
          ∀ a ∈ request.artifactRequests, a.artifactType.encodable :=
    forall₂_congr fun a _ => writable_artifact a dimensions hp hm
  simp only [DocumentVectorizeOutput.toPayload, Option.elim_some]
  generalize PyValue.mapping true result.metadata = metadata
  simp only [repeated, PyValue.plainItems_eq, PyValue.plain, PyValue.plain.plainFields,
    PyValue.plain_ofJson, Key.comparable, Key.isStr, Key.jsonText, List.map_cons, List.map_nil,
    List.all_cons, List.all_nil, Bool.and_true, Bool.true_or, Bool.true_and, Option.any_some,
    encodable_py, Bool.and_eq_true, List.all_map, List.all_eq_true, Function.comp_apply,
    List.forall_mem_append, List.forall_mem_cons, List.forall_mem_map, List.not_mem_nil,
    IsEmpty.forall_iff, implies_true, and_true, Json.writable_str]
  constructor
  · rintro ⟨hd, hc, hp, hm, ⟨h1, h2, h3, h4, h5, h6, h7, h8, hb, h9⟩, ha⟩
    exact ⟨⟨⟨hd, h1, h2, h3, h4, h5, h6, h7, h8, h9⟩, (hart hp hm).mp ha⟩, hp, hm, hc, hb⟩
  · rintro ⟨⟨⟨hd, h1, h2, h3, h4, h5, h6, h7, h8, h9⟩, ha⟩, hp, hm, hc, hb⟩
    exact ⟨hd, hc, hp, hm, ⟨h1, h2, h3, h4, h5, h6, h7, h8, hb, h9⟩, (hart hp hm).mpr ha⟩

end Plain

theorem plain_iff_values (h : DocumentVectorizeInput.fromPayload payload = .ok request)
    (hb : DocumentVectorizeOutput.fromBackend host request (some result) provider model = .ok output) :
    output.toPayload.plain ↔ Written request result provider model := by
  obtain ⟨d, hv, -⟩ := bind_eq_ok hb
  obtain ⟨_, _, -, hr⟩ := DocumentVectorizeInput.fromPayload_iff.mp h
  obtain ⟨hconf, hfit⟩ := (validateBackendResult_iff hr).mp hv
  have hvector (c) (hc : c ∈ result.chunks) : c.vector.plain ↔
      ∀ components, c.vector = .list components → ∀ v ∈ components, v.builtin := by
    obtain ⟨components, hcv, -, -, hfin⟩ := hconf.vectors c hc
    have hconv (v) (hm : v ∈ components) : v.plain = v.builtin :=
      plain_of_converts (Bool.and_eq_true_iff.mpr
        ⟨hfin v hm, by simpa using hfit.vectors c hc components hcv v hm⟩)
    rw [hcv, PyValue.plain, PyValue.plainItems_eq, List.all_eq_true]
    constructor
    · rintro hp _ ⟨⟩ v hm
      rw [← hconv v hm]
      exact hp v hm
    · intro hp v hm
      rw [hconv v hm]
      exact hp components rfl v hm
  rw [plain_output hb]
  constructor
  · rintro ⟨h1, hp, hm, hc, hmeta⟩
    have hc' (c) (hmem : c ∈ result.chunks) := c.plain_toPayload.mp (hc c hmem)
    exact ⟨h1, hp, hm, fun c hmem => (hc' c hmem).1,
      fun c hmem => (hvector c hmem).mp (hc' c hmem).2.1, fun c hmem => (hc' c hmem).2.2, hmeta⟩
  · intro hp
    exact ⟨hp.request, hp.provider, hp.model, fun c hmem => c.plain_toPayload.mpr
      ⟨hp.texts c hmem, (hvector c hmem).mpr (hp.vectors c hmem), hp.chunkMetadata c hmem⟩,
      hp.metadata⟩

section Finish

open Program

variable {T : Type} {row : Row T}

theorem encodeOptional_writable (hc : dumpOptionalJson (some j) = .ok c)
    (ht : encodeOptional c = .ok text) : j.writable := by
  dsimp only [dumpOptionalJson] at hc
  cases hj : canonicalJson j with
  | error e =>
    rw [hj] at hc
    cases hc
  | ok written =>
    rw [hj] at hc
    cases hc
    obtain ⟨hf, hv⟩ := canonicalJson_eq_ok hj
    dsimp only [encodeOptional] at ht
    cases he : written.encode with
    | error e =>
      rw [he] at ht
      cases ht
    | ok utf8 =>
      have henc := encode_eq_ok he
      rw [hv, Json.encodable_sortKeys] at henc
      exact Json.writable_iff.mpr ⟨hf, henc⟩

theorem outputArgs_writable {d : Dict} (h : (outputArgs row claimToken d).texts = .ok columns) :
    Json.writable (.dict d) := by
  obtain ⟨_, hr, h⟩ := bind_eq_ok h
  obtain ⟨_, -, h⟩ := bind_eq_ok h
  obtain ⟨_, -, h⟩ := bind_eq_ok h
  obtain ⟨_, he, -⟩ := bind_eq_ok h
  exact encodeOptional_writable hr he

theorem outputArgs_texts {d : Dict} (h : Json.writable (.dict d)) :
    ∃ result error payload,
      (outputArgs row claimToken d).texts = .ok (result, error, payload) := by
  refine FinishArgs.texts_ok ?_ nofun (resultMessage_writable row true ?_ nofun)
  · rintro _ ⟨⟩
    exact h
  · rintro _ ⟨⟩
    exact h

theorem written_toPayload (output : DocumentVectorizeOutput)
    (h : output.toPayload.written = some j) : ∃ d, j = .dict d := by
  unfold DocumentVectorizeOutput.toPayload PyValue.written at h
  split at h
  · obtain ⟨d, -, rfl⟩ := Option.map_eq_some_iff.mp h
    exact ⟨d, rfl⟩
  · cases h

theorem values_of_fromBackend
    (hb : DocumentVectorizeOutput.fromBackend host request (some result) provider model = .ok output) :
    output.values = outputValues request result := by
  obtain ⟨_, -, h⟩ := bind_eq_ok hb
  cases h
  rfl

/-- An output that is copied and written is settled as the output of `vectorizeClaimed` is. -/
theorem settleOutput_written {record : DocumentOperationRecord T} {key operationId token : String}
    {output : DocumentVectorizeOutput} {d : Dict} (hc : output.values.all host.copies)
    (hd : output.values.all host.dumps) (hw : output.toPayload.written = some (.dict d)) :
    settleOutput host record key operationId token output =
      tryCatch (succeed record key operationId token d) (vectorizeFailed record key token) := by
  unfold settleOutput deepcopy
  rw [if_pos hc, LawfulMonad.pure_bind, hw]
  dsimp only
  rw [if_pos hd]

variable [LinearOrder T] [Inhabited T] {s : Workers T}

theorem succeed_iff (hs : s.table.select row.idempotencyKey = some row)
    (ha : row.Admits claimToken .processing) (d : Dict) :
    Returns (healthy T)
        (tryCatch (succeed (.fromRow row) row.idempotencyKey row.operationId claimToken d)
          (vectorizeFailed (.fromRow row) row.idempotencyKey claimToken))
        (fun result _ => result.record.status = .succeeded) s ↔ Json.writable (.dict d) := by
  constructor
  · intro h
    have h := ends_tryCatch.mp h
    obtain ⟨res, u, hrun⟩ : ∃ res u,
        (finishSync (outputArgs row claimToken d) default).run s.table = (res, u) := ⟨_, _, rfl⟩
    have h := (ends_bind.mp h).2 _ _ ⟨.finish default hrun, fun _ => raise_ne_other⟩
    obtain ⟨e, -, rfl, -⟩ | ⟨_, _, _, ht, -, -⟩ := (finishSync_outcome hrun).of_admits hs ha
    · exact h.elim
    · exact outputArgs_writable ht
  · intro hj
    refine ends_tryCatch.mpr ?_
    have ht : ∃ result error payload,
        (outputArgs row claimToken d).texts = .ok (result, error, payload) := outputArgs_texts hj
    refine (returns_finish hs ha ht).bind ?_
    rintro record t ⟨q, -, rfl, -, hstatus⟩
    exact ends_pure.mpr hstatus

theorem settleOutput_iff (hs : s.table.select row.idempotencyKey = some row)
    (ha : row.Admits claimToken .processing) (output : DocumentVectorizeOutput) :
    Returns (healthy T) (settleOutput host (.fromRow row) row.idempotencyKey row.operationId
        claimToken output) (fun result _ => result.record.status = .succeeded) s ↔
      output.toPayload.plain ∧ output.values.all host.copies ∧ output.values.all host.dumps := by
  rw [PyValue.plain_iff]
  constructor
  · intro h
    -- No `except` clause of `process` takes what is raised here.
    have hthrow (e : PyStr) : ¬ Ends (healthy T) (vectorizeFailed (.fromRow row)
        row.idempotencyKey claimToken (.other e)) (fun result _ => result.record.status =
          .succeeded) (fun _ _ => False) s := id
    have hraises := ends_tryCatch.mp h
    unfold deepcopy at hraises
    by_cases hc : output.values.all host.copies
    case neg =>
      rw [if_neg hc] at hraises
      exact absurd hraises (hthrow (py "RecursionError"))
    rw [if_pos hc, LawfulMonad.pure_bind] at hraises
    cases hw : output.toPayload.written with
    | none =>
      rw [hw] at hraises
      exact absurd hraises (hthrow (py "TypeError"))
    | some j =>
      obtain ⟨d, rfl⟩ := written_toPayload output hw
      by_cases hd : output.values.all host.dumps
      case neg =>
        rw [hw] at hraises
        dsimp only at hraises
        rw [if_neg hd] at hraises
        exact absurd hraises (hthrow (py "RecursionError"))
      rw [settleOutput_written hc hd hw] at h
      exact ⟨⟨_, rfl, (succeed_iff hs ha d).mp h⟩, hc, hd⟩
  · rintro ⟨⟨j, hw, hj⟩, hc, hd⟩
    obtain ⟨d, rfl⟩ := written_toPayload output hw
    rw [settleOutput_written hc hd hw]
    exact (succeed_iff hs ha d).mpr hj

/-- Where validation has passed a result, `process` succeeds with its output exactly when every
value of the request and the result that the output holds is one JSON and UTF-8 have, and one there
is room for. -/
theorem persisted_iff (h : host.fromPayload payload = .ok request)
    (hb : DocumentVectorizeOutput.fromBackend host request (some result) provider model = .ok output)
    (hs : s.table.select row.idempotencyKey = some row) (ha : row.Admits claimToken .processing) :
    Returns (healthy T) (settleOutput host (.fromRow row) row.idempotencyKey row.operationId
        claimToken output) (fun result _ => result.record.status = .succeeded) s ↔
      Persistable host request result provider model := by
  have hr := (host.fromPayload_covers payload).erases.eq_ok h
  rw [settleOutput_iff hs ha output, plain_iff_values hr hb, values_of_fromBackend hb,
    List.all_eq_true, List.all_eq_true]
  exact ⟨fun ⟨hp, hc, hd⟩ => ⟨hp, hc, hd⟩, fun hp => ⟨hp.plain, hp.copies, hp.dumps⟩⟩

end Finish

def heldRow : Row Nat where
  operationId := "docop_o"
  idempotencyKey := "k"
  requestFingerprint := "f"
  documentId := ⟨py "d", by decide⟩
  manifestVersion := ⟨py "1", by decide⟩
  capability := "document.vectorize"
  normalizedPayload := Json.written .null Json.writable_null
  status := .processing
  attemptCount := 1
  createdAt := 0
  updatedAt := 0
  resultJson := none
  errorJson := none
  metadataJson := Json.written .null Json.writable_null
  publicationState := .none
  publicationAttempts := 0
  outboundTopic := none
  outboundMessageId := none
  outboundPayloadJson := none
  leaseUntil := none
  claimToken := some "t"

def heldTable : Operations Nat := ⟨[heldRow], by simp⟩

def oneComponent (component : PyValue) : VectorizeBackendResult where
  chunks := [⟨py "c", py "t", .list [component], []⟩]
  dimensions := .none
  metadata := []

/-- A fraction, as `fractions.Fraction(1, 2)`. -/
def half : PyValue := .real ⟨true, .ok (.finite false (1 / 2)), fun _ => rfl⟩

theorem oneComponent_conforms (hc : request.chunks.map (·.chunkId) = [py "c"])
    (ho : request.options.dimensions = none) (ha : request.artifactRequests = [])
    (hf : component.finiteReal) : Conforms request (oneComponent component) 1 where
  ids := hc.symm
  vectors c hmem := by
    cases List.mem_singleton.mp hmem
    refine ⟨_, rfl, List.cons_ne_nil _ _, rfl, fun v hv => ?_⟩
    rw [List.mem_singleton.mp hv]
    exact hf
  declared := .inl rfl
  options n hn := by
    rw [ho] at hn
    cases hn
  artifacts a hmem := by
    rw [ha] at hmem
    cases hmem
  chunkMetadata c hmem := by
    cases List.mem_singleton.mp hmem
    rfl
  metadata := rfl

theorem oneComponent_fits (h : component.oversized = false) :
    Fits ampleHost (oneComponent component) where
  vectors c hmem components hv v hm := by
    cases List.mem_singleton.mp hmem
    cases hv
    rw [List.mem_singleton.mp hm, h]
    exact Bool.false_ne_true
  chunkMetadata c hmem := by
    cases List.mem_singleton.mp hmem
    rfl
  metadata := rfl
  chunkNesting c hmem := by
    cases List.mem_singleton.mp hmem
    rfl
  nesting := rfl

theorem exists_output {component : PyValue} (hf : component.finiteReal)
    (ho : component.oversized = false) : ∃ request output,
    ampleHost.fromPayload inlinePayload = .ok request ∧
      DocumentVectorizeOutput.fromBackend ampleHost request (some (oneComponent component)) (py "p")
        (py "m") = .ok output := by
  obtain ⟨r, hr, hc, hd, ha⟩ := exists_inline
  obtain ⟨_, _, -, hread⟩ := DocumentVectorizeInput.fromPayload_iff.mp
    ((ampleHost.fromPayload_covers inlinePayload).erases.eq_ok hr)
  have hv := (validateBackendResult_iff hread).mpr
    ⟨oneComponent_conforms hc hd ha hf, oneComponent_fits ho⟩
  exact ⟨r, _, hr, bind_ok hv rfl⟩

theorem inline_repeated (h : ampleHost.fromPayload inlinePayload = .ok request) :
    ∀ j ∈ repeated request, j.writable := by
  have hp : (ampleHost.fromPayload inlinePayload).toOption.any fun r =>
      (repeated r).all Json.writable := by decide +kernel
  rw [h] at hp
  exact List.all_eq_true.mp hp

theorem persisted_iff_float : ∃ (request : DocumentVectorizeInput)
    (output : DocumentVectorizeOutput), ampleHost.fromPayload inlinePayload = .ok request ∧
      DocumentVectorizeOutput.fromBackend ampleHost request
        (some (oneComponent (.float (.finite false 1)))) (py "p") (py "m") = .ok output ∧
      Program.Returns (healthy Nat) (settleOutput ampleHost (.fromRow heldRow) "k" "docop_o" "t"
        output) (fun result _ => result.record.status = .succeeded) ⟨heldTable, []⟩ := by
  obtain ⟨request, output, hr, hb⟩ :=
    exists_output (show PyValue.finiteReal (.float (.finite false 1)) by decide) (by decide)
  have hplain : Written request (oneComponent (.float (.finite false 1))) (py "p") (py "m") := by
    refine ⟨inline_repeated hr, rfl, rfl, fun c hc => ?_, fun c hc components hv v hm => ?_,
      fun c hc => ?_, rfl⟩ <;> cases List.mem_singleton.mp hc
    · exact ⟨rfl, rfl⟩
    · cases hv
      rw [List.mem_singleton.mp hm]
      rfl
    · rfl
  have hs : heldTable.select heldRow.idempotencyKey = some heldRow := rfl
  exact ⟨request, output, hr, hb, (persisted_iff hr hb hs ⟨rfl, rfl⟩).mpr
    ⟨hplain, fun _ _ => rfl, fun _ _ => rfl⟩⟩

/-- A vector of fractions passes validation, and the store cannot write it. -/
theorem fraction_not_persisted : ¬ ∀ host payload request result provider model
    (output : DocumentVectorizeOutput) (s : Workers Nat) row claimToken,
      host.fromPayload payload = .ok request →
        DocumentVectorizeOutput.fromBackend host request (some result) provider model = .ok output →
          s.table.select row.idempotencyKey = some row → row.Admits claimToken .processing →
            Program.Returns (healthy Nat) (settleOutput host (.fromRow row) row.idempotencyKey
              row.operationId claimToken output)
              (fun result _ => result.record.status = .succeeded) s := by
  intro h
  obtain ⟨request, output, hr, hb⟩ :=
    exists_output (show half.finiteReal from rfl) (by decide +kernel)
  have hp := (settleOutput_iff (s := ⟨heldTable, []⟩) rfl ⟨rfl, rfl⟩ output).mp
    (h _ _ _ _ _ _ _ ⟨heldTable, []⟩ heldRow "t" hr hb rfl ⟨rfl, rfl⟩)
  have hr' := (ampleHost.fromPayload_covers inlinePayload).erases.eq_ok hr
  have hbuiltin := ((plain_iff_values hr' hb).mp hp.1).vectors _ (List.mem_singleton_self _) _
    rfl half (List.mem_singleton_self _)
  cases hbuiltin

end PrismPipe.Document
