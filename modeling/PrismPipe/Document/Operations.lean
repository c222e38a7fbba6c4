import PrismPipe.Lib.Table
import PrismPipe.Python.Json

/-! `document/operations.py`: the durable operation rows and the statements that write them.
Timestamps are any linear order; the columns hold UTF-8 text. -/

namespace PrismPipe.Document

open Python

inductive DocumentOperationStatus
  | received | processing | succeeded | retryableFailure | terminalFailure | deadLettered
  deriving DecidableEq

inductive PublicationState
  | none | pending | published
  deriving DecidableEq

structure DocumentProcessingError where
  code : PyStr
  message : PyStr
  retryable : Bool
  details : Dict

def DocumentProcessingError.toPayload (e : DocumentProcessingError) : Dict :=
  [(py "code", .str e.code), (py "message", .str e.message),
    (py "retryable", .bool e.retryable), (py "details", .dict e.details)]

def idempotencyConflictError : DocumentProcessingError where
  code := py "IDEMPOTENCY_CONFLICT"
  message := py "The idempotency key is already associated with a different request"
  retryable := false
  details := []

/-- What the store raises: `conflict` is `IdempotencyConflictError`, `stale` is
`StaleDocumentOperationClaimError`, `typeError` reads a record from no row, `overflow` is an integer
that SQLite has no room for. -/
inductive StoreError
  | conflict
  | stale (idempotencyKey : String)
  | keyError (idempotencyKey : String)
  | integrityError
  | typeError
  | overflow
  | encode (e : EncodeError)
  deriving DecidableEq

structure DocumentOperationRecord (T : Type) where
  operationId : String
  idempotencyKey : String
  requestFingerprint : String
  documentId : PyStr
  manifestVersion : PyStr
  capability : String
  normalizedPayload : Json
  status : DocumentOperationStatus
  attemptCount : Nat
  claimToken : Option String
  createdAt : T
  updatedAt : T
  result : Option Json
  error : Option Json
  requestMetadata : Json
  publicationState : PublicationState
  publicationAttempts : Nat
  outboundTopic : Option String
  outboundMessageId : Option String
  outboundPayload : Option Json

/-- A row of `document_operations`. -/
structure Row (T : Type) where
  operationId : String
  idempotencyKey : String
  requestFingerprint : String
  documentId : Utf8Str
  manifestVersion : Utf8Str
  capability : String
  normalizedPayload : Utf8Text
  status : DocumentOperationStatus
  attemptCount : Nat
  createdAt : T
  updatedAt : T
  resultJson : Option Utf8Text
  errorJson : Option Utf8Text
  metadataJson : Utf8Text
  publicationState : PublicationState
  publicationAttempts : Nat
  outboundTopic : Option String
  outboundMessageId : Option String
  outboundPayloadJson : Option Utf8Text
  leaseUntil : Option T
  claimToken : Option String

def DocumentOperationRecord.fromRow (row : Row T) : DocumentOperationRecord T where
  operationId := row.operationId
  idempotencyKey := row.idempotencyKey
  requestFingerprint := row.requestFingerprint
  documentId := row.documentId.value
  manifestVersion := row.manifestVersion.value
  capability := row.capability
  normalizedPayload := row.normalizedPayload.value
  status := row.status
  attemptCount := row.attemptCount
  claimToken := row.claimToken
  createdAt := row.createdAt
  updatedAt := row.updatedAt
  result := row.resultJson.map (·.value)
  error := row.errorJson.map (·.value)
  requestMetadata := row.metadataJson.value
  publicationState := row.publicationState
  publicationAttempts := row.publicationAttempts
  outboundTopic := row.outboundTopic
  outboundMessageId := row.outboundMessageId
  outboundPayload := row.outboundPayloadJson.map (·.value)

@[simp] theorem DocumentOperationRecord.fromRow_requestFingerprint (row : Row T) :
    (fromRow row).requestFingerprint = row.requestFingerprint := rfl

@[simp] theorem DocumentOperationRecord.fromRow_status (row : Row T) :
    (fromRow row).status = row.status := rfl

structure DocumentOperationClaim (T : Type) where
  record : DocumentOperationRecord T
  owner : Bool

abbrev Operations (T : Type) := Table (Row T) Row.idempotencyKey

/-- Statements on the database; what is written before an exception stays written unless a
transaction rolls it back. -/
abbrev Sql (T : Type) := ExceptT StoreError (StateM (Operations T))

namespace Sql

def run (m : Sql T α) (t : Operations T) : Except StoreError α × Operations T := m t

/-- `BEGIN IMMEDIATE` up to `commit`, or `rollback` on an exception. -/
def transaction (body : Sql T α) : Sql T α := fun t =>
  match body t with
  | (.ok a, u) => (.ok a, u)
  | (.error e, _) => (.error e, t)

def select (idempotencyKey : String) : Sql T (Option (Row T)) := fun t =>
  (.ok (t.select idempotencyKey), t)

/-- An `UPDATE`; its value is the row count. -/
def update (p : Row T → Bool) (f : Row T → Row T)
    (hf : ∀ r, (f r).idempotencyKey = r.idempotencyKey) : Sql T Nat := fun t =>
  (.ok (t.rowcount p), t.update p f hf)

def insert (row : Row T) : Sql T Unit := fun t =>
  if t.rows.any fun r => r.operationId = row.operationId then (.error .integrityError, t)
  else match t.insert row with
    | some u => (.ok (), u)
    | none => (.error .integrityError, t)

def lift (m : Except EncodeError α) : Sql T α :=
  match m with
  | .ok a => pure a
  | .error e => throw (.encode e)

/-- `DocumentOperationRecord.from_row(row)` on a fetched row. -/
def fetch (idempotencyKey : String) : Sql T (DocumentOperationRecord T) := do
  match ← select idempotencyKey with
  | some row => pure (.fromRow row)
  | none => throw .typeError

end Sql

open Sql

structure ClaimArgs where
  operationId : String
  idempotencyKey : String
  requestFingerprint : String
  documentId : PyStr
  manifestVersion : PyStr
  capability : String
  normalizedPayload : Json
  requestMetadata : Json

/-- The parameters `_claim_sync` computes and binds: `document_id`, `manifest_version`,
`normalized_payload`, `metadata_json`. -/
def ClaimArgs.texts (args : ClaimArgs) :
    Except EncodeError (Utf8Str × Utf8Str × Utf8Text × Utf8Text) := do
  let payload ← canonicalJson args.normalizedPayload
  let metadata ← canonicalJson args.requestMetadata
  let documentId ← bindText args.documentId
  let manifestVersion ← bindText args.manifestVersion
  let normalizedPayload ← payload.encode
  let metadataJson ← metadata.encode
  return (documentId, manifestVersion, normalizedPayload, metadataJson)

def DocumentOperationStatus.settled : DocumentOperationStatus → Bool
  | .succeeded | .terminalFailure | .deadLettered => true
  | _ => false

section Store

variable {T : Type}

/-- The row `_claim_sync` inserts. -/
def Row.opened (args : ClaimArgs) (documentId manifestVersion : Utf8Str)
    (normalizedPayload metadataJson : Utf8Text) (now leaseUntil : T) (claimToken : String) :
    Row T where
  operationId := args.operationId
  idempotencyKey := args.idempotencyKey
  requestFingerprint := args.requestFingerprint
  documentId := documentId
  manifestVersion := manifestVersion
  capability := args.capability
  normalizedPayload := normalizedPayload
  status := .processing
  attemptCount := 1
  createdAt := now
  updatedAt := now
  resultJson := none
  errorJson := none
  metadataJson := metadataJson
  publicationState := .none
  publicationAttempts := 0
  outboundTopic := none
  outboundMessageId := none
  outboundPayloadJson := none
  leaseUntil := some leaseUntil
  claimToken := some claimToken

/-- The `SET` list of `_claim_sync`. -/
def Row.reclaimed (now leaseUntil : T) (claimToken : String) (r : Row T) : Row T :=
  { r with
    status := .processing
    attemptCount := r.attemptCount + 1
    updatedAt := now
    leaseUntil := some leaseUntil
    claimToken := some claimToken
    errorJson := none }

@[simp] theorem Row.reclaimed_key (now leaseUntil : T) (claimToken : String) (r : Row T) :
    (r.reclaimed now leaseUntil claimToken).idempotencyKey = r.idempotencyKey := rfl

structure FinishArgs where
  idempotencyKey : String
  claimToken : String
  status : DocumentOperationStatus
  result : Option Json
  error : Option Json
  outboundTopic : String
  outboundMessageId : String
  outboundPayload : Json

/-- The `SET` list of `_finish_sync`. -/
def Row.finished (args : FinishArgs) (resultJson errorJson : Option Utf8Text)
    (outboundPayloadJson : Utf8Text) (now : T) (r : Row T) : Row T :=
  { r with
    status := args.status
    resultJson, errorJson
    updatedAt := now
    leaseUntil := none
    claimToken := none
    publicationState := .pending
    outboundTopic := some args.outboundTopic
    outboundMessageId := some args.outboundMessageId
    outboundPayloadJson := some outboundPayloadJson }

@[simp] theorem Row.finished_key (args : FinishArgs) (resultJson errorJson : Option Utf8Text)
    (outboundPayloadJson : Utf8Text) (now : T) (r : Row T) :
    (r.finished args resultJson errorJson outboundPayloadJson now).idempotencyKey =
      r.idempotencyKey := rfl

/-- The `SET` list of `_record_retryable_sync`. -/
def Row.failedRetryably (errorJson : Utf8Text) (now : T) (r : Row T) : Row T :=
  { r with
    status := .retryableFailure
    errorJson := some errorJson
    updatedAt := now
    leaseUntil := none }

@[simp] theorem Row.failedRetryably_key (errorJson : Utf8Text) (now : T) (r : Row T) :
    (r.failedRetryably errorJson now).idempotencyKey = r.idempotencyKey := rfl

/-- The `SET` list of `_publication_update_sync`. -/
def Row.publicationUpdated (published : Bool) (now : T) (r : Row T) : Row T :=
  if published then { r with publicationState := .published, updatedAt := now }
  else { r with publicationAttempts := r.publicationAttempts + 1, updatedAt := now }

@[simp] theorem Row.publicationUpdated_key (published : Bool) (now : T) (r : Row T) :
    (r.publicationUpdated published now).idempotencyKey = r.idempotencyKey := by
  cases published <;> rfl

variable [LinearOrder T]

def claimSync (args : ClaimArgs) (now leaseUntil : T) (claimToken : String) :
    Sql T (DocumentOperationClaim T) := transaction do
  match ← select args.idempotencyKey with
  | none =>
    let (documentId, manifestVersion, normalizedPayload, metadataJson) ← lift args.texts
    insert (.opened args documentId manifestVersion normalizedPayload metadataJson now leaseUntil
      claimToken)
    return ⟨← fetch args.idempotencyKey, true⟩
  | some row =>
    let record := DocumentOperationRecord.fromRow row
    if record.requestFingerprint ≠ args.requestFingerprint then throw .conflict
    else if record.status.settled then pure ⟨record, false⟩
    else if record.status = .processing ∧ row.leaseUntil.any (now < ·) then pure ⟨record, false⟩
    else
      let _ ← update (fun r => r.idempotencyKey = args.idempotencyKey)
        (.reclaimed now leaseUntil claimToken) (Row.reclaimed_key now leaseUntil claimToken)
      return ⟨← fetch args.idempotencyKey, true⟩

def expectedStatus (status : DocumentOperationStatus) : DocumentOperationStatus :=
  if status = .deadLettered then .retryableFailure else .processing

def dumpOptionalJson (value : Option Json) : Except EncodeError (Option CanonicalText) :=
  match value with
  | some j => some <$> canonicalJson j
  | none => .ok none

def encodeOptional (text : Option CanonicalText) : Except EncodeError (Option Utf8Text) :=
  match text with
  | some t => some <$> t.encode
  | none => .ok none

/-- The parameters `_finish_sync` computes and binds: `result_json`, `error_json`,
`outbound_payload_json`. -/
def FinishArgs.texts (args : FinishArgs) :
    Except EncodeError (Option Utf8Text × Option Utf8Text × Utf8Text) := do
  let result ← dumpOptionalJson args.result
  let error ← dumpOptionalJson args.error
  let payload ← canonicalJson args.outboundPayload
  let resultJson ← encodeOptional result
  let errorJson ← encodeOptional error
  let outboundPayloadJson ← payload.encode
  return (resultJson, errorJson, outboundPayloadJson)

def finishSync (args : FinishArgs) (now : T) : Sql T (DocumentOperationRecord T) := transaction do
  match ← select args.idempotencyKey with
  | none => throw (.keyError args.idempotencyKey)
  | some row =>
    let expected := expectedStatus args.status
    if row.claimToken ≠ some args.claimToken ∨ row.status ≠ expected then
      throw (.stale args.idempotencyKey)
    else
      let (resultJson, errorJson, outboundPayloadJson) ← lift args.texts
      let rowcount ← update (fun r => r.idempotencyKey = args.idempotencyKey &&
          (r.claimToken = some args.claimToken && r.status = expected))
        (.finished args resultJson errorJson outboundPayloadJson now)
        (Row.finished_key args resultJson errorJson outboundPayloadJson now)
      if rowcount ≠ 1 then throw (.stale args.idempotencyKey)
      else fetch args.idempotencyKey

/-- The `UPDATE` of `_record_retryable_sync`, which commits by itself; the `SELECT` that builds
the returned record is another statement, `fetch`. -/
def recordRetryableSync (idempotencyKey claimToken : String) (error : Json) (now : T) :
    Sql T Unit := do
  let errorJson ← lift (dumpText error)
  let rowcount ← update (fun r => r.idempotencyKey = idempotencyKey &&
      (r.claimToken = some claimToken && r.status = .processing))
    (.failedRetryably errorJson now) (Row.failedRetryably_key errorJson now)
  if rowcount ≠ 1 then throw (.stale idempotencyKey) else pure ()

/-- The `UPDATE` of `_publication_update_sync`, likewise. -/
def publicationUpdateSync (idempotencyKey : String) (published : Bool) (now : T) : Sql T Unit := do
  let _ ← update (fun r => r.idempotencyKey = idempotencyKey) (.publicationUpdated published now)
    (Row.publicationUpdated_key published now)

def getSync (idempotencyKey : String) : Sql T (Option (DocumentOperationRecord T)) := do
  return (← select idempotencyKey).map .fromRow

/-- `ORDER BY updated_at, operation_id`. -/
def earlier (r s : Row T) : Bool :=
  r.updatedAt < s.updatedAt || (r.updatedAt = s.updatedAt && r.operationId ≤ s.operationId)

def pendingSync (limit : Int) : Sql T (List (DocumentOperationRecord T)) := fun t =>
  let pending := t.rows.filter fun r => r.publicationState = .pending
  if limit < 2 ^ 63 then
    (.ok (((pending.insertionSort fun r s => earlier r s).take limit.toNat).map .fromRow), t)
  else (.error .overflow, t)

end Store

end PrismPipe.Document
