import PrismPipe.Lib.Program
import PrismPipe.Document.Limits
import PrismPipe.Document.Operations
import PrismPipe.Transport.Bus

/-! `document/processing.py`: the processor and the consumer, as programs over the store, the
chunk storage, the vectorizer and the transport. -/

namespace PrismPipe.Document

open Python

/-- The exceptions in flight.  `other` is any `Exception` no handler here names. -/
inductive Raised
  | cancelled
  | processing (e : DocumentProcessingError)
  | store (e : StoreError)
  | storage (operation : PyStr)
  | transport
  | timeout
  | attributeError
  | overflowError
  | runtimeError
  | encode (e : EncodeError)
  | other (errorType : PyStr)

/-- What `except DocumentProcessingError` catches. -/
def Raised.asProcessing : Raised → Option DocumentProcessingError
  | .processing e => some e
  | .store .conflict => some idempotencyConflictError
  | _ => none

/-- `type(error).__name__`. -/
def Raised.typeName : Raised → PyStr
  | .cancelled => py "CancelledError"
  | .processing _ => py "DocumentProcessingError"
  | .store .conflict => py "IdempotencyConflictError"
  | .store (.stale _) => py "StaleDocumentOperationClaimError"
  | .store (.keyError _) => py "KeyError"
  | .store .integrityError => py "IntegrityError"
  | .store .typeError => py "TypeError"
  | .store (.encode .valueError) | .encode .valueError => py "ValueError"
  | .store (.encode .unicodeEncodeError) | .encode .unicodeEncodeError => py "UnicodeEncodeError"
  | .store (.encode .recursionError) | .encode .recursionError => py "RecursionError"
  | .storage _ => py "StorageError"
  | .transport => py "DeepiriTransportError"
  | .timeout => py "TimeoutError"
  | .attributeError => py "AttributeError"
  | .overflowError | .store .overflow => py "OverflowError"
  | .runtimeError => py "RuntimeError"
  | .other errorType => errorType

inductive Content
  | none
  | str (s : PyStr)
  | bytes (decoded : Option PyStr)
  | mapping (d : Dict)
  | other

/-- What `_execute_vectorizer` reads of a node result. -/
structure NodeResult where
  success : Bool
  terminated : Bool
  output : Option Dict
  structured : Option DocumentVectorizeError
  error : Option PyStr
  envelopeError : Option PyStr

/-- The awaits.  `execute` is `execute_async`, with the copies made of what the node leaves.
`publish` and `acknowledge` carry the key of the record they are about. -/
inductive DocumentOp
  | claim (args : ClaimArgs)
  | get (idempotencyKey : String)
  | finish (args : FinishArgs)
  | recordRetryable (idempotencyKey claimToken : String) (error : Json)
  | publicationUpdate (idempotencyKey : String) (published : Bool)
  | pending (limit : Int)
  | load (storageKey : PyStr)
  | execute (payload : Dict)
  | rounds
  | sleep
  | publish (idempotencyKey topic messageId : String) (payload headers : Json)
  | acknowledge (message : DeepiriMessage) (idempotencyKey : String) (maxAttempts : Int)
  | retry (message : DeepiriMessage)

abbrev DocumentOp.Value (T : Type) : DocumentOp → Type
  | .claim _ => DocumentOperationClaim T
  | .get _ => Option (DocumentOperationRecord T)
  | .finish _ => DocumentOperationRecord T
  | .pending _ => List (DocumentOperationRecord T)
  | .load _ => Content
  | .execute _ => NodeResult
  | .rounds => Nat
  | _ => Unit

def documentOps (T : Type) : Interface where
  Op := DocumentOp
  Reply o := Except Raised (o.Value T)

abbrev Task (T : Type) := ExceptT Raised (Program (documentOps T))

variable {T : Type}

def perform (o : DocumentOp) : Task T (o.Value T) := ExceptT.mk (Program.op (I := documentOps T) o)

def liftEncode (m : Except EncodeError α) : Task T α :=
  match m with
  | .ok a => pure a
  | .error e => throw (.encode e)

/-- `record_retryable_failure`: the update, then the row it left. -/
def recordRetryableFailure (idempotencyKey claimToken : String) (error : Dict) :
    Task T (DocumentOperationRecord T) := do
  let _ ← perform (.recordRetryable idempotencyKey claimToken (.dict error))
  match ← perform (.get idempotencyKey) with
  | some record => return record
  | none => throw (.store .typeError)

def publicationUpdate (idempotencyKey : String) (published : Bool) :
    Task T (DocumentOperationRecord T) := do
  let _ ← perform (.publicationUpdate idempotencyKey published)
  match ← perform (.get idempotencyKey) with
  | some record => return record
  | none => throw (.store (.keyError idempotencyKey))

def markPublished (idempotencyKey : String) : Task T (DocumentOperationRecord T) :=
  publicationUpdate idempotencyKey true

def incrementPublicationAttempt (idempotencyKey : String) : Task T (DocumentOperationRecord T) :=
  publicationUpdate idempotencyKey false

/-- `hashlib.sha256(...).hexdigest()`, of canonical JSON and of a key, and what the recursion limit
leaves room for: `canonical_json` of a value, `json.loads` of what it wrote, `copy.deepcopy` of a
request, and the copies of the envelope that carries one, whatever the texts of its chunks. -/
structure Runtime extends Interpreter where
  json : Utf8Text → String
  text : String → String
  dumps : Json → Bool
  loads : Json → Bool
  copies : DocumentVectorizeInput → Bool
  carries : DocumentVectorizeInput → Bool

def Runtime.ample : Runtime where
  toInterpreter := Interpreter.ample
  json _ := ""
  text := id
  dumps _ := true
  loads _ := true
  copies _ := true
  carries _ := true

def Raised.recursionError : Raised := .other (py "RecursionError")

/-- `canonical_json(value).encode("utf-8")`. -/
def Runtime.dumpText (runtime : Runtime) (value : Json) : Except EncodeError Utf8Text :=
  if runtime.dumps value then Python.dumpText value else .error .recursionError

def deepcopy (room : Bool) (a : α) : Task T α :=
  if room then pure a else throw .recursionError

structure DocumentProcessingResult (T : Type) where
  record : DocumentOperationRecord T
  duplicate : Bool := false

def DOCUMENT_VECTORIZE_CAPABILITY : String := "document.vectorize"

def documentIdentity (payload : Dict) (messageId : PyStr) (headers : Dict) : Dict :=
  let routeId := payload.get "routeId"
  let correlationId := ((payload.get "correlationId").or (headers.get "correlationId")).or
    (headers.get "correlation_id")
  let operationId := ((payload.get "operationId").or (headers.get "operationId")).or
    (headers.get "operation_id")
  let identity : Dict := [
    (py "capability", .str (py DOCUMENT_VECTORIZE_CAPABILITY)),
    (py "documentId", payload.get "documentId"),
    (py "manifestVersion", payload.get "manifestVersion"),
    (py "routeId", routeId),
    (py "correlationId", correlationId),
    (py "operationId", operationId)]
  if routeId.truthy || correlationId.truthy || operationId.truthy then identity
  else identity ++ [(py "messageId", .str messageId)]

def buildDocumentIdempotencyKey (runtime : Runtime) (payload : Dict) (messageId : PyStr)
    (headers : Dict) : Except EncodeError String := do
  let text ← runtime.dumpText (.dict (documentIdentity payload messageId headers))
  return "document-vectorize:" ++ runtime.json text

def buildDocumentRequestFingerprint (runtime : Runtime) (payload : Dict) :
    Except EncodeError String := do
  let text ← runtime.dumpText (.dict payload)
  return runtime.json text

/-- `s[:24]`. -/
def take24 (s : String) : String := String.ofList (s.toList.take 24)

def buildDocumentOperationId (runtime : Runtime) (idempotencyKey : String) : String :=
  "docop_" ++ take24 (runtime.text idempotencyKey)

def resultMessage (record : DocumentOperationRecord T) (success : Bool)
    (result error : Option Dict) : Dict := [
  (py "success", .bool success),
  (py "operationId", .str (py record.operationId)),
  (py "idempotencyKey", .str (py record.idempotencyKey)),
  (py "documentId", .str record.documentId),
  (py "manifestVersion", .str record.manifestVersion),
  (py "capability", .str (py record.capability)),
  (py "result", asJson .dict result),
  (py "error", asJson .dict error),
  (py "metadata", record.requestMetadata)]

def preservedMetadata (headers : Dict) (messageId : PyStr) : Dict :=
  let allowed := [py "correlationId", py "correlation_id", py "requestId", py "request_id",
    py "traceId", py "trace_id", py "causationId", py "causation_id", py "operationId",
    py "operation_id"]
  (headers.filter fun kv => kv.1 ∈ allowed) ++ [(py "messageId", .str messageId)]

/-- `json.loads(canonical_json(payload))`. -/
def normalizeUntrustedPayload (runtime : Runtime) (payload : Json) : Except Raised Json :=
  if runtime.dumps payload then
    match canonicalJson payload with
    | .ok text => if runtime.loads text.value then .ok text.value else .error .recursionError
    | .error _ => .error (.processing {
        code := py "INVALID_PAYLOAD"
        message := py "Document payload cannot be canonically serialized"
        retryable := false
        details := [] })
  else .error .recursionError

def claimTokenOf (record : DocumentOperationRecord T) : Task T String :=
  match record.claimToken with
  | some claimToken => pure claimToken
  | none => throw .runtimeError

def safeIdentityValue (value : Json) (fallback : PyStr) : PyStr :=
  match value with
  | .str s => if s.isBlank then fallback else s
  | .int i => py (toString i)
  | _ => fallback

/-- `needle in haystack`. -/
def contains (needle haystack : PyStr) : Bool := haystack.tails.any needle.isPrefixOf

def processingError (code : String) (message : PyStr) (retryable : Bool) (details : Dict := []) :
    Raised :=
  .processing ⟨py code, message, retryable, details⟩

def decodeChunkContent (content : Content) (position : Nat) : Task T PyStr :=
  let missing : Raised := processingError "INVALID_STORAGE_CONTENT" (py "Storage content for " ++
    at_ (py "chunks") position ++ py " must contain non-empty text") false
  match content with
  | .str s => if s ≠ [] then pure s else throw missing
  | .bytes none => throw (processingError "INVALID_STORAGE_CONTENT"
      (py "Storage content for " ++ at_ (py "chunks") position ++ py " is not UTF-8") false)
  | .bytes (some decoded) => if decoded ≠ [] then pure decoded else throw missing
  | .mapping d =>
    match getOr d "text" (d.get "content") with
    | .str s => if s ≠ [] then pure s else throw missing
    | _ => throw missing
  | _ => throw missing

/-- One turn of the loop of `_resolve_chunk_content`. -/
def resolveChunk (chunk : ChunkReference) (position : Nat) : Task T ChunkReference :=
  if chunk.text.isSome then pure chunk
  else match chunk.storage with
    | none => throw (processingError "INVALID_STORAGE_REFERENCE"
        (at_ (py "chunks") position ++ py " must include text or storage") false)
    | some storage => do
      let unavailable := py "Unable to load " ++ at_ (py "chunks") position ++ py " content"
      let load : Task T Content :=
        match storage.storageKey with
        | some key => perform (.load key)
        | none => throw (.other (py "DocumentVectorizeValidationError"))
      let content ← tryCatch load fun
        | .cancelled => throw .cancelled
        | .storage operation => throw (processingError "STORAGE_UNAVAILABLE" unavailable true
            [(py "operation", .str operation)])
        | error => throw (processingError "STORAGE_UNAVAILABLE" unavailable true
            [(py "errorType", .str error.typeName)])
      match content with
      | .none => throw (processingError "STORAGE_CONTENT_NOT_FOUND" (py "Storage content for " ++
          at_ (py "chunks") position ++ py " was not found") false)
      | content =>
        let text ← decodeChunkContent content position
        return { chunk with text := some text }

def resolveChunks (position : Nat) : List ChunkReference → Task T (List ChunkReference)
  | [] => return []
  | chunk :: rest => do
    let chunk ← resolveChunk chunk position
    let rest ← resolveChunks (position + 1) rest
    return chunk :: rest

def resolveChunkContent (runtime : Runtime) (request : DocumentVectorizeInput) :
    Task T DocumentVectorizeInput := do
  let loaded ← deepcopy (runtime.copies request) request
  let chunks ← resolveChunks 0 loaded.chunks
  return { loaded with chunks }

/-- `a or b` on optional strings. -/
def orElse (a b : Option PyStr) : Option PyStr := if given a then a else b

def nodeFailure (result : NodeResult) : Raised :=
  match result.structured with
  | some structured => .processing
      ⟨structured.code, structured.message, structured.retryable, structured.details⟩
  | none =>
    let message := ((orElse (orElse result.error result.envelopeError)
      (some (py "Vectorizer backend failed"))).getD [])
    processingError (if contains (py "timed out") message then "VECTORIZER_TIMEOUT"
      else "VECTORIZER_ERROR") message true

def ChunkReference.untexted (chunk : ChunkReference) : ChunkReference := { chunk with text := none }

def DocumentVectorizeInput.untexted (request : DocumentVectorizeInput) : DocumentVectorizeInput :=
  { request with chunks := request.chunks.map ChunkReference.untexted }

def executeVectorizer (runtime : Runtime) (request : DocumentVectorizeInput) : Task T Dict := do
  let working ← deepcopy (runtime.carries request.untexted) request.toPayload
  let result ← perform (.execute working)
  match result.success && !result.terminated, result.output with
  | true, some output => return output
  | _, _ => throw (nodeFailure result)

def finishFailure (record : DocumentOperationRecord T) (error : Dict)
    (deadLettered : Bool := false) : Task T (DocumentOperationRecord T) := do
  let claimToken ← claimTokenOf record
  perform (.finish {
    idempotencyKey := record.idempotencyKey
    claimToken
    status := if deadLettered then .deadLettered else .terminalFailure
    result := none
    error := some (.dict error)
    outboundTopic := "pipeline.dead-letter"
    outboundMessageId := "document-failure-" ++ record.operationId
    outboundPayload := .dict (resultMessage record false none (some error)) })

/-- The wait for another worker, `n` polls long. -/
def pollDuplicate (record : DocumentOperationRecord T) : Nat → Task T (DocumentOperationRecord T)
  | 0 => return record
  | n + 1 => do
    let _ ← perform .sleep
    match ← perform (.get record.idempotencyKey) with
    | none => return record
    | some current =>
      if current.status ≠ .processing then return current else pollDuplicate record n

def settledDuplicate (record : DocumentOperationRecord T) :
    Task T (DocumentOperationRecord T) := do
  if record.status ≠ .processing then return record
  else
    let rounds ← perform .rounds
    pollDuplicate record rounds

/-- `store.claim`; `none` is its `IdempotencyConflictError`. -/
def claimOrConflict (args : ClaimArgs) : Task T (Option (DocumentOperationClaim T)) :=
  tryCatch (some <$> perform (.claim args)) fun
    | .store .conflict => return none
    | e => throw e

def recordConflict (runtime : Runtime) (existing : DocumentOperationRecord T)
    (normalizedPayload : Dict) (requestFingerprint : String) (requestMetadata : Dict) :
    Task T (DocumentProcessingResult T) := do
  let conflictKey := existing.idempotencyKey ++ ":conflict:" ++ take24 requestFingerprint
  let claim ← perform (.claim {
    operationId := buildDocumentOperationId runtime conflictKey
    idempotencyKey := conflictKey
    requestFingerprint
    documentId := safeIdentityValue (normalizedPayload.get "documentId") existing.documentId
    manifestVersion :=
      safeIdentityValue (normalizedPayload.get "manifestVersion") existing.manifestVersion
    capability := DOCUMENT_VECTORIZE_CAPABILITY
    normalizedPayload := .dict normalizedPayload
    requestMetadata := .dict requestMetadata })
  if !claim.owner then
    let settled ← settledDuplicate claim.record
    return ⟨settled, true⟩
  else
    let structured := idempotencyConflictError.toPayload.set (py "details") (.dict [
      (py "conflictingOperationId", .str (py existing.operationId)),
      (py "conflictingIdempotencyKey", .str (py existing.idempotencyKey))])
    let record ← finishFailure claim.record structured
    return ⟨record, true⟩

def recordConflictOf (runtime : Runtime) (idempotencyKey : String) (normalizedPayload : Dict)
    (requestFingerprint : String) (requestMetadata : Dict) :
    Task T (DocumentProcessingResult T) := do
  match ← perform (.get idempotencyKey) with
  | none => throw (.store .conflict)
  | some existing =>
    recordConflict runtime existing normalizedPayload requestFingerprint requestMetadata

def validationError (message documentId : PyStr) : Dict :=
  DocumentVectorizeError.toPayload {
    code := py "VALIDATION_ERROR"
    message
    documentId := if documentId = py "unknown" then none else some documentId
    retryable := false }

/-- `normalized.get`, which only a mapping has. -/
def asMapping (normalized : Json) : Task T Dict :=
  match normalized with
  | .dict d => pure d
  | _ => throw .attributeError

def liftRaised (m : Except Raised α) : Task T α :=
  match m with
  | .ok a => pure a
  | .error e => throw e

def recordValidationFailure (runtime : Runtime) (payload : Json) (messageId : PyStr)
    (headers : Dict) (message : PyStr) : Task T (DocumentProcessingResult T) := do
  let normalized ← liftRaised (normalizeUntrustedPayload runtime payload)
  let normalized ← asMapping normalized
  let idempotencyKey ← liftEncode (buildDocumentIdempotencyKey runtime normalized messageId headers)
  let fingerprint ← liftEncode (buildDocumentRequestFingerprint runtime normalized)
  let documentId := safeIdentityValue (normalized.get "documentId") (py "unknown")
  let manifestVersion := safeIdentityValue (normalized.get "manifestVersion") (py "unknown")
  match ← claimOrConflict {
      operationId := buildDocumentOperationId runtime idempotencyKey
      idempotencyKey
      requestFingerprint := fingerprint
      documentId
      manifestVersion
      capability := DOCUMENT_VECTORIZE_CAPABILITY
      normalizedPayload := .dict normalized
      requestMetadata := .dict headers } with
  | none => recordConflictOf runtime idempotencyKey normalized fingerprint headers
  | some claim =>
    if !claim.owner then
      let settled ← settledDuplicate claim.record
      return ⟨settled, true⟩
    else
      let record ← finishFailure claim.record (validationError message documentId)
      return ⟨record, false⟩

/-- `finish` with what the vectorizer has put out. -/
def succeed (record : DocumentOperationRecord T) (idempotencyKey operationId claimToken : String)
    (output : Dict) : Task T (DocumentProcessingResult T) := do
  let record ← perform (.finish {
    idempotencyKey
    claimToken
    status := .succeeded
    result := some (.dict output)
    error := none
    outboundTopic := "document.artifacts"
    outboundMessageId := "document-result-" ++ operationId
    outboundPayload := .dict (resultMessage record true (some output) none) })
  return ⟨record, false⟩

/-- The body of the `try` of `process`. -/
def vectorizeClaimed (runtime : Runtime) (request : DocumentVectorizeInput)
    (record : DocumentOperationRecord T) (idempotencyKey operationId claimToken : String) :
    Task T (DocumentProcessingResult T) := do
  let loadedRequest ← resolveChunkContent runtime request
  let output ← executeVectorizer runtime loadedRequest
  succeed record idempotencyKey operationId claimToken output

def cancellation : DocumentProcessingError where
  code := py "CANCELLED"
  message := py "Document vectorization was cancelled"
  retryable := true
  details := []

/-- Its `except` clauses. -/
def vectorizeFailed (record : DocumentOperationRecord T) (idempotencyKey claimToken : String)
    (raised : Raised) : Task T (DocumentProcessingResult T) :=
  match raised with
  | .cancelled => do
    tryCatch
      (do
        let _ ← recordRetryableFailure idempotencyKey claimToken cancellation.toPayload
        return ())
      fun
        | .store (.stale _) => return ()
        | e => throw e
    throw .cancelled
  | raised =>
    match raised.asProcessing with
    | some error =>
      if error.retryable then do
        let record ← recordRetryableFailure idempotencyKey claimToken error.toPayload
        return ⟨record, false⟩
      else do
        let record ← finishFailure record error.toPayload
        return ⟨record, false⟩
    | none => throw raised

/-- `process` on an accepted payload. -/
def processRequest (runtime : Runtime) (request : DocumentVectorizeInput) (messageId : PyStr)
    (requestMetadata : Dict) : Task T (DocumentProcessingResult T) := do
  let normalizedPayload := request.toPayload
  let idempotencyKey ← liftEncode
    (buildDocumentIdempotencyKey runtime normalizedPayload messageId requestMetadata)
  let fingerprint ← liftEncode (buildDocumentRequestFingerprint runtime normalizedPayload)
  let operationId := buildDocumentOperationId runtime idempotencyKey
  match ← claimOrConflict {
      operationId
      idempotencyKey
      requestFingerprint := fingerprint
      documentId := request.documentId
      manifestVersion := request.manifestVersion.toStr
      capability := DOCUMENT_VECTORIZE_CAPABILITY
      normalizedPayload := .dict normalizedPayload
      requestMetadata := .dict requestMetadata } with
  | none =>
    recordConflictOf runtime idempotencyKey normalizedPayload fingerprint requestMetadata
  | some claim =>
    if !claim.owner then
      let settled ← settledDuplicate claim.record
      return ⟨settled, true⟩
    else
      let claimToken ← claimTokenOf claim.record
      tryCatch (vectorizeClaimed runtime request claim.record idempotencyKey operationId claimToken)
        (vectorizeFailed claim.record idempotencyKey claimToken)

def process (runtime : Runtime) (payload : Json) (messageId : PyStr) (headers : Dict) :
    Task T (DocumentProcessingResult T) :=
  let requestMetadata := preservedMetadata headers messageId
  match runtime.fromPayload payload with
  | .ok request => processRequest runtime request messageId requestMetadata
  | .error (.payload (.validation message)) =>
    recordValidationFailure runtime payload messageId requestMetadata message
  | .error (.payload .overflow) => throw .overflowError
  | .error .recursion => throw .recursionError

def publishRecord (record : DocumentOperationRecord T) : Task T (DocumentOperationRecord T) :=
  match record.outboundTopic, record.outboundMessageId, record.outboundPayload with
  | some topic, some messageId, some payload => do
    tryCatch (perform (.publish record.idempotencyKey topic messageId payload
      record.requestMetadata)) fun
      | .timeout => throw .transport
      | e => throw e
    markPublished record.idempotencyKey
  | _, _, _ => throw .runtimeError

/-- `publishRecord`; `none` is its `DeepiriTransportError`. -/
def publishOrFail (record : DocumentOperationRecord T) :
    Task T (Option (DocumentOperationRecord T)) :=
  tryCatch (some <$> publishRecord record) fun
    | .transport => return none
    | e => throw e

/-- What `process_message` reads of its consumer. -/
structure ConsumerConfig where
  runtime : Runtime
  maxAttempts : Int
  retryDelayed : Bool

section Consumer

variable (consumer : ConsumerConfig)

/-- `_retry`. -/
def retryLater (message : DeepiriMessage) : Task T Unit :=
  if consumer.retryDelayed then do
    let _ ← perform .sleep
    perform (.retry message)
  else perform (.retry message)

def acknowledge (message : DeepiriMessage) (record : DocumentOperationRecord T) : Task T Unit :=
  perform (.acknowledge message record.idempotencyKey consumer.maxAttempts)

/-- The end of `process_message`, on a result that is not to be retried. -/
def announce (message : DeepiriMessage) (result : DocumentProcessingResult T) :
    Task T (DocumentProcessingResult T) := do
  if result.record.publicationState = .pending then
    match ← publishOrFail result.record with
    | some record =>
      acknowledge consumer message record
      return { result with record }
    | none =>
      let record ← incrementPublicationAttempt result.record.idempotencyKey
      if record.publicationAttempts < consumer.maxAttempts then
        retryLater consumer message
        return { result with record }
      else
        acknowledge consumer message record
        return { result with record }
  else
    acknowledge consumer message result.record
    return result

/-- `dict(result.record.error or {})`, marked. -/
def exhausted (error : Option Json) : Dict :=
  let error : Dict := match error with
    | some (.dict d) => d
    | _ => []
  (error.set (py "retryable") (.bool false)).set (py "exhausted") (.bool true)

def processMessage (message : DeepiriMessage) : Task T (DocumentProcessingResult T) := do
  let result ← process consumer.runtime message.payload message.messageId message.headers
  if result.record.status = .processing then
    if message.deliveryAttempt < consumer.maxAttempts then
      retryLater consumer message
      return result
    else return result
  else if result.record.status = .retryableFailure then
    if max (result.record.attemptCount : Int) message.deliveryAttempt < consumer.maxAttempts then
      retryLater consumer message
      return result
    else
      let record ← finishFailure result.record (exhausted result.record.error) true
      announce consumer message ⟨record, result.duplicate⟩
  else announce consumer message result

end Consumer

/-- The loop of `drain_pending_publications`; the count it returns. -/
def drainRecords : List (DocumentOperationRecord T) → Task T Nat
  | [] => return 0
  | record :: rest => do
    match ← publishOrFail record with
    | some _ =>
      let published ← drainRecords rest
      return published + 1
    | none =>
      let _ ← incrementPublicationAttempt record.idempotencyKey
      drainRecords rest

def drainPendingPublications (limit : Int) : Task T Nat := do
  let records ← perform (.pending limit)
  drainRecords records

end PrismPipe.Document
