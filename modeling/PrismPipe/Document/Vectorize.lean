import PrismPipe.Python.Json

/-! `document/vectorize.py`: the payload contract, checked in the source's order, and the
payloads it is written back to. -/

namespace PrismPipe.Document

open Python

/-- What `from_payload` raises: `DocumentVectorizeValidationError`, or the `OverflowError` of
`float` on a large integer. -/
inductive PayloadError
  | validation (message : PyStr)
  | overflow
  deriving DecidableEq

abbrev Parse := Except PayloadError

def invalid (message : PyStr) : Parse α := .error (.validation message)

/-- `if condition: raise`. -/
def refuse (condition : Bool) (message : PyStr) : Parse Unit :=
  if condition then invalid message else .ok ()

/-- `float(value)` on an integer. -/
def floatOfInt (i : Int) : Parse PyFloat :=
  match PyFloat.ofInt i with
  | some f => .ok f
  | none => .error .overflow

def decimal (n : Nat) : PyStr := py (toString n)

/-- `f"{label}[{index}]"`. -/
def at_ (label : PyStr) (index : Nat) : PyStr := label ++ py "[" ++ decimal index ++ py "]"

/-- `f"{label}.{key}"`. -/
def dot (label : PyStr) (key : PyStr) : PyStr := label ++ py "." ++ key

def requiredString (payload : Dict) (key : String) (label : PyStr) : Parse PyStr :=
  match payload.get key with
  | .str s => if s.isBlank then invalid (label ++ py " must be a non-empty string") else .ok s
  | _ => invalid (label ++ py " must be a non-empty string")

def requiredInt (payload : Dict) (key : String) (label : PyStr) : Parse Int :=
  match payload.get key with
  | .int i => .ok i
  | _ => invalid (label ++ py " must be an integer")

def optionalInt (payload : Dict) (key : String) (label : PyStr) : Parse (Option Int) :=
  match payload.get key with
  | .null => .ok none
  | .int i => .ok (some i)
  | _ => invalid (label ++ py " must be an integer")

inductive ManifestVersion
  | str (s : PyStr)
  | int (i : Int)

def requiredManifestVersion (payload : Dict) (key : String) : Parse ManifestVersion :=
  match payload.get key with
  | .str s =>
    if s.isBlank then invalid (py key ++ py " must be a non-empty string or integer")
    else .ok (.str s)
  | .int i => .ok (.int i)
  | _ => invalid (py key ++ py " must be a non-empty string or integer")

def requiredNumber (payload : Dict) (key : String) (label : PyStr) : Parse PyFloat :=
  match payload.get key with
  | .int i => floatOfInt i
  | .float f =>
    if f.isFinite then .ok f else invalid (label ++ py " must be a finite number")
  | _ => invalid (label ++ py " must be a number")

def optionalString (payload : Dict) (key : String) (label : PyStr) : Parse (Option PyStr) :=
  match payload.get key with
  | .null => .ok none
  | .str s =>
    if s.isBlank then invalid (label ++ py " must be a non-empty string") else .ok (some s)
  | _ => invalid (label ++ py " must be a non-empty string")

def validateFiniteNumbers (label : PyStr) : Json → Parse Unit
  | .int i => do
    let _ ← floatOfInt i
    return ()
  | .float f =>
    if f.isFinite then .ok () else invalid (label ++ py " must contain only finite numbers")
  | .dict items => fields label items
  | .list items => elements label 0 items
  | _ => .ok ()
where
  fields (label : PyStr) : List (PyStr × Json) → Parse Unit
    | [] => .ok ()
    | (key, item) :: rest => do
      validateFiniteNumbers (dot label key) item
      fields label rest
  elements (label : PyStr) (index : Nat) : List Json → Parse Unit
    | [] => .ok ()
    | item :: rest => do
      validateFiniteNumbers (at_ label index) item
      elements label (index + 1) rest

def optionalMapping (payload : Dict) (key : String) (label : PyStr) : Parse Dict :=
  match payload.get key with
  | .null => .ok []
  | .dict value => do
    validateFiniteNumbers label (.dict value)
    return value
  | _ => invalid (label ++ py " must be an object")

/-- `payload.get(key, default)`. -/
def getOr (payload : Dict) (key : String) (default : Json) : Json :=
  (payload.find (py key)).getD default

def asJson (f : α → Json) (value : Option α) : Json := value.elim .null f

/-- A `str` that is there and not empty. -/
def given (value : Option PyStr) : Bool := value.any fun s => !s.isEmpty

structure StorageReference where
  provider : Option PyStr
  bucket : Option PyStr
  key : Option PyStr
  uri : Option PyStr
  versionId : Option PyStr
  contentType : Option PyStr
  checksum : Option PyStr
  sizeBytes : Option Int
  metadata : Dict

namespace StorageReference

def validate (self : StorageReference) (label : PyStr) : Parse Unit :=
  if !given self.uri && !given self.key then invalid (label ++ py " must include uri or key")
  else if given self.bucket && !given self.key then
    invalid (label ++ py ".key is required when bucket is provided")
  else .ok ()

def fromPayload (payload : Dict) (label : PyStr) : Parse StorageReference := do
  let sizeBytes ← optionalInt payload "sizeBytes" (dot label (py "sizeBytes"))
  refuse (sizeBytes.any (· < 0)) (label ++ py ".sizeBytes must be a non-negative integer")
  let reference : StorageReference := {
    provider := ← optionalString payload "provider" (dot label (py "provider"))
    bucket := ← optionalString payload "bucket" (dot label (py "bucket"))
    key := ← optionalString payload "key" (dot label (py "key"))
    uri := ← optionalString payload "uri" (dot label (py "uri"))
    versionId := ← optionalString payload "versionId" (dot label (py "versionId"))
    contentType := ← optionalString payload "contentType" (dot label (py "contentType"))
    checksum := ← optionalString payload "checksum" (dot label (py "checksum"))
    sizeBytes
    metadata := ← optionalMapping payload "metadata" (dot label (py "metadata")) }
  reference.validate label
  return reference

/-- `none` where the source raises. -/
def storageKey (self : StorageReference) : Option PyStr :=
  if given self.uri then self.uri
  else if given self.bucket then
    let provider := if given self.provider then self.provider.getD [] else py "storage"
    some (provider ++ py "://" ++ self.bucket.getD [] ++ py "/" ++ self.key.getD (py "None"))
  else if given self.key then self.key
  else none

def toPayload (self : StorageReference) : Json := .dict [
  (py "provider", asJson .str self.provider),
  (py "bucket", asJson .str self.bucket),
  (py "key", asJson .str self.key),
  (py "uri", asJson .str self.uri),
  (py "versionId", asJson .str self.versionId),
  (py "contentType", asJson .str self.contentType),
  (py "checksum", asJson .str self.checksum),
  (py "sizeBytes", asJson .int self.sizeBytes),
  (py "metadata", .dict self.metadata)]

end StorageReference

/-- The `storage` of a document or a chunk. -/
def optionalStorage (payload : Dict) (label : PyStr) : Parse (Option StorageReference) :=
  match payload.get "storage" with
  | .null => .ok none
  | .dict raw => some <$> StorageReference.fromPayload raw label
  | _ => invalid (label ++ py " must be an object")

structure DocumentReference where
  documentId : PyStr
  title : Option PyStr
  sourceType : Option PyStr
  mimeType : Option PyStr
  fingerprint : Option PyStr
  storage : Option StorageReference
  metadata : Dict

namespace DocumentReference

def fromPayload (payload : Dict) : Parse DocumentReference := do
  let storage ← optionalStorage payload (py "document.storage")
  return {
    documentId := ← requiredString payload "documentId" (py "document.documentId")
    title := ← optionalString payload "title" (py "document.title")
    sourceType := ← optionalString payload "sourceType" (py "document.sourceType")
    mimeType := ← optionalString payload "mimeType" (py "document.mimeType")
    fingerprint := ← optionalString payload "fingerprint" (py "document.fingerprint")
    storage
    metadata := ← optionalMapping payload "metadata" (py "document.metadata") }

def toPayload (self : DocumentReference) : Json := .dict [
  (py "documentId", .str self.documentId),
  (py "title", asJson .str self.title),
  (py "sourceType", asJson .str self.sourceType),
  (py "mimeType", asJson .str self.mimeType),
  (py "fingerprint", asJson .str self.fingerprint),
  (py "storage", asJson StorageReference.toPayload self.storage),
  (py "metadata", .dict self.metadata)]

end DocumentReference

structure ChunkReference where
  chunkId : PyStr
  index : Int
  text : Option PyStr
  documentId : Option PyStr
  tokenCount : Option Int
  storage : Option StorageReference
  metadata : Dict

namespace ChunkReference

def fromPayload (payload : Dict) (index : Nat) : Parse ChunkReference := do
  let chunkLabel := at_ (py "chunks") index
  let chunkIndex ← requiredInt payload "index" (dot chunkLabel (py "index"))
  refuse (chunkIndex < 0) (chunkLabel ++ py ".index must be a non-negative integer")
  let tokenCount ← optionalInt payload "tokenCount" (dot chunkLabel (py "tokenCount"))
  refuse (tokenCount.any (· < 0))
    (chunkLabel ++ py ".tokenCount must be a non-negative integer")
  let storage ← optionalStorage payload (dot chunkLabel (py "storage"))
  return {
    chunkId := ← requiredString payload "chunkId" (dot chunkLabel (py "chunkId"))
    documentId := ← optionalString payload "documentId" (dot chunkLabel (py "documentId"))
    index := chunkIndex
    text := ← optionalString payload "text" (dot chunkLabel (py "text"))
    tokenCount
    storage
    metadata := ← optionalMapping payload "metadata" (dot chunkLabel (py "metadata")) }

def toPayload (self : ChunkReference) : Json := .dict [
  (py "chunkId", .str self.chunkId),
  (py "documentId", asJson .str self.documentId),
  (py "index", .int self.index),
  (py "text", asJson .str self.text),
  (py "tokenCount", asJson .int self.tokenCount),
  (py "storage", asJson StorageReference.toPayload self.storage),
  (py "metadata", .dict self.metadata)]

end ChunkReference

structure VectorizeOptions where
  dimensions : Option Int := none
  normalize : Bool := false
  metadata : Dict := []

/-- A `dimensions` field, where there is one. -/
def positiveDimensions (value : Json) (message : PyStr) : Parse (Option Int) :=
  match value with
  | .null => .ok none
  | .int i => if i ≤ 0 then invalid message else .ok (some i)
  | _ => invalid message

namespace VectorizeOptions

/-- `payload.get("normalize", False)`. -/
def normalizeFlag (payload : Dict) : Parse Bool :=
  match getOr payload "normalize" (.bool false) with
  | .bool normalize => .ok normalize
  | _ => invalid (py "options.normalize must be a boolean")

def fromObject (payload : Dict) : Parse VectorizeOptions := do
  let dimensions ← positiveDimensions (payload.get "dimensions")
    (py "options.dimensions must be a positive integer")
  let normalize ← normalizeFlag payload
  let metadata ← optionalMapping payload "metadata" (py "options.metadata")
  return { dimensions, normalize, metadata }

def fromPayload : Json → Parse VectorizeOptions
  | .null => .ok {}
  | .dict payload => fromObject payload
  | _ => invalid (py "options must be an object")

def toPayload (self : VectorizeOptions) : Json := .dict [
  (py "dimensions", asJson .int self.dimensions),
  (py "normalize", .bool self.normalize),
  (py "metadata", .dict self.metadata)]

end VectorizeOptions

structure ArtifactRequest where
  artifactType : PyStr
  required : Bool
  parameters : Dict
  rawPayload : Dict

namespace ArtifactRequest

/-- `sorted(set(payload) - {"artifactType", "required", "parameters"})`. -/
def unknown (payload : Dict) : List PyStr :=
  ((payload.map (·.1)).eraseDups.filter fun key =>
    key ∉ [py "artifactType", py "required", py "parameters"]).insertionSort
      fun a b => PyStr.le a b

/-- `"dimensions" in parameters`, and then not a positive integer. -/
def badDimensions (parameters : Dict) : Bool :=
  match parameters.find (py "dimensions") with
  | none => false
  | some (.int i) => i ≤ 0
  | some _ => true

/-- `payload.get("required", False)`. -/
def requiredFlag (payload : Dict) (label : PyStr) : Parse Bool :=
  match getOr payload "required" (.bool false) with
  | .bool required => .ok required
  | _ => invalid (label ++ py ".required must be a boolean")

def fromObject (payload : Dict) (label : PyStr) : Parse ArtifactRequest := do
  let artifactType ← requiredString payload "artifactType" (dot label (py "artifactType"))
  let required ← requiredFlag payload label
  let parameters ← optionalMapping payload "parameters" (dot label (py "parameters"))
  refuse (unknown payload ≠ []) (label ++ py " contains unsupported fields: " ++
    PyStr.join (py ", ") (unknown payload))
  refuse (artifactType = py "embedding" && badDimensions parameters)
    (label ++ py ".parameters.dimensions must be a positive integer")
  refuse (required && artifactType ≠ py "embedding")
    (label ++ py ".artifactType " ++ artifactType ++ py " is not supported when required")
  return { artifactType, required, parameters, rawPayload := payload }

def fromPayload (payload : Json) (index : Nat) : Parse ArtifactRequest :=
  match payload with
  | .dict payload => fromObject payload (at_ (py "artifactRequests") index)
  | _ => invalid (at_ (py "artifactRequests") index ++ py " must be an object")

def toPayload (self : ArtifactRequest) : Json :=
  if self.rawPayload ≠ [] then .dict self.rawPayload
  else .dict [
    (py "artifactType", .str self.artifactType),
    (py "required", .bool self.required),
    (py "parameters", .dict self.parameters)]

end ArtifactRequest

/-- `for index, item in enumerate(items)`. -/
def enumerate (f : Json → Nat → Parse α) (index : Nat) : List Json → Parse (List α)
  | [] => .ok []
  | item :: rest => do
    let a ← f item index
    let as ← enumerate f (index + 1) rest
    return a :: as

def objectAt (label : PyStr) (f : Dict → Nat → Parse α) (item : Json) (index : Nat) : Parse α :=
  match item with
  | .dict payload => f payload index
  | _ => invalid (at_ label index ++ py " must be an object")

def requiredMapping (payload : Dict) (key : String) : Parse Dict :=
  match payload.get key with
  | .dict value => .ok value
  | _ => invalid (py key ++ py " must be an object")

def nonEmptyList (payload : Dict) (key : String) : Parse (List Json) :=
  match payload.get key with
  | .list [] => invalid (py key ++ py " must be a non-empty list")
  | .list items => .ok items
  | _ => invalid (py key ++ py " must be a non-empty list")

def listOrEmpty (payload : Dict) (key : String) : Parse (List Json) :=
  match getOr payload key (.list []) with
  | .list items => .ok items
  | _ => invalid (py key ++ py " must be a list")

def validateSchemaAliases (payload document : Dict) : List String → Parse Unit
  | [] => .ok ()
  | key :: rest =>
    let rootValue := payload.get key
    let nestedValue := document.get key
    if !rootValue.isNull && !nestedValue.isNull && !rootValue.pyEq nestedValue then
      invalid (py key ++ py " must match document." ++ py key ++ py " when both are provided")
    else validateSchemaAliases payload document rest

def optionalRootOrDocumentString (payload document : Dict) (key : String) :
    Parse (Option PyStr) :=
  if payload.has key then optionalString payload key (py key)
  else optionalString document key (dot (py "document") (py key))

structure DocumentVectorizeInput where
  routeId : PyStr
  documentId : PyStr
  manifestVersion : ManifestVersion
  destination : PyStr
  qualityScore : PyFloat
  document : DocumentReference
  chunks : List ChunkReference
  storageReferences : List StorageReference
  documentType : Option PyStr
  schemaId : Option PyStr
  schemaVersion : Option PyStr
  provenance : Dict
  artifactRequests : List ArtifactRequest
  correlationId : Option PyStr
  embeddingModel : Option PyStr
  classification : Json
  metadata : Dict
  options : VectorizeOptions

def ManifestVersion.toPayload : ManifestVersion → Json
  | .str s => .str s
  | .int i => .int i

/-- `str(request.manifest_version)`. -/
def ManifestVersion.toStr : ManifestVersion → PyStr
  | .str s => s
  | .int i => py (toString i)

namespace DocumentVectorizeInput

/-- The loop of `_validate_relationships` over the chunks. -/
def validateChunks (documentId : PyStr) (position : Nat) (chunkIds : List PyStr)
    (chunkIndices : List Int) : List ChunkReference → Parse Unit
  | [] => .ok ()
  | chunk :: rest =>
    let label := at_ (py "chunks") position
    if chunk.documentId.any (· ≠ documentId) then
      invalid (label ++ py ".documentId must match documentId")
    else if chunk.chunkId ∈ chunkIds then invalid (label ++ py ".chunkId must be unique")
    else if chunk.index ∈ chunkIndices then invalid (label ++ py ".index must be unique")
    else if chunk.index ≠ position then
      invalid (label ++ py ".index must equal its zero-based position")
    else if chunk.text.isNone && chunk.storage.isNone then
      invalid (label ++ py " must include text or storage")
    else validateChunks documentId (position + 1) (chunk.chunkId :: chunkIds)
      (chunk.index :: chunkIndices) rest

def validateArtifacts (options : VectorizeOptions) (position : Nat) :
    List ArtifactRequest → Parse Unit
  | [] => .ok ()
  | artifact :: rest =>
    let dimensions := artifact.parameters.get "dimensions"
    if artifact.artifactType = py "embedding" && !dimensions.isNull &&
        options.dimensions.any (fun d => !dimensions.pyEq (.int d)) then
      invalid (at_ (py "artifactRequests") position ++
        py ".parameters.dimensions must match options.dimensions")
    else validateArtifacts options (position + 1) rest

def validateRelationships (self : DocumentVectorizeInput) : Parse Unit := do
  refuse (!self.qualityScore.value?.any fun q => 0 ≤ q && q ≤ 1)
    (py "qualityScore must be between 0 and 1 inclusive")
  refuse (self.document.documentId ≠ self.documentId)
    (py "document.documentId must match documentId")
  refuse (self.schemaId.isNone ≠ self.schemaVersion.isNone)
    (py "schemaId and schemaVersion must be provided together")
  validateChunks self.documentId 0 [] [] self.chunks
  validateArtifacts self.options 0 self.artifactRequests

/-- `from_payload` on an object. -/
def fromObject (payload : Dict) : Parse DocumentVectorizeInput := do
  let routeId ← requiredString payload "routeId" (py "routeId")
  let documentId ← requiredString payload "documentId" (py "documentId")
  let manifestVersion ← requiredManifestVersion payload "manifestVersion"
  let destination ← requiredString payload "destination" (py "destination")
  refuse (destination ≠ py "vectorize") (py "destination must be 'vectorize'")
  let qualityScore ← requiredNumber payload "qualityScore" (py "qualityScore")
  let rawDocument ← requiredMapping payload "document"
  let document ← DocumentReference.fromPayload rawDocument
  let rawChunks ← nonEmptyList payload "chunks"
  let chunks ← enumerate (objectAt (py "chunks") ChunkReference.fromPayload) 0 rawChunks
  let rawStorageReferences ← listOrEmpty payload "storageReferences"
  let storageReferences ← enumerate (objectAt (py "storageReferences") fun raw index =>
    StorageReference.fromPayload raw (at_ (py "storageReferences") index)) 0 rawStorageReferences
  let rawArtifactRequests ← listOrEmpty payload "artifactRequests"
  let artifactRequests ← enumerate ArtifactRequest.fromPayload 0 rawArtifactRequests
  validateSchemaAliases payload rawDocument ["documentType", "schemaId", "schemaVersion"]
  let metadata ← optionalMapping payload "metadata" (py "metadata")
  let classification := payload.get "classification"
  validateFiniteNumbers (py "classification") classification
  let options ← VectorizeOptions.fromPayload (payload.get "options")
  let request : DocumentVectorizeInput := {
    routeId
    documentId
    manifestVersion
    destination
    qualityScore
    document
    chunks
    storageReferences
    documentType := ← optionalRootOrDocumentString payload rawDocument "documentType"
    schemaId := ← optionalRootOrDocumentString payload rawDocument "schemaId"
    schemaVersion := ← optionalRootOrDocumentString payload rawDocument "schemaVersion"
    provenance := ← optionalMapping payload "provenance" (py "provenance")
    artifactRequests
    correlationId := ← optionalString payload "correlationId" (py "correlationId")
    embeddingModel := ← optionalString payload "embeddingModel" (py "embeddingModel")
    classification
    metadata
    options }
  request.validateRelationships
  return request

def fromPayload : Json → Parse DocumentVectorizeInput
  | .dict payload => fromObject payload
  | _ => invalid (py "document.vectorize payload must be an object")

def toPayload (self : DocumentVectorizeInput) : Dict := [
  (py "routeId", .str self.routeId),
  (py "documentId", .str self.documentId),
  (py "manifestVersion", self.manifestVersion.toPayload),
  (py "destination", .str self.destination),
  (py "qualityScore", .float self.qualityScore),
  (py "correlationId", asJson .str self.correlationId),
  (py "embeddingModel", asJson .str self.embeddingModel),
  (py "classification", self.classification),
  (py "documentType", asJson .str self.documentType),
  (py "schemaId", asJson .str self.schemaId),
  (py "schemaVersion", asJson .str self.schemaVersion),
  (py "provenance", .dict self.provenance),
  (py "artifactRequests", .list (self.artifactRequests.map (·.toPayload))),
  (py "document", self.document.toPayload),
  (py "chunks", .list (self.chunks.map (·.toPayload))),
  (py "storageReferences", .list (self.storageReferences.map (·.toPayload))),
  (py "metadata", .dict self.metadata),
  (py "options", self.options.toPayload)]

end DocumentVectorizeInput

/-- `DocumentVectorizeError`. -/
structure DocumentVectorizeError where
  code : PyStr
  message : PyStr
  documentId : Option PyStr := none
  provider : Option PyStr := none
  model : Option PyStr := none
  details : Dict := []
  retryable : Bool := false

def DocumentVectorizeError.toPayload (self : DocumentVectorizeError) : Dict := [
  (py "code", .str self.code),
  (py "message", .str self.message),
  (py "documentId", asJson .str self.documentId),
  (py "provider", asJson .str self.provider),
  (py "model", asJson .str self.model),
  (py "details", .dict self.details),
  (py "retryable", .bool self.retryable)]

end PrismPipe.Document
