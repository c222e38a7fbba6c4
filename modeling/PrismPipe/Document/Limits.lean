import PrismPipe.Document.Accepted

/-! The contract as an interpreter of limited recursion checks it.  What does not recurse over the
payload is as it is without the limit. -/

namespace PrismPipe.Document

open Python

/-- What `from_payload` may raise there. -/
inductive LimitedError
  | payload (error : PayloadError)
  | recursion
  deriving DecidableEq

abbrev Limited := Except LimitedError

def lift : Parse α → Limited α
  | .ok a => .ok a
  | .error e => .error (.payload e)

/-- `room` is how many nested calls of `_validate_finite_numbers` the stack has room for where it
is called with the label, and `compares` whether it has for `!=` on two values. -/
structure Interpreter where
  room : PyStr → Nat
  compares : Json → Json → Bool

namespace Interpreter

def each (f : α → Except ε Unit) : List α → Except ε Unit
  | [] => .ok ()
  | a :: rest => do
    f a
    each f rest

/-- `_validate_finite_numbers`, with room for that many nested calls. -/
def validateFiniteNumbers : Nat → PyStr → Json → Limited Unit
  | 0, _, _ => .error .recursion
  | n + 1, label, .dict items =>
    each (fun field => validateFiniteNumbers n (dot label field.1) field.2) items
  | n + 1, label, .list items =>
    each (fun item => validateFiniteNumbers n (at_ label item.2) item.1) items.zipIdx
  | _ + 1, label, value => lift (Document.validateFiniteNumbers label value)

variable (x : Interpreter)

def optionalMapping (payload : Dict) (key : String) (label : PyStr) : Limited Dict :=
  match payload.get key with
  | .null => .ok []
  | .dict value => do
    validateFiniteNumbers (x.room label) label (.dict value)
    return value
  | _ => lift (invalid (label ++ py " must be an object"))

def storageReference (payload : Dict) (label : PyStr) : Limited StorageReference := do
  let sizeBytes ← lift (optionalInt payload "sizeBytes" (dot label (py "sizeBytes")))
  lift (refuse (sizeBytes.any (· < 0)) (label ++ py ".sizeBytes must be a non-negative integer"))
  let reference : StorageReference := {
    provider := ← lift (optionalString payload "provider" (dot label (py "provider")))
    bucket := ← lift (optionalString payload "bucket" (dot label (py "bucket")))
    key := ← lift (optionalString payload "key" (dot label (py "key")))
    uri := ← lift (optionalString payload "uri" (dot label (py "uri")))
    versionId := ← lift (optionalString payload "versionId" (dot label (py "versionId")))
    contentType := ← lift (optionalString payload "contentType" (dot label (py "contentType")))
    checksum := ← lift (optionalString payload "checksum" (dot label (py "checksum")))
    sizeBytes
    metadata := ← x.optionalMapping payload "metadata" (dot label (py "metadata")) }
  lift (reference.validate label)
  return reference

def optionalStorage (payload : Dict) (label : PyStr) : Limited (Option StorageReference) :=
  match payload.get "storage" with
  | .null => .ok none
  | .dict raw => some <$> x.storageReference raw label
  | _ => lift (invalid (label ++ py " must be an object"))

def documentReference (payload : Dict) : Limited DocumentReference := do
  let storage ← x.optionalStorage payload (py "document.storage")
  return {
    documentId := ← lift (requiredString payload "documentId" (py "document.documentId"))
    title := ← lift (optionalString payload "title" (py "document.title"))
    sourceType := ← lift (optionalString payload "sourceType" (py "document.sourceType"))
    mimeType := ← lift (optionalString payload "mimeType" (py "document.mimeType"))
    fingerprint := ← lift (optionalString payload "fingerprint" (py "document.fingerprint"))
    storage
    metadata := ← x.optionalMapping payload "metadata" (py "document.metadata") }

def chunkReference (payload : Dict) (index : Nat) : Limited ChunkReference := do
  let chunkLabel := at_ (py "chunks") index
  let chunkIndex ← lift (requiredInt payload "index" (dot chunkLabel (py "index")))
  lift (refuse (chunkIndex < 0) (chunkLabel ++ py ".index must be a non-negative integer"))
  let tokenCount ← lift (optionalInt payload "tokenCount" (dot chunkLabel (py "tokenCount")))
  lift (refuse (tokenCount.any (· < 0))
    (chunkLabel ++ py ".tokenCount must be a non-negative integer"))
  let storage ← x.optionalStorage payload (dot chunkLabel (py "storage"))
  return {
    chunkId := ← lift (requiredString payload "chunkId" (dot chunkLabel (py "chunkId")))
    documentId := ← lift (optionalString payload "documentId" (dot chunkLabel (py "documentId")))
    index := chunkIndex
    text := ← lift (optionalString payload "text" (dot chunkLabel (py "text")))
    tokenCount
    storage
    metadata := ← x.optionalMapping payload "metadata" (dot chunkLabel (py "metadata")) }

def vectorizeOptionsObject (payload : Dict) : Limited VectorizeOptions := do
  let dimensions ← lift (positiveDimensions (payload.get "dimensions")
    (py "options.dimensions must be a positive integer"))
  let normalize ← lift (VectorizeOptions.normalizeFlag payload)
  let metadata ← x.optionalMapping payload "metadata" (py "options.metadata")
  return { dimensions, normalize, metadata }

def vectorizeOptions : Json → Limited VectorizeOptions
  | .null => .ok {}
  | .dict payload => x.vectorizeOptionsObject payload
  | _ => lift (invalid (py "options must be an object"))

def artifactRequestObject (payload : Dict) (label : PyStr) : Limited ArtifactRequest := do
  let artifactType ← lift (requiredString payload "artifactType" (dot label (py "artifactType")))
  let required ← lift (ArtifactRequest.requiredFlag payload label)
  let parameters ← x.optionalMapping payload "parameters" (dot label (py "parameters"))
  lift (refuse (ArtifactRequest.unknown payload ≠ []) (label ++
    py " contains unsupported fields: " ++
      PyStr.join (py ", ") (ArtifactRequest.unknown payload)))
  lift (refuse (artifactType = py "embedding" && ArtifactRequest.badDimensions parameters)
    (label ++ py ".parameters.dimensions must be a positive integer"))
  lift (refuse (required && artifactType ≠ py "embedding")
    (label ++ py ".artifactType " ++ artifactType ++ py " is not supported when required"))
  return { artifactType, required, parameters, rawPayload := payload }

def artifactRequest (item : Json) (index : Nat) : Limited ArtifactRequest :=
  match item with
  | .dict payload => x.artifactRequestObject payload (at_ (py "artifactRequests") index)
  | _ => lift (invalid (at_ (py "artifactRequests") index ++ py " must be an object"))

def enumerate (f : Json → Nat → Limited α) (index : Nat) : List Json → Limited (List α)
  | [] => .ok []
  | item :: rest => do
    let a ← f item index
    let as ← enumerate f (index + 1) rest
    return a :: as

def objectAt (label : PyStr) (f : Dict → Nat → Limited α) (item : Json) (index : Nat) :
    Limited α :=
  match item with
  | .dict payload => f payload index
  | _ => lift (invalid (at_ label index ++ py " must be an object"))

/-- `root_value != nested_value` goes into both, where both are there. -/
def validateSchemaAliases (payload document : Dict) : List String → Limited Unit
  | [] => .ok ()
  | key :: rest =>
    let rootValue := payload.get key
    let nestedValue := document.get key
    if !rootValue.isNull && !nestedValue.isNull then
      if !x.compares rootValue nestedValue then .error .recursion
      else if !rootValue.pyEq nestedValue then
        lift (invalid (py key ++ py " must match document." ++ py key ++
          py " when both are provided"))
      else validateSchemaAliases payload document rest
    else validateSchemaAliases payload document rest

def fromObject (payload : Dict) : Limited DocumentVectorizeInput := do
  let routeId ← lift (requiredString payload "routeId" (py "routeId"))
  let documentId ← lift (requiredString payload "documentId" (py "documentId"))
  let manifestVersion ← lift (requiredManifestVersion payload "manifestVersion")
  let destination ← lift (requiredString payload "destination" (py "destination"))
  lift (refuse (destination ≠ py "vectorize") (py "destination must be 'vectorize'"))
  let qualityScore ← lift (requiredNumber payload "qualityScore" (py "qualityScore"))
  let rawDocument ← lift (requiredMapping payload "document")
  let document ← x.documentReference rawDocument
  let rawChunks ← lift (nonEmptyList payload "chunks")
  let chunks ← enumerate (objectAt (py "chunks") x.chunkReference) 0 rawChunks
  let rawStorageReferences ← lift (listOrEmpty payload "storageReferences")
  let storageReferences ← enumerate (objectAt (py "storageReferences") fun raw index =>
    x.storageReference raw (at_ (py "storageReferences") index)) 0 rawStorageReferences
  let rawArtifactRequests ← lift (listOrEmpty payload "artifactRequests")
  let artifactRequests ← enumerate x.artifactRequest 0 rawArtifactRequests
  x.validateSchemaAliases payload rawDocument ["documentType", "schemaId", "schemaVersion"]
  let metadata ← x.optionalMapping payload "metadata" (py "metadata")
  let classification := payload.get "classification"
  validateFiniteNumbers (x.room (py "classification")) (py "classification") classification
  let options ← x.vectorizeOptions (payload.get "options")
  let documentType ← lift (optionalRootOrDocumentString payload rawDocument "documentType")
  let schemaId ← lift (optionalRootOrDocumentString payload rawDocument "schemaId")
  let schemaVersion ← lift (optionalRootOrDocumentString payload rawDocument "schemaVersion")
  let provenance ← x.optionalMapping payload "provenance" (py "provenance")
  let correlationId ← lift (optionalString payload "correlationId" (py "correlationId"))
  let embeddingModel ← lift (optionalString payload "embeddingModel" (py "embeddingModel"))
  let request : DocumentVectorizeInput := {
    routeId
    documentId
    manifestVersion
    destination
    qualityScore
    document
    chunks
    storageReferences
    documentType
    schemaId
    schemaVersion
    provenance
    artifactRequests
    correlationId
    embeddingModel
    classification
    metadata
    options }
  lift request.validateRelationships
  return request

def fromPayload : Json → Limited DocumentVectorizeInput
  | .dict payload => x.fromObject payload
  | _ => lift (invalid (py "document.vectorize payload must be an object"))

def ample : Interpreter where
  room _ := 1000
  compares _ _ := true

end Interpreter

def inlinePayload : Json := .dict [(py "routeId", .str (py "r")), (py "documentId", .str (py "d")),
  (py "manifestVersion", .int 1), (py "destination", .str (py "vectorize")),
  (py "qualityScore", .int 1), (py "document", .dict [(py "documentId", .str (py "d"))]),
  (py "chunks", .list [.dict [(py "chunkId", .str (py "c")), (py "index", .int 0),
    (py "text", .str (py "t"))]])]

def Erases (r : Limited α) (p : Parse α) : Prop := r = .error .recursion ∨ r = lift p

section Erases

variable {r : Limited α} {p : Parse α} {f : α → Limited β} {g : α → Parse β}

theorem Erases.of_lift (p : Parse α) : Erases (lift p) p := .inr rfl

theorem lift_bind (p : Parse α) (f : α → Parse β) :
    lift (p >>= f) = lift p >>= fun a => lift (f a) := by
  cases p <;> rfl

theorem Erases.bind (h : Erases r p) (hf : ∀ a, p = .ok a → Erases (f a) (g a)) :
    Erases (r >>= f) (p >>= g) := by
  rcases h with rfl | rfl
  · exact .inl rfl
  · cases p with
    | error e => exact .inr rfl
    | ok a => exact hf a rfl

theorem Erases.map (h : Erases r p) (f : α → β) : Erases (f <$> r) (f <$> p) := by
  rcases h with rfl | rfl
  · exact .inl rfl
  · cases p with
    | error e => exact .inr rfl
    | ok a => exact .inr rfl

theorem Erases.eq_ok (h : Erases r p) (hr : r = .ok a) : p = .ok a := by
  subst hr
  rcases h with h | h
  · cases h
  · cases p with
    | error e => cases h
    | ok b =>
      cases h
      rfl

end Erases

end PrismPipe.Document
