import PrismPipe.Document.Vectorize
import PrismPipe.Python.JsonLaws

/-! What each `from_payload` read, and the checks that passed when it returned. -/

namespace PrismPipe.Document

open Python

theorem bind_ok {x : Except ε α} {f : α → Except ε β} (h : x = .ok a) (hf : f a = .ok b) :
    x >>= f = .ok b := by
  rw [h]
  exact hf

namespace StorageReference

structure Reads (payload : Dict) (label : PyStr) (r : StorageReference) : Prop where
  sizeBytes : optionalInt payload "sizeBytes" (dot label (py "sizeBytes")) = .ok r.sizeBytes
  nonNegative : refuse (r.sizeBytes.any (· < 0))
    (label ++ py ".sizeBytes must be a non-negative integer") = .ok ()
  provider : optionalString payload "provider" (dot label (py "provider")) = .ok r.provider
  bucket : optionalString payload "bucket" (dot label (py "bucket")) = .ok r.bucket
  key : optionalString payload "key" (dot label (py "key")) = .ok r.key
  uri : optionalString payload "uri" (dot label (py "uri")) = .ok r.uri
  versionId : optionalString payload "versionId" (dot label (py "versionId")) = .ok r.versionId
  contentType : optionalString payload "contentType" (dot label (py "contentType")) =
    .ok r.contentType
  checksum : optionalString payload "checksum" (dot label (py "checksum")) = .ok r.checksum
  metadata : optionalMapping payload "metadata" (dot label (py "metadata")) = .ok r.metadata
  validated : r.validate label = .ok ()

theorem fromPayload_iff {payload : Dict} :
    fromPayload payload label = .ok r ↔ Reads payload label r := by
  constructor
  · intro h
    obtain ⟨sizeBytes, h1, h⟩ := bind_eq_ok h
    obtain ⟨_, h2, h⟩ := bind_eq_ok h
    obtain ⟨provider, h3, h⟩ := bind_eq_ok h
    obtain ⟨bucket, h4, h⟩ := bind_eq_ok h
    obtain ⟨key, h5, h⟩ := bind_eq_ok h
    obtain ⟨uri, h6, h⟩ := bind_eq_ok h
    obtain ⟨versionId, h7, h⟩ := bind_eq_ok h
    obtain ⟨contentType, h8, h⟩ := bind_eq_ok h
    obtain ⟨checksum, h9, h⟩ := bind_eq_ok h
    obtain ⟨metadata, h10, h⟩ := bind_eq_ok h
    obtain ⟨_, h11, h⟩ := bind_eq_ok h
    cases h
    exact ⟨h1, h2, h3, h4, h5, h6, h7, h8, h9, h10, h11⟩
  · intro h
    refine bind_ok h.sizeBytes (bind_ok h.nonNegative (bind_ok h.provider ?_))
    refine bind_ok h.bucket (bind_ok h.key (bind_ok h.uri (bind_ok h.versionId ?_)))
    refine bind_ok h.contentType (bind_ok h.checksum (bind_ok h.metadata ?_))
    exact bind_ok h.validated rfl

end StorageReference

namespace DocumentReference

structure Reads (payload : Dict) (r : DocumentReference) : Prop where
  storage : optionalStorage payload (py "document.storage") = .ok r.storage
  documentId : requiredString payload "documentId" (py "document.documentId") = .ok r.documentId
  title : optionalString payload "title" (py "document.title") = .ok r.title
  sourceType : optionalString payload "sourceType" (py "document.sourceType") = .ok r.sourceType
  mimeType : optionalString payload "mimeType" (py "document.mimeType") = .ok r.mimeType
  fingerprint : optionalString payload "fingerprint" (py "document.fingerprint") =
    .ok r.fingerprint
  metadata : optionalMapping payload "metadata" (py "document.metadata") = .ok r.metadata

theorem fromPayload_iff {payload : Dict} : fromPayload payload = .ok r ↔ Reads payload r := by
  constructor
  · intro h
    obtain ⟨storage, h1, h⟩ := bind_eq_ok h
    obtain ⟨documentId, h2, h⟩ := bind_eq_ok h
    obtain ⟨title, h3, h⟩ := bind_eq_ok h
    obtain ⟨sourceType, h4, h⟩ := bind_eq_ok h
    obtain ⟨mimeType, h5, h⟩ := bind_eq_ok h
    obtain ⟨fingerprint, h6, h⟩ := bind_eq_ok h
    obtain ⟨metadata, h7, h⟩ := bind_eq_ok h
    cases h
    exact ⟨h1, h2, h3, h4, h5, h6, h7⟩
  · intro h
    refine bind_ok h.storage (bind_ok h.documentId (bind_ok h.title (bind_ok h.sourceType ?_)))
    exact bind_ok h.mimeType (bind_ok h.fingerprint (bind_ok h.metadata rfl))

end DocumentReference

namespace ChunkReference

structure Reads (payload : Dict) (i : Nat) (r : ChunkReference) : Prop where
  index : requiredInt payload "index" (dot (at_ (py "chunks") i) (py "index")) = .ok r.index
  nonNegative : refuse (r.index < 0)
    (at_ (py "chunks") i ++ py ".index must be a non-negative integer") = .ok ()
  tokenCount : optionalInt payload "tokenCount" (dot (at_ (py "chunks") i) (py "tokenCount")) =
    .ok r.tokenCount
  tokens : refuse (r.tokenCount.any (· < 0))
    (at_ (py "chunks") i ++ py ".tokenCount must be a non-negative integer") = .ok ()
  storage : optionalStorage payload (dot (at_ (py "chunks") i) (py "storage")) = .ok r.storage
  chunkId : requiredString payload "chunkId" (dot (at_ (py "chunks") i) (py "chunkId")) =
    .ok r.chunkId
  documentId : optionalString payload "documentId" (dot (at_ (py "chunks") i) (py "documentId")) =
    .ok r.documentId
  text : optionalString payload "text" (dot (at_ (py "chunks") i) (py "text")) = .ok r.text
  metadata : optionalMapping payload "metadata" (dot (at_ (py "chunks") i) (py "metadata")) =
    .ok r.metadata

theorem fromPayload_iff {payload : Dict} : fromPayload payload i = .ok r ↔ Reads payload i r := by
  constructor
  · intro h
    obtain ⟨index, h1, h⟩ := bind_eq_ok h
    obtain ⟨_, h2, h⟩ := bind_eq_ok h
    obtain ⟨tokenCount, h3, h⟩ := bind_eq_ok h
    obtain ⟨_, h4, h⟩ := bind_eq_ok h
    obtain ⟨storage, h5, h⟩ := bind_eq_ok h
    obtain ⟨chunkId, h6, h⟩ := bind_eq_ok h
    obtain ⟨documentId, h7, h⟩ := bind_eq_ok h
    obtain ⟨text, h8, h⟩ := bind_eq_ok h
    obtain ⟨metadata, h9, h⟩ := bind_eq_ok h
    cases h
    exact ⟨h1, h2, h3, h4, h5, h6, h7, h8, h9⟩
  · intro h
    refine bind_ok h.index (bind_ok h.nonNegative (bind_ok h.tokenCount (bind_ok h.tokens ?_)))
    refine bind_ok h.storage (bind_ok h.chunkId (bind_ok h.documentId (bind_ok h.text ?_)))
    exact bind_ok h.metadata rfl

end ChunkReference

namespace ArtifactRequest

structure Reads (payload : Dict) (label : PyStr) (r : ArtifactRequest) : Prop where
  artifactType : requiredString payload "artifactType" (dot label (py "artifactType")) =
    .ok r.artifactType
  required : requiredFlag payload label = .ok r.required
  parameters : optionalMapping payload "parameters" (dot label (py "parameters")) =
    .ok r.parameters
  known : refuse (unknown payload ≠ []) (label ++ py " contains unsupported fields: " ++
    PyStr.join (py ", ") (unknown payload)) = .ok ()
  dimensions : refuse (r.artifactType = py "embedding" && badDimensions r.parameters)
    (label ++ py ".parameters.dimensions must be a positive integer") = .ok ()
  supported : refuse (r.required && r.artifactType ≠ py "embedding")
    (label ++ py ".artifactType " ++ r.artifactType ++ py " is not supported when required") =
      .ok ()
  rawPayload : r.rawPayload = payload

theorem fromObject_iff {payload : Dict} :
    fromObject payload label = .ok r ↔ Reads payload label r := by
  constructor
  · intro h
    obtain ⟨artifactType, h1, h⟩ := bind_eq_ok h
    obtain ⟨required, h2, h⟩ := bind_eq_ok h
    obtain ⟨parameters, h3, h⟩ := bind_eq_ok h
    obtain ⟨_, h4, h⟩ := bind_eq_ok h
    obtain ⟨_, h5, h⟩ := bind_eq_ok h
    obtain ⟨_, h6, h⟩ := bind_eq_ok h
    cases h
    exact ⟨h1, h2, h3, h4, h5, h6, rfl⟩
  · intro h
    refine bind_ok h.artifactType (bind_ok h.required (bind_ok h.parameters ?_))
    refine bind_ok h.known (bind_ok h.dimensions (bind_ok h.supported ?_))
    rw [← h.rawPayload]
    rfl

theorem fromPayload_iff {payload : Json} : fromPayload payload i = .ok r ↔
    ∃ d, payload = .dict d ∧ Reads d (at_ (py "artifactRequests") i) r := by
  constructor
  · intro h
    unfold fromPayload at h
    split at h
    next d => exact ⟨d, rfl, fromObject_iff.mp h⟩
    · cases h
  · rintro ⟨d, rfl, h⟩
    exact fromObject_iff.mpr h

end ArtifactRequest

theorem refuse_eq_ok (h : refuse condition message = .ok ()) : condition = false := by
  unfold refuse at h
  split at h
  · cases h
  next hc => exact Bool.eq_false_iff.mpr hc

namespace DocumentVectorizeInput

/-- The checks of `from_payload`, each passed. -/
structure Reads (payload rawDocument : Dict) (r : DocumentVectorizeInput) : Prop where
  routeId : requiredString payload "routeId" (py "routeId") = .ok r.routeId
  documentId : requiredString payload "documentId" (py "documentId") = .ok r.documentId
  manifestVersion : requiredManifestVersion payload "manifestVersion" = .ok r.manifestVersion
  destination : requiredString payload "destination" (py "destination") = .ok r.destination
  vectorize : r.destination = py "vectorize"
  qualityScore : requiredNumber payload "qualityScore" (py "qualityScore") = .ok r.qualityScore
  raw : requiredMapping payload "document" = .ok rawDocument
  document : DocumentReference.fromPayload rawDocument = .ok r.document
  chunks : ∃ raw, nonEmptyList payload "chunks" = .ok raw ∧
    enumerate (objectAt (py "chunks") ChunkReference.fromPayload) 0 raw = .ok r.chunks
  storageReferences : ∃ raw, listOrEmpty payload "storageReferences" = .ok raw ∧
    enumerate (objectAt (py "storageReferences") fun raw index =>
      StorageReference.fromPayload raw (at_ (py "storageReferences") index)) 0 raw =
        .ok r.storageReferences
  artifactRequests : ∃ raw, listOrEmpty payload "artifactRequests" = .ok raw ∧
    enumerate ArtifactRequest.fromPayload 0 raw = .ok r.artifactRequests
  aliases : validateSchemaAliases payload rawDocument
    ["documentType", "schemaId", "schemaVersion"] = .ok ()
  metadata : optionalMapping payload "metadata" (py "metadata") = .ok r.metadata
  classification : payload.get "classification" = r.classification
  finite : validateFiniteNumbers (py "classification") r.classification = .ok ()
  options : VectorizeOptions.fromPayload (payload.get "options") = .ok r.options
  documentType : optionalRootOrDocumentString payload rawDocument "documentType" =
    .ok r.documentType
  schemaId : optionalRootOrDocumentString payload rawDocument "schemaId" = .ok r.schemaId
  schemaVersion : optionalRootOrDocumentString payload rawDocument "schemaVersion" =
    .ok r.schemaVersion
  provenance : optionalMapping payload "provenance" (py "provenance") = .ok r.provenance
  correlationId : optionalString payload "correlationId" (py "correlationId") = .ok r.correlationId
  embeddingModel : optionalString payload "embeddingModel" (py "embeddingModel") =
    .ok r.embeddingModel
  relationships : r.validateRelationships = .ok ()

theorem refuse_ok {condition : Bool} (h : condition = false) : refuse condition message = .ok () :=
  if_neg (Bool.eq_false_iff.mp h)

theorem fromObject_iff {payload : Dict} :
    fromObject payload = .ok r ↔ ∃ rawDocument, Reads payload rawDocument r := by
  constructor
  · intro h
    obtain ⟨routeId, h1, h⟩ := bind_eq_ok h
    obtain ⟨documentId, h2, h⟩ := bind_eq_ok h
    obtain ⟨manifestVersion, h3, h⟩ := bind_eq_ok h
    obtain ⟨destination, h4, h⟩ := bind_eq_ok h
    obtain ⟨_, h5, h⟩ := bind_eq_ok h
    obtain ⟨qualityScore, h6, h⟩ := bind_eq_ok h
    obtain ⟨rawDocument, h7, h⟩ := bind_eq_ok h
    obtain ⟨document, h8, h⟩ := bind_eq_ok h
    obtain ⟨rawChunks, h9, h⟩ := bind_eq_ok h
    obtain ⟨chunks, h10, h⟩ := bind_eq_ok h
    obtain ⟨rawStorageReferences, h11, h⟩ := bind_eq_ok h
    obtain ⟨storageReferences, h12, h⟩ := bind_eq_ok h
    obtain ⟨rawArtifactRequests, h13, h⟩ := bind_eq_ok h
    obtain ⟨artifactRequests, h14, h⟩ := bind_eq_ok h
    obtain ⟨_, h15, h⟩ := bind_eq_ok h
    obtain ⟨metadata, h16, h⟩ := bind_eq_ok h
    obtain ⟨_, h17, h⟩ := bind_eq_ok h
    obtain ⟨options, h18, h⟩ := bind_eq_ok h
    obtain ⟨documentType, h19, h⟩ := bind_eq_ok h
    obtain ⟨schemaId, h20, h⟩ := bind_eq_ok h
    obtain ⟨schemaVersion, h21, h⟩ := bind_eq_ok h
    obtain ⟨provenance, h22, h⟩ := bind_eq_ok h
    obtain ⟨correlationId, h23, h⟩ := bind_eq_ok h
    obtain ⟨embeddingModel, h24, h⟩ := bind_eq_ok h
    obtain ⟨_, h25, h⟩ := bind_eq_ok h
    cases h
    exact ⟨rawDocument, h1, h2, h3, h4, by simpa using refuse_eq_ok h5, h6, h7, h8, ⟨_, h9, h10⟩,
      ⟨_, h11, h12⟩, ⟨_, h13, h14⟩, h15, h16, rfl, h17, h18, h19, h20, h21, h22, h23, h24, h25⟩
  · rintro ⟨rawDocument, h⟩
    obtain ⟨rawChunks, hr, hc⟩ := h.chunks
    obtain ⟨rawStorageReferences, hrs, hs⟩ := h.storageReferences
    obtain ⟨rawArtifactRequests, hra, ha⟩ := h.artifactRequests
    have hcl := h.finite
    rw [← h.classification] at hcl
    refine bind_ok h.routeId (bind_ok h.documentId (bind_ok h.manifestVersion ?_))
    refine bind_ok h.destination (bind_ok (refuse_ok (by simp [h.vectorize])) ?_)
    refine bind_ok h.qualityScore (bind_ok h.raw (bind_ok h.document ?_))
    refine bind_ok hr (bind_ok hc (bind_ok hrs (bind_ok hs (bind_ok hra (bind_ok ha ?_)))))
    refine bind_ok h.aliases (bind_ok h.metadata (bind_ok hcl (bind_ok h.options ?_)))
    refine bind_ok h.documentType (bind_ok h.schemaId (bind_ok h.schemaVersion ?_))
    refine bind_ok h.provenance (bind_ok h.correlationId (bind_ok h.embeddingModel ?_))
    rw [h.classification]
    exact bind_ok h.relationships rfl

theorem fromPayload_iff {payload : Json} : fromPayload payload = .ok r ↔
    ∃ d rawDocument, payload = .dict d ∧ Reads d rawDocument r := by
  constructor
  · intro h
    unfold fromPayload at h
    split at h
    next d =>
      obtain ⟨rawDocument, hr⟩ := fromObject_iff.mp h
      exact ⟨d, rawDocument, rfl, hr⟩
    · cases h
  · rintro ⟨d, rawDocument, rfl, h⟩
    exact fromObject_iff.mpr ⟨rawDocument, h⟩

end DocumentVectorizeInput

end PrismPipe.Document
