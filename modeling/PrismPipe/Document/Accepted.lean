import PrismPipe.Document.RoundTrip

/-! An accepted payload, field by field, and what may change in it without another request coming
of it. -/

namespace PrismPipe.Document

open Python

section Readers

variable {p q : Dict} {key : String} (h : p.find (py key) = q.find (py key))

include h

theorem get_congr : p.get key = q.get key := by
  rw [Dict.get, Dict.get, h]

theorem requiredString_congr : requiredString p key = requiredString q key := by
  funext label
  rw [requiredString, requiredString, get_congr h]

theorem requiredManifestVersion_congr :
    requiredManifestVersion p key = requiredManifestVersion q key := by
  rw [requiredManifestVersion, requiredManifestVersion, get_congr h]

theorem requiredNumber_congr : requiredNumber p key = requiredNumber q key := by
  funext label
  rw [requiredNumber, requiredNumber, get_congr h]

theorem requiredInt_congr : requiredInt p key = requiredInt q key := by
  funext label
  rw [requiredInt, requiredInt, get_congr h]

theorem optionalInt_congr : optionalInt p key = optionalInt q key := by
  funext label
  rw [optionalInt, optionalInt, get_congr h]

theorem optionalString_congr : optionalString p key = optionalString q key := by
  funext label
  rw [optionalString, optionalString, get_congr h]

theorem optionalMapping_congr : optionalMapping p key = optionalMapping q key := by
  funext label
  rw [optionalMapping, optionalMapping, get_congr h]

theorem requiredMapping_congr : requiredMapping p key = requiredMapping q key := by
  rw [requiredMapping, requiredMapping, get_congr h]

theorem nonEmptyList_congr : nonEmptyList p key = nonEmptyList q key := by
  rw [nonEmptyList, nonEmptyList, get_congr h]

theorem listOrEmpty_congr : listOrEmpty p key = listOrEmpty q key := by
  rw [listOrEmpty, listOrEmpty, getOr, getOr, h]

theorem optionalRootOrDocumentString_congr (document : Dict) :
    optionalRootOrDocumentString p document key = optionalRootOrDocumentString q document key := by
  rw [optionalRootOrDocumentString, optionalRootOrDocumentString, Dict.has, Dict.has, h,
    optionalString_congr h]

end Readers

theorem validateSchemaAliases_congr {p q : Dict} (document : Dict) {keys : List String}
    (h : ∀ key ∈ keys, p.get key = q.get key) :
    validateSchemaAliases p document keys = validateSchemaAliases q document keys := by
  induction keys with
  | nil => rfl
  | cons key keys ih =>
    rw [validateSchemaAliases, validateSchemaAliases, h key List.mem_cons_self,
      ih fun k hk => h k (List.mem_cons_of_mem _ hk)]

/-- The fields that may stand at the root or under `document`. -/
inductive Alias
  | documentType
  | schemaId
  | schemaVersion

namespace Alias

def key : Alias → String
  | documentType => "documentType"
  | schemaId => "schemaId"
  | schemaVersion => "schemaVersion"

def field (r : DocumentVectorizeInput) : Alias → Option PyStr
  | documentType => r.documentType
  | schemaId => r.schemaId
  | schemaVersion => r.schemaVersion

theorem key_mem (a : Alias) : a.key ∈ ["documentType", "schemaId", "schemaVersion"] := by
  cases a <;> decide

end Alias

namespace DocumentVectorizeInput

theorem Reads.alias (h : Reads payload rawDocument r) (a : Alias) :
    optionalRootOrDocumentString payload rawDocument a.key = .ok (a.field r) := by
  cases a with
  | documentType => exact h.documentType
  | schemaId => exact h.schemaId
  | schemaVersion => exact h.schemaVersion

theorem Reads.congr {p q : Dict} {cs : List ChunkReference} (hr : Reads p rawDocument r)
    (hf : ∀ key ∉ ["chunks", "documentType", "schemaId", "schemaVersion"],
      p.find (py key) = q.find (py key))
    (hc : ∃ raw, nonEmptyList q "chunks" = .ok raw ∧
      enumerate (objectAt (py "chunks") ChunkReference.fromPayload) 0 raw = .ok cs)
    (ha : validateSchemaAliases q rawDocument ["documentType", "schemaId", "schemaVersion"] = .ok ())
    (hroot : ∀ a : Alias, optionalRootOrDocumentString q rawDocument a.key = .ok (a.field r))
    (hv : validateRelationships { r with chunks := cs } = .ok ()) :
    Reads q rawDocument { r with chunks := cs } where
  routeId := requiredString_congr (hf "routeId" (by decide)) ▸ hr.routeId
  documentId := requiredString_congr (hf "documentId" (by decide)) ▸ hr.documentId
  manifestVersion :=
    requiredManifestVersion_congr (hf "manifestVersion" (by decide)) ▸ hr.manifestVersion
  destination := requiredString_congr (hf "destination" (by decide)) ▸ hr.destination
  vectorize := hr.vectorize
  qualityScore := requiredNumber_congr (hf "qualityScore" (by decide)) ▸ hr.qualityScore
  raw := requiredMapping_congr (hf "document" (by decide)) ▸ hr.raw
  document := hr.document
  chunks := hc
  storageReferences :=
    listOrEmpty_congr (hf "storageReferences" (by decide)) ▸ hr.storageReferences
  artifactRequests := listOrEmpty_congr (hf "artifactRequests" (by decide)) ▸ hr.artifactRequests
  aliases := ha
  metadata := optionalMapping_congr (hf "metadata" (by decide)) ▸ hr.metadata
  classification := get_congr (hf "classification" (by decide)) ▸ hr.classification
  finite := hr.finite
  options := get_congr (hf "options" (by decide)) ▸ hr.options
  documentType := hroot .documentType
  schemaId := hroot .schemaId
  schemaVersion := hroot .schemaVersion
  provenance := optionalMapping_congr (hf "provenance" (by decide)) ▸ hr.provenance
  correlationId := optionalString_congr (hf "correlationId" (by decide)) ▸ hr.correlationId
  embeddingModel := optionalString_congr (hf "embeddingModel" (by decide)) ▸ hr.embeddingModel
  relationships := hv

theorem Reads.chunks_ne_nil (h : Reads payload rawDocument r) : r.chunks ≠ [] := by
  obtain ⟨raw, hraw, hc⟩ := h.chunks
  unfold nonEmptyList at hraw
  split at hraw
  · cases hraw
  next hne _ =>
    cases hraw
    cases raw with
    | nil => exact absurd rfl hne
    | cons item items =>
      obtain ⟨_, -, hc⟩ := bind_eq_ok hc
      obtain ⟨_, -, hc⟩ := bind_eq_ok hc
      rw [← Except.ok.inj hc]
      exact List.cons_ne_nil _ _
  · cases hraw

end DocumentVectorizeInput

end PrismPipe.Document
