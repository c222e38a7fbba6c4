import PrismPipe.Document.Aliases

/-! What every request that `from_payload` returns satisfies. -/

namespace PrismPipe.Document

open Python

/-- It has what `storage_key` builds a key from. -/
structure StorageReference.Located (s : StorageReference) : Prop where
  named : given s.uri ∨ given s.key
  keyed : s.bucket.isSome → given s.key

namespace DocumentVectorizeInput

def storages (r : DocumentVectorizeInput) : List StorageReference :=
  r.document.storage.toList ++ r.chunks.filterMap (·.storage) ++ r.storageReferences

def mappings (r : DocumentVectorizeInput) : List Dict :=
  [r.metadata, r.provenance, r.options.metadata, r.document.metadata] ++
    r.chunks.map (·.metadata) ++ r.storages.map (·.metadata) ++
    r.artifactRequests.map (·.parameters)

structure Valid (r : DocumentVectorizeInput) : Prop where
  chunks : r.chunks ≠ []
  index : ∀ (i : Nat) (c : ChunkReference), r.chunks[i]? = some c → c.index = i
  chunkIds : (r.chunks.map (·.chunkId)).Nodup
  content : ∀ c ∈ r.chunks, c.text.isSome ∨ c.storage.isSome
  chunkDocument : ∀ c ∈ r.chunks, ∀ id, c.documentId = some id → id = r.documentId
  document : r.document.documentId = r.documentId
  located : ∀ s ∈ r.storages, s.Located
  schema : r.schemaId.isSome ↔ r.schemaVersion.isSome
  qualityScore : ∃ q, r.qualityScore.value? = some q ∧ 0 ≤ q ∧ q ≤ 1
  dimensions : ∀ a ∈ r.artifactRequests, a.artifactType = py "embedding" →
    ∀ v, a.parameters.find (py "dimensions") = some v →
      ∀ d, r.options.dimensions = some d → v = .int d
  finite : ∀ m ∈ r.mappings, Json.finite (.dict m)
  classification : r.classification.finite

end DocumentVectorizeInput

theorem optionalString_given (h : optionalString payload key label = .ok v) :
    given v = v.isSome := by
  unfold optionalString at h
  split at h
  · cases h
    rfl
  next s _ =>
    split at h
    · cases h
    next hb =>
      cases h
      cases s with
      | nil => exact absurd rfl hb
      | cons => rfl
  · cases h

theorem StorageReference.fromPayload_located (h : fromPayload payload label = .ok r) :
    r.Located ∧ Json.finite (.dict r.metadata) := by
  have hr := fromPayload_iff.mp h
  refine ⟨?_, optionalMapping_finite hr.metadata⟩
  have hv := hr.validated
  unfold validate at hv
  split at hv
  · cases hv
  next hn =>
    split at hv
    · cases hv
    next hkey =>
      have hb := optionalString_given hr.bucket
      exact ⟨by grind, by grind⟩

theorem optionalStorage_located (h : optionalStorage payload label = .ok storage) :
    ∀ s ∈ storage, s.Located ∧ Json.finite (.dict s.metadata) := by
  unfold optionalStorage at h
  split at h
  · cases h
    exact nofun
  next raw _ =>
    cases hr : StorageReference.fromPayload raw label with
    | error e =>
      rw [hr] at h
      cases h
    | ok r =>
      rw [hr] at h
      cases h
      rintro s ⟨⟩
      exact StorageReference.fromPayload_located hr
  · cases h

theorem VectorizeOptions.fromPayload_metadata (h : fromPayload payload = .ok r) :
    Json.finite (.dict r.metadata) := by
  unfold fromPayload at h
  split at h
  · cases h
    rfl
  · obtain ⟨dimensions, -, h⟩ := bind_eq_ok h
    obtain ⟨normalize, -, h⟩ := bind_eq_ok h
    obtain ⟨metadata, hm, h⟩ := bind_eq_ok h
    cases h
    exact optionalMapping_finite hm
  · cases h

theorem ArtifactRequest.badDimensions_eq_false {parameters : Dict}
    (h : badDimensions parameters = false)
    (hv : parameters.find (py "dimensions") = some v) : ∃ i, v = .int i := by
  rw [badDimensions, hv] at h
  cases v with
  | int i => exact ⟨i, rfl⟩
  | null | bool | float | str | list | dict => cases h

theorem ArtifactRequest.fromPayload_valid (h : fromPayload payload i = .ok r) :
    Json.finite (.dict r.parameters) ∧ (r.artifactType = py "embedding" →
      ∀ v, r.parameters.find (py "dimensions") = some v → ∃ i, v = .int i) := by
  obtain ⟨d, rfl, hr⟩ := fromPayload_iff.mp h
  refine ⟨optionalMapping_finite hr.parameters, fun ha v hv => ?_⟩
  have hd := refuse_eq_ok hr.dimensions
  rw [decide_eq_true ha, Bool.true_and] at hd
  exact badDimensions_eq_false hd hv

namespace DocumentVectorizeInput

structure ChunksFrom (documentId : PyStr) (position : Nat) (ids : List PyStr)
    (chunks : List ChunkReference) : Prop where
  index : ∀ (i : Nat) (c : ChunkReference), chunks[i]? = some c → c.index = position + i
  chunkIds : (chunks.map (·.chunkId)).Nodup
  fresh : ∀ c ∈ chunks, c.chunkId ∉ ids
  content : ∀ c ∈ chunks, c.text.isSome ∨ c.storage.isSome
  chunkDocument : ∀ c ∈ chunks, ∀ id, c.documentId = some id → id = documentId

section Chunks

variable {documentId : PyStr} {position : Nat} {ids : List PyStr}

theorem ChunksFrom.nil : ChunksFrom documentId position ids [] where
  index i c hc := by
    rw [List.getElem?_nil] at hc
    cases hc
  chunkIds := List.nodup_nil
  fresh := List.forall_mem_nil _
  content := List.forall_mem_nil _
  chunkDocument := List.forall_mem_nil _

theorem ChunksFrom.cons {chunk : ChunkReference} (h : ChunksFrom documentId (position + 1)
    (chunk.chunkId :: ids) rest) (hi : chunk.index = position) (hid : chunk.chunkId ∉ ids)
    (hc : chunk.text.isSome ∨ chunk.storage.isSome)
    (hd : ∀ id, chunk.documentId = some id → id = documentId) :
    ChunksFrom documentId position ids (chunk :: rest) where
  index i c hc := by
    cases i with
    | zero =>
      rw [← Option.some.inj hc, hi, Nat.cast_zero, Int.add_zero]
    | succ i =>
      rw [h.index i c hc]
      push_cast
      omega
  chunkIds := by
    refine List.nodup_cons.mpr ⟨fun hm => ?_, h.chunkIds⟩
    obtain ⟨c, hc, he⟩ := List.mem_map.mp hm
    exact h.fresh c hc (he ▸ List.mem_cons_self)
  fresh := List.forall_mem_cons.mpr
    ⟨hid, fun c hc hm => h.fresh c hc (List.mem_cons_of_mem _ hm)⟩
  content := List.forall_mem_cons.mpr ⟨hc, h.content⟩
  chunkDocument := List.forall_mem_cons.mpr ⟨hd, h.chunkDocument⟩

theorem validateChunks_eq_ok {chunks : List ChunkReference}
    (h : validateChunks documentId position ids indices chunks = .ok ()) :
    ChunksFrom documentId position ids chunks := by
  induction chunks generalizing position ids indices with
  | nil => exact .nil
  | cons chunk rest ih =>
    unfold validateChunks at h
    dsimp only at h
    split at h
    · cases h
    next hdoc =>
      split at h
      · cases h
      next hid =>
        split at h
        · cases h
        · split at h
          · cases h
          next hindex =>
            split at h
            · cases h
            next htext =>
              refine (ih h).cons (by simpa using hindex) hid ?_ fun id he => ?_
              · cases ht : chunk.text <;> cases hs : chunk.storage <;> simp [ht, hs] at htext ⊢
              · rw [he] at hdoc
                simpa using hdoc

end Chunks

theorem validateArtifacts_eq_ok {options : VectorizeOptions} :
    ∀ {artifacts : List ArtifactRequest} {position : Nat},
      validateArtifacts options position artifacts = .ok () →
      ∀ a ∈ artifacts, a.artifactType = py "embedding" →
        ∀ i, a.parameters.find (py "dimensions") = some (.int i) →
          ∀ d, options.dimensions = some d → i = d
  | [], _, _ => nofun
  | artifact :: rest, position, h => by
    unfold validateArtifacts at h
    dsimp only at h
    split at h
    · cases h
    next hn =>
      refine List.forall_mem_cons.mpr ⟨fun ha i hi d hd => ?_, validateArtifacts_eq_ok h⟩
      have hg : artifact.parameters.get "dimensions" = .int i := by
        rw [Dict.get, hi, Option.getD_some]
      rw [hg, hd] at hn
      simpa [ha, Json.isNull, Json.pyEq, Json.same, Json.number?] using hn

theorem validateRelationships_eq_ok {r : DocumentVectorizeInput}
    (h : r.validateRelationships = .ok ()) :
    (∃ q, r.qualityScore.value? = some q ∧ 0 ≤ q ∧ q ≤ 1) ∧
      r.document.documentId = r.documentId ∧ (r.schemaId.isSome ↔ r.schemaVersion.isSome) ∧
      ChunksFrom r.documentId 0 [] r.chunks ∧
      validateArtifacts r.options 0 r.artifactRequests = .ok () := by
  obtain ⟨_, hq, h⟩ := bind_eq_ok h
  obtain ⟨_, hd, h⟩ := bind_eq_ok h
  obtain ⟨_, hs, h⟩ := bind_eq_ok h
  obtain ⟨_, hc, ha⟩ := bind_eq_ok h
  have hq := refuse_eq_ok hq
  have hd := refuse_eq_ok hd
  have hs := refuse_eq_ok hs
  refine ⟨?_, by simpa using hd, ?_, validateChunks_eq_ok hc, ha⟩
  · rw [Bool.not_eq_false', Option.any_eq_true_iff_get] at hq
    obtain ⟨hv, hq⟩ := hq
    exact ⟨_, (Option.some_get hv).symm, by simpa using hq⟩
  · cases hi : r.schemaId <;> cases hv : r.schemaVersion <;> simp [hi, hv] at hs ⊢

theorem Reads.valid (h : Reads payload rawDocument r) : r.Valid := by
  obtain ⟨hq, hd, hs, hc, ha⟩ := validateRelationships_eq_ok h.relationships
  have hdoc := DocumentReference.fromPayload_iff.mp h.document
  obtain ⟨rawChunks, -, hrc⟩ := h.chunks
  obtain ⟨rawStorageReferences, -, hrs⟩ := h.storageReferences
  obtain ⟨rawArtifactRequests, -, hra⟩ := h.artifactRequests
  have hcs : ∀ c ∈ r.chunks, (∀ s ∈ c.storage, s.Located ∧ Json.finite (.dict s.metadata)) ∧
      Json.finite (.dict c.metadata) := by
    refine enumerate_forall (fun item _ i c hf => ?_) hrc
    obtain ⟨d, -, hf⟩ := objectAt_eq_ok hf
    have hc := ChunkReference.fromPayload_iff.mp hf
    exact ⟨optionalStorage_located hc.storage, optionalMapping_finite hc.metadata⟩
  have hss : ∀ s ∈ r.storageReferences, s.Located ∧ Json.finite (.dict s.metadata) := by
    refine enumerate_forall (fun item _ i s hf => ?_) hrs
    obtain ⟨d, -, hf⟩ := objectAt_eq_ok hf
    exact StorageReference.fromPayload_located hf
  have has := enumerate_forall (fun item _ i a hf => ArtifactRequest.fromPayload_valid hf) hra
  have hst : ∀ s ∈ r.storages, s.Located ∧ Json.finite (.dict s.metadata) := by
    intro s hm
    simp only [storages, List.mem_append, Option.mem_toList, List.mem_filterMap] at hm
    rcases hm with (hm | ⟨c, hc, hm⟩) | hm
    · exact optionalStorage_located hdoc.storage s hm
    · exact (hcs c hc).1 s hm
    · exact hss s hm
  refine {
    chunks := h.chunks_ne_nil
    index := fun i c hi => by simpa using hc.index i c hi
    chunkIds := hc.chunkIds
    content := hc.content
    chunkDocument := hc.chunkDocument
    document := hd
    located := fun s hm => (hst s hm).1
    schema := hs
    qualityScore := hq
    dimensions := fun a hm ht v hv d ho => ?_
    finite := fun m hm => ?_
    classification := finite_of_validate _ _ h.finite }
  · obtain ⟨i, rfl⟩ := (has a hm).2 ht v hv
    rw [validateArtifacts_eq_ok ha a hm ht i hv d ho]
  · simp only [mappings, List.mem_append, List.mem_map, List.mem_cons, List.not_mem_nil,
      or_false] at hm
    rcases hm with (((rfl | rfl | rfl | rfl) | ⟨c, hm, rfl⟩) | ⟨s, hm, rfl⟩) | ⟨a, hm, rfl⟩
    · exact optionalMapping_finite h.metadata
    · exact optionalMapping_finite h.provenance
    · exact VectorizeOptions.fromPayload_metadata h.options
    · exact optionalMapping_finite hdoc.metadata
    · exact (hcs c hm).2
    · exact (hst s hm).2
    · exact (has a hm).1

theorem fromPayload_valid {payload : Json} (h : fromPayload payload = .ok r) : r.Valid := by
  obtain ⟨d, rawDocument, -, hr⟩ := fromPayload_iff.mp h
  exact hr.valid

end DocumentVectorizeInput

end PrismPipe.Document
