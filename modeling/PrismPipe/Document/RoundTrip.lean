import PrismPipe.Document.VectorizeLaws

/-! An accepted payload is accepted again as it is written back, its objects in whatever order,
and read as the same request. -/

namespace PrismPipe.Document

open Python

theorem fields_eq_ok {label : PyStr} {items : Dict} :
    validateFiniteNumbers.fields label items = .ok () ↔
      ∀ kv ∈ items, validateFiniteNumbers (dot label kv.1) kv.2 = .ok () := by
  induction items with
  | nil => exact ⟨fun _ => List.forall_mem_nil _, fun _ => rfl⟩
  | cons kv items ih =>
    rw [List.forall_mem_cons, ← ih]
    refine ⟨fun h => ?_, fun h => bind_ok h.1 h.2⟩
    obtain ⟨_, hi, hr⟩ := bind_eq_ok h
    exact ⟨hi, hr⟩

mutual

theorem validate_sortKeys : ∀ (j : Json) (label label' : PyStr),
    validateFiniteNumbers label j = .ok () → validateFiniteNumbers label' j.sortKeys = .ok ()
  | .null, _, _ | .bool _, _, _ | .str _, _, _ | .int _, _, _ => id
  | .float f, label, label' => by
    intro h
    have hf : f.isFinite := finite_of_validate _ _ h
    exact if_pos hf
  | .dict items, label, label' => by
    intro h
    rw [Json.sortKeys_dict, validateFiniteNumbers, fields_eq_ok]
    intro kv hkv
    rw [Json.sortedFields, List.mem_insertionSort] at hkv
    obtain ⟨old, hold, rfl⟩ := List.mem_map.mp hkv
    exact fields_sortKeys items label label' h old hold
  | .list items, label, label' => by
    intro h
    rw [Json.sortKeys_list]
    exact elements_sortKeys items label label' 0 0 h

theorem fields_sortKeys : ∀ (items : List (PyStr × Json)) (label label' : PyStr),
    validateFiniteNumbers.fields label items = .ok () →
    ∀ kv ∈ items, validateFiniteNumbers (dot label' kv.1) kv.2.sortKeys = .ok ()
  | [], _, _ => fun _ => List.forall_mem_nil _
  | (key, item) :: rest, label, label' => by
    intro h kv hkv
    obtain ⟨_, hi, hr⟩ := bind_eq_ok h
    rcases List.mem_cons.mp hkv with rfl | hkv
    · exact validate_sortKeys item _ _ hi
    · exact fields_sortKeys rest label label' hr kv hkv

theorem elements_sortKeys : ∀ (items : List Json) (label label' : PyStr) (i k : Nat),
    validateFiniteNumbers.elements label i items = .ok () →
    validateFiniteNumbers.elements label' k (items.map Json.sortKeys) = .ok ()
  | [], _, _, _, _ => fun _ => rfl
  | item :: rest, label, label', i, k => by
    intro h
    obtain ⟨_, hi, hr⟩ := bind_eq_ok h
    exact bind_ok (validate_sortKeys item _ _ hi) (elements_sortKeys rest label label' _ _ hr)

end

structure Rewriting where
  json : Json → Json
  dict : Dict → Dict
  json_null : json .null = .null
  json_bool (b : Bool) : json (.bool b) = .bool b
  json_int (i : Int) : json (.int i) = .int i
  json_float (f : PyFloat) : json (.float f) = .float f
  json_str (s : PyStr) : json (.str s) = .str s
  json_list (l : List Json) : json (.list l) = .list (l.map json)
  json_dict (d : Dict) : json (.dict d) = .dict (dict d)
  find_dict : ∀ {d : Dict}, (d.map (·.1)).Nodup → ∀ k, (dict d).find k = (d.find k).map json
  keys_dict (d : Dict) : ((dict d).map (·.1)).Perm (d.map (·.1))
  validate : ∀ {j : Json} {label : PyStr}, validateFiniteNumbers label j = .ok () →
    validateFiniteNumbers label (json j) = .ok ()

namespace Rewriting

attribute [simp] json_null json_bool json_int json_float json_str json_list json_dict

def same : Rewriting where
  json j := j
  dict d := d
  json_null := rfl
  json_bool _ := rfl
  json_int _ := rfl
  json_float _ := rfl
  json_str _ := rfl
  json_list l := by rw [List.map_id']
  json_dict _ := rfl
  find_dict _ _ := by rw [Option.map_id']
  keys_dict _ := .refl _
  validate h := h

def sorted : Rewriting where
  json := Json.sortKeys
  dict := Json.sortedFields
  json_null := rfl
  json_bool _ := rfl
  json_int _ := rfl
  json_float _ := rfl
  json_str _ := rfl
  json_list := Json.sortKeys_list
  json_dict := Json.sortKeys_dict
  find_dict := Json.find_sortedFields
  keys_dict := Json.keys_sortedFields
  validate h := validate_sortKeys _ _ _ h

variable (w : Rewriting)

@[simp] theorem json_asJson_str (v : Option PyStr) : w.json (asJson .str v) = asJson .str v := by
  cases v <;> simp [asJson]

@[simp] theorem json_asJson_int (v : Option Int) : w.json (asJson .int v) = asJson .int v := by
  cases v <;> simp [asJson]

@[simp] theorem json_manifestVersion (v : ManifestVersion) : w.json v.toPayload = v.toPayload := by
  cases v <;> simp [ManifestVersion.toPayload]

@[simp] theorem isNull_json (j : Json) : (w.json j).isNull = j.isNull := by
  cases j <;> simp [Json.isNull]

@[simp] theorem pyEq_int_json (j : Json) (i : Int) : (w.json j).pyEq (.int i) = j.pyEq (.int i) := by
  cases j <;> simp [Json.pyEq, Json.same]

theorem get_dict {d : Dict} (hn : (d.map (·.1)).Nodup) (key : String) :
    (w.dict d).get key = w.json (d.get key) := by
  rw [Dict.get, Dict.get, w.find_dict hn]
  cases d.find (py key) with
  | none => simp
  | some v => rfl

theorem getOr_dict {d : Dict} (hn : (d.map (·.1)).Nodup) (key : String) {default : Json}
    (hd : w.json default = default) :
    getOr (w.dict d) key default = w.json (getOr d key default) := by
  rw [getOr, getOr, w.find_dict hn]
  cases d.find (py key) with
  | none => exact hd.symm
  | some v => rfl

theorem has_dict {d : Dict} (hn : (d.map (·.1)).Nodup) (key : String) :
    (w.dict d).has key = d.has key := by
  rw [Dict.has, Dict.has, w.find_dict hn, Option.isSome_map]

end Rewriting

section Fields

variable {payload d : Dict} {label label' : PyStr}

theorem optionalString_again (h : optionalString payload key label = .ok v)
    (hg : d.get key' = asJson .str v) : optionalString d key' label' = .ok v := by
  unfold optionalString at h ⊢
  cases v with
  | none => rw [hg]; rfl
  | some s =>
    rw [hg]
    split at h
    · cases h
    · split at h
      · cases h
      next hb =>
        cases h
        exact if_neg hb
    · cases h

theorem requiredString_again (h : requiredString payload key label = .ok s)
    (hg : d.get key' = .str s) : requiredString d key' label' = .ok s := by
  unfold requiredString at h ⊢
  rw [hg]
  split at h
  · split at h
    · cases h
    next hb =>
      cases h
      exact if_neg hb
  · cases h

theorem optionalInt_again (hg : d.get key = asJson .int v) : optionalInt d key label = .ok v := by
  unfold optionalInt
  rw [hg]
  cases v <;> rfl

theorem requiredInt_again (hg : d.get key = .int i) : requiredInt d key label = .ok i := by
  unfold requiredInt
  rw [hg]

theorem requiredManifestVersion_again (h : requiredManifestVersion payload key = .ok v)
    (hg : d.get key' = v.toPayload) : requiredManifestVersion d key' = .ok v := by
  unfold requiredManifestVersion at h ⊢
  rw [hg]
  split at h
  · split at h
    · cases h
    next hb =>
      cases h
      exact if_neg hb
  · cases h
    rfl
  · cases h

theorem requiredNumber_again (h : requiredNumber payload key label = .ok f)
    (hg : d.get key' = .float f) : requiredNumber d key' label' = .ok f := by
  unfold requiredNumber
  rw [hg]
  exact if_pos (requiredNumber_finite h)

theorem optionalMapping_again (w : Rewriting) (h : optionalMapping payload key label = .ok m)
    (hg : d.get key' = .dict (w.dict m)) : optionalMapping d key' label = .ok (w.dict m) := by
  have hv : validateFiniteNumbers label (.dict m) = .ok () := by
    unfold optionalMapping at h
    split at h
    · cases h
      rfl
    · obtain ⟨_, hv, h⟩ := bind_eq_ok h
      cases h
      exact hv
    · cases h
  have hw := w.validate hv
  rw [w.json_dict] at hw
  unfold optionalMapping
  rw [hg]
  exact bind_ok hw rfl

end Fields

section Records

variable (w : Rewriting)

def StorageReference.rewrite (self : StorageReference) : StorageReference :=
  { self with metadata := w.dict self.metadata }

def DocumentReference.rewrite (self : DocumentReference) : DocumentReference :=
  { self with storage := self.storage.map (·.rewrite w), metadata := w.dict self.metadata }

def ChunkReference.rewrite (self : ChunkReference) : ChunkReference :=
  { self with storage := self.storage.map (·.rewrite w), metadata := w.dict self.metadata }

def VectorizeOptions.rewrite (self : VectorizeOptions) : VectorizeOptions :=
  { self with metadata := w.dict self.metadata }

def ArtifactRequest.rewrite (self : ArtifactRequest) : ArtifactRequest :=
  { self with parameters := w.dict self.parameters, rawPayload := w.dict self.rawPayload }

def DocumentVectorizeInput.rewrite (self : DocumentVectorizeInput) : DocumentVectorizeInput :=
  { self with
    document := self.document.rewrite w
    chunks := self.chunks.map (·.rewrite w)
    storageReferences := self.storageReferences.map (·.rewrite w)
    provenance := w.dict self.provenance
    artifactRequests := self.artifactRequests.map (·.rewrite w)
    classification := w.json self.classification
    metadata := w.dict self.metadata
    options := self.options.rewrite w }

theorem StorageReference.fromPayload_again (h : fromPayload payload label = .ok r) :
    ∃ d, w.json r.toPayload = .dict d ∧ fromPayload d label = .ok (r.rewrite w) := by
  have hr := fromPayload_iff.mp h
  refine ⟨_, w.json_dict _, fromPayload_iff.mpr ?_⟩
  have hg := w.get_dict (d := [
    (py "provider", asJson .str r.provider), (py "bucket", asJson .str r.bucket),
    (py "key", asJson .str r.key), (py "uri", asJson .str r.uri),
    (py "versionId", asJson .str r.versionId), (py "contentType", asJson .str r.contentType),
    (py "checksum", asJson .str r.checksum), (py "sizeBytes", asJson .int r.sizeBytes),
    (py "metadata", .dict r.metadata)]) (by simp [py_inj])
  exact {
    sizeBytes := optionalInt_again (by rw [hg]; simp [Dict.get, rewrite])
    nonNegative := hr.nonNegative
    provider := optionalString_again hr.provider (by rw [hg]; simp [Dict.get, rewrite])
    bucket := optionalString_again hr.bucket (by rw [hg]; simp [Dict.get, rewrite])
    key := optionalString_again hr.key (by rw [hg]; simp [Dict.get, rewrite])
    uri := optionalString_again hr.uri (by rw [hg]; simp [Dict.get, rewrite])
    versionId := optionalString_again hr.versionId (by rw [hg]; simp [Dict.get, rewrite])
    contentType := optionalString_again hr.contentType (by rw [hg]; simp [Dict.get, rewrite])
    checksum := optionalString_again hr.checksum (by rw [hg]; simp [Dict.get, rewrite])
    metadata := optionalMapping_again w hr.metadata (by rw [hg]; simp [Dict.get])
    validated := hr.validated }

theorem optionalStorage_again {payload d : Dict}
    (h : optionalStorage payload label = .ok storage)
    (hg : d.get "storage" = w.json (asJson StorageReference.toPayload storage)) :
    optionalStorage d label = .ok (storage.map (·.rewrite w)) := by
  unfold optionalStorage at h ⊢
  split at h
  · cases h
    rw [hg, show asJson StorageReference.toPayload none = .null from rfl, w.json_null]
    rfl
  next raw _ =>
    cases hr : StorageReference.fromPayload raw label with
    | error e =>
      rw [hr] at h
      cases h
    | ok r =>
      rw [hr] at h
      cases h
      obtain ⟨e, he, hok⟩ := StorageReference.fromPayload_again w hr
      rw [hg, show asJson StorageReference.toPayload (some r) = r.toPayload from rfl, he]
      dsimp only
      rw [hok]
      rfl
  · cases h

theorem DocumentReference.fromPayload_again (h : fromPayload payload = .ok r) :
    ∃ d, w.json r.toPayload = .dict d ∧ fromPayload d = .ok (r.rewrite w) := by
  have hr := fromPayload_iff.mp h
  refine ⟨_, w.json_dict _, fromPayload_iff.mpr ?_⟩
  have hg := w.get_dict (d := [
    (py "documentId", .str r.documentId), (py "title", asJson .str r.title),
    (py "sourceType", asJson .str r.sourceType), (py "mimeType", asJson .str r.mimeType),
    (py "fingerprint", asJson .str r.fingerprint),
    (py "storage", asJson StorageReference.toPayload r.storage),
    (py "metadata", .dict r.metadata)]) (by simp [py_inj])
  exact {
    storage := optionalStorage_again w hr.storage (by rw [hg]; simp [Dict.get])
    documentId := requiredString_again hr.documentId (by rw [hg]; simp [Dict.get, rewrite])
    title := optionalString_again hr.title (by rw [hg]; simp [Dict.get, rewrite])
    sourceType := optionalString_again hr.sourceType (by rw [hg]; simp [Dict.get, rewrite])
    mimeType := optionalString_again hr.mimeType (by rw [hg]; simp [Dict.get, rewrite])
    fingerprint := optionalString_again hr.fingerprint (by rw [hg]; simp [Dict.get, rewrite])
    metadata := optionalMapping_again w hr.metadata (by rw [hg]; simp [Dict.get]) }

theorem ChunkReference.fromPayload_again (h : fromPayload payload i = .ok r) :
    ∃ d, w.json r.toPayload = .dict d ∧ fromPayload d i = .ok (r.rewrite w) := by
  have hr := fromPayload_iff.mp h
  refine ⟨_, w.json_dict _, fromPayload_iff.mpr ?_⟩
  have hg := w.get_dict (d := [
    (py "chunkId", .str r.chunkId), (py "documentId", asJson .str r.documentId),
    (py "index", .int r.index), (py "text", asJson .str r.text),
    (py "tokenCount", asJson .int r.tokenCount),
    (py "storage", asJson StorageReference.toPayload r.storage),
    (py "metadata", .dict r.metadata)]) (by simp [py_inj])
  exact {
    index := requiredInt_again (by rw [hg]; simp [Dict.get, rewrite])
    nonNegative := hr.nonNegative
    tokenCount := optionalInt_again (by rw [hg]; simp [Dict.get, rewrite])
    tokens := hr.tokens
    storage := optionalStorage_again w hr.storage (by rw [hg]; simp [Dict.get])
    chunkId := requiredString_again hr.chunkId (by rw [hg]; simp [Dict.get, rewrite])
    documentId := optionalString_again hr.documentId (by rw [hg]; simp [Dict.get, rewrite])
    text := optionalString_again hr.text (by rw [hg]; simp [Dict.get, rewrite])
    metadata := optionalMapping_again w hr.metadata (by rw [hg]; simp [Dict.get]) }

theorem positiveDimensions_again (h : positiveDimensions j message = .ok v) :
    positiveDimensions (asJson .int v) message = .ok v := by
  unfold positiveDimensions at h
  split at h
  · cases h
    rfl
  · split at h
    · cases h
    next hi =>
      cases h
      exact if_neg hi
  · cases h

theorem normalizeFlag_again {d : Dict} (hg : getOr d "normalize" (.bool false) = .bool b) :
    VectorizeOptions.normalizeFlag d = .ok b := by
  rw [VectorizeOptions.normalizeFlag, hg]

theorem VectorizeOptions.fromObject_again (h : fromObject payload = .ok r) :
    fromPayload (w.json r.toPayload) = .ok (r.rewrite w) := by
  obtain ⟨dimensions, hd, h⟩ := bind_eq_ok h
  obtain ⟨normalize, hn, h⟩ := bind_eq_ok h
  obtain ⟨metadata, hm, h⟩ := bind_eq_ok h
  cases h
  rw [toPayload, w.json_dict]
  have hk : ([(py "dimensions", asJson .int dimensions), (py "normalize", .bool normalize),
    (py "metadata", .dict metadata)].map (·.1)).Nodup := by simp [py_inj]
  have hg := w.get_dict hk
  have hd' := positiveDimensions_again hd
  have hn' := normalizeFlag_again (b := normalize)
    ((w.getOr_dict hk "normalize" (w.json_bool false)).trans (by simp [getOr]))
  refine bind_ok (a := dimensions) (by rw [hg]; simpa [Dict.get] using hd') (bind_ok hn' ?_)
  exact bind_ok (optionalMapping_again w hm (by rw [hg]; simp [Dict.get])) rfl

theorem VectorizeOptions.fromPayload_again (h : fromPayload payload = .ok r) :
    fromPayload (w.json r.toPayload) = .ok (r.rewrite w) := by
  unfold fromPayload at h
  split at h
  · cases h
    exact fromObject_again w (show fromObject [] = .ok _ from rfl)
  · exact fromObject_again w h
  · cases h

theorem Rewriting.dict_nil : w.dict [] = [] := by
  have hk := w.keys_dict []
  rwa [List.map_nil, List.perm_nil, List.map_eq_nil_iff] at hk

theorem optionalMapping_rewritten {payload d : Dict} (h : optionalMapping payload key label = .ok m)
    (hg : d.get key = w.json (payload.get key)) : optionalMapping d key label = .ok (w.dict m) := by
  have ha (hd : d.get key = .dict (w.dict m)) : optionalMapping d key label = .ok (w.dict m) :=
    optionalMapping_again w h hd
  unfold optionalMapping at h
  split at h
  next hn =>
    cases h
    rw [hn, w.json_null] at hg
    rw [optionalMapping, hg, w.dict_nil]
  next value hv =>
    obtain ⟨_, -, h⟩ := bind_eq_ok h
    cases h
    rw [hv, w.json_dict] at hg
    exact ha hg
  · cases h

theorem optionalMapping_unique {payload : Dict} (hu : Json.unique (.dict payload))
    (h : optionalMapping payload key label = .ok m) : (m.map (·.1)).Nodup := by
  unfold optionalMapping at h
  split at h
  · cases h
    exact .nil
  next value hv =>
    obtain ⟨_, -, h⟩ := bind_eq_ok h
    cases h
    rw [Dict.get] at hv
    cases hf : payload.find (py key) with
    | none =>
      rw [hf] at hv
      cases hv
    | some v =>
      rw [hf, Option.getD_some] at hv
      exact (Json.unique_dict (hv ▸ Json.unique_find hu hf)).1
  · cases h

namespace ArtifactRequest

theorem unknown_eq_nil {payload : Dict} : unknown payload = [] ↔
    ∀ k ∈ payload.map (·.1), k ∈ [py "artifactType", py "required", py "parameters"] := by
  refine ⟨fun h k hk => ?_, fun h => ?_⟩
  · obtain ⟨kv, hkv, rfl⟩ := List.mem_map.mp hk
    exact mem_of_unknown h hkv
  · refine List.eq_nil_iff_forall_not_mem.mpr fun k hk => ?_
    rw [unknown, List.mem_insertionSort, List.mem_filter, List.mem_eraseDups] at hk
    exact absurd (h k hk.1) (of_decide_eq_true hk.2)

theorem badDimensions_rewritten {parameters : Dict} (hn : (parameters.map (·.1)).Nodup) :
    badDimensions (w.dict parameters) = badDimensions parameters := by
  rw [badDimensions, badDimensions, w.find_dict hn]
  cases parameters.find (py "dimensions") with
  | none => rfl
  | some v => cases v <;> simp

theorem fromPayload_again {payload : Json} (hu : payload.unique)
    (h : fromPayload payload i = .ok r) :
    fromPayload (w.json r.toPayload) i = .ok (r.rewrite w) ∧ (r.parameters.map (·.1)).Nodup := by
  obtain ⟨payload, rfl, hr⟩ := fromPayload_iff.mp h
  have hn := (Json.unique_dict hu).1
  have hm := optionalMapping_unique hu hr.parameters
  have hne : r.rawPayload ≠ [] := by
    rw [hr.rawPayload]
    rintro rfl
    cases hr.artifactType
  have hk : unknown (w.dict payload) = [] := by
    have hk : unknown payload = [] := by simpa using refuse_eq_ok hr.known
    rw [unknown_eq_nil] at hk ⊢
    exact fun k hk' => hk k ((w.keys_dict payload).mem_iff.mp hk')
  refine ⟨?_, hm⟩
  rw [toPayload, if_pos hne, hr.rawPayload, w.json_dict]
  have hd := hr.dimensions
  rw [← badDimensions_rewritten w hm] at hd
  exact fromPayload_iff.mpr ⟨_, rfl, {
    artifactType := requiredString_again hr.artifactType
      (by rw [w.get_dict hn, requiredString_get hr.artifactType, w.json_str]; rfl)
    required := by
      rw [requiredFlag, w.getOr_dict hn _ (w.json_bool false), requiredFlag_getOr hr.required,
        w.json_bool]
      rfl
    parameters := optionalMapping_rewritten w hr.parameters (w.get_dict hn _)
    known := by
      rw [hk]
      rfl
    dimensions := hd
    supported := hr.supported
    rawPayload := congrArg w.dict hr.rawPayload }⟩

end ArtifactRequest

theorem enumerate_again {f : Json → Nat → Parse α} {g : α → Json} {e : α → α}
    (hf : ∀ item ∈ items, ∀ i a, f item i = .ok a → f (w.json (g a)) i = .ok (e a))
    (h : enumerate f i items = .ok as) :
    enumerate f i ((as.map g).map w.json) = .ok (as.map e) := by
  induction items generalizing i as with
  | nil =>
    cases h
    rfl
  | cons item rest ih =>
    obtain ⟨a, ha, h⟩ := bind_eq_ok h
    obtain ⟨rest', hr, h⟩ := bind_eq_ok h
    cases h
    refine bind_ok (hf item List.mem_cons_self i a ha) ?_
    exact bind_ok (ih (fun item hi => hf item (List.mem_cons_of_mem _ hi)) hr) rfl

theorem objectAt_again {f : Dict → Nat → Parse α} {g : α → Json} {e : α → α}
    (hf : ∀ d i a, f d i = .ok a → ∃ d', w.json (g a) = .dict d' ∧ f d' i = .ok (e a))
    (h : objectAt label f item i = .ok a) : objectAt label f (w.json (g a)) i = .ok (e a) := by
  obtain ⟨d, -, h⟩ := objectAt_eq_ok h
  obtain ⟨d', hd, h⟩ := hf d i a h
  rw [hd]
  exact h

theorem nonEmptyList_again {d : Dict} (h : nonEmptyList payload key = .ok items)
    (he : enumerate f i items = .ok as) (hg : d.get key' = .list l)
    (hl : l.length = as.length) : nonEmptyList d key' = .ok l := by
  have hne : l ≠ [] := by
    rintro rfl
    cases as with
    | cons a as => cases hl
    | nil =>
      cases items with
      | cons item rest =>
        obtain ⟨_, -, he⟩ := bind_eq_ok he
        obtain ⟨_, -, he⟩ := bind_eq_ok he
        cases he
      | nil =>
        unfold nonEmptyList at h
        split at h
        · cases h
        next hi _ =>
          cases h
          exact hi rfl
        · cases h
  unfold nonEmptyList
  rw [hg]
  cases l with
  | nil => exact absurd rfl hne
  | cons j l => rfl

theorem listOrEmpty_again {d : Dict} (hg : getOr d key (.list []) = .list l) :
    listOrEmpty d key = .ok l := by
  unfold listOrEmpty
  rw [hg]

theorem requiredMapping_again {d : Dict} (hg : d.get key = .dict m) :
    requiredMapping d key = .ok m := by
  unfold requiredMapping
  rw [hg]

theorem chunks_again
    (h : enumerate (objectAt (py "chunks") ChunkReference.fromPayload) 0 items = .ok chunks) :
    enumerate (objectAt (py "chunks") ChunkReference.fromPayload) 0
      ((chunks.map (·.toPayload)).map w.json) = .ok (chunks.map (·.rewrite w)) := by
  refine enumerate_again w (fun item _ i c hf => ?_) h
  exact objectAt_again w (fun d i a ha => ChunkReference.fromPayload_again w ha) hf

theorem storageReferences_again
    (h : enumerate (objectAt (py "storageReferences") fun raw index =>
      StorageReference.fromPayload raw (at_ (py "storageReferences") index)) 0 items = .ok refs) :
    enumerate (objectAt (py "storageReferences") fun raw index =>
      StorageReference.fromPayload raw (at_ (py "storageReferences") index)) 0
      ((refs.map (·.toPayload)).map w.json) = .ok (refs.map (·.rewrite w)) := by
  refine enumerate_again w (fun item _ i c hf => ?_) h
  exact objectAt_again w (fun d i a ha => StorageReference.fromPayload_again w ha) hf

theorem artifactRequests_again (hu : ∀ j ∈ items, j.unique)
    (h : enumerate ArtifactRequest.fromPayload 0 items = .ok requests) :
    enumerate ArtifactRequest.fromPayload 0 ((requests.map (·.toPayload)).map w.json) =
      .ok (requests.map (·.rewrite w)) :=
  enumerate_again w (fun item hi _ _ hf =>
    (ArtifactRequest.fromPayload_again w (hu item hi) hf).1) h

theorem validateSchemaAliases_again {payload document : Dict} :
    ∀ {keys : List String}, (∀ key ∈ keys, document.get key = .null) →
      validateSchemaAliases payload document keys = .ok ()
  | [], _ => rfl
  | key :: rest, h => by
    unfold validateSchemaAliases
    dsimp only
    rw [h key List.mem_cons_self, if_neg (by simp [Json.isNull])]
    exact validateSchemaAliases_again fun k hk => h k (List.mem_cons_of_mem _ hk)

theorem DocumentReference.get_rewritten {self : DocumentReference} {d : Dict}
    (h : w.json self.toPayload = .dict d) :
    ∀ key ∈ ["documentType", "schemaId", "schemaVersion"], d.get key = .null := by
  rw [toPayload, w.json_dict] at h
  cases h
  intro key hk
  rw [w.get_dict (by simp [py_inj])]
  simp only [List.mem_cons, List.not_mem_nil, or_false] at hk
  rcases hk with rfl | rfl | rfl <;> simp [Dict.get]

theorem optionalRootOrDocumentString_again {payload document d e : Dict}
    (h : optionalRootOrDocumentString payload document key = .ok v)
    (hg : d.get key = asJson .str v) (hk : d.has key) :
    optionalRootOrDocumentString d e key = .ok v := by
  unfold optionalRootOrDocumentString at h ⊢
  rw [if_pos hk]
  split at h
  · exact optionalString_again h hg
  · exact optionalString_again h hg

namespace DocumentVectorizeInput

theorem validateChunks_rewrite (documentId : PyStr) : ∀ (chunks : List ChunkReference)
    (position : Nat) (ids : List PyStr) (indices : List Int),
    validateChunks documentId position ids indices (chunks.map (·.rewrite w)) =
      validateChunks documentId position ids indices chunks
  | [], _, _, _ => rfl
  | chunk :: rest, position, ids, indices => by
    rw [List.map_cons, validateChunks, validateChunks,
      validateChunks_rewrite documentId rest (position + 1)]
    simp only [ChunkReference.rewrite, Option.isNone_map]

theorem validateArtifacts_rewrite (options : VectorizeOptions) :
    ∀ (artifacts : List ArtifactRequest) (position : Nat),
      (∀ a ∈ artifacts, (a.parameters.map (·.1)).Nodup) →
      validateArtifacts (options.rewrite w) position (artifacts.map (·.rewrite w)) =
        validateArtifacts options position artifacts
  | [], _, _ => rfl
  | artifact :: rest, position, h => by
    have hg := w.get_dict (h artifact List.mem_cons_self) "dimensions"
    rw [List.map_cons, validateArtifacts, validateArtifacts, validateArtifacts_rewrite options rest
      (position + 1) fun a ha => h a (List.mem_cons_of_mem _ ha)]
    simp only [ArtifactRequest.rewrite, VectorizeOptions.rewrite, hg, w.isNull_json,
      w.pyEq_int_json]
    rfl

theorem validateRelationships_rewrite {r : DocumentVectorizeInput}
    (h : ∀ a ∈ r.artifactRequests, (a.parameters.map (·.1)).Nodup) :
    (r.rewrite w).validateRelationships = r.validateRelationships := by
  unfold validateRelationships
  dsimp only [rewrite, DocumentReference.rewrite]
  rw [validateChunks_rewrite, validateArtifacts_rewrite w r.options r.artifactRequests 0 h]
  rfl

theorem fromObject_again {payload : Dict} (hu : Json.unique (.dict payload))
    (h : fromObject payload = .ok r) : fromObject (w.dict r.toPayload) = .ok (r.rewrite w) := by
  obtain ⟨rawDocument, hr⟩ := fromObject_iff.mp h
  obtain ⟨rawChunks, hrc, hc⟩ := hr.chunks
  obtain ⟨rawStorageReferences, -, hs⟩ := hr.storageReferences
  obtain ⟨rawArtifactRequests, hra, har⟩ := hr.artifactRequests
  have hau := listOrEmpty_unique hu hra
  have hpn : ∀ a ∈ r.artifactRequests, (a.parameters.map (·.1)).Nodup :=
    enumerate_forall (fun item hi i a hf =>
      (ArtifactRequest.fromPayload_again .same (hau item hi) hf).2) har
  have hv := hr.relationships
  rw [← validateRelationships_rewrite w hpn] at hv
  generalize hout : r.toPayload = out
  have hk : (out.map (·.1)).Nodup := by
    rw [← hout]
    simp [toPayload, py_inj]
  have hg := w.get_dict hk
  have hgo := w.getOr_dict hk
  have hh := w.has_dict hk
  obtain ⟨rawDocument', hd', hdok⟩ := DocumentReference.fromPayload_again w hr.document
  have hnull := DocumentReference.get_rewritten w hd'
  have hcg : (w.dict out).get "classification" = w.json r.classification := by
    rw [hg, ← hout]
    simp [toPayload, Dict.get]
  have ho := VectorizeOptions.fromPayload_again w hr.options
  rw [show w.json r.options.toPayload = (w.dict out).get "options" by
    rw [hg, ← hout]; simp [toPayload, Dict.get]] at ho
  exact fromObject_iff.mpr ⟨rawDocument', {
    routeId := requiredString_again hr.routeId
      (by rw [hg, ← hout]; simp [toPayload, Dict.get, rewrite])
    documentId := requiredString_again hr.documentId
      (by rw [hg, ← hout]; simp [toPayload, Dict.get, rewrite])
    manifestVersion := requiredManifestVersion_again hr.manifestVersion
      (by rw [hg, ← hout]; simp [toPayload, Dict.get, rewrite])
    destination := requiredString_again hr.destination
      (by rw [hg, ← hout]; simp [toPayload, Dict.get, rewrite])
    vectorize := hr.vectorize
    qualityScore := requiredNumber_again hr.qualityScore
      (by rw [hg, ← hout]; simp [toPayload, Dict.get, rewrite])
    raw := requiredMapping_again (m := rawDocument')
      (by rw [hg, ← hd', ← hout]; simp [toPayload, Dict.get])
    document := hdok
    chunks := ⟨_, nonEmptyList_again hrc hc (by rw [hg, ← hout]; simp [toPayload, Dict.get])
      (by simp), chunks_again w hc⟩
    storageReferences := ⟨_, listOrEmpty_again
      (by rw [hgo _ (w.json_list []), ← hout]; simp [toPayload, getOr]),
      storageReferences_again w hs⟩
    artifactRequests := ⟨_, listOrEmpty_again
      (by rw [hgo _ (w.json_list []), ← hout]; simp [toPayload, getOr]),
      artifactRequests_again w hau har⟩
    aliases := validateSchemaAliases_again hnull
    metadata := optionalMapping_again w hr.metadata
      (by rw [hg, ← hout]; simp [toPayload, Dict.get])
    classification := hcg
    finite := w.validate hr.finite
    options := ho
    documentType := optionalRootOrDocumentString_again hr.documentType
      (by rw [hg, ← hout]; simp [toPayload, Dict.get, rewrite])
      (by rw [hh, ← hout]; simp [toPayload, Dict.has])
    schemaId := optionalRootOrDocumentString_again hr.schemaId
      (by rw [hg, ← hout]; simp [toPayload, Dict.get, rewrite])
      (by rw [hh, ← hout]; simp [toPayload, Dict.has])
    schemaVersion := optionalRootOrDocumentString_again hr.schemaVersion
      (by rw [hg, ← hout]; simp [toPayload, Dict.get, rewrite])
      (by rw [hh, ← hout]; simp [toPayload, Dict.has])
    provenance := optionalMapping_again w hr.provenance
      (by rw [hg, ← hout]; simp [toPayload, Dict.get])
    correlationId := optionalString_again hr.correlationId
      (by rw [hg, ← hout]; simp [toPayload, Dict.get, rewrite])
    embeddingModel := optionalString_again hr.embeddingModel
      (by rw [hg, ← hout]; simp [toPayload, Dict.get, rewrite])
    relationships := hv }⟩

theorem fromPayload_again {payload : Json} (hu : payload.unique)
    (h : fromPayload payload = .ok r) :
    fromPayload (w.json (.dict r.toPayload)) = .ok (r.rewrite w) := by
  unfold fromPayload at h
  split at h
  · rw [w.json_dict]
    exact fromObject_again w hu h
  · cases h

end DocumentVectorizeInput

end Records

theorem Rewriting.sorted_dict : Rewriting.sorted.dict = Json.sortedFields := rfl
theorem Rewriting.sorted_json : Rewriting.sorted.json = Json.sortKeys := rfl

theorem sortKeys_dict_congr {d e : Dict}
    (h : d.map (fun kv => (kv.1, kv.2.sortKeys)) = e.map fun kv => (kv.1, kv.2.sortKeys)) :
    (Json.dict d).sortKeys = (Json.dict e).sortKeys := by
  rw [Json.sortKeys_dict, Json.sortKeys_dict, Json.sortedFields, Json.sortedFields, h]

theorem sortKeys_sortedFields (d : Dict) :
    (Json.dict (Json.sortedFields d)).sortKeys = (Json.dict d).sortKeys := by
  rw [← Json.sortKeys_dict, Json.sortKeys_idem]

theorem sortKeys_map {f : α → Json} {g : α → α} {l : List α}
    (h : ∀ a ∈ l, (f (g a)).sortKeys = (f a).sortKeys) :
    (Json.list ((l.map g).map f)).sortKeys = (Json.list (l.map f)).sortKeys := by
  rw [Json.sortKeys_list, Json.sortKeys_list, List.map_map, List.map_map, List.map_map]
  exact congrArg _ (List.map_congr_left h)

theorem StorageReference.sortKeys_rewrite (self : StorageReference) :
    (self.rewrite .sorted).toPayload.sortKeys = self.toPayload.sortKeys := by
  refine sortKeys_dict_congr ?_
  simp [rewrite, Rewriting.sorted_dict, sortKeys_sortedFields]

theorem sortKeys_storage (storage : Option StorageReference) :
    (asJson StorageReference.toPayload (storage.map (·.rewrite .sorted))).sortKeys =
      (asJson StorageReference.toPayload storage).sortKeys := by
  cases storage with
  | none => rfl
  | some s => exact s.sortKeys_rewrite

theorem DocumentReference.sortKeys_rewrite (self : DocumentReference) :
    (self.rewrite .sorted).toPayload.sortKeys = self.toPayload.sortKeys := by
  refine sortKeys_dict_congr ?_
  simp [rewrite, sortKeys_storage, Rewriting.sorted_dict, sortKeys_sortedFields]

theorem ChunkReference.sortKeys_rewrite (self : ChunkReference) :
    (self.rewrite .sorted).toPayload.sortKeys = self.toPayload.sortKeys := by
  refine sortKeys_dict_congr ?_
  simp [rewrite, sortKeys_storage, Rewriting.sorted_dict, sortKeys_sortedFields]

theorem VectorizeOptions.sortKeys_rewrite (self : VectorizeOptions) :
    (self.rewrite .sorted).toPayload.sortKeys = self.toPayload.sortKeys := by
  refine sortKeys_dict_congr ?_
  simp [rewrite, Rewriting.sorted_dict, sortKeys_sortedFields]

theorem ArtifactRequest.sortKeys_rewrite (self : ArtifactRequest) :
    (self.rewrite .sorted).toPayload.sortKeys = self.toPayload.sortKeys := by
  by_cases hr : self.rawPayload = []
  · have hr' : (self.rewrite .sorted).rawPayload = [] := Json.sortedFields_eq_nil.mpr hr
    rw [toPayload, toPayload, if_neg (not_not_intro hr), if_neg (not_not_intro hr')]
    refine sortKeys_dict_congr ?_
    simp [rewrite, Rewriting.sorted_dict, sortKeys_sortedFields]
  · have hr' : (self.rewrite .sorted).rawPayload ≠ [] := fun h => hr (Json.sortedFields_eq_nil.mp h)
    rw [toPayload, toPayload, if_pos hr, if_pos hr']
    exact sortKeys_sortedFields _

theorem DocumentVectorizeInput.sortKeys_rewrite (self : DocumentVectorizeInput) :
    (Json.dict (self.rewrite .sorted).toPayload).sortKeys = (Json.dict self.toPayload).sortKeys := by
  refine sortKeys_dict_congr ?_
  have hc := sortKeys_map (l := self.chunks) fun c _ => c.sortKeys_rewrite
  have hs := sortKeys_map (l := self.storageReferences) fun r _ => r.sortKeys_rewrite
  have ha := sortKeys_map (l := self.artifactRequests) fun a _ => a.sortKeys_rewrite
  simp only [toPayload, rewrite, List.map_cons, hc, hs, ha, DocumentReference.sortKeys_rewrite,
    VectorizeOptions.sortKeys_rewrite]
  simp [Rewriting.sorted_dict, Rewriting.sorted_json, sortKeys_sortedFields, Json.sortKeys_idem]

theorem canonicalJson_congr {j k : Json} (h : j.sortKeys = k.sortKeys) :
    canonicalJson j = canonicalJson k := by
  have hf : j.finite = k.finite := by rw [← Json.finite_sortKeys j, h, Json.finite_sortKeys]
  by_cases hk : k.finite
  · rw [canonicalJson_ok hk, canonicalJson_ok (hf.trans hk)]
    simp only [h]
  · rw [canonicalJson_error hk, canonicalJson_error (by rwa [hf])]

theorem DocumentReference.rewrite_same (self : DocumentReference) : self.rewrite .same = self := by
  cases self with
  | mk documentId title sourceType mimeType fingerprint storage metadata => cases storage <;> rfl

theorem ChunkReference.rewrite_same (self : ChunkReference) : self.rewrite .same = self := by
  cases self with
  | mk chunkId index text documentId tokenCount storage metadata => cases storage <;> rfl

theorem DocumentVectorizeInput.rewrite_same (self : DocumentVectorizeInput) :
    self.rewrite .same = self := by
  have hc : self.chunks.map (·.rewrite .same) = self.chunks :=
    (List.map_congr_left fun c _ => c.rewrite_same).trans (List.map_id' _)
  have hs : self.storageReferences.map (·.rewrite .same) = self.storageReferences := List.map_id' _
  have ha : self.artifactRequests.map (·.rewrite .same) = self.artifactRequests := List.map_id' _
  rw [rewrite, hc, hs, ha, DocumentReference.rewrite_same]
  rfl

/-- An accepted request is accepted again as it is written back, and is the same.  Read back from
its canonical text it is accepted too, and has that canonical text. -/
theorem normalisation_round_trip {payload : Json} (hu : payload.unique)
    (h : DocumentVectorizeInput.fromPayload payload = .ok r) :
    DocumentVectorizeInput.fromPayload (.dict r.toPayload) = .ok r ∧
      ∃ text r', canonicalJson (.dict r.toPayload) = .ok text ∧
        DocumentVectorizeInput.fromPayload text.value = .ok r' ∧
        canonicalJson (.dict r'.toPayload) = .ok text := by
  refine ⟨?_, ?_⟩
  · have ha := DocumentVectorizeInput.fromPayload_again .same hu h
    rwa [r.rewrite_same] at ha
  · have hc := canonicalJson_ok (DocumentVectorizeInput.toPayload_finite hu h)
    refine ⟨_, _, hc, DocumentVectorizeInput.fromPayload_again .sorted hu h, ?_⟩
    rw [canonicalJson_congr r.sortKeys_rewrite, hc]

theorem normalisation_round_trip_inline : ∃ payload r,
    DocumentVectorizeInput.fromPayload payload = .ok r ∧
      DocumentVectorizeInput.fromPayload (.dict r.toPayload) = .ok r ∧
        ∃ text r', canonicalJson (.dict r.toPayload) = .ok text ∧
          DocumentVectorizeInput.fromPayload text.value = .ok r' ∧
          canonicalJson (.dict r'.toPayload) = .ok text := by
  let payload : Json := .dict [(py "routeId", .str (py "r")), (py "documentId", .str (py "d")),
    (py "manifestVersion", .int 1), (py "destination", .str (py "vectorize")),
    (py "qualityScore", .int 1), (py "document", .dict [(py "documentId", .str (py "d"))]),
    (py "chunks", .list [.dict [(py "chunkId", .str (py "c")), (py "index", .int 0),
      (py "text", .str (py "t"))]])]
  have hu : payload.unique := by decide
  have hok : (DocumentVectorizeInput.fromPayload payload).isOk := by decide +kernel
  cases hr : DocumentVectorizeInput.fromPayload payload with
  | error e =>
    rw [hr] at hok
    cases hok
  | ok r => exact ⟨payload, r, hr, normalisation_round_trip hu hr⟩

end PrismPipe.Document
