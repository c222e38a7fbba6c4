import PrismPipe.Document.Reading

/-! What the contract hands on: an accepted payload is written back without the floats JSON
lacks, and a refused one is refused in words UTF-8 can carry if the payload's own words are. -/

namespace PrismPipe.Document

open Python

def Names (label : PyStr) (m : Parse α) : Prop :=
  ∀ e, m = .error e → ∃ text : String, e = .validation (label ++ py text)

theorem Names.ok (a : α) : Names label (.ok a) := nofun

theorem Names.invalid (label : PyStr) (text : String) :
    Names label (invalid (label ++ py text) : Parse α) := by
  rintro _ ⟨⟩
  exact ⟨text, rfl⟩

section Names

variable (payload : Dict) (key : String) (label : PyStr)

theorem requiredString_names : Names label (requiredString payload key label) := by
  unfold requiredString
  split
  · split
    · exact .invalid _ _
    · exact .ok _
  · exact .invalid _ _

theorem optionalString_names : Names label (optionalString payload key label) := by
  unfold optionalString
  split
  · exact .ok _
  · split
    · exact .invalid _ _
    · exact .ok _
  · exact .invalid _ _

theorem requiredInt_names : Names label (requiredInt payload key label) := by
  unfold requiredInt
  split
  · exact .ok _
  · exact .invalid _ _

theorem optionalInt_names : Names label (optionalInt payload key label) := by
  unfold optionalInt
  split
  · exact .ok _
  · exact .ok _
  · exact .invalid _ _

theorem requiredManifestVersion_names : Names (py key) (requiredManifestVersion payload key) := by
  unfold requiredManifestVersion
  split
  · split
    · exact .invalid _ _
    · exact .ok _
  · exact .ok _
  · exact .invalid _ _

theorem requiredMapping_names : Names (py key) (requiredMapping payload key) := by
  unfold requiredMapping
  split
  · exact .ok _
  · exact .invalid _ _

theorem nonEmptyList_names : Names (py key) (nonEmptyList payload key) := by
  unfold nonEmptyList
  split
  · exact .invalid _ _
  · exact .ok _
  · exact .invalid _ _

theorem listOrEmpty_names : Names (py key) (listOrEmpty payload key) := by
  unfold listOrEmpty
  split
  · exact .ok _
  · exact .invalid _ _

theorem requiredFlag_names : Names label (ArtifactRequest.requiredFlag payload label) := by
  unfold ArtifactRequest.requiredFlag
  split
  · exact .ok _
  · exact .invalid _ _

end Names

def Legible (m : Parse α) : Prop := ∀ message, m = .error (.validation message) → message.encodable

theorem Legible.ok (a : α) : Legible (.ok a) := nofun

theorem Legible.invalid (h : message.encodable) : Legible (invalid message : Parse α) := by
  rintro _ ⟨⟩
  exact h

theorem Legible.refuse (h : message.encodable) : Legible (refuse condition message) := by
  unfold Document.refuse
  split
  · exact .invalid h
  · exact .ok ()

theorem Legible.bind {m : Parse α} {f : α → Parse β} (h : Legible m)
    (hf : ∀ a, m = .ok a → Legible (f a)) : Legible (m >>= f) := by
  intro message he
  cases m with
  | error e =>
    cases he
    exact h message rfl
  | ok a => exact hf a rfl message he

theorem Legible.map {m : Parse α} (h : Legible m) (f : α → β) : Legible (f <$> m) := by
  intro message he
  cases m with
  | error e =>
    cases he
    exact h message rfl
  | ok a => cases he

theorem Legible.floatOfInt (i : Int) : Legible (floatOfInt i) := by
  unfold Document.floatOfInt
  split <;> exact nofun

@[simp] theorem encodable_at {label : PyStr} {index : Nat} :
    (at_ label index).encodable = label.encodable := by
  simp [at_, decimal]

@[simp] theorem encodable_dot {label key : PyStr} :
    (dot label key).encodable = (label.encodable && key.encodable) := by
  simp [dot]

theorem Names.legible {m : Parse α} (h : Names label m) (hl : label.encodable) : Legible m := by
  intro message he
  obtain ⟨text, ht⟩ := h _ he
  cases ht
  simpa using hl

section Fields

variable {payload : Dict} {label : PyStr} (hl : label.encodable)
include hl

theorem requiredString_legible : Legible (requiredString payload key label) :=
  (requiredString_names _ _ _).legible hl

theorem requiredInt_legible : Legible (requiredInt payload key label) :=
  (requiredInt_names _ _ _).legible hl

theorem optionalInt_legible : Legible (optionalInt payload key label) :=
  (optionalInt_names _ _ _).legible hl

theorem requiredNumber_legible : Legible (requiredNumber payload key label) := by
  unfold requiredNumber
  split
  · exact .floatOfInt _
  · split
    · exact .ok _
    · exact .invalid (by simpa using hl)
  · exact .invalid (by simpa using hl)

theorem optionalString_legible : Legible (optionalString payload key label) :=
  (optionalString_names _ _ _).legible hl

end Fields

mutual

theorem validateFiniteNumbers_legible : ∀ (j : Json) {label : PyStr}, label.encodable →
    j.encodable → Legible (validateFiniteNumbers label j)
  | .null, _, _, _ | .bool _, _, _, _ | .str _, _, _, _ => .ok ()
  | .int i, _, _, _ => .bind (.floatOfInt i) fun _ _ => .ok ()
  | .float f, label, hl, _ => by
    unfold validateFiniteNumbers
    split
    · exact .ok ()
    · exact .invalid (by simpa using hl)
  | .dict items, _, hl, hj => fields_legible items hl hj
  | .list items, _, hl, hj => elements_legible items 0 hl hj

theorem fields_legible : ∀ (items : List (PyStr × Json)) {label : PyStr}, label.encodable →
    Json.encodable (.dict items) → Legible (validateFiniteNumbers.fields label items)
  | [], _, _, _ => .ok ()
  | (key, item) :: rest, label, hl, hj => by
    rw [Json.encodable, Json.all_dict, List.all_cons, Bool.and_eq_true, Bool.and_eq_true] at hj
    obtain ⟨⟨hk, hi⟩, hr⟩ := hj
    refine .bind (validateFiniteNumbers_legible item (by simp [hl, hk]) hi) fun _ _ => ?_
    exact fields_legible rest hl (by simpa [Json.encodable] using hr)

theorem elements_legible : ∀ (items : List Json) (index : Nat) {label : PyStr},
    label.encodable → Json.encodable (.list items) →
    Legible (validateFiniteNumbers.elements label index items)
  | [], _, _, _, _ => .ok ()
  | item :: rest, index, label, hl, hj => by
    rw [Json.encodable, Json.all_list, List.all_cons, Bool.and_eq_true] at hj
    refine .bind (validateFiniteNumbers_legible item (by simpa using hl) hj.1) fun _ _ => ?_
    exact elements_legible rest (index + 1) hl (by simpa [Json.encodable] using hj.2)

end

section Objects

variable {payload : Dict} {label : PyStr} (hp : Json.encodable (.dict payload))
include hp

theorem optionalMapping_legible (hl : label.encodable) :
    Legible (optionalMapping payload key label) := by
  have hv := Json.all_get hp key
  unfold optionalMapping
  split
  · exact .ok _
  · next value he =>
    rw [he] at hv
    exact .bind (validateFiniteNumbers_legible _ hl hv) fun _ _ => .ok _
  · exact .invalid (by simpa using hl)

theorem StorageReference.fromPayload_legible (hl : label.encodable) :
    Legible (StorageReference.fromPayload payload label) := by
  have hs (key) (t : String) : Legible (optionalString payload key (dot label (py t))) :=
    optionalString_legible (by simpa using hl)
  unfold fromPayload
  refine .bind (optionalInt_legible (by simpa using hl)) fun _ _ => ?_
  refine .bind (.refuse (by simpa using hl)) fun _ _ => ?_
  refine .bind (hs _ _) fun _ _ => .bind (hs _ _) fun _ _ => .bind (hs _ _) fun _ _ => ?_
  refine .bind (hs _ _) fun _ _ => .bind (hs _ _) fun _ _ => .bind (hs _ _) fun _ _ => ?_
  refine .bind (hs _ _) fun _ _ => ?_
  refine .bind (optionalMapping_legible hp (by simpa using hl)) fun _ _ => ?_
  refine .bind ?_ fun _ _ => .ok _
  unfold validate
  split
  · exact .invalid (by simpa using hl)
  · split
    · exact .invalid (by simpa using hl)
    · exact .ok ()

theorem optionalStorage_legible (hl : label.encodable) :
    Legible (optionalStorage payload label) := by
  have hv := Json.all_get hp "storage"
  unfold optionalStorage
  split
  · exact .ok _
  · next raw he =>
    rw [he] at hv
    exact .map (StorageReference.fromPayload_legible hv hl) _
  · exact .invalid (by simpa using hl)

theorem DocumentReference.fromPayload_legible : Legible (DocumentReference.fromPayload payload) := by
  have hs (key t : String) : Legible (optionalString payload key (py t)) :=
    optionalString_legible (encodable_py t)
  unfold fromPayload
  refine .bind (optionalStorage_legible hp (encodable_py _)) fun _ _ => ?_
  refine .bind (requiredString_legible (encodable_py _)) fun _ _ => ?_
  refine .bind (hs _ _) fun _ _ => .bind (hs _ _) fun _ _ => .bind (hs _ _) fun _ _ => ?_
  refine .bind (hs _ _) fun _ _ => ?_
  exact .bind (optionalMapping_legible hp (encodable_py _)) fun _ _ => .ok _

theorem ChunkReference.fromPayload_legible (index : Nat) :
    Legible (ChunkReference.fromPayload payload index) := by
  have hl (t : String) : (dot (at_ (py "chunks") index) (py t)).encodable := by simp
  unfold fromPayload
  refine .bind (requiredInt_legible (hl _)) fun _ _ => ?_
  refine .bind (.refuse (by simp)) fun _ _ => ?_
  refine .bind (optionalInt_legible (hl _)) fun _ _ => ?_
  refine .bind (.refuse (by simp)) fun _ _ => ?_
  refine .bind (optionalStorage_legible hp (hl _)) fun _ _ => ?_
  refine .bind (requiredString_legible (hl _)) fun _ _ => ?_
  refine .bind (optionalString_legible (hl _)) fun _ _ => ?_
  refine .bind (optionalString_legible (hl _)) fun _ _ => ?_
  exact .bind (optionalMapping_legible hp (hl _)) fun _ _ => .ok _

theorem requiredString_encodable (h : requiredString payload key label = .ok s) :
    s.encodable := by
  have hv := Json.all_get hp key
  unfold requiredString at h
  split at h
  · next he =>
    rw [he] at hv
    split at h
    · cases h
    · cases h
      exact hv
  · cases h

end Objects

theorem ArtifactRequest.unknown_encodable {payload : Dict} (hp : Json.encodable (.dict payload)) :
    ∀ s ∈ unknown payload, s.encodable := by
  intro s hs
  rw [unknown, List.mem_insertionSort, List.mem_filter, List.mem_eraseDups] at hs
  obtain ⟨kv, hkv, rfl⟩ := List.mem_map.mp hs.1
  rw [Json.encodable, Json.all_dict, List.all_eq_true] at hp
  exact (Bool.and_eq_true_iff.mp (hp kv hkv)).1

theorem ArtifactRequest.fromPayload_legible {payload : Json} (hp : payload.encodable) (index : Nat) :
    Legible (ArtifactRequest.fromPayload payload index) := by
  have hl : (at_ (py "artifactRequests") index).encodable := by simp
  unfold fromPayload
  split
  · unfold fromObject
    refine .bind (requiredString_legible (by simp)) fun artifactType ha => ?_
    have ha := requiredString_encodable hp ha
    refine .bind ((requiredFlag_names _ _).legible hl) fun _ _ => ?_
    refine .bind (optionalMapping_legible hp (by simp)) fun _ _ => ?_
    have hj := PyStr.encodable_join (encodable_py ", ") (unknown_encodable hp)
    refine .bind (.refuse (by simp [hj])) fun _ _ => ?_
    refine .bind (.refuse (by simp)) fun _ _ => ?_
    exact .bind (.refuse (by simp [ha])) fun _ _ => .ok _
  · exact .invalid (by simp)

theorem VectorizeOptions.fromPayload_legible {payload : Json} (hp : payload.encodable) :
    Legible (VectorizeOptions.fromPayload payload) := by
  unfold fromPayload
  split
  · exact .ok _
  · unfold fromObject
    refine .bind ?_ fun _ _ => ?_
    · unfold positiveDimensions
      split
      · exact .ok _
      · split
        · exact .invalid (encodable_py _)
        · exact .ok _
      · exact .invalid (encodable_py _)
    refine .bind ?_ fun _ _ => ?_
    · unfold normalizeFlag
      split
      · exact .ok _
      · exact .invalid (encodable_py _)
    exact .bind (optionalMapping_legible hp (encodable_py _)) fun _ _ => .ok _
  · exact .invalid (encodable_py _)

theorem enumerate_legible {f : Json → Nat → Parse α}
    (hf : ∀ item index, item.encodable → Legible (f item index)) :
    ∀ (items : List Json) (index : Nat), Json.encodable (.list items) →
      Legible (enumerate f index items)
  | [], _, _ => .ok _
  | item :: rest, index, hi => by
    rw [Json.encodable, Json.all_list, List.all_cons, Bool.and_eq_true] at hi
    refine .bind (hf item index hi.1) fun _ _ => ?_
    exact .bind (enumerate_legible hf rest _ (by simpa [Json.encodable] using hi.2)) fun _ _ => .ok _

theorem objectAt_legible {f : Dict → Nat → Parse α} (hl : label.encodable)
    (hf : ∀ (d : Dict) index, Json.encodable (.dict d) → Legible (f d index)) (item : Json)
    (index : Nat) (hi : item.encodable) : Legible (objectAt label f item index) := by
  unfold objectAt
  split
  · exact hf _ _ hi
  · exact .invalid (by simpa using hl)

theorem validateSchemaAliases_legible (payload document : Dict) :
    ∀ keys, Legible (validateSchemaAliases payload document keys)
  | [] => .ok ()
  | key :: rest => by
    unfold validateSchemaAliases
    dsimp only
    split
    · exact .invalid (by simp)
    · exact validateSchemaAliases_legible payload document rest

namespace DocumentVectorizeInput

theorem validateChunks_legible (documentId : PyStr) : ∀ (chunks : List ChunkReference)
    (position : Nat) ids indices, Legible (validateChunks documentId position ids indices chunks)
  | [], _, _, _ => .ok ()
  | chunk :: rest, position, ids, indices => by
    have hi (t : String) : Legible (invalid (at_ (py "chunks") position ++ py t) : Parse Unit) :=
      .invalid (by simp)
    unfold validateChunks
    dsimp only
    repeat' split
    all_goals first | exact hi _ | exact validateChunks_legible documentId rest _ _ _

theorem validateArtifacts_legible (options : VectorizeOptions) :
    ∀ (artifacts : List ArtifactRequest) (position : Nat),
      Legible (validateArtifacts options position artifacts)
  | [], _ => .ok ()
  | artifact :: rest, position => by
    unfold validateArtifacts
    dsimp only
    split
    · exact .invalid (by simp)
    · exact validateArtifacts_legible options rest _

theorem validateRelationships_legible (request : DocumentVectorizeInput) :
    Legible request.validateRelationships := by
  unfold validateRelationships
  refine .bind (.refuse (encodable_py _)) fun _ _ => ?_
  refine .bind (.refuse (encodable_py _)) fun _ _ => ?_
  refine .bind (.refuse (encodable_py _)) fun _ _ => ?_
  refine .bind (validateChunks_legible _ _ _ _ _) fun _ _ => ?_
  exact validateArtifacts_legible _ _ _

theorem requiredManifestVersion_legible (payload : Dict) (key : String) :
    Legible (requiredManifestVersion payload key) :=
  (requiredManifestVersion_names _ _).legible (encodable_py _)

theorem optionalRootOrDocumentString_legible (payload document : Dict) (key : String) :
    Legible (optionalRootOrDocumentString payload document key) := by
  unfold optionalRootOrDocumentString
  split
  · exact optionalString_legible (encodable_py _)
  · exact optionalString_legible (by simp)

theorem requiredMapping_legible (payload : Dict) (key : String) :
    Legible (requiredMapping payload key) :=
  (requiredMapping_names _ _).legible (encodable_py _)

theorem requiredMapping_encodable {payload d : Dict} (hp : Json.encodable (.dict payload))
    (h : requiredMapping payload key = .ok d) : Json.encodable (.dict d) := by
  have hv := Json.all_get hp key
  unfold requiredMapping at h
  split at h
  next he =>
    cases h
    rwa [he] at hv
  · cases h

theorem nonEmptyList_legible (payload : Dict) (key : String) :
    Legible (nonEmptyList payload key) :=
  (nonEmptyList_names _ _).legible (encodable_py _)

theorem nonEmptyList_encodable {payload : Dict} (hp : Json.encodable (.dict payload))
    (h : nonEmptyList payload key = .ok l) : Json.encodable (.list l) := by
  have hv := Json.all_get hp key
  unfold nonEmptyList at h
  split at h
  · cases h
  next he =>
    cases h
    rwa [he] at hv
  · cases h

theorem listOrEmpty_legible (payload : Dict) (key : String) :
    Legible (listOrEmpty payload key) :=
  (listOrEmpty_names _ _).legible (encodable_py _)

theorem listOrEmpty_encodable {payload : Dict} (hp : Json.encodable (.dict payload))
    (h : listOrEmpty payload key = .ok l) : Json.encodable (.list l) := by
  have hv : (getOr payload key (.list [])).encodable := Json.all_getD hp rfl _
  unfold listOrEmpty at h
  split at h
  next he =>
    cases h
    rwa [he] at hv
  · cases h

theorem fromObject_legible {payload : Dict} (hp : Json.encodable (.dict payload)) :
    Legible (fromObject payload) := by
  have hs (key) : Legible (optionalString payload key (py key)) :=
    optionalString_legible (encodable_py key)
  have ho (document key) : Legible (optionalRootOrDocumentString payload document key) :=
    optionalRootOrDocumentString_legible payload document key
  unfold fromObject
  refine .bind (requiredString_legible (encodable_py _)) fun _ _ => ?_
  refine .bind (requiredString_legible (encodable_py _)) fun _ _ => ?_
  refine .bind (requiredManifestVersion_legible _ _) fun _ _ => ?_
  refine .bind (requiredString_legible (encodable_py _)) fun _ _ => ?_
  refine .bind (.refuse (encodable_py _)) fun _ _ => ?_
  refine .bind (requiredNumber_legible (encodable_py _)) fun _ _ => ?_
  refine .bind (requiredMapping_legible _ _) fun rawDocument hd => ?_
  refine .bind (DocumentReference.fromPayload_legible (requiredMapping_encodable hp hd))
    fun _ _ => ?_
  refine .bind (nonEmptyList_legible _ _) fun rawChunks hc => ?_
  refine .bind (enumerate_legible (objectAt_legible (encodable_py _) fun _ index hd =>
    ChunkReference.fromPayload_legible hd index) _ _ (nonEmptyList_encodable hp hc)) fun _ _ => ?_
  refine .bind (listOrEmpty_legible _ _) fun rawStorageReferences hr => ?_
  refine .bind (enumerate_legible (objectAt_legible (encodable_py _) fun _ index hd =>
    StorageReference.fromPayload_legible hd (by simp)) _ _ (listOrEmpty_encodable hp hr))
    fun _ _ => ?_
  refine .bind (listOrEmpty_legible _ _) fun rawArtifactRequests ha => ?_
  refine .bind (enumerate_legible (fun _ index hi => ArtifactRequest.fromPayload_legible hi index)
    _ _ (listOrEmpty_encodable hp ha)) fun _ _ => ?_
  refine .bind (validateSchemaAliases_legible _ _ _) fun _ _ => ?_
  refine .bind (optionalMapping_legible hp (encodable_py _)) fun _ _ => ?_
  refine .bind (validateFiniteNumbers_legible _ (encodable_py _) (Json.all_get hp _)) fun _ _ => ?_
  refine .bind (VectorizeOptions.fromPayload_legible (Json.all_get hp _)) fun _ _ => ?_
  refine .bind (ho _ _) fun _ _ => .bind (ho _ _) fun _ _ => .bind (ho _ _) fun _ _ => ?_
  refine .bind (optionalMapping_legible hp (encodable_py _)) fun _ _ => ?_
  refine .bind (hs _) fun _ _ => .bind (hs _) fun _ _ => ?_
  exact .bind (validateRelationships_legible _) fun _ _ => .ok _

theorem fromPayload_legible {payload : Json} (hp : payload.encodable) :
    Legible (fromPayload payload) := by
  unfold fromPayload
  split
  · exact fromObject_legible hp
  · exact .invalid (encodable_py _)

end DocumentVectorizeInput

mutual

theorem finite_of_validate : ∀ (j : Json) (label : PyStr),
    validateFiniteNumbers label j = .ok () → j.finite
  | .null, _ => fun _ => rfl
  | .bool _, _ => fun _ => rfl
  | .str _, _ => fun _ => rfl
  | .int _, _ => fun _ => rfl
  | .float f, label => by
    intro h
    unfold validateFiniteNumbers at h
    split at h
    · assumption
    · cases h
  | .dict items, label => finite_of_fields items label
  | .list items, label => finite_of_elements items label 0

theorem finite_of_fields : ∀ (items : List (PyStr × Json)) (label : PyStr),
    validateFiniteNumbers.fields label items = .ok () → Json.finite (.dict items)
  | [], _ => fun _ => rfl
  | (key, item) :: rest, label => by
    intro h
    obtain ⟨_, hi, hr⟩ := bind_eq_ok h
    have hi := finite_of_validate item _ hi
    have hr := finite_of_fields rest _ hr
    rw [Json.finite, Json.all_dict] at hr ⊢
    rw [List.all_cons, hr, Bool.and_true]
    exact hi

theorem finite_of_elements : ∀ (items : List Json) (label : PyStr) (index : Nat),
    validateFiniteNumbers.elements label index items = .ok () → Json.finite (.list items)
  | [], _, _ => fun _ => rfl
  | item :: rest, label, index => by
    intro h
    obtain ⟨_, hi, hr⟩ := bind_eq_ok h
    have hi := finite_of_validate item _ hi
    have hr := finite_of_elements rest _ _ hr
    rw [Json.finite, Json.all_list] at hr ⊢
    rw [List.all_cons, hr, Bool.and_true]
    exact hi

end

theorem optionalMapping_finite (h : optionalMapping payload key label = .ok d) :
    Json.finite (.dict d) := by
  unfold optionalMapping at h
  split at h
  · cases h
    rfl
  · obtain ⟨_, hv, h⟩ := bind_eq_ok h
    cases h
    exact finite_of_validate _ _ hv
  · cases h

@[simp] theorem finite_asJson_str (value : Option PyStr) :
    (asJson .str value).finite = true := by
  cases value <;> rfl

@[simp] theorem finite_asJson_int (value : Option Int) : (asJson .int value).finite = true := by
  cases value <;> rfl

theorem StorageReference.toPayload_finite
    (h : StorageReference.fromPayload payload label = .ok r) : r.toPayload.finite := by
  simp [toPayload, optionalMapping_finite (fromPayload_iff.mp h).metadata]

theorem optionalStorage_finite (h : optionalStorage payload label = .ok storage) :
    (asJson StorageReference.toPayload storage).finite := by
  unfold optionalStorage at h
  split at h
  · cases h
    rfl
  next raw _ =>
    cases hr : StorageReference.fromPayload raw label with
    | error e =>
      rw [hr] at h
      cases h
    | ok r =>
      rw [hr] at h
      cases h
      exact StorageReference.toPayload_finite hr
  · cases h

theorem DocumentReference.toPayload_finite
    (h : DocumentReference.fromPayload payload = .ok r) : r.toPayload.finite := by
  have hr := fromPayload_iff.mp h
  simp [toPayload, optionalMapping_finite hr.metadata, optionalStorage_finite hr.storage]

theorem ChunkReference.toPayload_finite
    (h : ChunkReference.fromPayload payload i = .ok r) : r.toPayload.finite := by
  have hr := fromPayload_iff.mp h
  simp [toPayload, optionalMapping_finite hr.metadata, optionalStorage_finite hr.storage]

theorem VectorizeOptions.toPayload_finite (h : VectorizeOptions.fromPayload payload = .ok r) :
    r.toPayload.finite := by
  unfold fromPayload at h
  split at h
  · cases h
    rfl
  · obtain ⟨dimensions, -, h⟩ := bind_eq_ok h
    obtain ⟨normalize, -, h⟩ := bind_eq_ok h
    obtain ⟨metadata, hm, h⟩ := bind_eq_ok h
    cases h
    simp [toPayload, optionalMapping_finite hm]
  · cases h

theorem requiredString_get (h : requiredString payload key label = .ok s) :
    payload.get key = .str s := by
  unfold requiredString at h
  split at h
  next he =>
    split at h
    · cases h
    · cases h
      exact he
  · cases h

theorem requiredFlag_getOr (h : ArtifactRequest.requiredFlag payload label = .ok b) :
    getOr payload "required" (.bool false) = .bool b := by
  unfold ArtifactRequest.requiredFlag at h
  split at h
  next he =>
    cases h
    exact he
  · cases h

theorem optionalMapping_get (h : optionalMapping payload key label = .ok d) :
    (payload.get key).finite := by
  unfold optionalMapping at h
  split at h
  next he =>
    rw [he]
    rfl
  next he =>
    obtain ⟨_, hv, -⟩ := bind_eq_ok h
    rw [he]
    exact finite_of_validate _ _ hv
  · cases h

theorem ArtifactRequest.mem_of_unknown (h : unknown payload = []) (hkv : (k, v) ∈ payload) :
    k ∈ [py "artifactType", py "required", py "parameters"] := by
  by_contra hk
  have hm : k ∈ unknown payload := by
    rw [unknown, List.mem_insertionSort, List.mem_filter, List.mem_eraseDups]
    exact ⟨List.mem_map_of_mem (f := (·.1)) hkv, by simpa using hk⟩
  rw [h] at hm
  cases hm

theorem ArtifactRequest.toPayload_finite (hu : payload.unique)
    (h : ArtifactRequest.fromPayload payload i = .ok r) : r.toPayload.finite := by
  obtain ⟨d, rfl, hr⟩ := fromPayload_iff.mp h
  have hk : unknown d = [] := by simpa using refuse_eq_ok hr.known
  unfold toPayload
  split
  · rw [hr.rawPayload]
    refine Json.finite_dict.mpr ?_
    rintro ⟨k, v⟩ hkv
    have hf := Json.find_of_mem hu hkv
    have ha := requiredString_get hr.artifactType
    have hq := requiredFlag_getOr hr.required
    have hp := optionalMapping_get hr.parameters
    rw [Dict.get] at ha hp
    rw [getOr] at hq
    have hm := mem_of_unknown hk hkv
    simp only [List.mem_cons, List.not_mem_nil, or_false] at hm
    rcases hm with rfl | rfl | rfl
    · rw [hf, Option.getD_some] at ha
      simp [ha]
    · rw [hf, Option.getD_some] at hq
      simp [hq]
    · rw [hf, Option.getD_some] at hp
      exact hp
  · simp [optionalMapping_finite hr.parameters]

theorem enumerate_forall {f : Json → Nat → Parse α} {Q : α → Prop}
    (hf : ∀ item ∈ items, ∀ i a, f item i = .ok a → Q a) (h : enumerate f i items = .ok as) :
    ∀ a ∈ as, Q a := by
  induction items generalizing i as with
  | nil =>
    cases h
    exact nofun
  | cons item rest ih =>
    obtain ⟨a, ha, h⟩ := bind_eq_ok h
    obtain ⟨rest', hr, h⟩ := bind_eq_ok h
    cases h
    intro b hb
    rcases List.mem_cons.mp hb with rfl | hb
    · exact hf item List.mem_cons_self _ _ ha
    · exact ih (fun item hi => hf item (List.mem_cons_of_mem _ hi)) hr b hb

theorem objectAt_eq_ok {f : Dict → Nat → Parse α} (h : objectAt label f item i = .ok a) :
    ∃ d, item = .dict d ∧ f d i = .ok a := by
  unfold objectAt at h
  split at h
  · exact ⟨_, rfl, h⟩
  · cases h

theorem floatOfInt_finite (h : floatOfInt n = .ok f) : f.isFinite := by
  unfold floatOfInt at h
  split at h
  next he =>
    cases h
    unfold PyFloat.ofInt at he
    dsimp only at he
    split at he
    · cases he
      rfl
    · cases he
  · cases h

theorem listOrEmpty_unique {payload : Dict} (hu : Json.unique (.dict payload))
    (h : listOrEmpty payload key = .ok l) : ∀ j ∈ l, j.unique := by
  have hg : (getOr payload key (.list [])).unique := by
    unfold getOr
    cases hf : payload.find (py key) with
    | none => rfl
    | some v => exact Json.unique_find hu hf
  unfold listOrEmpty at h
  split at h
  next he =>
    cases h
    rw [he] at hg
    exact Json.unique_list hg
  · cases h

theorem finite_map {l : List α} {f : α → Json} (h : ∀ a ∈ l, (f a).finite) :
    Json.finite (.list (l.map f)) := by
  rw [Json.finite_list]
  exact List.forall_mem_map.mpr h

theorem requiredNumber_finite (h : requiredNumber payload key label = .ok f) : f.isFinite := by
  unfold requiredNumber at h
  split at h
  · exact floatOfInt_finite h
  · split at h
    · cases h
      assumption
    · cases h
  · cases h

theorem ManifestVersion.toPayload_finite (v : ManifestVersion) : v.toPayload.finite := by
  cases v <;> rfl

theorem DocumentVectorizeInput.toPayload_finite (hu : payload.unique)
    (h : DocumentVectorizeInput.fromPayload payload = .ok r) :
    Json.finite (.dict r.toPayload) := by
  obtain ⟨d, rawDocument, rfl, hr⟩ := fromPayload_iff.mp h
  obtain ⟨rawChunks, -, hrc⟩ := hr.chunks
  obtain ⟨rawStorageReferences, -, hrs⟩ := hr.storageReferences
  obtain ⟨rawArtifactRequests, hra, har⟩ := hr.artifactRequests
  have hc : ∀ c ∈ r.chunks, c.toPayload.finite := by
    refine enumerate_forall (fun item _ i c hf => ?_) hrc
    obtain ⟨d, -, hf⟩ := objectAt_eq_ok hf
    exact ChunkReference.toPayload_finite hf
  have hs : ∀ s ∈ r.storageReferences, s.toPayload.finite := by
    refine enumerate_forall (fun item _ i s hf => ?_) hrs
    obtain ⟨d, -, hf⟩ := objectAt_eq_ok hf
    exact StorageReference.toPayload_finite hf
  have ha : ∀ a ∈ r.artifactRequests, a.toPayload.finite :=
    enumerate_forall (fun item hi i a hf =>
      ArtifactRequest.toPayload_finite (listOrEmpty_unique hu hra item hi) hf) har
  simp [toPayload, r.manifestVersion.toPayload_finite, requiredNumber_finite hr.qualityScore,
    finite_of_validate _ _ hr.finite, optionalMapping_finite hr.provenance,
    optionalMapping_finite hr.metadata, DocumentReference.toPayload_finite hr.document,
    VectorizeOptions.toPayload_finite hr.options, finite_map ha, finite_map hc, finite_map hs]

end PrismPipe.Document
