import PrismPipe.Document.Checks
import PrismPipe.Document.Validity

/-! Which payloads `from_payload` refuses with its own error, and what every request it returns
satisfies. -/

namespace PrismPipe.Document

open Python

def objectOf : Json → Dict
  | .dict d => d
  | _ => []

def itemsOf : Json → List Json
  | .list items => items
  | _ => []

def negative : Json → Bool
  | .int i => i < 0
  | _ => false

def isText (j : Json) (text : String) : Bool :=
  match j with
  | .str s => s = py text
  | _ => false

/-- A `uri` or a `key`, and a `key` where there is a `bucket`. -/
def locates (payload : Dict) : Bool :=
  (!(payload.get "uri").isNull || !(payload.get "key").isNull) &&
    ((payload.get "bucket").isNull || !(payload.get "key").isNull)

def numbers : Nat → Json → List Check
  | 0, _ => [.fits false]
  | n + 1, .dict items => items.flatMap fun field => numbers n field.2
  | n + 1, .list items => items.flatMap (numbers n)
  | _ + 1, .int i => [.converts i]
  | _ + 1, .float f => [.requires f.isFinite]
  | _ + 1, _ => []

def numberCheck : Json → List Check
  | .int i => [.converts i]
  | .float f => [.requires f.isFinite]
  | _ => [.requires false]

def objectChecks (checks : Dict → Nat → List Check) (item : Json) (index : Nat) : List Check :=
  match item with
  | .dict payload => checks payload index
  | _ => [.requires false]

def enumerateChecks (checks : Json → Nat → List Check) (index : Nat) : List Json → List Check
  | [] => []
  | item :: rest => checks item index ++ enumerateChecks checks (index + 1) rest

namespace Interpreter

variable (x : Interpreter)

def mappingChecks (payload : Dict) (key : String) (label : PyStr) : List Check :=
  match payload.get key with
  | .null => []
  | .dict value => numbers (x.room label) (.dict value)
  | _ => [.requires false]

def storageReferenceChecks (payload : Dict) (label : PyStr) : List Check := [
  needs (optionalInt payload "sizeBytes" (dot label (py "sizeBytes"))),
  [.requires !negative (payload.get "sizeBytes")],
  needs (optionalString payload "provider" (dot label (py "provider"))),
  needs (optionalString payload "bucket" (dot label (py "bucket"))),
  needs (optionalString payload "key" (dot label (py "key"))),
  needs (optionalString payload "uri" (dot label (py "uri"))),
  needs (optionalString payload "versionId" (dot label (py "versionId"))),
  needs (optionalString payload "contentType" (dot label (py "contentType"))),
  needs (optionalString payload "checksum" (dot label (py "checksum"))),
  x.mappingChecks payload "metadata" (dot label (py "metadata")),
  [.requires (locates payload)]].flatten

def storageChecks (payload : Dict) (label : PyStr) : List Check :=
  match payload.get "storage" with
  | .null => []
  | .dict raw => x.storageReferenceChecks raw label
  | _ => [.requires false]

def documentReferenceChecks (payload : Dict) : List Check := [
  x.storageChecks payload (py "document.storage"),
  needs (requiredString payload "documentId" (py "document.documentId")),
  needs (optionalString payload "title" (py "document.title")),
  needs (optionalString payload "sourceType" (py "document.sourceType")),
  needs (optionalString payload "mimeType" (py "document.mimeType")),
  needs (optionalString payload "fingerprint" (py "document.fingerprint")),
  x.mappingChecks payload "metadata" (py "document.metadata")].flatten

def chunkReferenceChecks (payload : Dict) (index : Nat) : List Check :=
  let chunkLabel := at_ (py "chunks") index
  [needs (requiredInt payload "index" (dot chunkLabel (py "index"))),
    [.requires !negative (payload.get "index")],
    needs (optionalInt payload "tokenCount" (dot chunkLabel (py "tokenCount"))),
    [.requires !negative (payload.get "tokenCount")],
    x.storageChecks payload (dot chunkLabel (py "storage")),
    needs (requiredString payload "chunkId" (dot chunkLabel (py "chunkId"))),
    needs (optionalString payload "documentId" (dot chunkLabel (py "documentId"))),
    needs (optionalString payload "text" (dot chunkLabel (py "text"))),
    x.mappingChecks payload "metadata" (dot chunkLabel (py "metadata"))].flatten

def optionsChecks : Json → List Check
  | .null => []
  | .dict payload => [
    needs (positiveDimensions (Dict.get payload "dimensions")
      (py "options.dimensions must be a positive integer")),
    needs (VectorizeOptions.normalizeFlag payload),
    x.mappingChecks payload "metadata" (py "options.metadata")].flatten
  | _ => [.requires false]

def artifactRequestChecks (payload : Dict) (label : PyStr) : List Check :=
  let embedding := isText (payload.get "artifactType") "embedding"
  let parameters := objectOf (payload.get "parameters")
  [needs (requiredString payload "artifactType" (dot label (py "artifactType"))),
    needs (ArtifactRequest.requiredFlag payload label),
    x.mappingChecks payload "parameters" (dot label (py "parameters")),
    [.requires !(ArtifactRequest.unknown payload ≠ [])],
    [.requires !(embedding && ArtifactRequest.badDimensions parameters)],
    [.requires !((getOr payload "required" (.bool false)).truthy && !embedding)]].flatten

def aliasChecks (payload document : Dict) : List String → List Check
  | [] => []
  | key :: rest =>
    let rootValue := payload.get key
    let nestedValue := document.get key
    if !rootValue.isNull && !nestedValue.isNull then
      .fits (x.compares rootValue nestedValue) :: .requires (rootValue.pyEq nestedValue) ::
        aliasChecks payload document rest
    else aliasChecks payload document rest

def checks (payload : Dict) : List Check :=
  let document := objectOf (payload.get "document")
  [needs (requiredString payload "routeId" (py "routeId")),
    needs (requiredString payload "documentId" (py "documentId")),
    needs (requiredManifestVersion payload "manifestVersion"),
    needs (requiredString payload "destination" (py "destination")),
    [.requires (isText (payload.get "destination") "vectorize")],
    numberCheck (payload.get "qualityScore"),
    needs (requiredMapping payload "document"),
    x.documentReferenceChecks document,
    needs (nonEmptyList payload "chunks"),
    enumerateChecks (objectChecks x.chunkReferenceChecks) 0 (itemsOf (payload.get "chunks")),
    needs (listOrEmpty payload "storageReferences"),
    enumerateChecks (objectChecks fun raw index =>
      x.storageReferenceChecks raw (at_ (py "storageReferences") index)) 0
        (itemsOf (getOr payload "storageReferences" (.list []))),
    needs (listOrEmpty payload "artifactRequests"),
    enumerateChecks (objectChecks fun raw index =>
      x.artifactRequestChecks raw (at_ (py "artifactRequests") index)) 0
        (itemsOf (getOr payload "artifactRequests" (.list []))),
    x.aliasChecks payload document ["documentType", "schemaId", "schemaVersion"],
    x.mappingChecks payload "metadata" (py "metadata"),
    numbers (x.room (py "classification")) (payload.get "classification"),
    x.optionsChecks (payload.get "options"),
    needs (optionalRootOrDocumentString payload document "documentType"),
    needs (optionalRootOrDocumentString payload document "schemaId"),
    needs (optionalRootOrDocumentString payload document "schemaVersion"),
    x.mappingChecks payload "provenance" (py "provenance")].flatten

/-- What `from_payload` checks that may raise something else, in its order. -/
def payloadChecks : Json → List Check
  | .dict payload => x.checks payload
  | _ => [.requires false]

end Interpreter

section Follows

theorem optionalInt_get (h : optionalInt payload key label = .ok v) :
    payload.get key = asJson .int v := by
  unfold optionalInt at h
  split at h
  next he =>
    cases h
    exact he
  next he =>
    cases h
    exact he
  · cases h

theorem requiredInt_get (h : requiredInt payload key label = .ok i) :
    payload.get key = .int i := by
  unfold requiredInt at h
  split at h
  next he =>
    cases h
    exact he
  · cases h

theorem given_get (h : optionalString payload key label = .ok v) :
    given v = !(payload.get key).isNull := by
  rw [optionalString_given h, optionalString_get h]
  cases v <;> rfl

theorem negative_asJson (v : Option Int) : negative (asJson .int v) = v.any (· < 0) := by
  cases v <;> rfl

theorem refuse_follows (h : condition = !b) :
    Follows (lift (refuse condition message)) (refuse condition message) [.requires b] := by
  rw [show b = !condition by rw [h, Bool.not_not]]
  exact .refuse _ _

theorem requiredNumber_follows (payload : Dict) (key : String) (label : PyStr) :
    Follows (lift (requiredNumber payload key label)) (requiredNumber payload key label)
      (numberCheck (payload.get key)) := by
  unfold requiredNumber numberCheck
  cases payload.get key with
  | int i => exact .converts i
  | float f => exact .finite _ _ _
  | null | bool | str | list | dict => exact .invalid _

namespace Interpreter

mutual

theorem validateFiniteNumbers_follows : ∀ (n : Nat) (label : PyStr) (j : Json),
    Follows (validateFiniteNumbers n label j) (Document.validateFiniteNumbers label j) (numbers n j)
  | 0, _, _ => ⟨.inl rfl, rfl⟩
  | n + 1, label, .dict items => fields_follows n label items
  | n + 1, label, .list items => elements_follows n label items 0
  | _ + 1, label, .int i => by
    unfold validateFiniteNumbers Document.validateFiniteNumbers numbers
    rw [lift_bind]
    exact .step (L := []) (.converts i) fun _ _ => .ok ()
  | _ + 1, _, .float f => .finite _ _ _
  | _ + 1, _, .null | _ + 1, _, .bool _ | _ + 1, _, .str _ => .ok _

theorem fields_follows (n : Nat) (label : PyStr) : ∀ items : List (PyStr × Json),
    Follows (each (fun field => validateFiniteNumbers n (dot label field.1) field.2) items)
      (validateFiniteNumbers.fields label items) (items.flatMap fun field => numbers n field.2)
  | [] => .ok _
  | _ :: rest => (validateFiniteNumbers_follows n _ _).bind fun _ _ => fields_follows n label rest

theorem elements_follows (n : Nat) (label : PyStr) : ∀ (items : List Json) (index : Nat),
    Follows (each (fun item => validateFiniteNumbers n (at_ label item.2) item.1)
      (items.zipIdx index)) (validateFiniteNumbers.elements label index items)
        (items.flatMap (numbers n))
  | [], _ => .ok _
  | _ :: rest, index =>
    (validateFiniteNumbers_follows n _ _).bind fun _ _ => elements_follows n label rest (index + 1)

end

variable (x : Interpreter)

theorem optionalMapping_follows (payload : Dict) (key : String) (label : PyStr) :
    Follows (x.optionalMapping payload key label) (Document.optionalMapping payload key label)
      (x.mappingChecks payload key label) := by
  unfold optionalMapping Document.optionalMapping mappingChecks
  cases payload.get key with
  | null => exact .ok []
  | dict value =>
    dsimp only
    rw [← List.append_nil (numbers _ _)]
    exact (validateFiniteNumbers_follows _ label (.dict value)).bind fun _ _ => .ok value
  | bool | int | float | str | list => exact .invalid _

theorem locates_validate {r : StorageReference}
    (hb : given r.bucket = !(payload.get "bucket").isNull)
    (hk : given r.key = !(payload.get "key").isNull)
    (hu : given r.uri = !(payload.get "uri").isNull) (label : PyStr) :
    Follows (lift (r.validate label)) (r.validate label) [.requires (locates payload)] := by
  unfold StorageReference.validate locates
  rw [hb, hk, hu]
  cases (payload.get "bucket").isNull <;> cases (payload.get "key").isNull <;>
    cases (payload.get "uri").isNull <;> exact ⟨.of_lift _, rfl⟩

theorem storageReference_follows (payload : Dict) (label : PyStr) :
    Follows (x.storageReference payload label) (StorageReference.fromPayload payload label)
      (x.storageReferenceChecks payload label) := by
  refine .step (optionalInt_names _ _ _).follows fun sizeBytes hn => ?_
  refine .step (refuse_follows ?_) fun _ _ => ?_
  · rw [optionalInt_get hn, negative_asJson, Bool.not_not]
  refine .step (optionalString_names _ _ _).follows fun provider _ => ?_
  refine .step (optionalString_names _ _ _).follows fun bucket hb => ?_
  refine .step (optionalString_names _ _ _).follows fun key hk => ?_
  refine .step (optionalString_names _ _ _).follows fun uri hu => ?_
  refine .step (optionalString_names _ _ _).follows fun versionId _ => ?_
  refine .step (optionalString_names _ _ _).follows fun contentType _ => ?_
  refine .step (optionalString_names _ _ _).follows fun checksum _ => ?_
  refine .step (x.optionalMapping_follows _ _ _) fun metadata _ => ?_
  exact .step (L := []) (locates_validate (given_get hb) (given_get hk)
    (given_get hu) label) fun _ _ => .ok _

theorem optionalStorage_follows (payload : Dict) (label : PyStr) :
    Follows (x.optionalStorage payload label) (Document.optionalStorage payload label)
      (x.storageChecks payload label) := by
  unfold optionalStorage Document.optionalStorage storageChecks
  cases payload.get "storage" with
  | null => exact .ok none
  | dict raw => exact (x.storageReference_follows raw label).map some
  | bool | int | float | str | list => exact .invalid _

theorem documentReference_follows (payload : Dict) :
    Follows (x.documentReference payload) (DocumentReference.fromPayload payload)
      (x.documentReferenceChecks payload) := by
  refine .step (x.optionalStorage_follows _ _) fun storage _ => ?_
  refine .step (requiredString_names _ _ _).follows fun documentId _ => ?_
  refine .step (optionalString_names _ _ _).follows fun title _ => ?_
  refine .step (optionalString_names _ _ _).follows fun sourceType _ => ?_
  refine .step (optionalString_names _ _ _).follows fun mimeType _ => ?_
  refine .step (optionalString_names _ _ _).follows fun fingerprint _ => ?_
  exact .step (L := []) (x.optionalMapping_follows _ _ _) fun _ _ => .ok _

theorem chunkReference_follows (payload : Dict) (index : Nat) :
    Follows (x.chunkReference payload index) (ChunkReference.fromPayload payload index)
      (x.chunkReferenceChecks payload index) := by
  refine .step (requiredInt_names _ _ _).follows fun chunkIndex hi => ?_
  refine .step (refuse_follows ?_) fun _ _ => ?_
  · rw [requiredInt_get hi, Bool.not_not]
    rfl
  refine .step (optionalInt_names _ _ _).follows fun tokenCount hn => ?_
  refine .step (refuse_follows ?_) fun _ _ => ?_
  · rw [optionalInt_get hn, negative_asJson, Bool.not_not]
  refine .step (x.optionalStorage_follows _ _) fun storage _ => ?_
  refine .step (requiredString_names _ _ _).follows fun chunkId _ => ?_
  refine .step (optionalString_names _ _ _).follows fun documentId _ => ?_
  refine .step (optionalString_names _ _ _).follows fun text _ => ?_
  exact .step (L := []) (x.optionalMapping_follows _ _ _) fun _ _ => .ok _

theorem vectorizeOptions_follows (options : Json) :
    Follows (x.vectorizeOptions options) (VectorizeOptions.fromPayload options)
      (x.optionsChecks options) := by
  cases options with
  | null => exact .ok _
  | dict payload =>
    refine .step (.plain (positiveDimensions_plain _ _)) fun dimensions _ => ?_
    refine .step (.plain (normalizeFlag_plain _)) fun normalize _ => ?_
    exact .step (L := []) (x.optionalMapping_follows _ _ _) fun _ _ => .ok _
  | bool | int | float | str | list => exact .invalid _

theorem objectOf_mapping {payload : Dict} (h : Document.optionalMapping payload key label = .ok d) :
    objectOf (payload.get key) = d := by
  unfold Document.optionalMapping at h
  split at h
  next he =>
    cases h
    rw [he]
    rfl
  next he =>
    obtain ⟨_, -, h⟩ := bind_eq_ok h
    cases h
    rw [he]
    rfl
  · cases h

theorem artifactRequestObject_follows (payload : Dict) (label : PyStr) :
    Follows (x.artifactRequestObject payload label) (ArtifactRequest.fromObject payload label)
      (x.artifactRequestChecks payload label) := by
  refine .step (requiredString_names _ _ _).follows fun artifactType ha => ?_
  refine .step (requiredFlag_names _ _).follows fun required hr => ?_
  refine .step (x.optionalMapping_follows _ _ _) fun parameters hp => ?_
  refine .step (.refuse _ _) fun _ _ => ?_
  have he : isText (payload.get "artifactType") "embedding" =
      decide (artifactType = py "embedding") := by
    rw [requiredString_get ha]
    rfl
  refine .step (refuse_follows ?_) fun _ _ => ?_
  · rw [he, objectOf_mapping hp, Bool.not_not]
  refine .step (L := []) (refuse_follows ?_) fun _ _ => .ok _
  rw [he, requiredFlag_getOr hr, Bool.not_not, decide_not]
  rfl

theorem artifactRequest_follows (item : Json) (index : Nat) :
    Follows (x.artifactRequest item index) (ArtifactRequest.fromPayload item index)
      (objectChecks (fun raw index =>
        x.artifactRequestChecks raw (at_ (py "artifactRequests") index)) item index) := by
  cases item with
  | dict payload => exact x.artifactRequestObject_follows payload _
  | null | bool | int | float | str | list => exact .invalid _

theorem objectAt_follows {f : Dict → Nat → Limited α} {g : Dict → Nat → Parse α}
    {checks : Dict → Nat → List Check} (h : ∀ d i, Follows (f d i) (g d i) (checks d i))
    (label : PyStr) (item : Json) (index : Nat) :
    Follows (objectAt label f item index) (Document.objectAt label g item index)
      (objectChecks checks item index) := by
  cases item with
  | dict payload => exact h payload index
  | null | bool | int | float | str | list => exact .invalid _

theorem enumerate_follows {f : Json → Nat → Limited α} {g : Json → Nat → Parse α}
    {checks : Json → Nat → List Check} (h : ∀ j i, Follows (f j i) (g j i) (checks j i)) :
    ∀ (items : List Json) (index : Nat), Follows (enumerate f index items)
      (Document.enumerate g index items) (enumerateChecks checks index items)
  | [], _ => .ok []
  | item :: rest, index => by
    refine (h item index).bind fun a _ => ?_
    rw [← List.append_nil (enumerateChecks _ _ _)]
    exact (enumerate_follows h rest (index + 1)).bind fun as _ => .ok (a :: as)

theorem validateSchemaAliases_follows (payload document : Dict) : ∀ keys : List String,
    Follows (x.validateSchemaAliases payload document keys)
      (Document.validateSchemaAliases payload document keys) (x.aliasChecks payload document keys)
  | [] => .ok ()
  | key :: rest => by
    have ih := validateSchemaAliases_follows payload document rest
    unfold validateSchemaAliases Document.validateSchemaAliases aliasChecks
    dsimp only
    cases !(payload.get key).isNull && !(document.get key).isNull with
    | false => exact ih
    | true =>
      rw [if_pos rfl, if_pos rfl]
      cases x.compares (payload.get key) (document.get key) with
      | false => exact ⟨.inl rfl, rfl⟩
      | true =>
        cases (payload.get key).pyEq (document.get key) with
        | false => exact ⟨.inr rfl, rfl⟩
        | true => exact ⟨ih.erases, ih.judged⟩

theorem destination_check {payload : Dict} (h : requiredString payload key label = .ok s)
    (text : String) : decide (s ≠ py text) = !isText (payload.get key) text := by
  rw [requiredString_get h, decide_not]
  rfl

theorem nonEmptyList_items (h : nonEmptyList payload key = .ok items) :
    itemsOf (payload.get key) = items := by
  unfold nonEmptyList at h
  split at h
  · cases h
  next he =>
    cases h
    rw [he]
    rfl
  · cases h

theorem listOrEmpty_items {payload : Dict} (h : listOrEmpty payload key = .ok items) :
    itemsOf (getOr payload key (.list [])) = items := by
  unfold listOrEmpty at h
  split at h
  next he =>
    cases h
    rw [he]
    rfl
  · cases h

theorem fromObject_covers (payload : Dict) :
    Covers (x.fromObject payload) (DocumentVectorizeInput.fromObject payload)
      (x.checks payload) := by
  refine .step (requiredString_names _ _ _).follows fun routeId _ => ?_
  refine .step (requiredString_names _ _ _).follows fun documentId _ => ?_
  refine .step (requiredManifestVersion_names _ _).follows fun manifestVersion _ => ?_
  refine .step (requiredString_names _ _ _).follows fun destination hd => ?_
  refine .step (refuse_follows (destination_check hd _)) fun _ _ => ?_
  refine .step (requiredNumber_follows _ _ _) fun qualityScore _ => ?_
  refine .step (requiredMapping_names _ _).follows fun rawDocument hraw => ?_
  rw [requiredMapping_get hraw]
  refine .step (x.documentReference_follows _) fun document _ => ?_
  refine .step (nonEmptyList_names _ _).follows fun rawChunks hc => ?_
  rw [nonEmptyList_items hc]
  refine .step (enumerate_follows (objectAt_follows x.chunkReference_follows _) _ _)
    fun chunks _ => ?_
  refine .step (listOrEmpty_names _ _).follows fun rawStorageReferences hs => ?_
  rw [listOrEmpty_items hs]
  refine .step (enumerate_follows (objectAt_follows (fun d i => x.storageReference_follows d _) _)
    _ _) fun storageReferences _ => ?_
  refine .step (listOrEmpty_names _ _).follows fun rawArtifactRequests ha => ?_
  rw [listOrEmpty_items ha]
  refine .step (enumerate_follows x.artifactRequest_follows _ _) fun artifactRequests _ => ?_
  refine .step (x.validateSchemaAliases_follows _ _ _) fun _ _ => ?_
  refine .step (x.optionalMapping_follows _ _ _) fun metadata _ => ?_
  refine .step (validateFiniteNumbers_follows _ _ _) fun _ _ => ?_
  refine .step (x.vectorizeOptions_follows _) fun options _ => ?_
  refine .step (.plain (optionalRootOrDocumentString_plain _ _ _)) fun documentType _ => ?_
  refine .step (.plain (optionalRootOrDocumentString_plain _ _ _)) fun schemaId _ => ?_
  refine .step (.plain (optionalRootOrDocumentString_plain _ _ _)) fun schemaVersion _ => ?_
  refine .step (x.optionalMapping_follows _ _ _) fun provenance _ => ?_
  refine (optionalString_names _ _ _).plain.covers fun correlationId => ?_
  refine (optionalString_names _ _ _).plain.covers fun embeddingModel => ?_
  exact (DocumentVectorizeInput.validateRelationships_plain _).covers fun _ => .ok _

theorem fromPayload_covers (payload : Json) :
    Covers (x.fromPayload payload) (DocumentVectorizeInput.fromPayload payload)
      (x.payloadChecks payload) := by
  cases payload with
  | dict payload => exact x.fromObject_covers payload
  | null | bool | int | float | str | list => exact ⟨.inr rfl, nofun, nofun⟩

theorem raises_validation_iff (payload : Json) :
    (∀ e, x.fromPayload payload = .error e → ∃ message, e = .payload (.validation message)) ↔
      judge (x.payloadChecks payload) ≠ .escaped := by
  rw [← not_iff_not, not_not, ← (x.fromPayload_covers payload).escapes]
  constructor
  · intro h
    push Not at h
    obtain ⟨e, he, hm⟩ := h
    rw [he]
    rcases e with (message | _) | _
    · exact absurd rfl (hm message)
    · rfl
    · rfl
  · intro h hv
    cases he : x.fromPayload payload with
    | ok r =>
      rw [he] at h
      cases h
    | error e =>
      obtain ⟨message, rfl⟩ := hv e he
      rw [he] at h
      cases h

structure Total (payload : Json) : Prop where
  raises : ∀ e, x.fromPayload payload = .error e → ∃ message, e = .payload (.validation message)
  returns : ∀ r, x.fromPayload payload = .ok r → r.Valid

/-- Validation is total and sound exactly where the first check that is not passed is neither
`float` of an integer that no float is near nor one that goes deeper than there is room. -/
theorem fromPayload_total_iff (payload : Json) :
    x.Total payload ↔ judge (x.payloadChecks payload) ≠ .escaped := by
  rw [← x.raises_validation_iff]
  refine ⟨fun h => h.raises, fun h => ⟨h, fun r hr => ?_⟩⟩
  exact DocumentVectorizeInput.fromPayload_valid ((x.fromPayload_covers payload).erases.eq_ok hr)

/-- A score of `10 ** 400`, and nothing after it. -/
def farScore : Dict := [
  (py "routeId", .str (py "r")),
  (py "documentId", .str (py "d")),
  (py "manifestVersion", .int 1),
  (py "destination", .str (py "vectorize")),
  (py "qualityScore", .int (10 ^ 400))]

theorem farScore_not_total : ¬ ample.Total (.dict farScore) := by
  intro h
  have he : judge (ample.payloadChecks (.dict farScore)) = .escaped := by decide +kernel
  exact (ample.raises_validation_iff _).mp h.raises he

def nested : Nat → Json
  | 0 => .null
  | n + 1 => .list [nested n]

theorem judge_nested (h : m ≤ n) : judge (numbers m (nested n)) = .escaped := by
  induction m generalizing n with
  | zero =>
    rw [numbers]
    rfl
  | succ m ih =>
    obtain ⟨n, rfl⟩ := Nat.exists_eq_add_of_le' (Nat.succ_pos m |>.trans_le h)
    rw [nested, numbers, List.flatMap_cons, judge_append, ih (Nat.le_of_succ_le_succ h)]
    rfl

def deepPayload (n : Nat) : Dict := [
  (py "routeId", .str (py "r")),
  (py "documentId", .str (py "d")),
  (py "manifestVersion", .int 1),
  (py "destination", .str (py "vectorize")),
  (py "qualityScore", .int 1),
  (py "document", .dict [(py "storage", .dict [(py "metadata", .dict [(py "a", nested n)])])])]

theorem deep_mapping (h : x.room (py "document.storage.metadata") ≤ n + 1) :
    judge (x.mappingChecks [(py "metadata", .dict [(py "a", nested n)])] "metadata"
      (py "document.storage.metadata")) = .escaped := by
  have hg : Dict.get [(py "metadata", .dict [(py "a", nested n)])] "metadata" =
      .dict [(py "a", nested n)] := rfl
  rw [mappingChecks, hg]
  dsimp only
  cases hr : x.room (py "document.storage.metadata") with
  | zero =>
    rw [numbers]
    rfl
  | succ m =>
    rw [numbers, List.flatMap_cons, judge_append, judge_nested (by omega)]
    rfl

theorem one_converts : judge (numberCheck (.int 1)) = .passed := by decide +kernel

theorem exists_too_deep : ∃ n, judge (x.payloadChecks (.dict (deepPayload n))) = .escaped := by
  refine ⟨x.room (py "document.storage.metadata") - 1, ?_⟩
  have hs : judge (x.storageReferenceChecks [(py "metadata", .dict [(py "a", nested
      (x.room (py "document.storage.metadata") - 1))])] (py "document.storage")) = .escaped := by
    refine judge_passed rfl (judge_passed rfl (judge_passed rfl (judge_passed rfl ?_)))
    refine judge_passed rfl (judge_passed rfl (judge_passed rfl (judge_passed rfl ?_)))
    exact judge_passed rfl (judge_escaped (x.deep_mapping (by omega)))
  refine judge_passed rfl (judge_passed rfl (judge_passed rfl (judge_passed rfl ?_)))
  refine judge_passed rfl (judge_passed one_converts (judge_passed rfl (judge_escaped ?_)))
  exact judge_escaped hs

end Interpreter

end Follows

end PrismPipe.Document
