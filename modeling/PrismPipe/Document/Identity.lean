import PrismPipe.Document.Processing
import PrismPipe.Document.Totality

/-! What of a payload reaches the identity of its request: the keys `from_payload` reads, and
`operationId` is none of them. -/

namespace PrismPipe.Document

open Python

def requestKeys : List String := ["routeId", "documentId", "manifestVersion", "destination",
  "qualityScore", "correlationId", "embeddingModel", "classification", "documentType", "schemaId",
  "schemaVersion", "provenance", "artifactRequests", "document", "chunks", "storageReferences",
  "metadata", "options"]

theorem Interpreter.optionalMapping_congr (x : Interpreter) {p q : Dict} {key : String}
    (h : p.find (py key) = q.find (py key)) (label : PyStr) :
    x.optionalMapping p key label = x.optionalMapping q key label := by
  rw [Interpreter.optionalMapping, Interpreter.optionalMapping, get_congr h]

theorem Interpreter.validateSchemaAliases_congr (x : Interpreter) {p q document : Dict} :
    ∀ keys : List String, (∀ key ∈ keys, p.get key = q.get key) →
      x.validateSchemaAliases p document keys = x.validateSchemaAliases q document keys
  | [], _ => rfl
  | key :: rest, h => by
    rw [Interpreter.validateSchemaAliases, Interpreter.validateSchemaAliases,
      h key List.mem_cons_self,
      x.validateSchemaAliases_congr rest fun k hk => h k (List.mem_cons_of_mem _ hk)]

theorem Interpreter.fromObject_congr (x : Interpreter) {p q : Dict}
    (h : ∀ key ∈ requestKeys, p.find (py key) = q.find (py key)) :
    x.fromObject p = x.fromObject q := by
  have hs : ∀ key ∈ ["documentType", "schemaId", "schemaVersion"],
      p.get key = q.get key := fun key hk => get_congr (h key (by
    simp only [List.mem_cons, List.not_mem_nil, or_false] at hk
    rcases hk with rfl | rfl | rfl <;> decide))
  unfold Interpreter.fromObject
  rw [requiredString_congr (h "routeId" (by decide)),
    requiredString_congr (h "documentId" (by decide)),
    requiredManifestVersion_congr (h "manifestVersion" (by decide)),
    requiredString_congr (h "destination" (by decide)),
    requiredNumber_congr (h "qualityScore" (by decide)),
    requiredMapping_congr (h "document" (by decide)),
    nonEmptyList_congr (h "chunks" (by decide)),
    listOrEmpty_congr (h "storageReferences" (by decide)),
    listOrEmpty_congr (h "artifactRequests" (by decide)),
    x.optionalMapping_congr (h "metadata" (by decide)),
    get_congr (h "classification" (by decide)),
    get_congr (h "options" (by decide)),
    x.optionalMapping_congr (h "provenance" (by decide)),
    optionalString_congr (h "correlationId" (by decide)),
    optionalString_congr (h "embeddingModel" (by decide))]
  simp only [x.validateSchemaAliases_congr _ hs,
    optionalRootOrDocumentString_congr (h "documentType" (by decide)),
    optionalRootOrDocumentString_congr (h "schemaId" (by decide)),
    optionalRootOrDocumentString_congr (h "schemaVersion" (by decide))]

/-- The key `process` files an accepted payload under. -/
def filedUnder (runtime : Runtime) (payload : Json) (messageId : PyStr) (headers : Dict) :
    Limited (Except EncodeError String) := do
  let request ← runtime.fromPayload payload
  return buildDocumentIdempotencyKey runtime request.toPayload messageId
    (preservedMetadata headers messageId)

/-- All content but `operationId` is equal. -/
def SameButOperationId (p q : Dict) : Prop := ∀ key ≠ py "operationId", p.find key = q.find key

theorem SameButOperationId.find {p q : Dict} (h : SameButOperationId p q) :
    ∀ key ∈ requestKeys, p.find (py key) = q.find (py key) := by
  intro key hk
  refine h _ (mt py_inj.mp ?_)
  rintro rfl
  exact absurd hk (by decide)

theorem SameButOperationId.fromPayload {p q : Dict} (h : SameButOperationId p q) (x : Interpreter) :
    x.fromPayload (.dict p) = x.fromPayload (.dict q) := x.fromObject_congr h.find

/-- Payloads that differ in `operationId` only are filed under one key: `to_payload` has dropped it
where the key is built. -/
theorem operationId_dropped {p q : Dict} (h : SameButOperationId p q) (runtime : Runtime)
    (messageId : PyStr) (headers : Dict) :
    filedUnder runtime (.dict p) messageId headers = filedUnder runtime (.dict q) messageId headers ∧
      ∀ r, DocumentVectorizeInput.fromPayload (.dict p) = .ok r →
        (process runtime (.dict p) messageId headers : Task T (DocumentProcessingResult T)) =
          process runtime (.dict q) messageId headers := by
  have hsame := h.fromPayload runtime.toInterpreter
  refine ⟨by rw [filedUnder, filedUnder, hsame], fun r hr => ?_⟩
  unfold process
  rw [hsame]
  rcases (runtime.fromPayload_covers (.dict p)).erases with hlimited | hlimited <;>
    rw [hsame] at hlimited
  · rw [hlimited]
  · rw [hlimited, hr]
    rfl

def payloadOf (operationId : String) : Dict := [(py "routeId", .str (py "r")),
  (py "documentId", .str (py "d")), (py "manifestVersion", .int 1),
  (py "destination", .str (py "vectorize")), (py "qualityScore", .int 1),
  (py "document", .dict [(py "documentId", .str (py "d"))]),
  (py "chunks", .list [.dict [(py "chunkId", .str (py "c")), (py "index", .int 0),
    (py "text", .str (py "t"))]]),
  (py "operationId", .str (py operationId))]

theorem payloadOf_same (a b : String) : SameButOperationId (payloadOf a) (payloadOf b) := by
  intro key hk
  simp only [payloadOf, Dict.find, List.find?_cons, List.find?_nil, decide_eq_false hk.symm]

theorem operationId_dropped_a_b :
    (DocumentVectorizeInput.fromPayload (.dict (payloadOf "a"))).isOk ∧
      filedUnder .ample (.dict (payloadOf "a")) [] [] =
        filedUnder .ample (.dict (payloadOf "b")) [] [] :=
  ⟨by decide +kernel, (operationId_dropped (T := Nat) (payloadOf_same _ _) _ _ _).1⟩

/-- Two operations of one document share a key. -/
theorem operations_share_key : ¬ ∀ (runtime : Runtime) (p q : Dict) (a b : PyStr) (messageId : PyStr)
    (headers : Dict), (DocumentVectorizeInput.fromPayload (.dict p)).isOk →
      (DocumentVectorizeInput.fromPayload (.dict q)).isOk → SameButOperationId p q →
      p.find (py "operationId") = some (.str a) → q.find (py "operationId") = some (.str b) →
      a ≠ [] → b ≠ [] → a ≠ b →
      filedUnder runtime (.dict p) messageId headers ≠
        filedUnder runtime (.dict q) messageId headers := by
  intro h
  refine h .ample (payloadOf "a") (payloadOf "b") (py "a") (py "b") [] []
    (by decide +kernel) (by decide +kernel) (payloadOf_same _ _) rfl rfl (by decide) (by decide)
    (by decide) ?_
  exact (operationId_dropped (T := Nat) (payloadOf_same _ _) _ _ _).1

end PrismPipe.Document
