import PrismPipe.Document.Limits

/-! What a vectorizer may return, its validation, and the node that settles an envelope with it. -/

namespace PrismPipe.Document

open Python

/-- What a validation raises: a `ValueError`, or what `float` raises on a number it has no value
for. -/
structure BackendError where
  errorType : PyStr
  message : PyStr

abbrev Checked := Except BackendError

def reject (message : PyStr) : Checked α := .error ⟨py "ValueError", message⟩

/-- A `numbers.Real` that is neither an `int` nor a `float`: whether it is finite, and what `float`
makes of it.  No infinity and no `NaN` has a finite `float`. -/
structure OtherReal where
  finite : Bool
  asFloat : Checked PyFloat
  sound : asFloat.toOption.any PyFloat.isFinite → finite

/-- A key of a mapping, with its `str`. -/
inductive Key
  | str (s : PyStr)
  | bool (b : Bool)
  | int (i : Int)
  | float (f : PyFloat) (text : PyStr)
  | none
  | other (text : PyStr)

/-- `f"{key}"`. -/
def Key.format : Key → PyStr
  | .str s => s
  | .bool b => py (if b then "True" else "False")
  | .int i => py (toString i)
  | .float _ text => text
  | .none => py "None"
  | .other text => text

/-- An object a vectorizer may put into its result.  A mapping is a `dict` or another `Mapping`. -/
inductive PyValue
  | none
  | bool (b : Bool)
  | int (i : Int)
  | float (f : PyFloat)
  | real (r : OtherReal)
  | str (s : PyStr)
  | list (items : List PyValue)
  | tuple (items : List PyValue)
  | mapping (isDict : Bool) (items : List (Key × PyValue))
  | other

abbrev PyMapping := List (Key × PyValue)

def PyValue.ofJson : Json → PyValue
  | .null => .none
  | .bool b => .bool b
  | .int i => .int i
  | .float f => .float f
  | .str s => .str s
  | .list items => .list (ofItems items)
  | .dict items => .mapping true (ofFields items)
where
  ofItems : List Json → List PyValue
    | [] => []
    | x :: xs => ofJson x :: ofItems xs
  ofFields : List (PyStr × Json) → PyMapping
    | [] => []
    | (k, x) :: xs => (.str k, ofJson x) :: ofFields xs

/-- `float(i)`. -/
def convertInt (i : Int) : Checked PyFloat :=
  match PyFloat.ofInt i with
  | some f => .ok f
  | none => .error ⟨py "OverflowError", py "int too large to convert to float"⟩

/-- `float(value)` where `value` is a `Real` and no `bool`. -/
def PyValue.toFloat : PyValue → Option (Checked PyFloat)
  | .int i => some (convertInt i)
  | .float f => some (.ok f)
  | .real r => some r.asFloat
  | _ => Option.none

/-- `if not math.isfinite(float(value)): raise`. -/
def requireFinite (converted : Checked PyFloat) (message : PyStr) : Checked Unit := do
  let f ← converted
  if f.isFinite then return () else reject message

/-- `backendRoom` is how many nested calls of `_validate_finite_numbers` the stack has room for where
a result is validated, and `formats` holds of the keys whose `str` has no more digits than an
integer may have.  Of a value of an output and how many containers it stands in, `copies` is whether
its deep copies get to its end, and `dumps` whether `json.dumps` does, with room for its nesting and
digits for its integers. -/
structure Host extends Interpreter where
  backendRoom : Nat
  formats : Key → Bool
  copies : Nat × PyValue → Bool
  dumps : Nat × PyValue → Bool

def recursionError : BackendError := ⟨py "RecursionError", py "maximum recursion depth exceeded"⟩

def digitsError : BackendError :=
  ⟨py "ValueError", py "Exceeds the limit for integer string conversion"⟩

/-- `_validate_finite_numbers`, raising `ValueError`, with room for that many nested calls. -/
def checkFiniteNumbers (formats : Key → Bool) : Nat → PyStr → PyValue → Checked Unit
  | 0, _, _ => .error recursionError
  | _ + 1, label, .int i =>
    requireFinite (convertInt i) (label ++ py " must contain only finite numbers")
  | _ + 1, label, .float f => requireFinite (.ok f) (label ++ py " must contain only finite numbers")
  | _ + 1, label, .real r => requireFinite r.asFloat (label ++ py " must contain only finite numbers")
  | n + 1, label, .mapping _ items =>
    Interpreter.each (fun field =>
      if formats field.1 then checkFiniteNumbers formats n (dot label field.1.format) field.2
      else .error digitsError) items
  | n + 1, label, .list items | n + 1, label, .tuple items =>
    Interpreter.each (fun item => checkFiniteNumbers formats n (at_ label item.2) item.1)
      items.zipIdx
  | _ + 1, _, _ => .ok ()

structure VectorizedChunk where
  chunkId : PyStr
  text : PyStr
  vector : PyValue
  metadata : PyMapping

structure VectorizeBackendResult where
  chunks : List VectorizedChunk
  dimensions : PyValue
  metadata : PyMapping

/-- The loop over the components of `vector`. -/
def checkComponents (index component : Nat) : List PyValue → Checked Unit
  | [] => .ok ()
  | value :: rest => do
    let label := at_ (at_ (py "chunks") index ++ py ".vector") component
    match value.toFloat with
    | none => reject (py "Vectorizer returned a non-numeric value for " ++ label)
    | some converted =>
      requireFinite converted (py "Vectorizer returned a non-finite value for " ++ label)
    checkComponents index (component + 1) rest

def checkChunk (host : Host) (requested : ChunkReference) (chunk : VectorizedChunk) (index : Nat)
    (dimensions : Option Int) : Checked Int := do
  if chunk.chunkId ≠ requested.chunkId then
    reject (py "Vectorizer returned mismatched chunk id for " ++ at_ (py "chunks") index)
  else
    match chunk.vector with
    | .list (value :: rest) =>
      checkComponents index 0 (value :: rest)
      checkFiniteNumbers host.formats host.backendRoom (at_ (py "chunks") index ++ py ".metadata")
        (.mapping true chunk.metadata)
      let chunkDimensions : Int := (value :: rest).length
      match dimensions with
      | none => return chunkDimensions
      | some d =>
        if d ≠ chunkDimensions then
          reject (py "Vectorizer returned inconsistent vector dimensions")
        else return d
    | _ => reject (py "Vectorizer returned an empty vector for " ++ at_ (py "chunks") index)

def checkChunks (host : Host) (index : Nat) (dimensions : Option Int) :
    List ChunkReference → List VectorizedChunk → Checked (Option Int)
  | requested :: more, chunk :: rest => do
    let d ← checkChunk host requested chunk index dimensions
    checkChunks host (index + 1) (some d) more rest
  | _, _ => return dimensions

def checkArtifacts (dimensions : Int) (index : Nat) : List ArtifactRequest → Checked Unit
  | [] => .ok ()
  | artifact :: rest =>
    let requestedDimensions := artifact.parameters.get "dimensions"
    if artifact.required && artifact.artifactType = py "embedding" &&
        !requestedDimensions.isNull && !requestedDimensions.pyEq (.int dimensions) then
      reject (at_ (py "artifactRequests") index ++
        py ".parameters.dimensions does not match the returned embedding dimensions")
    else checkArtifacts dimensions (index + 1) rest

/-- `result.dimensions`, where it is given. -/
def declaredDimensions : PyValue → Checked (Option Int)
  | .none => .ok none
  | .int i => if i ≤ 0 then reject (py "Vectorizer returned invalid vector dimensions")
    else .ok (some i)
  | _ => reject (py "Vectorizer returned invalid vector dimensions")

/-- `none` is an object that is no `VectorizeBackendResult`. -/
def validateBackendResult (host : Host) (request : DocumentVectorizeInput) :
    Option VectorizeBackendResult → Checked Int
  | none => reject (py "Vectorizer returned an invalid result object")
  | some result => do
    if result.chunks.length ≠ request.chunks.length then
      reject (py "Vectorizer returned a different number of chunks")
    else
      let declared ← declaredDimensions result.dimensions
      match ← checkChunks host 0 declared request.chunks result.chunks with
      | none => reject (py "Vectorizer returned invalid vector dimensions")
      | some dimensions =>
        if dimensions ≤ 0 then reject (py "Vectorizer returned invalid vector dimensions")
        else if request.options.dimensions.any (· ≠ dimensions) then
          reject (py "Vectorizer dimensions do not match requested options.dimensions")
        else
          checkArtifacts dimensions 0 request.artifactRequests
          checkFiniteNumbers host.formats host.backendRoom (py "backend.metadata")
            (.mapping true result.metadata)
          return dimensions

/-- `VectorizedChunk.to_payload`. -/
def VectorizedChunk.toPayload (self : VectorizedChunk) : PyValue := .mapping true [
  (.str (py "chunkId"), .str self.chunkId),
  (.str (py "text"), .str self.text),
  (.str (py "vector"), self.vector),
  (.str (py "metadata"), .mapping true self.metadata)]

structure ArtifactResult where
  artifactType : PyStr
  status : PyStr
  required : Bool
  details : Dict

def ArtifactResult.toPayload (self : ArtifactResult) : Json := .dict [
  (py "artifactType", .str self.artifactType),
  (py "status", .str self.status),
  (py "required", .bool self.required),
  (py "details", .dict self.details)]

structure DocumentVectorizeOutput where
  documentId : PyStr
  chunks : List VectorizedChunk
  dimensions : Int
  provider : PyStr
  model : PyStr
  metadata : PyMapping
  artifacts : List ArtifactResult

namespace DocumentVectorizeOutput

def artifact (dimensions : Int) (provider model : PyStr) (request : ArtifactRequest) :
    ArtifactResult :=
  if request.artifactType = py "embedding" then {
    artifactType := py "embedding"
    status := py "fulfilled"
    required := request.required
    details := [(py "dimensions", .int dimensions), (py "provider", .str provider),
      (py "model", .str model)] }
  else {
    artifactType := request.artifactType
    status := py "unsupported"
    required := false
    details := [(py "reason", .str (py "No artifact producer is configured"))] }

def fromBackend (host : Host) (request : DocumentVectorizeInput)
    (result : Option VectorizeBackendResult) (provider model : PyStr) :
    Checked DocumentVectorizeOutput := do
  let dimensions ← validateBackendResult host request result
  let field (key : String) (value : Json) : Key × PyValue := (.str (py key), .ofJson value)
  return {
    documentId := request.documentId
    chunks := result.elim [] (·.chunks)
    dimensions, provider, model
    metadata := [
      field "routeId" (.str request.routeId),
      field "manifestVersion" request.manifestVersion.toPayload,
      field "correlationId" (asJson .str request.correlationId),
      field "embeddingModel" (asJson .str request.embeddingModel),
      field "documentType" (asJson .str request.documentType),
      field "schemaId" (asJson .str request.schemaId),
      field "schemaVersion" (asJson .str request.schemaVersion),
      field "provenance" (.dict request.provenance),
      (.str (py "backend"), .mapping true (result.elim [] (·.metadata))),
      field "options" request.options.toPayload]
    artifacts := request.artifactRequests.map (artifact dimensions provider model) }

def toPayload (self : DocumentVectorizeOutput) : PyValue := .mapping true [
  (.str (py "documentId"), .str self.documentId),
  (.str (py "chunks"), .list (self.chunks.map (·.toPayload))),
  (.str (py "dimensions"), .int self.dimensions),
  (.str (py "provider"), .str self.provider),
  (.str (py "model"), .str self.model),
  (.str (py "metadata"), .mapping true self.metadata),
  (.str (py "artifacts"), .list (self.artifacts.map fun a => .ofJson a.toPayload))]

end DocumentVectorizeOutput

structure NodeEnvelope where
  state : List (PyStr × PyValue)
  next : Option PyStr
  terminated : Bool
  error : Option PyStr

namespace NodeEnvelope

/-- `envelope.state.pop(key, None)`. -/
def pop (self : NodeEnvelope) (key : String) : NodeEnvelope :=
  { self with state := self.state.filter fun kv => kv.1 ≠ py key }

/-- `envelope.state[key] = value`. -/
def set (self : NodeEnvelope) (key : String) (value : PyValue) : NodeEnvelope :=
  { self with state := (self.pop key).state ++ [(py key, value)] }

def setNext (self : NodeEnvelope) (capability : Option PyStr) : NodeEnvelope :=
  { self with next := capability }

def terminate (self : NodeEnvelope) (error : PyStr) : NodeEnvelope :=
  { self with terminated := true, error := if error ≠ [] then some error else self.error }

end NodeEnvelope

structure NodeReturn where
  envelope : NodeEnvelope
  success : Bool
  error : Option PyStr
  action : PyStr

def failEnvelope (envelope : NodeEnvelope) (error : DocumentVectorizeError) : NodeReturn where
  envelope := ((((envelope.pop "document_vectorize").set "document_vectorize_error"
    (.ofJson (.dict error.toPayload))).setNext none).terminate error.message)
  success := false
  error := some error.message
  action := py "document.vectorize failed: " ++ error.code

def backendFailure (code message : String) (request : DocumentVectorizeInput)
    (provider model : PyStr) (raised : BackendError) (retryable : Bool) :
    DocumentVectorizeError where
  code := py code
  message := py message
  documentId := some request.documentId
  provider := some provider
  model := some model
  details := [(py "error", .str raised.message), (py "errorType", .str raised.errorType)]
  retryable := retryable

/-- `DocumentVectorizeNode.process`, with what the vectorizer returns or raises. -/
def DocumentVectorizeNode.process (host : Host) (provider model : PyStr)
    (vectorize : DocumentVectorizeInput → Checked (Option VectorizeBackendResult))
    (payload : Json) (envelope : NodeEnvelope) : Limited NodeReturn :=
  match host.fromPayload payload with
  | .error (.payload (.validation message)) => .ok (failEnvelope envelope
      { code := py "VALIDATION_ERROR", message, provider := some provider, model := some model })
  | .error raised => .error raised
  | .ok request =>
    match vectorize request with
    | .error raised => .ok (failEnvelope envelope (backendFailure "VECTORIZER_ERROR"
        "Vectorizer backend failed" request provider model raised true))
    | .ok result =>
      match DocumentVectorizeOutput.fromBackend host request result provider model with
      | .error raised => .ok (failEnvelope envelope (backendFailure "VECTORIZER_RESULT_INVALID"
          "Vectorizer returned an invalid result" request provider model raised false))
      | .ok output => .ok {
          envelope := ((envelope.set "document_vectorize" output.toPayload).pop
            "document_vectorize_error").setNext none
          success := true
          error := none
          action := py "document.vectorize completed" }

end PrismPipe.Document
