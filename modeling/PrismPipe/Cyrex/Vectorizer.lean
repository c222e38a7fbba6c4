import PrismPipe.Document.BackendLaws

/-! `CyrexVectorizer` behind the `document.vectorize` node: which replies of Cyrex end an envelope
with vectors, and with which. -/

namespace PrismPipe.Cyrex

open Python Document

def typeError (message : PyStr) : Checked α := .error ⟨py "TypeError", message⟩

/-- `list(v)`. -/
def iterate : Json → Checked (List Json)
  | .list items => .ok items
  | .str s => .ok (s.map fun c => .str [c])
  | .dict d => .ok (d.map fun kv => .str kv.1)
  | v => typeError (py "'" ++ py v.typeName ++ py "' object is not iterable")

/-- `c[key]`. -/
def subscript (c : Json) (key : String) : Checked Json :=
  match c with
  | .dict d =>
    match Dict.find d (py key) with
    | some v => .ok v
    | none => .error ⟨py "KeyError", py "'" ++ py key ++ py "'"⟩
  | .list _ => typeError (py "list indices must be integers or slices, not str")
  | .str _ => typeError (py "string indices must be integers, not 'str'")
  | v => typeError (py "'" ++ py v.typeName ++ py "' object is not subscriptable")

/-- A key of a `dict`. -/
def hashed : Json → Checked Json
  | .list _ => typeError (py "unhashable type: 'list'")
  | .dict _ => typeError (py "unhashable type: 'dict'")
  | v => .ok v

def cyrexError (message : PyStr) : Checked α := .error ⟨py "CyrexVectorizerError", message⟩

/-- The client: what the `POST` of a body is answered, or why not, and the `repr` its errors use. -/
structure Client where
  post : Json → Checked Json
  repr : Json → PyStr

variable (client : Client)

def chunkPayload (chunk : ChunkReference) : Checked (Json × PyStr) :=
  match chunk.text with
  | none | some [] => cyrexError (py "chunk " ++ client.repr (.str chunk.chunkId) ++
      py " has no text; cannot vectorize")
  | some text => .ok (.dict [(py "chunk_id", .str chunk.chunkId), (py "text", .str text),
      (py "metadata", .dict chunk.metadata)], text)

def body (request : DocumentVectorizeInput) (chunks : List Json) : Json := .dict [
  (py "document_id", .str request.documentId),
  (py "chunks", .list chunks),
  (py "doc_type", (asJson .str request.documentType).or (.str (py "legal_document"))),
  (py "industry", (request.metadata.find (py "industry")).getD (.str (py "generic"))),
  (py "metadata", .dict request.metadata)]

/-- `{c["chunk_id"]: c for c in chunks}`, the later entries first. -/
def byChunkId (chunks : List Json) : Checked (List (Json × Json)) := do
  let entries ← chunks.mapM fun c => do
    let key ← hashed (← subscript c "chunk_id")
    return (key, c)
  return entries.reverse

def names (chunkId : PyStr) : Json → Bool
  | .str s => s = chunkId
  | _ => false

def entryFor (entries : List (Json × Json)) (chunkId : PyStr) : Option Json :=
  (entries.find? fun e => names chunkId e.1).map (·.2)

def vectorized (request : DocumentVectorizeInput) (entries : List (Json × Json))
    (chunk : ChunkReference × PyStr) : Checked VectorizedChunk :=
  match entryFor entries chunk.1.chunkId with
  | none => cyrexError (py "Cyrex response missing vector for chunk " ++
      client.repr (.str chunk.1.chunkId))
  | some result => do
    let vector ← iterate (← subscript result "vector")
    return {
      chunkId := chunk.1.chunkId
      text := chunk.2
      vector := .list (vector.map .ofJson)
      metadata := [(.str (py "milvusDocumentId"), .str request.documentId)] }

/-- `CyrexVectorizer._vectorize`. -/
def vectorize (request : DocumentVectorizeInput) : Checked (Option VectorizeBackendResult) := do
  let chunksPayload ← request.chunks.mapM (chunkPayload client)
  match ← client.post (body request (chunksPayload.map Prod.fst)) with
  | .dict data =>
    if (Dict.get data "success").truthy then
      let entries ← byChunkId (← iterate (getOr data "chunks" (.list [])))
      let chunks ← (request.chunks.zip (chunksPayload.map Prod.snd)).mapM
        (vectorized client request entries)
      return some {
        chunks
        dimensions := .ofJson (Dict.get data "dimensions")
        metadata := [(.str (py "backend"), .str (py "cyrex-milvus")),
          (.str (py "cyrexDocumentId"), .ofJson (Dict.get data "document_id"))] }
    else cyrexError (py "Cyrex indexing reported failure: " ++ client.repr (.dict data))
  | data => .error ⟨py "AttributeError",
      py "'" ++ py data.typeName ++ py "' object has no attribute 'get'"⟩

def provider : PyStr := py "cyrex"

def model : PyStr := py "sentence-transformers/all-MiniLM-L6-v2"

end PrismPipe.Cyrex
