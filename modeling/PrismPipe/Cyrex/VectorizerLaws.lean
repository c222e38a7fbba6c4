import PrismPipe.Cyrex.Vectorizer

/-! What `CyrexVectorizer` asks of Cyrex, what the node takes of the reply, and what an envelope is
left with. -/

namespace PrismPipe.Cyrex

open Python Document

theorem mapM_eq_ok {f : α → Except ε β} : ∀ {l : List α} {r : List β},
    l.mapM f = .ok r ↔ List.Forall₂ (fun a b => f a = .ok b) l r
  | [], r => by
    rw [List.mapM_nil, List.forall₂_nil_left_iff]
    exact ⟨fun h => by cases h; rfl, fun h => h ▸ rfl⟩
  | a :: l, r => by
    rw [List.mapM_cons]
    constructor
    · intro h
      obtain ⟨b, hb, h⟩ := bind_eq_ok h
      obtain ⟨bs, hbs, h⟩ := bind_eq_ok h
      cases h
      exact .cons hb (mapM_eq_ok.mp hbs)
    · intro h
      cases h with
      | cons hb hbs => exact bind_ok hb (bind_ok (mapM_eq_ok.mpr hbs) rfl)

def spoken (chunk : ChunkReference) : Json := .dict [(py "chunk_id", .str chunk.chunkId),
  (py "text", .str (chunk.text.getD [])), (py "metadata", .dict chunk.metadata)]

def Spoken (chunk : ChunkReference) : Prop := chunk.text ≠ none ∧ chunk.text ≠ some []

def asked (request : DocumentVectorizeInput) : Json := body request (request.chunks.map spoken)

variable {client : Client} {request : DocumentVectorizeInput}

theorem chunkPayload_eq_ok {chunk : ChunkReference} : chunkPayload client chunk = .ok p ↔
    Spoken chunk ∧ p = (spoken chunk, chunk.text.getD []) := by
  unfold chunkPayload Spoken spoken
  split
  next h => simp [h, cyrexError]
  next h => simp [h, cyrexError]
  next text hne h =>
    have hsome : some text ≠ some [] := fun he => hne (Option.some.inj he)
    simp only [h, ne_eq, reduceCtorEq, not_false_eq_true, true_and, Option.getD_some, hsome,
      Except.ok.injEq]
    exact eq_comm

theorem chunksPayload_eq_ok {chunks : List ChunkReference} :
    chunks.mapM (chunkPayload client) = .ok r ↔
      (∀ c ∈ chunks, Spoken c) ∧ r = chunks.map fun c => (spoken c, c.text.getD []) := by
  rw [mapM_eq_ok]
  simp only [chunkPayload_eq_ok]
  induction chunks generalizing r with
  | nil => simp
  | cons c rest ih =>
    simp only [List.forall₂_cons_left_iff, ih, List.forall_mem_cons, List.map_cons]
    constructor
    · rintro ⟨_, _, ⟨hc, rfl⟩, ⟨hrest, rfl⟩, rfl⟩
      exact ⟨⟨hc, hrest⟩, rfl⟩
    · rintro ⟨⟨hc, hrest⟩, rfl⟩
      exact ⟨_, _, ⟨hc, rfl⟩, ⟨hrest, rfl⟩, rfl⟩

def Vector (entries : List (Json × Json)) (chunkId : PyStr) (items : List Json) : Prop :=
  ∃ entry vector, entryFor entries chunkId = some (.dict entry) ∧
    Dict.find entry (py "vector") = some vector ∧ iterate vector = .ok items

def chunkMetadata (request : DocumentVectorizeInput) : PyMapping :=
  [(.str (py "milvusDocumentId"), .str request.documentId)]

def returned (request : DocumentVectorizeInput) (chunk : ChunkReference) (items : List Json) :
    VectorizedChunk where
  chunkId := chunk.chunkId
  text := chunk.text.getD []
  vector := .list (items.map .ofJson)
  metadata := chunkMetadata request

theorem subscript_eq_ok {c : Json} {key : String} : subscript c key = .ok v ↔
    ∃ d, c = .dict d ∧ Dict.find d (py key) = some v := by
  cases c with
  | dict d =>
    unfold subscript
    cases hf : Dict.find d (py key) with
    | none => simp [hf]
    | some w => simp [hf]
  | null | bool | int | float | str | list => simp [subscript, typeError]

theorem vectorized_eq_ok {chunk : ChunkReference} :
    vectorized client request entries (chunk, chunk.text.getD []) = .ok v ↔
      ∃ items, Vector entries chunk.chunkId items ∧ v = returned request chunk items := by
  unfold vectorized Vector returned
  cases he : entryFor entries chunk.chunkId with
  | none => simp [cyrexError]
  | some result =>
    constructor
    · intro h
      obtain ⟨vector, hv, h⟩ := bind_eq_ok h
      obtain ⟨items, hi, h⟩ := bind_eq_ok h
      cases h
      obtain ⟨entry, rfl, hf⟩ := subscript_eq_ok.mp hv
      exact ⟨items, ⟨entry, vector, rfl, hf, hi⟩, rfl⟩
    · rintro ⟨items, ⟨entry, vector, hr, hf, hi⟩, rfl⟩
      cases hr
      exact bind_ok (subscript_eq_ok.mpr ⟨entry, rfl, hf⟩) (bind_ok hi rfl)

def Entries (data : Dict) (entries : List (Json × Json)) : Prop :=
  ∃ listed, iterate (getOr data "chunks" (.list [])) = .ok listed ∧ byChunkId listed = .ok entries

def result (data : Dict) (chunks : List VectorizedChunk) :
    VectorizeBackendResult where
  chunks := chunks
  dimensions := .ofJson (Dict.get data "dimensions")
  metadata := [(.str (py "backend"), .str (py "cyrex-milvus")),
    (.str (py "cyrexDocumentId"), .ofJson (Dict.get data "document_id"))]

theorem vectorize_eq_ok : vectorize client request = .ok r ↔
    (∀ c ∈ request.chunks, Spoken c) ∧ ∃ data entries chunks,
      client.post (asked request) = .ok (.dict data) ∧ (Dict.get data "success").truthy ∧
        Entries data entries ∧
        List.Forall₂ (fun c v => ∃ items, Vector entries c.chunkId items ∧
          v = returned request c items) request.chunks chunks ∧
        r = some (result data chunks) := by
  have hzip : request.chunks.zip ((request.chunks.map fun c =>
      (spoken c, c.text.getD [])).map Prod.snd) =
      request.chunks.map fun c => (c, c.text.getD []) := by
    rw [List.map_map]
    induction request.chunks with
    | nil => rfl
    | cons c rest ih => exact congrArg _ ih
  have hasked : body request ((request.chunks.map fun c =>
      (spoken c, c.text.getD [])).map Prod.fst) = asked request := by
    rw [List.map_map]
    rfl
  have hchunks : ∀ entries chunks, (request.chunks.map fun c => (c, c.text.getD [])).mapM
      (vectorized client request entries) = .ok chunks ↔
        List.Forall₂ (fun c v => ∃ items, Vector entries c.chunkId items ∧
          v = returned request c items) request.chunks chunks := by
    intro entries chunks
    simp only [mapM_eq_ok, List.forall₂_map_left_iff, vectorized_eq_ok]
  unfold vectorize
  constructor
  · intro h
    obtain ⟨payload, hp, h⟩ := bind_eq_ok h
    obtain ⟨hspoken, rfl⟩ := chunksPayload_eq_ok.mp hp
    obtain ⟨data, hd, h⟩ := bind_eq_ok h
    rw [hasked] at hd
    cases data with
    | dict data =>
      dsimp only at h
      split at h
      next hs =>
        obtain ⟨listed, hl, h⟩ := bind_eq_ok h
        obtain ⟨entries, he, h⟩ := bind_eq_ok h
        obtain ⟨chunks, hc, h⟩ := bind_eq_ok h
        cases h
        rw [hzip, hchunks] at hc
        exact ⟨hspoken, data, entries, chunks, hd, hs, ⟨listed, hl, he⟩, hc, rfl⟩
      · cases h
    | null | bool | int | float | str | list => cases h
  · rintro ⟨hspoken, data, entries, chunks, hd, hs, ⟨listed, hl, he⟩, hc, rfl⟩
    refine bind_ok (chunksPayload_eq_ok.mpr ⟨hspoken, rfl⟩) ?_
    refine bind_ok (hasked ▸ hd) ?_
    dsimp only
    rw [if_pos hs]
    refine bind_ok hl (bind_ok he (bind_ok ?_ rfl))
    rw [hzip, hchunks]
    exact hc

theorem eq_list_of_converts {vector : Json} (h : iterate vector = .ok items) (hne : items ≠ [])
    (hall : ∀ v ∈ items, (PyValue.ofJson v).converts) : vector = .list items := by
  have hstr : ∀ s : PyStr, Json.str s ∉ items := fun s hs => by
    have := hall _ hs
    simp [PyValue.ofJson, PyValue.converts, PyValue.finiteReal] at this
  cases vector with
  | list l =>
    cases h
    rfl
  | str s =>
    cases h
    cases s with
    | nil => exact absurd rfl hne
    | cons c s => exact absurd (List.mem_map.mpr ⟨c, List.mem_cons_self, rfl⟩) (hstr [c])
  | dict d =>
    cases h
    cases d with
    | nil => exact absurd rfl hne
    | cons kv d => exact absurd (List.mem_map.mpr ⟨kv, List.mem_cons_self, rfl⟩) (hstr kv.1)
  | null | bool | int | float => cases h

/-- The reply has a vector for every chunk, all of finite numbers and of one length, and no other
length is declared or asked for. -/
structure Served (host : Host) (request : DocumentVectorizeInput) (data : Dict)
    (entries : List (Json × Json)) (d : Int) : Prop where
  vectors : ∀ c ∈ request.chunks, ∃ entry items, entryFor entries c.chunkId = some (.dict entry) ∧
    Dict.find entry (py "vector") = some (.list items) ∧ items ≠ [] ∧ (items.length : Int) = d ∧
      ∀ v ∈ items, (PyValue.ofJson v).converts
  declared : Dict.get data "dimensions" = .null ∨ Dict.get data "dimensions" = .int d
  options : ∀ n, request.options.dimensions = some n → n = d
  artifacts : ∀ a ∈ request.artifactRequests, Asks d a
  documentId : (PyValue.ofJson (Dict.get data "document_id")).allNumbers PyValue.converts
  chunkMetadata : host.Holds (chunkMetadata request)
  nesting : host.Holds (result data []).metadata

variable {host : Host}

theorem conforms_fits_iff {r : VectorizeBackendResult} : Conforms request r d ∧ Fits host r ↔
    r.chunks.map (·.chunkId) = request.chunks.map (·.chunkId) ∧ (∀ c ∈ r.chunks, GoodChunk host c d) ∧
      (r.dimensions = .none ∨ r.dimensions = .int d) ∧
      (∀ n, request.options.dimensions = some n → n = d) ∧
      (∀ a ∈ request.artifactRequests, Asks d a) ∧
      (PyValue.mapping true r.metadata).allNumbers PyValue.converts ∧ host.Holds r.metadata := by
  rw [goodChunks_iff, allNumbers_converts]
  constructor
  · rintro ⟨h, hf⟩
    exact ⟨h.ids, ⟨⟨h.vectors, h.chunkMetadata⟩, hf.vectors, hf.chunkMetadata, hf.chunkNesting⟩,
      h.declared, h.options, h.artifacts, ⟨h.metadata, hf.metadata⟩, hf.nesting⟩
  · rintro ⟨hids, ⟨⟨hv, hm⟩, hfv, hfm, hfn⟩, hd, ho, ha, ⟨hmeta, hfmeta⟩, hnest⟩
    exact ⟨⟨hids, hv, hd, ho, ha, hm, hmeta⟩, hfv, hfm, hfmeta, hfn, hnest⟩

theorem ofJson_eq_none {j : Json} : PyValue.ofJson j = .none ↔ j = .null := by
  cases j <;> simp [PyValue.ofJson]

theorem ofJson_eq_int {j : Json} {d : Int} : PyValue.ofJson j = .int d ↔ j = .int d := by
  cases j <;> simp [PyValue.ofJson]

theorem goodChunk_returned {c : ChunkReference} {items : List Json}
    (hm : host.Holds (chunkMetadata request)) :
    GoodChunk host (returned request c items) d ↔
      items ≠ [] ∧ (items.length : Int) = d ∧ ∀ v ∈ items, (PyValue.ofJson v).converts := by
  constructor
  · rintro ⟨⟨components, hc, hne, hlen, hall⟩, -⟩
    obtain rfl := (PyValue.list.inj hc).symm
    exact ⟨fun h => hne (h ▸ rfl), by simpa using hlen, by simpa using hall⟩
  · rintro ⟨hne, hlen, hall⟩
    exact ⟨⟨_, rfl, by simpa using hne, by simpa using hlen, by simpa using hall⟩, rfl, hm⟩

section Chunks

variable {entries : List (Json × Json)} {requested : List ChunkReference}
  {chunks : List VectorizedChunk}

theorem ids_of_returned (h : List.Forall₂ (fun c v => ∃ items, Vector entries c.chunkId items ∧
    v = returned request c items) requested chunks) :
    chunks.map (·.chunkId) = requested.map (·.chunkId) := by
  induction h with
  | nil => rfl
  | cons hc _ ih =>
    obtain ⟨items, -, rfl⟩ := hc
    exact congrArg _ ih

theorem good_of_returned (hm : host.Holds (chunkMetadata request))
    (h : List.Forall₂ (fun c v => ∃ items, Vector entries c.chunkId items ∧
    v = returned request c items) requested chunks) :
    (∀ v ∈ chunks, GoodChunk host v d) ↔ ∀ c ∈ requested, ∃ entry items,
      entryFor entries c.chunkId = some (.dict entry) ∧
        Dict.find entry (py "vector") = some (.list items) ∧ items ≠ [] ∧
          (items.length : Int) = d ∧ ∀ v ∈ items, (PyValue.ofJson v).converts := by
  induction h with
  | nil => simp
  | @cons c v _ _ hc _ ih =>
    obtain ⟨items, ⟨entry, vector, he, hv, hi⟩, rfl⟩ := hc
    rw [List.forall_mem_cons, List.forall_mem_cons, ih, goodChunk_returned hm]
    refine and_congr_left' ⟨?_, ?_⟩
    · rintro ⟨hne, hlen, hall⟩
      rw [eq_list_of_converts hi hne hall] at hv
      exact ⟨entry, items, he, hv, hne, hlen, hall⟩
    · rintro ⟨entry', items', he', hv', hgood⟩
      rw [he] at he'
      cases he'
      rw [hv] at hv'
      cases hv'
      cases hi
      exact hgood

theorem dimensions_of_returned (h : List.Forall₂ (fun c v => ∃ items,
    Vector entries c.chunkId items ∧ v = returned request c items) requested chunks)
    (hm : host.Holds (chunkMetadata request)) (hgood : ∀ v ∈ chunks, GoodChunk host v d) :
    List.Forall₂ (fun c v => ∃ items, Vector entries c.chunkId items ∧
      v = returned request c items ∧ (items.length : Int) = d) requested chunks := by
  induction h with
  | nil => exact .nil
  | cons hc _ ih =>
    rw [List.forall_mem_cons] at hgood
    obtain ⟨items, hitems, rfl⟩ := hc
    exact .cons ⟨items, hitems, rfl, ((goodChunk_returned hm).mp hgood.1).2.1⟩ (ih hgood.2)

theorem holds_of_good (h : List.Forall₂ (fun c v => ∃ items, Vector entries c.chunkId items ∧
    v = returned request c items) requested chunks) (hne : requested ≠ [])
    (hgood : ∀ v ∈ chunks, GoodChunk host v d) : host.Holds (chunkMetadata request) := by
  cases h with
  | nil => exact absurd rfl hne
  | cons hc _ =>
    obtain ⟨items, -, rfl⟩ := hc
    exact (hgood _ List.mem_cons_self).nesting

theorem exists_returned {P : List Json → Prop} (request : DocumentVectorizeInput)
    (h : ∀ c ∈ requested, ∃ entry items, entryFor entries c.chunkId = some (.dict entry) ∧
      Dict.find entry (py "vector") = some (.list items) ∧ P items) :
    ∃ chunks, List.Forall₂ (fun c v => ∃ items, Vector entries c.chunkId items ∧
      v = returned request c items) requested chunks := by
  induction requested with
  | nil => exact ⟨[], .nil⟩
  | cons c rest ih =>
    rw [List.forall_mem_cons] at h
    obtain ⟨⟨entry, items, he, hv, -⟩, hrest⟩ := h
    obtain ⟨chunks, hchunks⟩ := ih hrest
    exact ⟨_, .cons ⟨items, ⟨entry, _, he, hv, rfl⟩, rfl⟩ hchunks⟩

end Chunks

theorem validate_result_iff (hr : DocumentVectorizeInput.Reads payload rawDocument request)
    (h : List.Forall₂ (fun c v => ∃ items, Vector entries c.chunkId items ∧
      v = returned request c items) request.chunks chunks) :
    validateBackendResult host request (some (result data chunks)) = .ok d ↔
      Served host request data entries d := by
  rw [validateBackendResult_iff hr, conforms_fits_iff]
  have hmeta : (PyValue.mapping true (result data chunks).metadata).allNumbers PyValue.converts =
      (PyValue.ofJson (Dict.get data "document_id")).allNumbers PyValue.converts := by
    simp [result, PyValue.allNumbers, PyValue.allNumbers.allFields]
  rw [hmeta]
  constructor
  · rintro ⟨-, hgood, hd, ho, ha, hm, hnest⟩
    have hchunk := holds_of_good h hr.chunks_ne_nil hgood
    exact ⟨(good_of_returned hchunk h).mp hgood, hd.imp ofJson_eq_none.mp ofJson_eq_int.mp, ho, ha,
      hm, hchunk, hnest⟩
  · rintro ⟨hv, hd, ho, ha, hm, hchunk, hnest⟩
    exact ⟨ids_of_returned h, (good_of_returned hchunk h).mpr hv,
      hd.imp ofJson_eq_none.mpr ofJson_eq_int.mpr, ho, ha, hm, hnest⟩

/-- The envelope of a document that got its vectors: each chunk in its place, with its own text and
the vector the reply has last for its id. -/
structure Vectorized (client : Client) (request : DocumentVectorizeInput) (ret : NodeReturn) :
    Prop where
  output : ∃ data entries, ∃ output : DocumentVectorizeOutput,
    client.post (asked request) = .ok (.dict data) ∧ Entries data entries ∧
      (py "document_vectorize", output.toPayload) ∈ ret.envelope.state ∧
      output.documentId = request.documentId ∧
        List.Forall₂ (fun c v => ∃ items, Vector entries c.chunkId items ∧
          v = returned request c items ∧ (items.length : Int) = output.dimensions)
            request.chunks output.chunks
  errorless : ∀ kv ∈ ret.envelope.state, kv.1 ≠ py "document_vectorize_error"

structure Ended (ret : NodeReturn) : Prop where
  terminated : ret.envelope.terminated
  resultless : ∀ kv ∈ ret.envelope.state, kv.1 ≠ py "document_vectorize"
  recorded : ∃ error : DocumentVectorizeError,
    (py "document_vectorize_error", .ofJson (.dict error.toPayload)) ∈ ret.envelope.state

theorem ended_failEnvelope (envelope : NodeEnvelope) (error : DocumentVectorizeError) :
    Ended (failEnvelope envelope error) :=
  ⟨rfl, failEnvelope_resultless envelope error, error,
    List.mem_append_right _ (List.mem_singleton_self _)⟩

section Process

variable {raised : BackendError} {r : VectorizeBackendResult} (envelope : NodeEnvelope)
  (h : host.fromPayload payload = .ok request)

include h

theorem process_raised (hv : vectorize client request = .error raised) :
    DocumentVectorizeNode.process host provider model (vectorize client) payload envelope =
      .ok (failEnvelope envelope (backendFailure "VECTORIZER_ERROR" "Vectorizer backend failed"
        request provider model raised true)) := by
  simp only [DocumentVectorizeNode.process, h, hv]

theorem process_refused (hv : vectorize client request = .ok (some r))
    (hc : validateBackendResult host request (some r) = .error raised) :
    DocumentVectorizeNode.process host provider model (vectorize client) payload envelope =
      .ok (failEnvelope envelope (backendFailure "VECTORIZER_RESULT_INVALID"
        "Vectorizer returned an invalid result" request provider model raised false)) := by
  have hb : DocumentVectorizeOutput.fromBackend host request (some r) provider model =
      .error raised := by
    rw [DocumentVectorizeOutput.fromBackend, hc]
    rfl
  simp only [DocumentVectorizeNode.process, h, hv, hb]

theorem process_passed (hv : vectorize client request = .ok (some r))
    (hc : validateBackendResult host request (some r) = .ok d) :
    ∃ output : DocumentVectorizeOutput, output.documentId = request.documentId ∧
      output.chunks = r.chunks ∧ output.dimensions = d ∧
        DocumentVectorizeNode.process host provider model (vectorize client) payload envelope = .ok {
          envelope := ((envelope.set "document_vectorize" output.toPayload).pop
            "document_vectorize_error").setNext none
          success := true
          error := none
          action := py "document.vectorize completed" } := by
  have hb : ∃ output, DocumentVectorizeOutput.fromBackend host request (some r) provider model =
      .ok output ∧ output.documentId = request.documentId ∧ output.chunks = r.chunks ∧
        output.dimensions = d := by
    rw [DocumentVectorizeOutput.fromBackend, hc]
    exact ⟨_, rfl, rfl, rfl, rfl⟩
  obtain ⟨output, hb, hid, hchunks, hd⟩ := hb
  exact ⟨output, hid, hchunks, hd, by simp only [DocumentVectorizeNode.process, h, hv, hb]⟩

end Process

/-- Chunks get their vectors exactly from a reply that serves them all, and never some of them. -/
theorem cyrex_vectorize_iff (client : Client) (envelope : NodeEnvelope)
    (h : host.fromPayload payload = .ok request) :
    ∃ ret, DocumentVectorizeNode.process host provider model (vectorize client) payload envelope =
        .ok ret ∧
      (ret.success ↔ (∀ c ∈ request.chunks, Spoken c) ∧ ∃ data entries d,
        client.post (asked request) = .ok (.dict data) ∧ (Dict.get data "success").truthy ∧
          Entries data entries ∧ Served host request data entries d) ∧
      (ret.success → Vectorized client request ret) ∧ (¬ ret.success → Ended ret) := by
  obtain ⟨raw, rawDocument, -, hr⟩ := DocumentVectorizeInput.fromPayload_iff.mp
    ((host.fromPayload_covers payload).erases.eq_ok h)
  cases hv : vectorize client request with
  | error raised =>
    have hret := process_raised envelope h hv
    refine ⟨_, hret, ⟨nofun, ?_⟩, nofun, fun _ => ended_failEnvelope envelope _⟩
    rintro ⟨hspoken, data, entries, d, hd, hs, he, hserved⟩
    obtain ⟨chunks, hchunks⟩ := exists_returned request hserved.vectors
    have hok := vectorize_eq_ok.mpr ⟨hspoken, data, entries, chunks, hd, hs, he, hchunks, rfl⟩
    cases hv.symm.trans hok
  | ok r =>
    obtain ⟨hspoken, data, entries, chunks, hd, hs, he, hchunks, rfl⟩ := vectorize_eq_ok.mp hv
    have hvalid (d : Int) : validateBackendResult host request (some (result data chunks)) = .ok d ↔
        Served host request data entries d := validate_result_iff hr hchunks
    cases hc : validateBackendResult host request (some (result data chunks)) with
    | error e =>
      have hret := process_refused envelope h hv hc
      refine ⟨_, hret, ⟨nofun, ?_⟩, nofun, fun _ => ended_failEnvelope envelope _⟩
      rintro ⟨-, data', entries', d, hd', -, he', hserved⟩
      cases hd.symm.trans hd'
      obtain ⟨listed, hl, hb⟩ := he
      obtain ⟨listed', hl', hb'⟩ := he'
      cases hl.symm.trans hl'
      cases hb.symm.trans hb'
      cases hc.symm.trans ((hvalid d).mpr hserved)
    | ok d =>
      have hserved := (hvalid d).mp hc
      obtain ⟨output, hid, hout, hdim, hret⟩ := process_passed envelope h hv hc
      refine ⟨_, hret, ⟨fun _ => ⟨hspoken, data, entries, d, hd, hs, he, hserved⟩, fun _ => rfl⟩,
        fun _ => ⟨⟨data, entries, output, hd, he, ?_, hid, ?_⟩, ?_⟩, fun hne => absurd rfl hne⟩
      · refine List.mem_filter.mpr ⟨List.mem_append_right _ (List.mem_singleton_self _), ?_⟩
        simpa using mt py_inj.mp (by decide)
      · have hgood := (good_of_returned hserved.chunkMetadata hchunks).mpr hserved.vectors
        rw [hout, hdim]
        exact dimensions_of_returned hchunks hserved.chunkMetadata hgood
      · intro kv hkv
        simpa using (List.mem_filter.mp hkv).2

/-- A Cyrex that answers every body with one vector for `c`, of dimension one. -/
def answering : Client where
  post _ := .ok (.dict [(py "success", .bool true), (py "chunks", .list [.dict
    [(py "chunk_id", .str (py "c")), (py "vector", .list [.int 1])]])])
  repr _ := []

def blank : NodeEnvelope where
  state := []
  next := none
  terminated := false
  error := none

theorem answering_served (hc : request.chunks.map (·.chunkId) = [py "c"])
    (ho : request.options.dimensions = none) (ha : request.artifactRequests = []) :
    Served ampleHost request [(py "success", .bool true), (py "chunks", .list [.dict
      [(py "chunk_id", .str (py "c")), (py "vector", .list [.int 1])]])]
      [(.str (py "c"), .dict [(py "chunk_id", .str (py "c")), (py "vector", .list [.int 1])])] 1 where
  vectors c hmem := by
    have hid : c.chunkId ∈ request.chunks.map (·.chunkId) := List.mem_map_of_mem hmem
    rw [hc, List.mem_singleton] at hid
    rw [hid]
    exact ⟨_, [.int 1], rfl, rfl, List.cons_ne_nil _ _, rfl, by decide +kernel⟩
  declared := .inl rfl
  options n hn := by
    rw [ho] at hn
    cases hn
  artifacts a hmem := by
    rw [ha] at hmem
    cases hmem
  documentId := rfl
  chunkMetadata := rfl
  nesting := rfl

/-- The document gets its vector. -/
theorem cyrex_vectorize_iff_answering : ∃ request ret,
    DocumentVectorizeNode.process ampleHost provider model (vectorize answering) inlinePayload
      blank = .ok ret ∧ ret.success ∧ Vectorized answering request ret := by
  obtain ⟨request, hr, hc, ho, ha⟩ := exists_inline
  obtain ⟨ret, hret, hiff, hdone, -⟩ := cyrex_vectorize_iff answering blank hr
  have hspoken (c) (hmem : c ∈ request.chunks) : Spoken c := by
    rw [Spoken, inline_text hr c hmem]
    exact ⟨nofun, by decide⟩
  have hsuccess : ret.success := hiff.mpr ⟨hspoken, _, _, 1, rfl, rfl,
    ⟨_, rfl, rfl⟩, answering_served hc ho ha⟩
  exact ⟨request, ret, hret, hsuccess, hdone hsuccess⟩

end PrismPipe.Cyrex
