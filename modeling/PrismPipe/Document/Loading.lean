import PrismPipe.Document.VectorizeLaws
import PrismPipe.Document.Workers

/-! `_resolve_chunk_content` only loads: whatever judges a load judges it. -/

namespace PrismPipe.Document

open Python Program

variable {T : Type}

def ChunkReference.loadable (chunk : ChunkReference) : Bool :=
  chunk.text.isSome || (chunk.storage.bind (·.storageKey)).isSome

def DocumentVectorizeInput.loadable (request : DocumentVectorizeInput) : Bool :=
  request.chunks.all ChunkReference.loadable

def DocumentOp.isLoad : DocumentOp → Prop
  | .load _ => True
  | _ => False

/-- What the `except` clauses of a load make of what it raises. -/
def loadFailure (unavailable : PyStr) : Raised → Raised
  | .cancelled => .cancelled
  | .storage operation => processingError "STORAGE_UNAVAILABLE" unavailable true
      [(py "operation", .str operation)]
  | error => processingError "STORAGE_UNAVAILABLE" unavailable true
      [(py "errorType", .str error.typeName)]

/-- A load raises `F`, and what is raised for that and for a chunk without text is `E`. -/
structure Loads (sane : (o : DocumentOp) → Except Raised (o.Value T) → Prop)
    (F E : Raised → Prop) : Prop where
  read : ∀ key e, sane (.load key) (.error e) → F e
  missing : F (.other (py "DocumentVectorizeValidationError"))
  failed : ∀ unavailable e, PyStr.encodable unavailable → F e → E (loadFailure unavailable e)
  raised : ∀ code message retryable, PyStr.encodable message →
    E (processingError code message retryable)

section Loads

variable {sane : (o : DocumentOp) → Except Raised (o.Value T) → Prop} {F E : Raised → Prop}

abbrev Loading (sane : (o : DocumentOp) → Except Raised (o.Value T) → Prop) (E : Raised → Prop)
    (p : Task T α) (P : α → Prop) : Prop :=
  Confined (I := documentOps T) DocumentOp.isLoad sane E p P

theorem Loads.decodeChunkContent (h : Loads sane F E) (content : Content) (position : Nat) :
    Loading sane E (decodeChunkContent content position) fun _ => True := by
  unfold Document.decodeChunkContent
  dsimp only
  repeat' split
  all_goals first | exact .pure trivial | exact .throw (h.raised _ _ _ (by simp))

theorem Loads.load (h : Loads sane F E) (key : PyStr) {P : Prop} (hp : P) :
    Loading sane F (perform (.load key)) fun _ => P := by
  refine ⟨trivial, ?_⟩
  rintro (e | content) hr
  · exact h.read key e hr
  · exact hp

theorem Loads.resolveChunk (h : Loads sane F E) (chunk : ChunkReference) (position : Nat) :
    Loading sane E (resolveChunk chunk position)
      fun loaded => loaded.untexted = chunk.untexted ∧ chunk.loadable := by
  unfold Document.resolveChunk ChunkReference.loadable
  split
  next htext => exact .pure ⟨rfl, by simp [htext]⟩
  split
  · exact .throw (h.raised _ _ _ (by simp))
  next storage hstorage =>
    refine .bind (P := fun _ => storage.storageKey.isSome) (.tryCatch (F := F) ?_ fun e he => ?_)
      fun content hkey => ?_
    · split
      next key hkey => exact h.load _ (by simp [hkey])
      · exact .throw h.missing
    · have hfailed := h.failed (py "Unable to load " ++ at_ (py "chunks") position ++
        py " content") e (by simp) he
      cases e <;> exact .throw hfailed
    · split
      · exact .throw (h.raised _ _ _ (by simp))
      · exact (h.decodeChunkContent _ _).bind fun _ _ => .pure ⟨rfl, by simp [hstorage, hkey]⟩

theorem Loads.resolveChunks (h : Loads sane F E) (chunks : List ChunkReference)
    (position : Nat) : Loading sane E (resolveChunks position chunks) fun loaded =>
      loaded.map ChunkReference.untexted = chunks.map ChunkReference.untexted ∧
        chunks.all ChunkReference.loadable := by
  induction chunks generalizing position with
  | nil => exact .pure ⟨rfl, rfl⟩
  | cons chunk rest ih =>
    refine (h.resolveChunk _ _).bind fun _ hchunk => ?_
    refine (ih _).bind fun _ hrest => .pure ⟨?_, ?_⟩
    · rw [List.map_cons, List.map_cons, hchunk.1, hrest.1]
    · rw [List.all_cons, hchunk.2, hrest.2]
      rfl

theorem Loads.resolveChunkContent (h : Loads sane F E) (runtime : Runtime)
    (request : DocumentVectorizeInput)
    (hc : runtime.copies request = false → E .recursionError) :
    Loading sane E (resolveChunkContent runtime request)
      fun loaded => loaded.untexted = request.untexted ∧ request.loadable := by
  unfold Document.resolveChunkContent deepcopy
  split
  · exact (h.resolveChunks _ _).bind fun chunks hchunks =>
      .pure ⟨congrArg (fun chunks => { request with chunks }) hchunks.1, hchunks.2⟩
  next hroom => exact .throw (hc (by simpa using hroom))

end Loads

section Answered

variable {σ : Type} {W : World (documentOps T) σ} {E : Raised → σ → Prop} {s : σ}

end Answered

theorem Workers.Step.of_isLoad [LinearOrder T] {o : DocumentOp} {s t : Workers T}
    {r : Except Raised (o.Value T)} (st : Workers.Step s o r t) (ho : o.isLoad) : t = s := by
  cases st with
  | load | unavailable => rfl
  | claim | get | finish | recordRetryable | publicationUpdate | pending | execute | rounds | sleep
  | publish | acknowledge | retry => exact ho.elim

end PrismPipe.Document
