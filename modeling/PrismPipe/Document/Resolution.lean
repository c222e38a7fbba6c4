import PrismPipe.Document.Accepted
import PrismPipe.Document.Loading
import PrismPipe.Lib.Log

/-! What `_resolve_chunk_content` makes of an accepted request, and when the contract accepts it
again: the loaded texts are not empty, but they may be blank. -/

namespace PrismPipe.Document

open Python Program

variable {T : Type}

/-- The string `_decode_chunk_content` finds. -/
def Content.text : Content → Option PyStr
  | .str s => Option.some s
  | .bytes decoded => decoded
  | .mapping d =>
    match getOr d "text" (d.get "content") with
    | .str s => Option.some s
    | _ => Option.none
  | _ => Option.none

def Content.blank (content : Content) : Bool := content.text.any PyStr.isBlank

def loadedContents (log : Log (documentOps T)) : List Content :=
  log.filterMap fun answer => match answer with
    | ⟨.load _, .ok content⟩ => some content
    | _ => none

def Unconstrained (_ : Log (documentOps T)) (o : (documentOps T).Op) (_ : (documentOps T).Reply o) :
    Prop := True

inductive Resolved : List ChunkReference → List ChunkReference → List Content → Prop
  | nil : Resolved [] [] []
  | inline : chunk.text.isSome → Resolved cs cs' contents →
      Resolved (chunk :: cs) (chunk :: cs') contents
  | stored : content.text = some text → Resolved cs cs' contents →
      Resolved (chunk :: cs) ({ chunk with text := some text } :: cs') (content :: contents)

section Runs

variable {l : Log (documentOps T)}

theorem ends_decodeChunkContent (content : Content) (position : Nat) :
    Ends (logged Unconstrained) (decodeChunkContent content position : Task T PyStr)
      (fun text m => m = l ∧ content.text = some text) (fun _ _ => True) l := by
  unfold decodeChunkContent
  dsimp only
  split
  · split
    · exact ⟨rfl, rfl⟩
    · trivial
  · trivial
  · split
    · exact ⟨rfl, rfl⟩
    · trivial
  next d =>
    split
    next he =>
      split
      · exact ⟨rfl, by rw [Content.text, he]⟩
      · trivial
    · trivial
  · trivial

theorem ends_load (key : PyStr) :
    Ends (logged Unconstrained) (perform (.load key) : Task T Content)
      (fun content m => m = l ++ [⟨DocumentOp.load key, .ok content⟩]) (fun _ _ => True) l := by
  refine completes_op ⟨.error .cancelled, trivial⟩ ?_
  rintro (e | content) -
  · trivial
  · rfl

theorem ends_resolveChunk (chunk : ChunkReference) (position : Nat) :
    Ends (logged Unconstrained) (resolveChunk chunk position : Task T ChunkReference)
      (fun chunk' m => ∃ contents, loadedContents m = loadedContents l ++ contents ∧
        ∀ cs cs' rest, Resolved cs cs' rest → Resolved (chunk :: cs) (chunk' :: cs') (contents ++ rest))
      (fun _ _ => True) l := by
  unfold resolveChunk
  split
  next ht => exact ⟨[], (List.append_nil _).symm, fun _ _ _ h => .inline ht h⟩
  split
  · trivial
  next storage _ =>
    refine ends_bind.mpr (ends_tryCatch.mpr ?_)
    split
    next key _ =>
      refine (ends_load key).mono ?_ fun e _ _ => by cases e <;> trivial
      rintro content m rfl
      split
      · trivial
      · refine ends_bind.mpr ((ends_decodeChunkContent _ _).mono ?_ fun _ _ _ => trivial)
        rintro text _ ⟨rfl, htext⟩
        exact ⟨[content], by simp [loadedContents], fun _ _ _ h => .stored htext h⟩
    · trivial

theorem ends_resolveChunks (chunks : List ChunkReference) (position : Nat) :
    Ends (logged Unconstrained) (resolveChunks position chunks : Task T (List ChunkReference))
      (fun chunks' m => ∃ contents, loadedContents m = loadedContents l ++ contents ∧
        Resolved chunks chunks' contents) (fun _ _ => True) l := by
  induction chunks generalizing position l with
  | nil => exact ⟨[], (List.append_nil _).symm, .nil⟩
  | cons chunk chunks ih =>
    refine ends_bind.mpr ((ends_resolveChunk chunk position).mono ?_ fun _ _ _ => trivial)
    rintro chunk' m ⟨contents, hm, hc⟩
    refine ends_bind.mpr ((ih (position + 1)).mono ?_ fun _ _ _ => trivial)
    rintro chunks' n ⟨rest, hn, hr⟩
    exact ⟨contents ++ rest, by rw [hn, hm, List.append_assoc], hc _ _ _ hr⟩

theorem resolved_of_executes {runtime : Runtime}
    (h : Executes (logged Unconstrained)
      (resolveChunkContent runtime r : Task T DocumentVectorizeInput).run [] (.ok r') log) :
    ∃ chunks, r' = { r with chunks } ∧ Resolved r.chunks chunks (loadedContents log) := by
  have he : Ends (logged Unconstrained)
      (resolveChunkContent runtime r : Task T DocumentVectorizeInput)
      (fun r' m => ∃ chunks, r' = { r with chunks } ∧ Resolved r.chunks chunks (loadedContents m))
      (fun _ _ => True) [] := by
    unfold resolveChunkContent deepcopy
    split
    case isFalse => trivial
    rw [LawfulMonad.pure_bind]
    refine ends_bind.mpr ((ends_resolveChunks r.chunks 0).mono ?_ fun _ _ _ => trivial)
    rintro chunks m ⟨contents, hm, hr⟩
    refine ⟨chunks, rfl, ?_⟩
    rw [hm]
    exact hr
  exact Completes.executes (Q := outcome _ _) he h

end Runs

theorem enumerate_cons {f : Json → Nat → Parse α} :
    enumerate f i (item :: items) = .ok (a :: as) ↔
      f item i = .ok a ∧ enumerate f (i + 1) items = .ok as := by
  constructor
  · intro h
    obtain ⟨_, ha, h⟩ := bind_eq_ok h
    obtain ⟨_, has, h⟩ := bind_eq_ok h
    cases h
    exact ⟨ha, has⟩
  · rintro ⟨ha, has⟩
    exact bind_ok ha (bind_ok has rfl)

namespace ChunkReference

theorem fromPayload_text {d e : Dict} {text : PyStr} (h : fromPayload d i = .ok chunk)
    (hf : ∀ key ≠ "text", d.find (py key) = e.find (py key)) (he : e.get "text" = .str text) :
    fromPayload e i = .ok { chunk with text := some text } ↔ ¬ text.isBlank := by
  rw [fromPayload_iff]
  constructor
  · intro hr hb
    have ht := hr.text
    rw [optionalString, he] at ht
    simp only [hb, if_true] at ht
    cases ht
  · intro hb
    have hr := fromPayload_iff.mp h
    exact { hr with
      index := requiredInt_congr (hf "index" (by decide)) ▸ hr.index
      tokenCount := optionalInt_congr (hf "tokenCount" (by decide)) ▸ hr.tokenCount
      storage := by
        rw [optionalStorage, ← get_congr (hf "storage" (by decide))]
        exact hr.storage
      chunkId := requiredString_congr (hf "chunkId" (by decide)) ▸ hr.chunkId
      documentId := optionalString_congr (hf "documentId" (by decide)) ▸ hr.documentId
      text := by
        rw [optionalString, he]
        exact if_neg hb
      metadata := optionalMapping_congr (hf "metadata" (by decide)) ▸ hr.metadata }

theorem toPayload_text {self : ChunkReference} {text : PyStr}
    (h : objectAt label fromPayload self.toPayload i = .ok self) :
    objectAt label fromPayload (toPayload { self with text := some text }) i =
      .ok { self with text := some text } ↔ ¬ text.isBlank := by
  refine fromPayload_text h (fun key hk => ?_) (by simp [Dict.get, asJson])
  simp only [Dict.find_py_cons, Dict.find_nil, Ne.symm hk, if_false]

end ChunkReference

theorem Resolved.enumerate_iff {label : PyStr} (hr : Resolved cs cs' contents)
    (h : enumerate (objectAt label ChunkReference.fromPayload) i (cs.map (·.toPayload)) = .ok cs) :
    enumerate (objectAt label ChunkReference.fromPayload) i (cs'.map (·.toPayload)) = .ok cs' ↔
      ∀ content ∈ contents, ¬ content.blank := by
  induction hr generalizing i with
  | nil => exact ⟨fun _ => nofun, fun _ => rfl⟩
  | inline _ _ ih =>
    rw [List.map_cons, enumerate_cons] at h ⊢
    rw [ih h.2]
    exact ⟨fun hc => hc.2, fun hc => ⟨h.1, hc⟩⟩
  | stored htext _ ih =>
    rw [List.map_cons, enumerate_cons] at h ⊢
    rw [ih h.2, ChunkReference.toPayload_text h.1, List.forall_mem_cons, Content.blank, htext,
      Option.any_some]

theorem Resolved.eq_nil (hr : Resolved cs [] contents) : cs = [] := by
  cases hr
  rfl

namespace DocumentVectorizeInput

theorem validateChunks_resolved {id : PyStr} (hr : Resolved cs cs' contents)
    (h : validateChunks id i ids indices cs = .ok ()) :
    validateChunks id i ids indices cs' = .ok () := by
  induction hr generalizing i ids indices with
  | nil => rfl
  | inline _ _ ih | stored _ _ ih =>
    unfold validateChunks at h ⊢
    dsimp only at h ⊢
    split at h
    · cases h
    next h1 =>
    split at h
    · cases h
    next h2 =>
    split at h
    · cases h
    next h3 =>
    split at h
    · cases h
    next h4 =>
    split at h
    · cases h
    rw [if_neg h1, if_neg h2, if_neg h3, if_neg h4, if_neg (by simp_all)]
    exact ih h

theorem nonEmptyList_chunks (r : DocumentVectorizeInput) (h : r.chunks ≠ []) :
    nonEmptyList r.toPayload "chunks" = .ok (r.chunks.map (·.toPayload)) := by
  have hg : Dict.get r.toPayload "chunks" = .list (r.chunks.map (·.toPayload)) := by
    simp [toPayload, Dict.get]
  rw [nonEmptyList, hg]
  cases hc : r.chunks with
  | nil => exact absurd hc h
  | cons => rfl

theorem written_again {payload : Json} (hu : payload.unique) (h : fromPayload payload = .ok r) :
    fromPayload (.dict r.toPayload) = .ok r := by
  have ha := fromPayload_again .same hu h
  rwa [r.rewrite_same] at ha

/-- An accepted request with its contents loaded is accepted as it is, and only so, unless storage
returned a blank one. -/
theorem resolved_valid_iff {payload : Json} (hu : payload.unique)
    (h : fromPayload payload = .ok r)
    {runtime : Runtime} (he : Executes (logged Unconstrained)
      (resolveChunkContent runtime r : Task T DocumentVectorizeInput).run [] (.ok l) log) :
    fromPayload (.dict l.toPayload) = .ok l ↔ ∀ content ∈ loadedContents log, ¬ content.blank := by
  obtain ⟨chunks, rfl, hres⟩ := resolved_of_executes he
  obtain ⟨d, hr⟩ := fromObject_iff.mp (written_again hu h)
  have hne : r.chunks ≠ [] := hr.chunks_ne_nil
  have hne' : chunks ≠ [] := fun hn => hne (Resolved.eq_nil (hn ▸ hres))
  obtain ⟨raw, hraw, hc⟩ := hr.chunks
  rw [nonEmptyList_chunks r hne] at hraw
  cases hraw
  have hiff := hres.enumerate_iff hc
  constructor
  · intro hl
    obtain ⟨_, hr'⟩ := fromObject_iff.mp hl
    obtain ⟨raw', hraw', hc'⟩ := hr'.chunks
    rw [nonEmptyList_chunks _ hne'] at hraw'
    cases hraw'
    exact hiff.mp hc'
  · intro hb
    obtain ⟨_, h1, hv⟩ := bind_eq_ok hr.relationships
    obtain ⟨_, h2, hv⟩ := bind_eq_ok hv
    obtain ⟨_, h3, hv⟩ := bind_eq_ok hv
    obtain ⟨_, h4, hv⟩ := bind_eq_ok hv
    have hf (key : String) (hk : key ≠ "chunks") :
        Dict.find r.toPayload (py key) = Dict.find (toPayload { r with chunks }) (py key) := by
      simp only [toPayload, Dict.find_py_cons, Dict.find_nil, Ne.symm hk, if_false]
    have hg (key : String) (hk : key ∈ ["documentType", "schemaId", "schemaVersion"]) :
        key ≠ "chunks" := by
      rintro rfl
      exact absurd hk (by decide)
    refine fromObject_iff.mpr ⟨d, hr.congr (fun key hk => hf key fun he => hk (by simp [he]))
      ⟨_, nonEmptyList_chunks _ hne', hiff.mpr hb⟩ ?_ (fun a => ?_) ?_⟩
    · rw [← validateSchemaAliases_congr d fun key hk => get_congr (hf key (hg key hk))]
      exact hr.aliases
    · rw [← optionalRootOrDocumentString_congr (hf _ (hg _ a.key_mem))]
      exact hr.alias a
    · exact bind_ok h1 (bind_ok h2 (bind_ok h3 (bind_ok (validateChunks_resolved hres h4) hv)))

def storedPayload : Json := .dict [(py "routeId", .str (py "r")), (py "documentId", .str (py "d")),
  (py "manifestVersion", .int 1), (py "destination", .str (py "vectorize")),
  (py "qualityScore", .int 1), (py "document", .dict [(py "documentId", .str (py "d"))]),
  (py "chunks", .list [.dict [(py "chunkId", .str (py "c")), (py "index", .int 0),
    (py "storage", .dict [(py "key", .str (py "k"))])]])]

theorem executes_resolveChunkContent {text : PyStr} (ht : text ≠ []) (hc : r.chunks = [chunk])
    (hn : chunk.text = none) (hs : chunk.storage = some storage)
    (hk : storage.storageKey = some key) :
    Executes (logged Unconstrained)
      (resolveChunkContent .ample r : Task T DocumentVectorizeInput).run []
      (.ok { r with chunks := [{ chunk with text := some text }] })
      [⟨.load key, .ok (.str text)⟩] := by
  have hd : (decodeChunkContent (.str text) 0 : Task T PyStr) = Pure.pure text := if_pos ht
  have hcopy : (deepcopy (Runtime.ample.copies r) r : Task T DocumentVectorizeInput) =
      Pure.pure r := rfl
  unfold resolveChunkContent
  rw [hcopy, LawfulMonad.pure_bind, hc]
  unfold resolveChunks resolveChunk
  simp only [hn, hs, hk]
  refine .call (r := (Except.ok (Content.str text) : Except Raised Content)) ⟨trivial, rfl⟩ ?_
  change Executes _ (ExceptT.run (((decodeChunkContent (.str text) 0 >>= _) >>= _) >>= _)) _ _ _
  rw [hd]
  exact .pure

theorem exists_resolved {text : PyStr} (ht : text ≠ []) : ∃ r l log,
    fromPayload storedPayload = .ok r ∧
      Executes (logged Unconstrained)
        (resolveChunkContent .ample r : Task T DocumentVectorizeInput).run [] (.ok l) log ∧
          loadedContents log = [.str text] := by
  have hp : (fromPayload storedPayload).toOption.any (fun r => r.chunks.length == 1 &&
      r.chunks.all fun c => c.text.isNone && (c.storage.bind (·.storageKey)).isSome) := by
    decide +kernel
  cases hr : fromPayload storedPayload with
  | error e =>
    rw [hr] at hp
    cases hp
  | ok r =>
    simp only [hr, Except.toOption, Option.any_some, Bool.and_eq_true, beq_iff_eq] at hp
    obtain ⟨chunk, hc⟩ := List.length_eq_one_iff.mp hp.1
    rw [hc, List.all_cons, List.all_nil, Bool.and_true, Bool.and_eq_true,
      Option.isNone_iff_eq_none] at hp
    obtain ⟨-, hn, hk⟩ := hp
    obtain ⟨key, hk⟩ := Option.isSome_iff_exists.mp hk
    obtain ⟨storage, hs, hk⟩ := Option.bind_eq_some_iff.mp hk
    exact ⟨r, _, _, rfl, executes_resolveChunkContent ht hc hn hs hk, rfl⟩

theorem resolved_valid_iff_stored : ∃ r l,
    fromPayload storedPayload = .ok r ∧ fromPayload (.dict l.toPayload) = .ok l := by
  obtain ⟨r, l, log, hr, he, hl⟩ := exists_resolved (T := Nat) (show py "text" ≠ [] by decide)
  refine ⟨r, l, hr, (resolved_valid_iff (by decide) hr he).mpr fun content hm => ?_⟩
  rw [hl] at hm
  obtain rfl := List.mem_singleton.mp hm
  decide

/-- Storage returns a space: the resolver takes it, and the contract refuses the request. -/
theorem blank_content_refused : ¬ ∀ (runtime : Runtime) (payload : Json) r l (log : Log (documentOps Nat)),
    payload.unique → fromPayload payload = .ok r →
      Executes (logged Unconstrained) (resolveChunkContent runtime r : Task Nat _).run [] (.ok l)
        log →
        fromPayload (.dict l.toPayload) = .ok l := by
  intro h
  obtain ⟨r, l, log, hr, he, hl⟩ := exists_resolved (T := Nat) (show py " " ≠ [] by decide)
  obtain ⟨chunks, rfl, hres⟩ := resolved_of_executes he
  have hok := h .ample storedPayload r _ log (by decide) hr he
  obtain ⟨_, hread⟩ := fromObject_iff.mp hok
  obtain ⟨raw, hraw, hc⟩ := hread.chunks
  rw [nonEmptyList_chunks _ hread.chunks_ne_nil] at hraw
  cases hraw
  obtain ⟨_, hr'⟩ := fromObject_iff.mp (written_again (by decide) hr)
  obtain ⟨raw', hraw', hc'⟩ := hr'.chunks
  rw [nonEmptyList_chunks r hr'.chunks_ne_nil] at hraw'
  cases hraw'
  have hb := (hres.enumerate_iff hc').mp hc
  rw [hl] at hb
  exact hb _ (List.mem_singleton_self _) (by decide)

end DocumentVectorizeInput

end PrismPipe.Document
