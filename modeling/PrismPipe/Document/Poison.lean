import PrismPipe.Document.Desk

/-! Alone in a world where store, storage and vectorizer do not fail, `process` files every payload
exactly when what it would file can be written. -/

namespace PrismPipe.Document

open Python

open Program

structure NodeResult.Writable (node : NodeResult) : Prop where
  output : node.output = some d → Json.writable (.dict d)
  structured : node.structured = some e → e.code.encodable ∧ e.message.encodable ∧
    Json.writable (.dict e.details)
  error : node.error = some message → message.encodable
  envelopeError : node.envelopeError = some message → message.encodable

def Raised.Recordable (raised : Raised) : Prop :=
  ∃ error : DocumentProcessingError, raised = .processing error ∧ error.Writable

structure Raised.Loggable (e : Raised) : Prop where
  ordinary : e ≠ .cancelled
  typeName : e.typeName.encodable
  operation : ∀ operation, e = .storage operation → operation.encodable

def DocumentOp.Healthy {T : Type} : (o : DocumentOp) → Except Raised (o.Value T) → Prop
  | .load _, r => ∃ content, r = .ok content
  | .execute _, r => ∃ node : NodeResult, r = .ok node ∧ node.Writable
  | .sleep, r => r = .ok ()
  | _, r => ∀ errorType, r ≠ .error (.other errorType)

def healthy (T : Type) [LinearOrder T] : World (documentOps T) (Workers T) where
  step s o r t := Workers.Step s o r t ∧ o.Healthy r
  abandon _ _ := False

section Calls

variable {T : Type} [LinearOrder T] [Inhabited T] {s : Workers T}

omit [Inhabited T] in
theorem healthy_eq : healthy T = attended T DocumentOp.Healthy := by
  unfold healthy attended
  congr
  funext s o r t
  cases o <;> rfl

theorem desk_answers : ∀ (s : Desk T) (o : DocumentOp),
    ∃ r t, (desk T DocumentOp.Healthy).step s o r t := by
  refine Desk.answers fun s o ho => ?_
  cases o with
  | load => exact ⟨_, rfl⟩
  | execute => exact ⟨Desk.silent, rfl, ⟨nofun, nofun, nofun, nofun⟩⟩
  | sleep => rfl
  | rounds | publish | acknowledge | retry => exact fun _ h => nomatch h
  | claim | get | finish | recordRetryable | publicationUpdate | pending => exact absurd rfl ho

theorem healthy_answers (s : Workers T) (o : DocumentOp) : ∃ r t, (healthy T).step s o r t := by
  obtain ⟨r, t, st, -⟩ := desk_answers (s, []) o
  rw [healthy_eq]
  exact ⟨r, t.1, st⟩

theorem ends_perform {o : DocumentOp} {Q : o.Value T → Workers T → Prop}
    {E : Raised → Workers T → Prop} (h : ∀ r t, (healthy T).step s o r t → outcome Q E r t) :
    Ends (healthy T) (perform o) Q E s := ⟨healthy_answers s o, h⟩

omit [Inhabited T] in
theorem ends_healthy {p : Task T α} {Q : α → Desk T → Prop} {E : Raised → Desk T → Prop}
    (h : Ends (desk T DocumentOp.Healthy) p Q E (s, [])) :
    Ends (healthy T) p (fun a t => ∃ log, Q a (t, log)) (fun e t => ∃ log, E e (t, log)) s := by
  rw [healthy_eq]
  exact h.forget

omit [Inhabited T] in
theorem returns_healthy {p : Task T α} {Q : α → Desk T → Prop}
    (h : Returns (desk T DocumentOp.Healthy) p Q (s, [])) :
    Returns (healthy T) p (fun a t => ∃ log, Q a (t, log)) s :=
  (ends_healthy h).mono (fun _ _ => id) fun _ _ ⟨_, h⟩ => h

theorem returns_get (h : s.table.select key = some r) : Returns (healthy T) (perform (.get key))
    (fun found t => found = some (.fromRow r) ∧ t = s) s := by
  refine (returns_healthy (Desk.returns_get desk_answers)).mono ?_
  rintro _ _ ⟨_, rfl, ⟨⟩⟩
  exact ⟨by rw [h]; rfl, rfl⟩

inductive Claims (args : ClaimArgs) (s : Workers T) :
    DocumentOperationClaim T → Workers T → Prop
  | held : s.table.select args.idempotencyKey = some r →
      r.requestFingerprint = args.requestFingerprint → Claims args s ⟨.fromRow r, false⟩ s
  | owned : t.table.select args.idempotencyKey = some r → r.Admits claimToken .processing →
      r.requestFingerprint = args.requestFingerprint → Claims args s ⟨.fromRow r, true⟩ t

omit [Inhabited T] in
theorem Claimed.claims {args : ClaimArgs} {claim : DocumentOperationClaim T}
    (h : Claimed args (s, []) (some claim) (t, log)) : Claims args s claim t := by
  cases h with
  | held r hs hf _ => exact .held hs hf
  | opened _ _ _ _ _ _ hset => exact .owned hset.select ⟨rfl, rfl⟩ rfl
  | reclaimed _ _ _ _ _ _ hf _ hset => exact .owned hset.select ⟨rfl, rfl⟩ hf

theorem returns_finish {args : FinishArgs} (hs : s.table.select args.idempotencyKey = some r)
    (ha : r.Admits args.claimToken (expectedStatus args.status))
    (ht : ∃ result error payload, args.texts = .ok (result, error, payload)) :
    Returns (healthy T) (perform (.finish args)) (fun record t => ∃ q : Row T,
      t.table.select args.idempotencyKey = some q ∧ record = .fromRow q ∧
        q.requestFingerprint = r.requestFingerprint ∧ q.status = args.status) s := by
  refine (ends_healthy (Desk.ends_finish desk_answers hs ha)).mono ?_ ?_
  · rintro _ _ ⟨_, _, _, _, _, _, -, rfl, hset, ⟨⟩⟩
    exact ⟨_, hset.select, rfl, rfl, rfl⟩
  · rintro _ _ ⟨_, -, _, he⟩
    obtain ⟨_, _, _, ht⟩ := ht
    cases ht.symm.trans he

end Calls

/-- The result is a row of the request, and of `P`. -/
def Workers.Backs (t : Workers T) (P : Row T → Prop) (fingerprint : String)
    (result : DocumentProcessingResult T) : Prop :=
  ∃ q : Row T, t.table.select q.idempotencyKey = some q ∧ result.record = .fromRow q ∧
    q.requestFingerprint = fingerprint ∧ P q

structure Row.Refused (r : Row T) : Prop where
  status : r.status = .terminalFailure
  publicationState : r.publicationState = .pending
  outboundTopic : r.outboundTopic = some "pipeline.dead-letter"

theorem Workers.Backs.mono {t : Workers T} {P Q : Row T → Prop} (h : t.Backs P f result)
    (hP : ∀ q, P q → Q q) : t.Backs Q f result := by
  obtain ⟨q, hq, hr, hf, hp⟩ := h
  exact ⟨q, hq, hr, hf, hP q hp⟩

section Tasks

variable {T : Type} [LinearOrder T] [Inhabited T] {s : Workers T} {r : Row T}

theorem returns_pollDuplicate (hs : s.table.select r.idempotencyKey = some r) (n : Nat) :
    Returns (healthy T) (pollDuplicate (.fromRow r) n) (fun record t => record = .fromRow r ∧ t = s)
      s := by
  induction n with
  | zero => exact ends_pure.mpr ⟨rfl, rfl⟩
  | succ n ih =>
    have hsleep : Returns (healthy T) (perform .sleep) (fun _ t => t = s) s := by
      refine ends_perform fun _ t st => ?_
      obtain ⟨st, rfl⟩ := st
      cases st with
      | sleep => exact rfl
    refine hsleep.bind ?_
    rintro _ _ rfl
    refine (returns_get hs).bind ?_
    rintro _ _ ⟨rfl, rfl⟩
    dsimp only
    split
    · exact ends_pure.mpr ⟨rfl, rfl⟩
    · exact ih

theorem returns_settledDuplicate (hs : s.table.select r.idempotencyKey = some r) :
    Returns (healthy T) (settledDuplicate (.fromRow r))
      (fun record t => record = .fromRow r ∧ t = s) s := by
  unfold settledDuplicate
  split
  · exact ends_pure.mpr ⟨rfl, rfl⟩
  · have hrounds : Returns (healthy T) (perform .rounds) (fun _ t => t = s) s := by
      refine ends_perform fun _ t st => ?_
      obtain ⟨st, hh⟩ := st
      cases st with
      | rounds n => exact rfl
      | unavailable errorType => exact absurd rfl (hh errorType)
    refine hrounds.bind ?_
    rintro n _ rfl
    exact returns_pollDuplicate hs n

theorem returns_finishFailure {error : Dict} (hs : s.table.select key = some r)
    (ha : r.Admits claimToken .processing) (he : Json.writable (.dict error)) :
    Returns (healthy T) (finishFailure (.fromRow r) error) (fun record t => ∃ q : Row T,
      t.table.select key = some q ∧ record = .fromRow q ∧
        q.requestFingerprint = r.requestFingerprint ∧ q.Refused) s := by
  refine (returns_healthy (Desk.returns_finishFailure desk_answers false hs ha he)).mono ?_
  rintro _ _ ⟨_, args, _, _, _, hstatus, htopic, rfl, hset, ⟨⟩⟩
  exact ⟨_, hset.select, rfl, rfl, hstatus, rfl, congrArg some htopic⟩

/-- The key `_record_conflict` files a request under. -/
def conflictKey (idempotencyKey requestFingerprint : String) : String :=
  idempotencyKey ++ ":conflict:" ++ take24 requestFingerprint

structure Collisionless (runtime : Runtime) (s : Workers T) (idempotencyKey fingerprint : String) :
    Prop where
  operationId {k : String} {r : Row T} :
    k = idempotencyKey ∨ k = conflictKey idempotencyKey fingerprint → r ∈ s.table.rows →
      r.operationId = buildDocumentOperationId runtime k → r.idempotencyKey = k
  conflict {r : Row T} : s.table.select (conflictKey idempotencyKey fingerprint) = some r →
    r.requestFingerprint = fingerprint

theorem returns_claimOrConflict {args : ClaimArgs} (hw : args.writable)
    (ho : ∀ r ∈ s.table.rows, r.operationId = args.operationId →
      r.idempotencyKey = args.idempotencyKey) :
    Returns (healthy T) (claimOrConflict args) (fun found t => match found with
      | none => t = s ∧ ∃ r, s.table.select args.idempotencyKey = some r
      | some claim => Claims args s claim t) s := by
  refine (returns_healthy (Desk.returns_claimOrConflict desk_answers hw ho)).mono ?_
  rintro (_ | claim) t ⟨log, h⟩
  · cases h with
    | conflict r hs _ => exact ⟨rfl, r, hs⟩
  · exact h.claims

/-- What `process` files a payload as: the request read from it, or a refused object itself. -/
def filed (runtime : Runtime) (payload : Json) : Option Dict :=
  match runtime.fromPayload payload with
  | .ok request => some request.toPayload
  | .error (.payload (.validation _)) =>
    match payload.sortKeys with
    | .dict d => some d
    | _ => none
  | .error _ => none

def Rejected (runtime : Runtime) (payload : Json) : Prop :=
  ∃ message, runtime.fromPayload payload = .error (.payload (.validation message))

/-- The result is backed by a row of what was filed: for a rejected payload a terminal failure, or a
row that stood there before. -/
def Settled (runtime : Runtime) (payload : Json) (s : Workers T)
    (result : DocumentProcessingResult T) (t : Workers T) : Prop :=
  ∃ d fingerprint, filed runtime payload = some d ∧
    buildDocumentRequestFingerprint runtime d = .ok fingerprint ∧
    t.Backs (fun q => Rejected runtime payload → q.Refused ∨ s.table.select q.idempotencyKey = some q)
      fingerprint result

theorem Runtime.dumpText_eq_ok {runtime : Runtime} (h : runtime.dumpText j = .ok t) :
    runtime.dumps j ∧ j.writable := by
  unfold Runtime.dumpText at h
  split at h
  next hroom => exact ⟨hroom, Python.dumpText_eq_ok h⟩
  · cases h

theorem DocumentVectorizeInput.documentId_encodable {request : DocumentVectorizeInput}
    (h : Json.writable (.dict request.toPayload)) : request.documentId.encodable := by
  have hd := (Json.writable_dict.mp h (py "documentId", .str request.documentId)
    (by simp [toPayload])).2
  rwa [Json.writable_str] at hd

theorem DocumentVectorizeInput.manifestVersion_encodable {request : DocumentVectorizeInput}
    (h : Json.writable (.dict request.toPayload)) : request.manifestVersion.toStr.encodable := by
  have hv := (Json.writable_dict.mp h (py "manifestVersion", request.manifestVersion.toPayload)
    (by simp [toPayload])).2
  cases hm : request.manifestVersion with
  | str v =>
    rw [hm] at hv
    rwa [← Json.writable_str]
  | int i => exact encodable_py _

end Tasks

section Opening

variable {T σ : Type} {W : World (documentOps T) σ} {filedUnder : String → Prop}
  {Q : DocumentProcessingResult T → σ → Prop} {E : Raised → σ → Prop} {s : σ} {runtime : Runtime}

end Opening

section Tasks

variable {T : Type} [LinearOrder T] [Inhabited T] {s : Workers T}

end Tasks

end PrismPipe.Document
