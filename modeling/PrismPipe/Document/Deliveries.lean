import PrismPipe.Document.Poison

/-! What the tasks of one delivery leave in the table and do outside it, whatever storage,
vectorizer and transport may answer. -/

namespace PrismPipe.Document

open Python

theorem toOption_eq_some {x : Except ε α} (h : x.toOption = some a) : x = .ok a := by
  cases x with
  | error e => cases h
  | ok b => exact congrArg _ (Option.some.inj h)

open Program

/-- A delivery to `process`. -/
structure Delivery where
  payload : Json
  messageId : PyStr
  headers : Dict

def Delivery.metadata (d : Delivery) : Dict := preservedMetadata d.headers d.messageId

def Delivery.process {T : Type} (runtime : Runtime) (d : Delivery) :
    Task T (DocumentProcessingResult T) :=
  Document.process runtime d.payload d.messageId d.headers

structure Delivery.Files (runtime : Runtime) (d : Delivery) (key fingerprint : String) : Prop where
  accepted : ∃ request, runtime.fromPayload d.payload = .ok request ∧
    buildDocumentIdempotencyKey runtime request.toPayload d.messageId d.metadata = .ok key ∧
    buildDocumentRequestFingerprint runtime request.toPayload = .ok fingerprint
  metadata : Json.writable (.dict d.metadata)

section Process

variable {T : Type} [LinearOrder T]
  {admits : (o : DocumentOp) → Except Raised (o.Value T) → Prop} {s : Desk T}
  {runtime : Runtime} {d : Delivery} {key fingerprint : String}

/-- How `process` goes on after its claim. -/
def afterClaim (conflict : Task T (DocumentProcessingResult T))
    (work : DocumentOperationRecord T → Task T (DocumentProcessingResult T)) :
    Option (DocumentOperationClaim T) → Task T (DocumentProcessingResult T)
  | none => conflict
  | some claim =>
    if !claim.owner then do
      let settled ← settledDuplicate claim.record
      return ⟨settled, true⟩
    else work claim.record

def vectorizeOwned (runtime : Runtime) (request : DocumentVectorizeInput)
    (idempotencyKey operationId : String) (record : DocumentOperationRecord T) :
    Task T (DocumentProcessingResult T) := do
  let claimToken ← claimTokenOf record
  tryCatch (vectorizeClaimed runtime request record idempotencyKey operationId claimToken)
    (vectorizeFailed record idempotencyKey claimToken)

omit [LinearOrder T] in
theorem Delivery.Files.process_eq (h : d.Files runtime key fingerprint) :
    ∃ (request : DocumentVectorizeInput) (args : ClaimArgs),
      runtime.fromPayload d.payload = .ok request ∧ args.writable ∧
      args.idempotencyKey = key ∧ args.requestFingerprint = fingerprint ∧
      args.operationId = buildDocumentOperationId runtime key ∧
      Json.writable (.dict request.toPayload) ∧
      (d.process runtime : Task T _) = claimOrConflict args >>= afterClaim
        (recordConflictOf runtime key request.toPayload fingerprint d.metadata)
        (vectorizeOwned runtime request key (buildDocumentOperationId runtime key)) := by
  obtain ⟨⟨request, hr, hk, hf⟩, hm⟩ := h
  obtain ⟨_, htext, -⟩ := bind_eq_ok hf
  have hw : Json.writable (.dict request.toPayload) := (Runtime.dumpText_eq_ok htext).2
  let args : ClaimArgs := {
    operationId := buildDocumentOperationId runtime key
    idempotencyKey := key
    requestFingerprint := fingerprint
    documentId := request.documentId
    manifestVersion := request.manifestVersion.toStr
    capability := DOCUMENT_VECTORIZE_CAPABILITY
    normalizedPayload := .dict request.toPayload
    requestMetadata := .dict d.metadata }
  have hargs : args.writable := ClaimArgs.writable_iff.mpr ⟨hw, hm, request.documentId_encodable hw,
    request.manifestVersion_encodable hw⟩
  refine ⟨request, args, hr, hargs, rfl, rfl, rfl, hw, ?_⟩
  unfold Delivery.metadata at *
  unfold Delivery.process Document.process
  simp only [hr]
  unfold processRequest
  simp only [hk, hf, liftEncode, pure_bind]
  refine congrArg _ (funext fun found => ?_)
  cases found <;> rfl

variable {Q : DocumentProcessingResult T → Desk T → Prop} {E : Raised → Desk T → Prop}

theorem ends_afterClaim {args : ClaimArgs} {conflict : Task T (DocumentProcessingResult T)}
    {work : DocumentOperationRecord T → Task T (DocumentProcessingResult T)}
    (ha : ∀ (s : Desk T) (o : DocumentOp), ∃ a t, (desk T admits).step s o a t)
    (hw : args.writable) (hid : ∀ r ∈ s.1.table.rows, r.operationId = args.operationId →
      r.idempotencyKey = args.idempotencyKey)
    (hconflict : ∀ t, Claimed args s none t → Ends (desk T admits) conflict Q E t)
    (hheld : ∀ record t, Claimed args s (some ⟨record, false⟩) t → Ends (desk T admits)
      (do
        let settled ← settledDuplicate record
        return (⟨settled, true⟩ : DocumentProcessingResult T)) Q E t)
    (howned : ∀ record t, Claimed args s (some ⟨record, true⟩) t →
      Ends (desk T admits) (work record) Q E t) :
    Ends (desk T admits) (claimOrConflict args >>= afterClaim conflict work) Q E s := by
  refine (Desk.returns_claimOrConflict ha hw hid).bind fun found t hfound => ?_
  cases found with
  | none => exact hconflict t hfound
  | some claim =>
    obtain ⟨record, owner⟩ := claim
    cases owner with
    | false => exact hheld record t hfound
    | true => exact howned record t hfound

section Situations

variable {args : ClaimArgs} {conflict : Task T (DocumentProcessingResult T)}
  {work : DocumentOperationRecord T → Task T (DocumentProcessingResult T)} {r : Row T}
  (ha : ∀ (s : Desk T) (o : DocumentOp), ∃ a t, (desk T admits).step s o a t)
  (hw : args.writable) (hid : ∀ r ∈ s.1.table.rows, r.operationId = args.operationId →
    r.idempotencyKey = args.idempotencyKey)
include ha hw hid

theorem ends_afterClaim_absent (hn : s.1.table.select args.idempotencyKey = none)
    (hopened : ∀ (hw : args.writable) now leaseUntil claimToken u,
      s.1.table.Sets args.idempotencyKey (args.row hw now leaseUntil claimToken) u →
      Ends (desk T admits) (work (.fromRow (args.row hw now leaseUntil claimToken))) Q E
        (⟨u, s.1.log⟩, s.2)) :
    Ends (desk T admits) (claimOrConflict args >>= afterClaim conflict work) Q E s := by
  refine ends_afterClaim ha hw hid ?_ ?_ ?_
  · intro t hc
    cases hc with
    | conflict q hq => cases hn.symm.trans hq
  · intro record t hc
    cases hc with
    | held q hq => cases hn.symm.trans hq
  · intro record t hc
    cases hc with
    | opened hw now leaseUntil claimToken u _ hset =>
      exact hopened hw now leaseUntil claimToken u hset
    | reclaimed q _ _ _ _ hq => cases hn.symm.trans hq

theorem ends_afterClaim_present (hs : s.1.table.select args.idempotencyKey = some r)
    (hf : r.requestFingerprint = args.requestFingerprint)
    (hheld : r.status.settled ∨ r.status = .processing → Ends (desk T admits)
      (do
        let settled ← settledDuplicate (.fromRow r)
        return (⟨settled, true⟩ : DocumentProcessingResult T)) Q E s)
    (hreclaimed : ∀ now leaseUntil claimToken u, ¬ r.status.settled →
      s.1.table.Sets args.idempotencyKey (r.reclaimed now leaseUntil claimToken) u →
      Ends (desk T admits) (work (.fromRow (r.reclaimed now leaseUntil claimToken))) Q E
        (⟨u, s.1.log⟩, s.2)) :
    Ends (desk T admits) (claimOrConflict args >>= afterClaim conflict work) Q E s := by
  refine ends_afterClaim ha hw hid ?_ ?_ ?_
  · intro t hc
    cases hc with
    | conflict q hq hn =>
      obtain rfl := Option.some.inj (hs.symm.trans hq)
      exact absurd hf hn
  · intro record t hc
    cases hc with
    | held q hq _ hst =>
      obtain rfl := Option.some.inj (hs.symm.trans hq)
      exact hheld hst
  · intro record t hc
    cases hc with
    | opened _ _ _ _ _ hn => cases hs.symm.trans hn
    | reclaimed q now leaseUntil claimToken u hq _ hn hset =>
      obtain rfl := Option.some.inj (hs.symm.trans hq)
      exact hreclaimed now leaseUntil claimToken u hn hset

theorem ends_afterClaim_other (hs : s.1.table.select args.idempotencyKey = some r)
    (hf : r.requestFingerprint ≠ args.requestFingerprint)
    (hconflict : Ends (desk T admits) conflict Q E s) :
    Ends (desk T admits) (claimOrConflict args >>= afterClaim conflict work) Q E s := by
  refine ends_afterClaim ha hw hid ?_ ?_ ?_
  · rintro _ ⟨⟩
    exact hconflict
  · intro record t hc
    cases hc with
    | held q hq hqf =>
      obtain rfl := Option.some.inj (hs.symm.trans hq)
      exact absurd hqf hf
  · intro record t hc
    cases hc with
    | opened _ _ _ _ _ hn => cases hs.symm.trans hn
    | reclaimed q _ _ _ _ hq hqf =>
      obtain rfl := Option.some.inj (hs.symm.trans hq)
      exact absurd hqf hf

theorem returns_afterClaim_settled (hs : s.1.table.select args.idempotencyKey = some r)
    (hf : r.requestFingerprint = args.requestFingerprint) (hr : r.status.settled) :
    Returns (desk T admits) (claimOrConflict args >>= afterClaim conflict work)
      (fun result t => result = ⟨.fromRow r, true⟩ ∧ t = s) s := by
  refine ends_afterClaim_present ha hw hid hs hf (fun _ => ?_)
    fun _ _ _ _ hn => absurd hr hn
  have hne : r.status ≠ .processing := by
    intro he
    rw [he] at hr
    cases hr
  refine (Desk.returns_settledDuplicate hne).bind ?_
  rintro _ _ ⟨rfl, rfl⟩
  exact ends_pure.mpr ⟨rfl, rfl⟩

end Situations

end Process

end PrismPipe.Document
