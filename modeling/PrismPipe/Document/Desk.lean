import PrismPipe.Lib.Log
import PrismPipe.Document.Loading
import PrismPipe.Document.OperationsLaws
import PrismPipe.Document.Totality

/-! What each call on the store comes to where the store does not fail, with a record of what was
done outside it. -/

namespace PrismPipe.Document

open Python

section Writable

variable {T : Type}

theorem writable_asJson {d : Option Dict} (h : ∀ e, d = some e → Json.writable (.dict e)) :
    (asJson .dict d).writable := by
  cases d with
  | none => rfl
  | some e => exact h e rfl

theorem writable_asJson_str {s : Option PyStr} (h : ∀ t, s = some t → t.encodable) :
    (asJson .str s).writable := by
  cases s with
  | none => rfl
  | some t =>
    change Json.writable (.str t)
    rw [Json.writable_str]
    exact h t rfl

theorem safeIdentityValue_encodable {value : Json} {fallback : PyStr} (hv : value.writable)
    (hf : fallback.encodable) : (safeIdentityValue value fallback).encodable := by
  unfold safeIdentityValue
  split
  · split
    · exact hf
    · rwa [Json.writable_str] at hv
  · exact encodable_py _
  · exact hf

theorem resultMessage_writable (row : Row T) (success : Bool) {result error : Option Dict}
    (hr : ∀ d, result = some d → Json.writable (.dict d))
    (he : ∀ d, error = some d → Json.writable (.dict d)) :
    Json.writable (.dict (resultMessage (.fromRow row) success result error)) := by
  simp [resultMessage, DocumentOperationRecord.fromRow, row.documentId.encodable,
    row.manifestVersion.encodable, row.metadataJson.writable, writable_asJson hr,
    writable_asJson he]

structure DocumentProcessingError.Writable (e : DocumentProcessingError) : Prop where
  code : e.code.encodable
  message : e.message.encodable
  details : Json.writable (.dict e.details)

theorem DocumentProcessingError.Writable.toPayload {e : DocumentProcessingError}
    (h : e.Writable) : Json.writable (.dict e.toPayload) := by
  simp [DocumentProcessingError.toPayload, h.code, h.message, h.details]

theorem validationError_writable {message documentId : PyStr} (hm : message.encodable)
    (hd : documentId.encodable) : Json.writable (.dict (validationError message documentId)) := by
  have hid :
      (asJson .str (if documentId = py "unknown" then none else some documentId)).writable := by
    refine writable_asJson_str fun t ht => ?_
    split at ht
    · cases ht
    · cases ht
      exact hd
  have hnone : (asJson .str none).writable := rfl
  simp [validationError, DocumentVectorizeError.toPayload, hm, hid, hnone]

theorem encodeOptional_ok {j : Option Json} (h : ∀ i, j = some i → i.writable) :
    ∃ c t, dumpOptionalJson j = .ok c ∧ encodeOptional c = .ok t := by
  cases j with
  | none => exact ⟨none, none, rfl, rfl⟩
  | some i =>
    obtain ⟨hf, he⟩ := Json.writable_iff.mp (h i rfl)
    have he' : i.sortKeys.encodable := by simpa using he
    refine ⟨some ⟨i.sortKeys, by simpa using hf⟩, some (i.written (h i rfl)), ?_, ?_⟩
    · simp [dumpOptionalJson, canonicalJson_ok hf]
    · simp [encodeOptional, encode_ok, he', Json.written]

theorem FinishArgs.texts_ok {args : FinishArgs} (hr : ∀ j, args.result = some j → j.writable)
    (he : ∀ j, args.error = some j → j.writable) (hp : args.outboundPayload.writable) :
    ∃ result error payload, args.texts = .ok (result, error, payload) := by
  obtain ⟨cr, tr, hcr, htr⟩ := encodeOptional_ok hr
  obtain ⟨ce, te, hce, hte⟩ := encodeOptional_ok he
  obtain ⟨hf, hu⟩ := Json.writable_iff.mp hp
  have hu' : args.outboundPayload.sortKeys.encodable := by simpa using hu
  refine ⟨tr, te, args.outboundPayload.written hp, ?_⟩
  simp [FinishArgs.texts, hcr, htr, hce, hte, canonicalJson_ok hf, encode_ok, hu', Json.written,
    bind, Except.bind, pure, Except.pure]

end Writable

theorem FinishArgs.texts_failure {args : FinishArgs} {error : Json} (hn : args.result = none)
    (hs : args.error = some error) (he : error.writable) (hp : args.outboundPayload.writable) :
    args.texts = .ok (none, some (error.written he), args.outboundPayload.written hp) := by
  obtain ⟨hef, hee⟩ := Json.writable_iff.mp he
  obtain ⟨hpf, hpe⟩ := Json.writable_iff.mp hp
  have hee' : error.sortKeys.encodable := by simpa using hee
  have hpe' : args.outboundPayload.sortKeys.encodable := by simpa using hpe
  simp [FinishArgs.texts, hn, hs, dumpOptionalJson, encodeOptional, canonicalJson_ok hef,
    canonicalJson_ok hpf, encode_ok, hee', hpe', Json.written, bind, Except.bind, pure,
    Except.pure]

open Program

inductive Deed
  | executed
  | settled
  | acknowledged (message : DeepiriMessage)
  | retried (message : DeepiriMessage)

def Deed.isExecuted : Deed → Bool
  | .executed => true
  | _ => false

def Deed.isSettled : Deed → Bool
  | .settled => true
  | _ => false

def Deed.isAcknowledged : Deed → Bool
  | .acknowledged _ => true
  | _ => false

def executions (log : List Deed) : Nat := log.countP (·.isExecuted)

def settlings (log : List Deed) : Nat := log.countP (·.isSettled)

def acknowledgements (log : List Deed) : Nat := log.countP (·.isAcknowledged)

@[simp] theorem executions_append (l m : List Deed) :
    executions (l ++ m) = executions l + executions m := List.countP_append

@[simp] theorem settlings_append (l m : List Deed) :
    settlings (l ++ m) = settlings l + settlings m := List.countP_append

@[simp] theorem acknowledgements_append (l m : List Deed) :
    acknowledgements (l ++ m) = acknowledgements l + acknowledgements m := List.countP_append

def DocumentOp.deeds {T : Type} : (o : DocumentOp) → Except Raised (o.Value T) → List Deed
  | .execute _, _ => [.executed]
  | .finish _, .ok _ => [.settled]
  | .acknowledge message _ _, .ok _ => [.acknowledged message]
  | .retry message, .ok _ => [.retried message]
  | _, _ => []

abbrev Desk (T : Type) := Workers T × List Deed

/-- The store does not fail; the others answer as `admits` has it. -/
def attended (T : Type) [LinearOrder T]
    (admits : (o : DocumentOp) → Except Raised (o.Value T) → Prop) :
    World (documentOps T) (Workers T) where
  step s o r t := Workers.Step s o r t ∧
    if o.stored then ∀ errorType, r ≠ .error (.other errorType) else admits o r
  abandon _ _ := False

def desk (T : Type) [LinearOrder T]
    (admits : (o : DocumentOp) → Except Raised (o.Value T) → Prop) :
    World (documentOps T) (Desk T) := (attended T admits).noting DocumentOp.deeds

/-- What a claim that can be written comes to, no digest colliding; `none` is a conflict. -/
inductive Claimed {T : Type} [LinearOrder T] (args : ClaimArgs) (s : Desk T) :
    Option (DocumentOperationClaim T) → Desk T → Prop
  | conflict (r : Row T) : s.1.table.select args.idempotencyKey = some r →
      r.requestFingerprint ≠ args.requestFingerprint → Claimed args s none s
  | held (r : Row T) : s.1.table.select args.idempotencyKey = some r →
      r.requestFingerprint = args.requestFingerprint →
      r.status.settled ∨ r.status = .processing → Claimed args s (some ⟨.fromRow r, false⟩) s
  | opened (hw : args.writable) (now leaseUntil : T) (claimToken : String) (u : Operations T) :
      s.1.table.select args.idempotencyKey = none →
      s.1.table.Sets args.idempotencyKey (args.row hw now leaseUntil claimToken) u →
      Claimed args s (some ⟨.fromRow (args.row hw now leaseUntil claimToken), true⟩)
        (⟨u, s.1.log⟩, s.2)
  | reclaimed (r : Row T) (now leaseUntil : T) (claimToken : String) (u : Operations T) :
      s.1.table.select args.idempotencyKey = some r →
      r.requestFingerprint = args.requestFingerprint → ¬ r.status.settled →
      s.1.table.Sets args.idempotencyKey (r.reclaimed now leaseUntil claimToken) u →
      Claimed args s (some ⟨.fromRow (r.reclaimed now leaseUntil claimToken), true⟩)
        (⟨u, s.1.log⟩, s.2)

theorem raise_ne_other {m : Except StoreError α} : raise m ≠ .error (.other errorType) := by
  cases m <;> simp [raise, Except.mapError]

theorem claimTokenOf_admits {T : Type} {r : Row T} (h : r.Admits claimToken status) :
    claimTokenOf (.fromRow r) = (pure claimToken : Task T String) := by
  simp only [claimTokenOf, DocumentOperationRecord.fromRow, h.1]

namespace Desk

section Calls

variable {T : Type} [LinearOrder T]
  {admits : (o : DocumentOp) → Except Raised (o.Value T) → Prop} {s : Desk T} {r : Row T}

def silent : NodeResult := ⟨false, false, none, none, none, none⟩

theorem answers [Inhabited T] (ha : ∀ (s : Workers T) (o : DocumentOp), ¬ o.stored →
      admits o ((quiet default default "" .none silent).serve s o).1)
    (s : Desk T) (o : DocumentOp) : ∃ a t, (desk T admits).step s o a t := by
  let server : Server (workers T) := quiet default default "" .none silent
  refine ⟨(server.serve s.1 o).1, ((server.serve s.1 o).2, _), ⟨server.sound s.1 o, ?_⟩, rfl⟩
  split
  next ho =>
    cases o with
    | claim | finish | recordRetryable | pending => exact fun _ => raise_ne_other
    | get | publicationUpdate => exact fun _ h => nomatch h
    | load | execute | rounds | sleep | publish | acknowledge | retry => cases ho
  next ho => exact ha s.1 o ho

variable (ha : ∀ (s : Desk T) (o : DocumentOp), ∃ a t, (desk T admits).step s o a t)

include ha

theorem ends_perform {o : DocumentOp} {Q : o.Value T → Desk T → Prop}
    {E : Raised → Desk T → Prop} (h : ∀ a u, (attended T admits).step s.1 o a u →
      outcome Q E a (u, s.2 ++ o.deeds a)) :
    Ends (desk T admits) (perform o) Q E s := by
  refine ⟨ha s o, ?_⟩
  rintro a ⟨u, log⟩ ⟨st, hlog⟩
  obtain rfl : log = s.2 ++ o.deeds a := hlog
  exact h a u st

theorem returns_get : Returns (desk T admits) (perform (.get key))
    (fun found t => found = (s.1.table.select key).map .fromRow ∧ t = s) s := by
  refine ends_perform ha fun _ u st => ?_
  obtain ⟨st, hr⟩ := st
  cases st with
  | get => exact ⟨rfl, Prod.ext rfl (List.append_nil _)⟩
  | unavailable errorType => exact absurd rfl (hr errorType)

theorem ends_claim {args : ClaimArgs} (hw : args.writable) (ho : ∀ r ∈ s.1.table.rows,
      r.operationId = args.operationId → r.idempotencyKey = args.idempotencyKey) :
    Ends (desk T admits) (perform (.claim args)) (fun claim t => Claimed args s (some claim) t)
      (fun e t => e = .store .conflict ∧ Claimed args s none t) s := by
  refine ends_perform ha fun _ u st => ?_
  obtain ⟨st, hr⟩ := st
  have hlog : s.2 ++ [] = s.2 := List.append_nil _
  cases st with
  | claim now leaseUntil claimToken hrun =>
    cases claimSync_outcome hrun with
    | unwritable _ hn => exact absurd hw hn
    | taken hs hq he =>
      rw [← ho _ hq he, Table.select_of_mem hq] at hs
      cases hs
    | conflict hs hf =>
      refine ⟨rfl, ?_⟩
      change Claimed args s none (s.1, s.2 ++ [])
      rw [hlog]
      exact .conflict _ hs hf
    | busy hs hf hheld =>
      change Claimed args s (some ⟨_, false⟩) (s.1, s.2 ++ [])
      rw [hlog]
      exact .held _ hs hf (hheld.imp_right And.left)
    | opened hw hs _ hset =>
      change Claimed args s (some ⟨_, true⟩) (_, s.2 ++ [])
      rw [hlog]
      exact .opened hw now leaseUntil claimToken _ hs hset
    | reclaimed hs hf hheld hset =>
      change Claimed args s (some ⟨_, true⟩) (_, s.2 ++ [])
      rw [hlog]
      exact .reclaimed _ now leaseUntil claimToken _ hs hf (fun h => hheld (.inl h)) hset
  | unavailable errorType => exact absurd rfl (hr errorType)

theorem returns_claimOrConflict {args : ClaimArgs} (hw : args.writable)
    (ho : ∀ r ∈ s.1.table.rows, r.operationId = args.operationId →
      r.idempotencyKey = args.idempotencyKey) :
    Returns (desk T admits) (claimOrConflict args) (Claimed args s) s := by
  refine ends_tryCatch.mpr ?_
  rw [map_eq_pure_bind]
  refine (ends_claim ha hw ho).bind (fun claim t => id) ?_
  rintro _ _ ⟨rfl, h⟩
  exact h

omit ha in
theorem returns_settledDuplicate (h : r.status ≠ .processing) : Returns (desk T admits)
    (settledDuplicate (.fromRow r)) (fun record t => record = .fromRow r ∧ t = s) s := by
  unfold settledDuplicate
  split
  · exact ends_pure.mpr ⟨rfl, rfl⟩
  next hn => exact absurd h hn

theorem ends_finish {args : FinishArgs} (hs : s.1.table.select args.idempotencyKey = some r)
    (hr : r.Admits args.claimToken (expectedStatus args.status)) :
    Ends (desk T admits) (perform (.finish args)) (fun record t =>
      ∃ result error payload now u, args.texts = .ok (result, error, payload) ∧
        record = .fromRow (r.finished args result error payload now) ∧
        s.1.table.Sets args.idempotencyKey (r.finished args result error payload now) u ∧
        t = (⟨u, s.1.log⟩, s.2 ++ [.settled]))
      (fun _ t => t = s ∧ ∃ e, args.texts = .error e) s := by
  refine ends_perform ha fun _ u st => ?_
  obtain ⟨st, hne⟩ := st
  cases st with
  | finish now hrun =>
    obtain ⟨e, he, rfl, rfl⟩ | ⟨_, _, _, ht, rfl, hset⟩ :=
      (finishSync_outcome hrun).of_admits hs hr
    · exact ⟨Prod.ext rfl (List.append_nil _), e, he⟩
    · exact ⟨_, _, _, now, _, ht, rfl, hset, rfl⟩
  | unavailable errorType => exact absurd rfl (hne errorType)

theorem returns_publicationUpdate (published : Bool) (hs : s.1.table.select key = some r) :
    Returns (desk T admits) (publicationUpdate key published) (fun record t =>
      ∃ now, record = .fromRow (r.publicationUpdated published now) ∧
        s.1.table.Sets key (r.publicationUpdated published now) t.1.table ∧ t.2 = s.2) s := by
  have hupdate : Returns (desk T admits) (perform (.publicationUpdate key published))
      (fun _ t => ∃ now, s.1.table.Sets key (r.publicationUpdated published now) t.1.table ∧
        t.2 = s.2) s := by
    refine ends_perform ha fun _ u st => ?_
    obtain ⟨st, hne⟩ := st
    cases st with
    | publicationUpdate now hrun =>
      obtain rfl := (congrArg Prod.fst hrun).symm
      cases publicationUpdateSync_outcome hrun with
      | unknown hn => cases hs.symm.trans hn
      | updated hs' hset =>
        obtain rfl := Option.some.inj (hs.symm.trans hs')
        exact ⟨now, hset, List.append_nil _⟩
    | unavailable errorType => exact absurd rfl (hne errorType)
  refine hupdate.bind ?_
  rintro _ t ⟨now, hset, hlog⟩
  refine (returns_get ha).bind ?_
  rintro _ _ ⟨rfl, rfl⟩
  rw [hset.select]
  exact ends_pure.mpr ⟨now, rfl, hset, hlog⟩

theorem returns_finishFailure {error : Dict} (deadLettered : Bool)
    (hs : s.1.table.select key = some r)
    (hr : r.Admits claimToken (if deadLettered then .retryableFailure else .processing))
    (he : Json.writable (.dict error)) :
    Returns (desk T admits) (finishFailure (.fromRow r) error deadLettered) (fun record t =>
      ∃ args payload now u,
        args.status = (if deadLettered then .deadLettered else .terminalFailure) ∧
        args.outboundTopic = "pipeline.dead-letter" ∧
        record = .fromRow (r.finished args none (some ((Json.dict error).written he)) payload now) ∧
        s.1.table.Sets key
          (r.finished args none (some ((Json.dict error).written he)) payload now) u ∧
        t = (⟨u, s.1.log⟩, s.2 ++ [.settled])) s := by
  obtain rfl := Table.select_key hs
  unfold finishFailure
  rw [claimTokenOf_admits hr, pure_bind]
  have hmessage : Json.writable (.dict (resultMessage (.fromRow r) false none (some error))) :=
    resultMessage_writable r false nofun (fun d hd => by cases hd; exact he)
  have hexpected : expectedStatus (if deadLettered then .deadLettered else .terminalFailure) =
      if deadLettered then .retryableFailure else .processing := by
    cases deadLettered <;> rfl
  refine (ends_finish ha hs (hexpected.symm ▸ hr)).mono ?_ ?_
  · rintro _ _ ⟨x, y, payload, now, u, ht, rfl, hset, rfl⟩
    cases (FinishArgs.texts_failure rfl rfl he hmessage).symm.trans ht
    exact ⟨_, _, now, u, rfl, rfl, rfl, hset, rfl⟩
  · rintro _ _ ⟨-, e, ht⟩
    cases (FinishArgs.texts_failure rfl rfl he hmessage).symm.trans ht

end Calls

end Desk

end PrismPipe.Document
