import PrismPipe.Document.Operations
import PrismPipe.Python.JsonLaws

/-! What each statement of the store can do: one lemma a call, so that nothing above unfolds
them. -/

namespace PrismPipe.Document

open Python

namespace Sql

variable {T α β : Type} {t : Operations T}

@[simp] theorem run_pure (a : α) : (pure a : Sql T α).run t = (.ok a, t) := rfl

@[simp] theorem run_throw (e : StoreError) : (throw e : Sql T α).run t = (.error e, t) := rfl

theorem run_bind (m : Sql T α) (f : α → Sql T β) : (m >>= f).run t =
    match m.run t with
    | (.ok a, u) => (f a).run u
    | (.error e, u) => (.error e, u) := by
  change (ExceptT.bind m f) t = _
  unfold ExceptT.bind ExceptT.mk Sql.run
  change (ExceptT.bindCont f (m t).1) (m t).2 = _
  rcases m t with ⟨_ | _, _⟩ <;> rfl

theorem run_bind_pure {m : Sql T α} {f : α → β}
    (h : (m >>= fun a => pure (f a)).run t = (res, u)) :
    ∃ r, m.run t = (r, u) ∧ res = r.map f := by
  rw [run_bind] at h
  generalize m.run t = x at *
  obtain ⟨_ | a, v⟩ := x
  · cases h
    exact ⟨_, rfl, rfl⟩
  · cases h
    exact ⟨_, rfl, rfl⟩

@[simp] theorem run_select (k : String) :
    (select k : Sql T _).run t = (.ok (t.select k), t) := rfl

@[simp] theorem run_update (p : Row T → Bool) (f : Row T → Row T)
    (hf : ∀ r, (f r).idempotencyKey = r.idempotencyKey) :
    (update p f hf).run t = (.ok (t.rowcount p), t.update p f hf) := rfl

theorem run_transaction (m : Sql T α) : (transaction m).run t =
    match m.run t with
    | (.ok a, u) => (.ok a, u)
    | (.error e, _) => (.error e, t) := rfl

@[simp] theorem run_lift_ok (a : α) : (lift (.ok a) : Sql T α).run t = (.ok a, t) := rfl

@[simp] theorem run_lift_error (e : EncodeError) :
    (lift (.error e) : Sql T α).run t = (.error (.encode e), t) := rfl

theorem run_fetch {r : Row T} (h : t.select k = some r) :
    (fetch k : Sql T _).run t = (.ok (.fromRow r), t) := by
  simp [fetch, run_bind, h]

theorem run_insert_taken {r : Row T} (h : ∃ s ∈ t.rows, s.operationId = r.operationId) :
    (insert r).run t = (.error .integrityError, t) := by
  have hany : (t.rows.any fun s => s.operationId = r.operationId) = true := by simpa using h
  simp [Sql.run, insert, hany]

theorem run_insert_ok {r : Row T} (h : ∀ s ∈ t.rows, s.operationId ≠ r.operationId)
    (hs : t.select r.idempotencyKey = none) :
    ∃ u, (insert r).run t = (.ok (), u) ∧ t.Sets r.idempotencyKey r u := by
  have hany : (t.rows.any fun s => s.operationId = r.operationId) = false := by simpa using h
  obtain ⟨u, hu⟩ := Table.insert_eq_some hs
  refine ⟨u, ?_, Table.insert_sets hu⟩
  simp [Sql.run, insert, hany, hu]

end Sql

def ClaimArgs.writable (args : ClaimArgs) : Bool :=
  args.normalizedPayload.writable && args.requestMetadata.writable &&
    args.documentId.encodable && args.manifestVersion.encodable

theorem ClaimArgs.writable_iff {args : ClaimArgs} : args.writable ↔
    args.normalizedPayload.writable ∧ args.requestMetadata.writable ∧
      args.documentId.encodable ∧ args.manifestVersion.encodable := by
  simp [ClaimArgs.writable, and_assoc]

theorem ClaimArgs.texts_ok {args : ClaimArgs} (h : args.writable) : args.texts =
    .ok (⟨args.documentId, (ClaimArgs.writable_iff.mp h).2.2.1⟩,
      ⟨args.manifestVersion, (ClaimArgs.writable_iff.mp h).2.2.2⟩,
      args.normalizedPayload.written (ClaimArgs.writable_iff.mp h).1,
      args.requestMetadata.written (ClaimArgs.writable_iff.mp h).2.1) := by
  obtain ⟨hp, hm, hd, hv⟩ := ClaimArgs.writable_iff.mp h
  obtain ⟨hpf, hpe⟩ := Json.writable_iff.mp hp
  obtain ⟨hmf, hme⟩ := Json.writable_iff.mp hm
  have hpe' : args.normalizedPayload.sortKeys.encodable := by simpa using hpe
  have hme' : args.requestMetadata.sortKeys.encodable := by simpa using hme
  simp [texts, canonicalJson_ok hpf, canonicalJson_ok hmf, bindText, hd, hv, encode_ok, hpe',
    hme', Json.written, bind, Except.bind, pure, Except.pure]

theorem ClaimArgs.texts_eq_ok {args : ClaimArgs} (h : args.texts = .ok a) : args.writable := by
  obtain ⟨_, hp, h⟩ := bind_eq_ok h
  obtain ⟨_, hm, h⟩ := bind_eq_ok h
  obtain ⟨_, hd, h⟩ := bind_eq_ok h
  obtain ⟨_, hv, h⟩ := bind_eq_ok h
  obtain ⟨_, hpe, h⟩ := bind_eq_ok h
  obtain ⟨_, hme, h⟩ := bind_eq_ok h
  obtain ⟨hpf, hp'⟩ := canonicalJson_eq_ok hp
  obtain ⟨hmf, hm'⟩ := canonicalJson_eq_ok hm
  have hpe := encode_eq_ok hpe
  have hme := encode_eq_ok hme
  rw [hp'] at hpe
  rw [hm'] at hme
  exact ClaimArgs.writable_iff.mpr
    ⟨Json.writable_iff.mpr ⟨hpf, by simpa using hpe⟩,
      Json.writable_iff.mpr ⟨hmf, by simpa using hme⟩, bindText_eq_ok hd, bindText_eq_ok hv⟩

section Store

open Sql

variable {T : Type} {t : Operations T}

def Row.Admits (r : Row T) (claimToken : String) (status : DocumentOperationStatus) : Prop :=
  r.claimToken = some claimToken ∧ r.status = status

inductive FinishOutcome (args : FinishArgs) (now : T) (t : Operations T) :
    Except StoreError (DocumentOperationRecord T) → Operations T → Prop
  | unknown : t.select args.idempotencyKey = none →
      FinishOutcome args now t (.error (.keyError args.idempotencyKey)) t
  | stale : t.select args.idempotencyKey = some r →
      ¬ r.Admits args.claimToken (expectedStatus args.status) →
      FinishOutcome args now t (.error (.stale args.idempotencyKey)) t
  | unwritable : t.select args.idempotencyKey = some r →
      r.Admits args.claimToken (expectedStatus args.status) → args.texts = .error e →
      FinishOutcome args now t (.error (.encode e)) t
  | finished : t.select args.idempotencyKey = some r →
      r.Admits args.claimToken (expectedStatus args.status) →
      args.texts = .ok (result, error, payload) →
      t.Sets args.idempotencyKey (r.finished args result error payload now) u →
      FinishOutcome args now t (.ok (.fromRow (r.finished args result error payload now))) u

theorem FinishOutcome.of_admits (h : FinishOutcome args now t res u)
    (hs : t.select args.idempotencyKey = some r)
    (ha : r.Admits args.claimToken (expectedStatus args.status)) :
    (∃ e, args.texts = .error e ∧ res = .error (.encode e) ∧ u = t) ∨
      ∃ result error payload, args.texts = .ok (result, error, payload) ∧
        res = .ok (.fromRow (r.finished args result error payload now)) ∧
        t.Sets args.idempotencyKey (r.finished args result error payload now) u := by
  cases h with
  | unknown hn => cases hs.symm.trans hn
  | stale hs' hn =>
    obtain rfl := Option.some.inj (hs.symm.trans hs')
    exact absurd ha hn
  | unwritable _ _ he => exact .inl ⟨_, he, rfl, rfl⟩
  | finished hs' _ ht hset =>
    obtain rfl := Option.some.inj (hs.symm.trans hs')
    exact .inr ⟨_, _, _, ht, rfl, hset⟩

theorem finishSync_outcome (h : (finishSync args now).run t = (res, u)) :
    FinishOutcome args now t res u := by
  unfold finishSync at h
  rw [run_transaction, run_bind, run_select] at h
  cases hs : t.select args.idempotencyKey with
  | none =>
    simp only [hs, run_throw] at h
    cases h
    exact .unknown hs
  | some r =>
    simp only [hs] at h
    by_cases ha : r.Admits args.claimToken (expectedStatus args.status)
    · have hne : ¬ (r.claimToken ≠ some args.claimToken ∨
          r.status ≠ expectedStatus args.status) := by
        rintro (hc | hc)
        · exact hc ha.1
        · exact hc ha.2
      rw [if_neg hne, run_bind] at h
      cases ht : args.texts with
      | error e =>
        simp only [ht, run_lift_error] at h
        cases h
        exact .unwritable hs ha ht
      | ok texts =>
        obtain ⟨result, error, payload⟩ := texts
        have hq : (decide (r.claimToken = some args.claimToken) &&
            decide (r.status = expectedStatus args.status)) = true := by
          simp [ha.1, ha.2]
        have hset : t.Sets args.idempotencyKey (r.finished args result error payload now)
            (t.update _ _ (Row.finished_key args result error payload now)) :=
          Table.update_where_sets (q := fun r => r.claimToken = some args.claimToken &&
            r.status = expectedStatus args.status) hs hq
        have hcount : t.rowcount (fun r => r.idempotencyKey = args.idempotencyKey &&
            (r.claimToken = some args.claimToken && r.status = expectedStatus args.status)) = 1 :=
          Table.rowcount_eq_one.mpr ⟨r, hs, hq⟩
        simp only [ht, run_lift_ok, run_bind, run_update, hcount, ne_eq, not_true, if_false,
          run_fetch hset.select] at h
        cases h
        exact .finished hs ha ht hset
    · have hor : r.claimToken ≠ some args.claimToken ∨ r.status ≠ expectedStatus args.status := by
        by_contra hc
        rw [not_or, not_not, not_not] at hc
        exact ha hc
      rw [if_pos hor] at h
      cases h
      exact .stale hs ha

inductive RetryableOutcome (key claimToken : String) (error : Json) (now : T) (t : Operations T) :
    Except StoreError Unit → Operations T → Prop
  | unwritable : ¬ error.writable → RetryableOutcome key claimToken error now t (.error (.encode e)) t
  | stale : error.writable → (∀ r, t.select key = some r → ¬ r.Admits claimToken .processing) →
      RetryableOutcome key claimToken error now t (.error (.stale key)) t
  | recorded (h : error.writable) : t.select key = some r → r.Admits claimToken .processing →
      t.Sets key (r.failedRetryably (error.written h) now) u →
      RetryableOutcome key claimToken error now t (.ok ()) u

theorem RetryableOutcome.of_admits (h : RetryableOutcome key claimToken error now t res u)
    (hs : t.select key = some r) (ha : r.Admits claimToken .processing) (he : error.writable) :
    res = .ok () ∧ t.Sets key (r.failedRetryably (error.written he) now) u := by
  cases h with
  | unwritable hn => exact absurd he hn
  | stale _ hn => exact absurd ha (hn r hs)
  | recorded _ hs' _ hset =>
    obtain rfl := Option.some.inj (hs.symm.trans hs')
    exact ⟨rfl, hset⟩

theorem recordRetryableSync_outcome
    (h : (recordRetryableSync key claimToken error now).run t = (res, u)) :
    RetryableOutcome key claimToken error now t res u := by
  unfold recordRetryableSync at h
  rw [run_bind] at h
  cases hd : dumpText error with
  | error e =>
    simp only [hd, run_lift_error] at h
    cases h
    refine .unwritable fun hw => ?_
    rw [dumpText_ok hw] at hd
    cases hd
  | ok text =>
    have hw := dumpText_eq_ok hd
    rw [dumpText_ok hw] at h
    let q : Row T → Bool := fun r => r.claimToken = some claimToken && r.status = .processing
    simp only [run_lift_ok, run_bind, run_update] at h
    by_cases ha : ∃ r, t.select key = some r ∧ q r
    · obtain ⟨r, hs, hq⟩ := ha
      have hcount : t.rowcount (fun r => r.idempotencyKey = key && q r) = 1 :=
        Table.rowcount_eq_one.mpr ⟨r, hs, hq⟩
      have hset : t.Sets key (r.failedRetryably (error.written hw) now)
          (t.update _ _ (Row.failedRetryably_key (error.written hw) now)) :=
        Table.update_where_sets (q := q) hs hq
      rw [if_neg (not_not.mpr hcount)] at h
      cases h
      exact .recorded hw hs (by simpa [q, Row.Admits] using hq) hset
    · have hcount : t.rowcount (fun r => r.idempotencyKey = key && q r) ≠ 1 :=
        fun hc => ha (Table.rowcount_eq_one.mp hc)
      have hself : t.update (fun r => r.idempotencyKey = key && q r) _
          (Row.failedRetryably_key (error.written hw) now) = t :=
        Table.update_where_self fun r hs hq => ha ⟨r, hs, hq⟩
      rw [if_pos hcount, hself] at h
      cases h
      refine .stale hw fun r hs hr => ha ⟨r, hs, ?_⟩
      simpa [q, Row.Admits] using hr

inductive PublicationOutcome (key : String) (published : Bool) (now : T) (t : Operations T) :
    Operations T → Prop
  | unknown : t.select key = none → PublicationOutcome key published now t t
  | updated : t.select key = some r → t.Sets key (r.publicationUpdated published now) u →
      PublicationOutcome key published now t u

theorem publicationUpdateSync_outcome
    (h : (publicationUpdateSync key published now).run t = (res, u)) :
    PublicationOutcome key published now t u := by
  simp only [publicationUpdateSync, run_bind, run_update, run_pure] at h
  cases h
  cases hs : t.select key with
  | none =>
    have hself : t.update (fun r => r.idempotencyKey = key) _
        (Row.publicationUpdated_key published now) = t := Table.update_key_self hs
    rw [hself]
    exact .unknown hs
  | some r =>
    exact .updated hs (Table.update_key_sets hs)

variable [LinearOrder T]

def Row.Held (r : Row T) (now : T) : Prop :=
  r.status.settled ∨ r.status = .processing ∧ r.leaseUntil.any (now < ·)

def ClaimArgs.row (args : ClaimArgs) (h : args.writable) (now leaseUntil : T)
    (claimToken : String) : Row T :=
  .opened args ⟨args.documentId, (ClaimArgs.writable_iff.mp h).2.2.1⟩
    ⟨args.manifestVersion, (ClaimArgs.writable_iff.mp h).2.2.2⟩
    (args.normalizedPayload.written (ClaimArgs.writable_iff.mp h).1)
    (args.requestMetadata.written (ClaimArgs.writable_iff.mp h).2.1) now leaseUntil claimToken

inductive ClaimOutcome (args : ClaimArgs) (now leaseUntil : T) (claimToken : String)
    (t : Operations T) : Except StoreError (DocumentOperationClaim T) → Operations T → Prop
  | unwritable : t.select args.idempotencyKey = none → ¬ args.writable →
      ClaimOutcome args now leaseUntil claimToken t (.error (.encode e)) t
  | taken : t.select args.idempotencyKey = none → r ∈ t.rows → r.operationId = args.operationId →
      ClaimOutcome args now leaseUntil claimToken t (.error .integrityError) t
  | opened (h : args.writable) : t.select args.idempotencyKey = none →
      (∀ r ∈ t.rows, r.operationId ≠ args.operationId) →
      t.Sets args.idempotencyKey (args.row h now leaseUntil claimToken) u →
      ClaimOutcome args now leaseUntil claimToken t
        (.ok ⟨.fromRow (args.row h now leaseUntil claimToken), true⟩) u
  | conflict : t.select args.idempotencyKey = some r →
      r.requestFingerprint ≠ args.requestFingerprint →
      ClaimOutcome args now leaseUntil claimToken t (.error .conflict) t
  | busy : t.select args.idempotencyKey = some r →
      r.requestFingerprint = args.requestFingerprint → r.Held now →
      ClaimOutcome args now leaseUntil claimToken t (.ok ⟨.fromRow r, false⟩) t
  | reclaimed : t.select args.idempotencyKey = some r →
      r.requestFingerprint = args.requestFingerprint → ¬ r.Held now →
      t.Sets args.idempotencyKey (r.reclaimed now leaseUntil claimToken) u →
      ClaimOutcome args now leaseUntil claimToken t
        (.ok ⟨.fromRow (r.reclaimed now leaseUntil claimToken), true⟩) u

theorem claimSync_outcome (h : (claimSync args now leaseUntil claimToken).run t = (res, u)) :
    ClaimOutcome args now leaseUntil claimToken t res u := by
  unfold claimSync at h
  rw [run_transaction, run_bind, run_select] at h
  cases hs : t.select args.idempotencyKey with
  | none =>
    simp only [hs, run_bind] at h
    cases ht : args.texts with
    | error e =>
      simp only [ht, run_lift_error] at h
      cases h
      refine .unwritable hs fun hw => ?_
      rw [ClaimArgs.texts_ok hw] at ht
      cases ht
    | ok a =>
      have hw := ClaimArgs.texts_eq_ok ht
      rw [ClaimArgs.texts_ok hw] at ht h
      simp only [run_lift_ok] at h
      by_cases ho : ∃ r ∈ t.rows, r.operationId = args.operationId
      · rw [run_insert_taken ho] at h
        cases h
        obtain ⟨r, hr, he⟩ := ho
        exact .taken hs hr he
      · have hne : ∀ r ∈ t.rows, r.operationId ≠ args.operationId := by simpa using ho
        obtain ⟨v, hv, hset⟩ := run_insert_ok (r := args.row hw now leaseUntil claimToken) hne hs
        rw [ClaimArgs.row] at hv
        simp only [hv, run_fetch (k := args.idempotencyKey) hset.select, run_pure] at h
        cases h
        exact .opened hw hs hne hset
  | some r =>
    simp only [hs] at h
    let record := DocumentOperationRecord.fromRow r
    by_cases hf : record.requestFingerprint ≠ args.requestFingerprint
    · rw [if_pos hf] at h
      cases h
      exact .conflict hs hf
    rw [if_neg hf] at h
    have hf := not_not.mp hf
    by_cases hd : record.status.settled
    · rw [if_pos hd] at h
      cases h
      exact .busy hs hf (.inl hd)
    rw [if_neg hd] at h
    by_cases hl : record.status = .processing ∧ r.leaseUntil.any (now < ·)
    · rw [if_pos hl] at h
      cases h
      exact .busy hs hf (.inr hl)
    rw [if_neg hl, run_bind, run_update] at h
    have hset : t.Sets args.idempotencyKey (r.reclaimed now leaseUntil claimToken)
        (t.update _ _ (Row.reclaimed_key now leaseUntil claimToken)) :=
      Table.update_key_sets hs
    simp only [run_bind, run_fetch hset.select, run_pure] at h
    cases h
    exact .reclaimed hs hf (fun h => h.elim hd hl) hset

theorem run_pendingSync {limit : Int} (h : limit < 2 ^ 63) : (pendingSync limit).run t =
    (.ok ((((t.rows.filter fun r => r.publicationState = .pending).insertionSort
      fun r s => earlier r s).take limit.toNat).map .fromRow), t) := if_pos h

theorem run_pendingSync_overflow {limit : Int} (h : ¬ limit < 2 ^ 63) :
    (pendingSync limit).run t = (.error .overflow, t) := if_neg h

theorem mem_pendingSync {limit : Int} {records : List (DocumentOperationRecord T)}
    (h : ((pendingSync limit).run t).1 = .ok records) (hr : record ∈ records) :
    ∃ r ∈ t.rows, r.publicationState = .pending ∧ .fromRow r = record := by
  by_cases hlimit : limit < 2 ^ 63
  · rw [run_pendingSync hlimit] at h
    rw [← Except.ok.inj h] at hr
    obtain ⟨r, hmem, rfl⟩ := List.mem_map.mp hr
    have hmem := List.mem_of_mem_take hmem
    rw [List.mem_insertionSort, List.mem_filter, decide_eq_true_eq] at hmem
    exact ⟨r, hmem.1, hmem.2, rfl⟩
  · rw [run_pendingSync_overflow hlimit] at h
    cases h

end Store

end PrismPipe.Document
