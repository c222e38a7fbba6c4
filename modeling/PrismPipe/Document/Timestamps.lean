import PrismPipe.Document.OperationsLaws
import PrismPipe.Python.Datetime

/-! The times of the store as the strings it keeps: they are compared as the times are. -/

namespace PrismPipe.Document

open Python Sql

/-- `_utc_now()` -/
def utcNow (clock : DateTime) : PyStr := clock.isoformat

/-- `_utc_after(seconds)`, for a number of microseconds. -/
def utcAfter (clock : DateTime) (microseconds : Nat) : Option PyStr :=
  (clock.plus microseconds).map DateTime.isoformat

theorem utcAfter_spec (h : utcAfter clock microseconds = some lease) :
    ∃ later : DateTime, lease = later.isoformat ∧ later.instant = clock.instant + microseconds := by
  obtain ⟨later, hlater, rfl⟩ := Option.map_eq_some_iff.mp h
  exact ⟨later, rfl, DateTime.instant_ofInstant hlater⟩

section Stamped

variable {T U : Type} (f : T → U)

def Row.stamped (r : Row T) : Row U where
  operationId := r.operationId
  idempotencyKey := r.idempotencyKey
  requestFingerprint := r.requestFingerprint
  documentId := r.documentId
  manifestVersion := r.manifestVersion
  capability := r.capability
  normalizedPayload := r.normalizedPayload
  status := r.status
  attemptCount := r.attemptCount
  createdAt := f r.createdAt
  updatedAt := f r.updatedAt
  resultJson := r.resultJson
  errorJson := r.errorJson
  metadataJson := r.metadataJson
  publicationState := r.publicationState
  publicationAttempts := r.publicationAttempts
  outboundTopic := r.outboundTopic
  outboundMessageId := r.outboundMessageId
  outboundPayloadJson := r.outboundPayloadJson
  leaseUntil := r.leaseUntil.map f
  claimToken := r.claimToken

def DocumentOperationRecord.stamped (r : DocumentOperationRecord T) :
    DocumentOperationRecord U :=
  { r with createdAt := f r.createdAt, updatedAt := f r.updatedAt }

def DocumentOperationClaim.stamped (c : DocumentOperationClaim T) : DocumentOperationClaim U where
  record := c.record.stamped f
  owner := c.owner

def Operations.stamped (t : Operations T) : Operations U where
  rows := t.rows.map (·.stamped f)
  unique := by
    rw [List.map_map]
    exact t.unique

theorem select_stamped (t : Operations T) (key : String) :
    (t.stamped f).select key = (t.select key).map (·.stamped f) := by
  rw [Table.select, Operations.stamped, List.find?_map]
  rfl

theorem insert_stamped (row : Row T) (t : Operations T) :
    (Operations.stamped f t).insert (row.stamped f) =
      (t.insert row).map (Operations.stamped f) := by
  have hkeys : (Operations.stamped f t).rows.map Row.idempotencyKey =
      t.rows.map Row.idempotencyKey := List.map_map
  have hmem : (row.stamped f).idempotencyKey ∈
      (Operations.stamped f t).rows.map Row.idempotencyKey ↔
      row.idempotencyKey ∈ t.rows.map Row.idempotencyKey := by
    rw [hkeys]
    rfl
  unfold Table.insert
  by_cases h : row.idempotencyKey ∈ t.rows.map Row.idempotencyKey
  · rw [dif_pos h, dif_pos (hmem.mpr h)]
    rfl
  · rw [dif_neg h, dif_neg (mt hmem.mp h)]
    refine congrArg some (Table.ext ?_)
    change t.rows.map (·.stamped f) ++ [row.stamped f] = (t.rows ++ [row]).map (·.stamped f)
    rw [List.map_append, List.map_singleton]

def Stamps (g : α → β) (m' : Sql U β) (m : Sql T α) : Prop :=
  ∀ t, m'.run (Operations.stamped f t) = ((m.run t).1.map g, Operations.stamped f (m.run t).2)

namespace Stamps

variable {f}

theorem pure (g : α → β) (a : α) : Stamps f g (pure (g a) : Sql U β) (pure a) := fun _ => rfl

theorem throw (g : α → β) (e : StoreError) : Stamps f g (throw e : Sql U β) (throw e) :=
  fun _ => rfl

theorem bind {m' : Sql U β} {m : Sql T α} {k' : β → Sql U δ} {k : α → Sql T γ} {g : α → β}
    {h : γ → δ} (hm : Stamps f g m' m) (hk : ∀ a, Stamps f h (k' (g a)) (k a)) :
    Stamps f h (m' >>= k') (m >>= k) := by
  intro t
  rw [run_bind, run_bind, hm t]
  rcases m.run t with ⟨e | a, u⟩
  · rfl
  · exact hk a u

theorem transaction {m' : Sql U β} {m : Sql T α} {g : α → β} (hm : Stamps f g m' m) :
    Stamps f g (transaction m') (transaction m) := by
  intro t
  rw [run_transaction, run_transaction, hm t]
  rcases m.run t with ⟨e | a, u⟩ <;> rfl

theorem select (key : String) : Stamps f (Option.map (Row.stamped f)) (select key) (select key) := by
  intro t
  exact Prod.ext (congrArg Except.ok (select_stamped f t key)) rfl

theorem fetch (key : String) :
    Stamps f (DocumentOperationRecord.stamped f) (fetch key) (fetch key) := by
  refine (select key).bind fun row => ?_
  cases row with
  | none => exact throw _ _
  | some row => exact pure _ (DocumentOperationRecord.fromRow row)

theorem lift (m : Except EncodeError α) : Stamps f id (lift m) (lift m) := by
  cases m with
  | error e => exact throw _ _
  | ok a => exact pure _ a

theorem insert (row : Row T) : Stamps f id (Sql.insert (row.stamped f)) (Sql.insert row) := by
  intro t
  have hany : ((Operations.stamped f t).rows.any
      fun r => r.operationId = (row.stamped f).operationId) =
      t.rows.any fun r => r.operationId = row.operationId := List.any_map
  unfold Sql.insert Sql.run
  dsimp only
  rw [hany, insert_stamped]
  split
  · rfl
  · cases t.insert row <;> rfl

theorem update {p' : Row U → Bool} {p : Row T → Bool} {h' : Row U → Row U} {h : Row T → Row T}
    {hh' : ∀ r, (h' r).idempotencyKey = r.idempotencyKey}
    {hh : ∀ r, (h r).idempotencyKey = r.idempotencyKey}
    (hp : ∀ r : Row T, p' (r.stamped f) = p r)
    (hr : ∀ r : Row T, h' (r.stamped f) = (h r).stamped f) :
    Stamps f id (update p' h' hh') (update p h hh) := by
  intro t
  refine Prod.ext (congrArg Except.ok ?_) (Table.ext ?_)
  · refine List.countP_map.trans (congrArg (List.countP · t.rows) ?_)
    exact funext hp
  · change (t.rows.map _).map _ = (t.rows.map _).map _
    rw [List.map_map, List.map_map]
    refine List.map_congr_left fun r _ => ?_
    simp only [Function.comp_apply, hp, hr]
    split <;> rfl

theorem ite {c : Prop} [Decidable c] {m' k' : Sql U β} {m k : Sql T α} {g : α → β}
    (hm : Stamps f g m' m) (hk : Stamps f g k' k) :
    Stamps f g (if c then m' else k') (if c then m else k) := by
  split
  · exact hm
  · exact hk

end Stamps

end Stamped

section Order

variable {T U : Type} [LinearOrder T] [LinearOrder U] (f : T ↪o U)

theorem lease_stamped (lease : Option T) (now : T) :
    ((lease.map f).any (f now < ·)) = lease.any (now < ·) := by
  cases lease with
  | none => rfl
  | some lease => exact decide_eq_decide.mpr f.lt_iff_lt

theorem earlier_stamped (r s : Row T) : earlier (r.stamped f) (s.stamped f) = earlier r s := by
  have hlt : decide (f r.updatedAt < f s.updatedAt) = decide (r.updatedAt < s.updatedAt) :=
    decide_eq_decide.mpr f.lt_iff_lt
  have heq : decide (f r.updatedAt = f s.updatedAt) = decide (r.updatedAt = s.updatedAt) :=
    decide_eq_decide.mpr f.eq_iff_eq
  unfold earlier Row.stamped
  rw [hlt, heq]

theorem claimSync_stamped (args : ClaimArgs) (now lease : T) (token : String) :
    Stamps f (DocumentOperationClaim.stamped f) (claimSync args (f now) (f lease) token)
      (claimSync args now lease token) := by
  refine .transaction ((Stamps.select args.idempotencyKey).bind fun row => ?_)
  cases row with
  | none =>
    refine (Stamps.lift args.texts).bind fun texts => ?_
    obtain ⟨documentId, manifestVersion, payload, metadata⟩ := texts
    refine (Stamps.insert (.opened args documentId manifestVersion payload metadata now lease
      token)).bind fun _ => ?_
    exact (Stamps.fetch args.idempotencyKey).bind fun record =>
      .pure (DocumentOperationClaim.stamped f) (⟨record, true⟩ : DocumentOperationClaim T)
  | some row =>
    have hheld : (row.stamped f).leaseUntil.any (f now < ·) = row.leaseUntil.any (now < ·) :=
      lease_stamped f row.leaseUntil now
    have hbusy : Stamps f (DocumentOperationClaim.stamped f)
        (Pure.pure ⟨.fromRow (row.stamped f), false⟩) (Pure.pure ⟨.fromRow row, false⟩) :=
      .pure (DocumentOperationClaim.stamped f)
        (⟨.fromRow row, false⟩ : DocumentOperationClaim T)
    have hupdate : Stamps f id
        (Sql.update (fun r => r.idempotencyKey = args.idempotencyKey)
          (.reclaimed (f now) (f lease) token) (Row.reclaimed_key (f now) (f lease) token))
        (Sql.update (fun r => r.idempotencyKey = args.idempotencyKey)
          (.reclaimed now lease token) (Row.reclaimed_key now lease token)) :=
      .update (fun _ => rfl) fun _ => rfl
    simp only [Option.map_some, hheld]
    refine .ite (.throw _ _) (.ite hbusy (.ite hbusy (hupdate.bind fun _ => ?_)))
    exact (Stamps.fetch args.idempotencyKey).bind fun record =>
      .pure (DocumentOperationClaim.stamped f) (⟨record, true⟩ : DocumentOperationClaim T)

theorem pendingSync_stamped (limit : Int) :
    Stamps f (List.map (DocumentOperationRecord.stamped f)) (pendingSync limit)
      (pendingSync limit) := by
  intro t
  have hfilter : (t.rows.map (·.stamped f)).filter (fun r => r.publicationState = .pending) =
      (t.rows.filter fun r => r.publicationState = .pending).map (·.stamped f) :=
    List.filter_map
  have hsort := List.map_insertionSort (fun r s : Row T => earlier r s)
    (fun r s : Row U => earlier r s) (·.stamped f)
    (t.rows.filter fun r => r.publicationState = .pending)
    (fun r _ s _ => by rw [earlier_stamped])
  have hrows : (Operations.stamped f t).rows = t.rows.map (·.stamped f) := rfl
  by_cases hlimit : limit < 2 ^ 63
  case neg =>
    rw [run_pendingSync_overflow hlimit, run_pendingSync_overflow hlimit]
    rfl
  rw [run_pendingSync hlimit, run_pendingSync hlimit]
  refine Prod.ext (congrArg Except.ok ?_) rfl
  rw [hrows, hfilter, ← hsort, ← List.map_take, List.map_map, List.map_map]
  rfl

end Order

/-- The strings of the store are in the order of the times they tell, byte by byte, and its claims
and its pending rows are those of the times. -/
theorem timestamps_ordered :
    (∀ d e : DateTime, (d.isoformat < e.isoformat ↔ d.instant < e.instant) ∧
      (d.isoformat = e.isoformat ↔ d.instant = e.instant)) ∧
    (∀ d : DateTime, ∀ c ∈ d.isoformat, c.val < 0x80) ∧
    (∀ args (now lease : DateTime) token,
      Stamps DateTime.isoformat (DocumentOperationClaim.stamped DateTime.isoformat)
        (claimSync args (utcNow now) lease.isoformat token) (claimSync args now lease token)) ∧
    ∀ limit, Stamps DateTime.isoformat
      (List.map (DocumentOperationRecord.stamped DateTime.isoformat)) (pendingSync limit)
      (pendingSync limit) :=
  ⟨fun d e => ⟨d.isoformat_lt_iff e, d.isoformat_inj e⟩, DateTime.isoformat_ascii,
    claimSync_stamped DateTime.iso, pendingSync_stamped DateTime.iso⟩

end PrismPipe.Document
