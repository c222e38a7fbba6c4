import Mathlib.Order.Nat
import PrismPipe.Lib.Rotation
import PrismPipe.Document.Outbox
import PrismPipe.Document.Poison

/-! `drain_pending_publications`, call after call: the pending rows are a queue that failed
publications go to the end of. -/

namespace PrismPipe.Document

open Python Program

variable {T : Type} [LinearOrder T]

def Row.pending (r : Row T) : Bool := r.publicationState = .pending

/-- The rows of `_pending_sync`, without the limit. -/
def pendingRows (t : Operations T) : List (Row T) :=
  (t.rows.filter (·.pending)).insertionSort fun r s => earlier r s

def pendingKeys (t : Operations T) : List String := (pendingRows t).map (·.idempotencyKey)

/-- `operation_id` is the primary key. -/
def DistinctIds (t : Operations T) : Prop :=
  ∀ r ∈ t.rows, ∀ q ∈ t.rows, r.operationId = q.operationId → r.idempotencyKey = q.idempotencyKey

theorem earlier_iff {r q : Row T} : earlier r q ↔
    r.updatedAt < q.updatedAt ∨ r.updatedAt = q.updatedAt ∧ r.operationId ≤ q.operationId := by
  simp [earlier]

theorem earlier_trans {r q p : Row T} (h : earlier r q) (k : earlier q p) : earlier r p := by
  rw [earlier_iff] at *
  rcases h with h | ⟨h, ho⟩ <;> rcases k with k | ⟨k, ko⟩
  · exact .inl (h.trans k)
  · exact .inl (k ▸ h)
  · exact .inl (h ▸ k)
  · exact .inr ⟨h.trans k, String.le_trans ho ko⟩

theorem earlier_total (r q : Row T) : earlier r q ∨ earlier q r := by
  rw [earlier_iff, earlier_iff]
  rcases lt_trichotomy r.updatedAt q.updatedAt with h | h | h
  · exact .inl (.inl h)
  · rcases String.le_total r.operationId q.operationId with ho | ho
    · exact .inl (.inr ⟨h, ho⟩)
    · exact .inr (.inr ⟨h.symm, ho⟩)
  · exact .inr (.inl h)

instance : IsTrans (Row T) fun r q => earlier r q := ⟨fun _ _ _ => earlier_trans⟩
instance : Std.Total (fun r q : Row T => (earlier r q : Prop)) := ⟨earlier_total⟩

theorem eq_of_earlier {t : Operations T} (h : DistinctIds t) (hr : r ∈ t.rows) (hq : q ∈ t.rows)
    (hrq : earlier r q) (hqr : earlier q r) : r = q := by
  rw [earlier_iff] at hrq hqr
  have hid : r.operationId = q.operationId := by
    rcases hrq with h | ⟨h, ho⟩
    · rcases hqr with k | ⟨k, -⟩
      · exact absurd h k.asymm
      · exact absurd h k.not_gt
    · rcases hqr with k | ⟨-, ko⟩
      · exact absurd k h.not_gt
      · exact String.le_antisymm ho ko
  have hk := h r hr q hq hid
  have hs := Table.select_of_mem hr
  rw [hk, Table.select_of_mem hq] at hs
  exact (Option.some.inj hs).symm

theorem mem_pendingRows {t : Operations T} : r ∈ pendingRows t ↔ r ∈ t.rows ∧ r.pending := by
  rw [pendingRows, List.mem_insertionSort, List.mem_filter]

theorem pendingRows_sorted (t : Operations T) : (pendingRows t).Pairwise fun r q => earlier r q :=
  List.pairwise_insertionSort _ _

theorem pendingRows_eq {t : Operations T} (h : DistinctIds t) {l : List (Row T)}
    (hs : l.Pairwise fun r q => earlier r q) (hn : l.Nodup)
    (hl : ∀ r, r ∈ l ↔ r ∈ t.rows ∧ r.pending) : pendingRows t = l := by
  have hnr : t.rows.Nodup := t.unique.of_map _
  refine List.Perm.eq_of_pairwise ?_ (pendingRows_sorted t) hs ?_
  · intro r q hr hq
    exact eq_of_earlier h (mem_pendingRows.mp hr).1 ((hl q).mp hq).1
  · refine (List.perm_ext_iff_of_nodup ?_ hn).mpr fun r => mem_pendingRows.trans (hl r).symm
    exact ((List.perm_insertionSort _ _).nodup_iff).mpr (hnr.filter _)

theorem pendingRows_nodup (t : Operations T) : (pendingRows t).Nodup :=
  ((List.perm_insertionSort _ _).nodup_iff).mpr ((t.unique.of_map _).filter _)

theorem pendingKeys_nodup (t : Operations T) : (pendingKeys t).Nodup := by
  refine List.Nodup.map_on ?_ (pendingRows_nodup t)
  intro r hr q hq hk
  have hs := Table.select_of_mem (mem_pendingRows.mp hr).1
  rw [hk, Table.select_of_mem (mem_pendingRows.mp hq).1] at hs
  exact (Option.some.inj hs).symm

omit [LinearOrder T] in
theorem mem_sets {t u : Operations T} (h : t.Sets k r u) (hk : r.idempotencyKey = k) {q : Row T} :
    q ∈ u.rows ↔ q = r ∨ q ∈ t.rows ∧ q.idempotencyKey ≠ k := by
  have hmem (v : Operations T) : q ∈ v.rows ↔ v.select q.idempotencyKey = some q :=
    ⟨Table.select_of_mem, Table.select_mem⟩
  rw [hmem u, hmem t, h]
  split
  next hq =>
    subst hk
    simp [hq, eq_comm]
  next hq =>
    have hne : q ≠ r := fun he => hq (he ▸ hk.symm)
    simp [hne, Ne.symm hq, eq_comm]

structure Draining (T : Type) where
  table : Operations T
  clock : T
  attempts : List String

inductive Draining.Step : Draining T → (o : DocumentOp) → Except Raised (o.Value T) →
    Draining T → Prop
  | pending : Step s (.pending limit) (raise ((pendingSync limit).run s.table).1) s
  | get : Step s (.get key) (raise ((getSync key).run s.table).1) s
  | publicationUpdate : s.clock < now →
      (publicationUpdateSync key published now).run s.table = (r, u) →
      Step s (.publicationUpdate key published) (raise r) { s with table := u, clock := now }
  | published : Step s (.publish key topic messageId payload headers) (.ok ())
      { s with attempts := s.attempts ++ [key] }
  | refused : e = .transport ∨ e = .timeout →
      Step s (.publish key topic messageId payload headers) (.error e)
        { s with attempts := s.attempts ++ [key] }

theorem Draining.Step.workers {s t : Draining T} (st : s.Step o r t) (log : List Event) :
    ∃ log', Workers.Step ⟨s.table, log⟩ o r ⟨t.table, log'⟩ := by
  cases st with
  | pending => exact ⟨_, .pending⟩
  | get => exact ⟨_, .get⟩
  | publicationUpdate _ hrun => exact ⟨_, .publicationUpdate _ hrun⟩
  | published => exact ⟨_, .publish _⟩
  | refused => exact ⟨_, .publish _⟩

def draining (T : Type) [LinearOrder T] : World (documentOps T) (Draining T) where
  step := Draining.Step
  abandon _ _ := False

structure Draining.Ready (s : Draining T) : Prop where
  stamped : ∀ r ∈ s.table.rows, r.updatedAt ≤ s.clock
  distinct : DistinctIds s.table
  complete : ∀ r ∈ s.table.rows, r.pending → r.outboundTopic.isSome ∧ r.outboundMessageId.isSome ∧
    r.outboundPayloadJson.isSome

theorem Draining.ready_of_consistent {s : Draining T}
    (hs : ∀ r ∈ s.table.rows, r.updatedAt ≤ s.clock) (hd : DistinctIds s.table)
    (hc : ∀ r ∈ s.table.rows, r.Consistent) : s.Ready := by
  refine ⟨hs, hd, fun r hr hp => ?_⟩
  have hsettled : r.status.settled := by
    by_contra hn
    simp [Row.pending, (hc r hr).opened hn] at hp
  obtain ⟨-, ⟨_, ht⟩, ⟨_, hm⟩, _, hj⟩ := (hc r hr).settled hsettled
  simp [ht, hm, hj]

section Update

variable {s : Draining T} {u : Operations T} {r : Row T} {now : T} {b : Bool}

omit [LinearOrder T] in
theorem Row.publicationUpdated_same (r : Row T) (b : Bool) (now : T) :
    (r.publicationUpdated b now).operationId = r.operationId ∧
      (r.publicationUpdated b now).updatedAt = now ∧
      (r.publicationUpdated b now).pending = (r.pending && !b) ∧
      (r.publicationUpdated b now).outboundTopic = r.outboundTopic ∧
      (r.publicationUpdated b now).outboundMessageId = r.outboundMessageId ∧
      (r.publicationUpdated b now).outboundPayloadJson = r.outboundPayloadJson := by
  cases b <;> simp [publicationUpdated, pending]

theorem Draining.Ready.updated (h : s.Ready) (hs : s.table.select k = some r)
    (hnow : s.clock < now) (hset : s.table.Sets k (r.publicationUpdated b now) u) :
    ({ s with table := u, clock := now } : Draining T).Ready := by
  obtain ⟨hid, hat, hp, ht, hm, hj⟩ := r.publicationUpdated_same b now
  have hk : r.idempotencyKey = k := Table.select_key hs
  have hr : r ∈ s.table.rows := Table.select_mem hs
  have hmem {q : Row T} := mem_sets hset (by rw [Row.publicationUpdated_key, hk]) (q := q)
  refine ⟨fun q hq => ?_, fun q hq p hp => ?_, fun q hq hpend => ?_⟩
  · rcases hmem.mp hq with rfl | ⟨hq, -⟩
    · exact hat.le
    · exact (h.stamped q hq).trans hnow.le
  · intro he
    rcases hmem.mp hq with rfl | ⟨hq, hqk⟩ <;> rcases hmem.mp hp with rfl | ⟨hp, hpk⟩
    · rfl
    · rw [Row.publicationUpdated_key]
      exact h.distinct r hr p hp (hid ▸ he)
    · rw [Row.publicationUpdated_key]
      exact h.distinct q hq r hr (he.trans hid)
    · exact h.distinct q hq p hp he
  · rcases hmem.mp hq with rfl | ⟨hq, -⟩
    · rw [hp, Bool.and_eq_true] at hpend
      rw [ht, hm, hj]
      exact h.complete r hr hpend.1
    · exact h.complete q hq hpend

theorem Draining.Ready.pendingKeys_updated (h : s.Ready) (hs : s.table.select k = some r)
    (hnow : s.clock < now) (hset : s.table.Sets k (r.publicationUpdated b now) u) :
    pendingKeys u = (pendingKeys s.table).filter (· ≠ k) ++
      if r.pending && !b then [k] else [] := by
  obtain ⟨hid, hat, hp, ht, hm, hj⟩ := r.publicationUpdated_same b now
  have hk : (r.publicationUpdated b now).idempotencyKey = k := by
    rw [Row.publicationUpdated_key, Table.select_key hs]
  have hmem {q : Row T} := mem_sets hset hk (q := q)
  let rest := (pendingRows s.table).filter (·.idempotencyKey ≠ k)
  let back := if r.pending && !b then [r.publicationUpdated b now] else []
  have hback {q : Row T} : q ∈ back ↔ q = r.publicationUpdated b now ∧ q.pending := by
    by_cases hb : (r.pending && !b) = true
    · simp only [back, if_pos hb, List.mem_singleton]
      exact (and_iff_left_of_imp fun he => by rw [he, hp, hb]).symm
    · simp only [back, if_neg hb, List.not_mem_nil, false_iff, not_and]
      rintro rfl hq
      exact hb (hp ▸ hq)
  have hrest {q : Row T} : q ∈ rest ↔ (q ∈ s.table.rows ∧ q.pending) ∧ q.idempotencyKey ≠ k := by
    simp [rest, mem_pendingRows]
  have hrows : pendingRows u = rest ++ back := by
    refine pendingRows_eq (h.updated hs hnow hset).distinct ?_ ?_ fun q => ?_
    · refine List.pairwise_append.mpr ⟨(pendingRows_sorted _).filter _, ?_, fun q hq p hp' => ?_⟩
      · simp only [back]
        split
        · exact List.pairwise_singleton _ _
        · exact .nil
      · obtain ⟨rfl, -⟩ := hback.mp hp'
        refine earlier_iff.mpr (.inl ?_)
        rw [hat]
        exact (h.stamped q (hrest.mp hq).1.1).trans_lt hnow
    · refine List.nodup_append.mpr ⟨(pendingRows_nodup _).filter _, ?_, fun q hq p hp' he => ?_⟩
      · simp only [back]
        split
        · exact List.nodup_singleton _
        · exact List.nodup_nil
      · obtain ⟨rfl, -⟩ := hback.mp hp'
        exact (hrest.mp hq).2 (he ▸ hk)
    · rw [List.mem_append, hrest, hback, hmem]
      tauto
  rw [pendingKeys, hrows, List.map_append]
  congr 1
  · simp only [rest, pendingKeys, List.filter_map]
    rfl
  · simp only [back]
    split
    · rw [List.map_singleton, hk]
    · rfl

end Update

section Drain

variable [NoMaxOrder T] {s : Draining T} {r : Row T}

theorem drains_publicationUpdate {b : Bool} (h : s.Ready)
    (hs : s.table.select r.idempotencyKey = some r) :
    Returns (draining T) (publicationUpdate r.idempotencyKey b) (fun _ t => t.Ready ∧
      t.attempts = s.attempts ∧ pendingKeys t.table =
        (pendingKeys s.table).filter (· ≠ r.idempotencyKey) ++
          (if r.pending && !b then [r.idempotencyKey] else []) ∧
      ∀ k ≠ r.idempotencyKey, t.table.select k = s.table.select k) s := by
  have hupdate : Returns (draining T) (perform (.publicationUpdate r.idempotencyKey b))
      (fun _ t => (t.Ready ∧ t.attempts = s.attempts ∧ pendingKeys t.table =
        (pendingKeys s.table).filter (· ≠ r.idempotencyKey) ++
          (if r.pending && !b then [r.idempotencyKey] else []) ∧
        ∀ k ≠ r.idempotencyKey, t.table.select k = s.table.select k) ∧
        ∃ q, t.table.select r.idempotencyKey = some q) s := by
    refine ⟨?_, fun _ t st => ?_⟩
    · obtain ⟨now, hnow⟩ := exists_gt s.clock
      exact ⟨_, _, .publicationUpdate hnow rfl⟩
    · cases st with
      | publicationUpdate hnow hrun =>
        obtain rfl := (congrArg Prod.fst hrun).symm
        cases publicationUpdateSync_outcome hrun with
        | unknown hn => cases hs.symm.trans hn
        | updated hs' hset =>
          obtain rfl := Option.some.inj (hs.symm.trans hs')
          exact ⟨⟨h.updated hs hnow hset, rfl, h.pendingKeys_updated hs hnow hset,
            fun k hk => hset.select_ne hk.symm⟩, _, hset.select⟩
  refine hupdate.bind ?_
  rintro _ t ⟨ht, q, hq⟩
  refine ends_bind.mpr ⟨⟨_, _, .get⟩, fun _ u st => ?_⟩
  cases st with
  | get =>
    have hget : raise ((getSync r.idempotencyKey).run t.table).1 = .ok (some (.fromRow q)) := by
      change Except.ok (Option.map _ (t.table.select _)) = _
      rw [hq]
      rfl
    rw [hget]
    exact ht

theorem drains_publishOrFail (h : s.Ready) (hs : s.table.select r.idempotencyKey = some r)
    (hp : r.pending) :
    Returns (draining T) (publishOrFail (.fromRow r)) (fun result t =>
      t.attempts = s.attempts ++ [r.idempotencyKey] ∧ t.Ready ∧
      (if result.isSome then
        pendingKeys t.table = (pendingKeys s.table).filter (· ≠ r.idempotencyKey) ∧
          ∀ k ≠ r.idempotencyKey, t.table.select k = s.table.select k
      else t.table = s.table)) s := by
  obtain ⟨ht, hm, hj⟩ := h.complete r (Table.select_mem hs) hp
  obtain ⟨topic, ht⟩ := Option.isSome_iff_exists.mp ht
  obtain ⟨messageId, hm⟩ := Option.isSome_iff_exists.mp hm
  obtain ⟨text, hj⟩ := Option.isSome_iff_exists.mp hj
  refine ends_tryCatch.mpr ?_
  rw [map_eq_pure_bind]
  refine ends_bind.mpr ?_
  simp only [publishRecord, DocumentOperationRecord.fromRow, ht, hm, hj, Option.map_some]
  refine ends_bind.mpr (ends_tryCatch.mpr ⟨⟨_, _, .published⟩, fun _ t st => ?_⟩)
  cases st with
  | published =>
    have hready : ({ s with attempts := s.attempts ++ [r.idempotencyKey] } : Draining T).Ready :=
      ⟨h.stamped, h.distinct, h.complete⟩
    change Ends (draining T) (publicationUpdate r.idempotencyKey true) _ _ _
    refine Ends.mono (drains_publicationUpdate (b := true) hready hs) ?_ fun _ _ => False.elim
    rintro record t ⟨ht, ha, hq, hk⟩
    refine ⟨ha, ht, ?_⟩
    rw [Bool.not_true, Bool.and_false, if_neg (by decide), List.append_nil] at hq
    exact ⟨hq, hk⟩
  | refused he =>
    rcases he with rfl | rfl <;> exact ⟨rfl, ⟨h.stamped, h.distinct, h.complete⟩, rfl⟩

theorem drains_drainRecords (rows : List (Row T)) {tail : List String} (h : s.Ready)
    (hrows : ∀ r ∈ rows, s.table.select r.idempotencyKey = some r ∧ r.pending)
    (hq : pendingKeys s.table = rows.map (·.idempotencyKey) ++ tail) :
    Returns (draining T) (drainRecords (rows.map .fromRow)) (fun _ t => t.Ready ∧
      t.attempts = s.attempts ++ rows.map (·.idempotencyKey) ∧
      ∃ failed, failed.Sublist (rows.map (·.idempotencyKey)) ∧
        pendingKeys t.table = tail ++ failed) s := by
  induction rows generalizing s tail with
  | nil => exact ⟨h, (List.append_nil _).symm, [], List.Sublist.refl _, by simpa using hq⟩
  | cons r rows ih =>
    obtain ⟨hs, hp⟩ := hrows r List.mem_cons_self
    have hn := pendingKeys_nodup s.table
    rw [hq, List.map_cons, List.cons_append, List.nodup_cons] at hn
    have hne : ∀ q ∈ rows, q.idempotencyKey ≠ r.idempotencyKey := by
      rintro q hq' he
      exact hn.1 (List.mem_append_left _ (he ▸ List.mem_map_of_mem hq'))
    have hfilter : (pendingKeys s.table).filter (· ≠ r.idempotencyKey) =
        rows.map (·.idempotencyKey) ++ tail := by
      rw [hq, List.map_cons, List.cons_append, List.filter_cons_of_neg (by simp)]
      refine List.filter_eq_self.mpr fun k hk => ?_
      simp only [ne_eq, decide_eq_true_eq]
      rintro rfl
      exact hn.1 hk
    have hrest {t : Draining T} (hk : ∀ k ≠ r.idempotencyKey, t.table.select k =
        s.table.select k) : ∀ q ∈ rows, t.table.select q.idempotencyKey = some q ∧ q.pending := by
      intro q hq'
      rw [hk _ (hne q hq')]
      exact hrows q (List.mem_cons_of_mem _ hq')
    rw [List.map_cons, drainRecords]
    refine (drains_publishOrFail h hs hp).bind ?_
    rintro (_ | record) t ⟨ha, ht, hres⟩
    · replace hres : t.table = s.table := hres
      have hs' : t.table.select r.idempotencyKey = some r := hres ▸ hs
      refine (drains_publicationUpdate (b := false) ht hs').bind ?_
      rintro _ u ⟨hu, hau, hqu, hku⟩
      rw [hres, hfilter, hp, if_pos (by decide), List.append_assoc] at hqu
      refine (ih hu (hrest fun k hk => (hku k hk).trans (by rw [hres])) hqu).mono ?_
      rintro _ v ⟨hv, hav, failed, hf, hqv⟩
      refine ⟨hv, ?_, r.idempotencyKey :: failed, hf.cons_cons _, ?_⟩
      · rw [hav, hau, ha, List.map_cons, List.append_assoc]
        rfl
      · rw [hqv, List.append_assoc]
        rfl
    · obtain ⟨hqt, hk⟩ := hres
      rw [hfilter] at hqt
      refine (ih ht (hrest hk) hqt).bind ?_
      rintro n v ⟨hv, hav, failed, hf, hqv⟩
      refine ends_pure.mpr ⟨hv, ?_, failed, hf.cons _, hqv⟩
      rw [hav, ha, List.map_cons, List.append_assoc]
      rfl

/-- `limit` at a time, `m` times. -/
def drainRepeatedly (limit : Int) : Nat → Task T Unit
  | 0 => pure ()
  | m + 1 => do
    let _ ← drainPendingPublications limit
    drainRepeatedly limit m

theorem drains_drainPendingPublications (h : s.Ready) {limit : Int} (hlimit : limit < 2 ^ 63) :
    Returns (draining T) (drainPendingPublications limit) (fun _ t => t.Ready ∧
      t.attempts = s.attempts ++ (pendingKeys s.table).take limit.toNat ∧
      ∃ failed, failed.Sublist ((pendingKeys s.table).take limit.toNat) ∧
        pendingKeys t.table = (pendingKeys s.table).drop limit.toNat ++ failed) s := by
  refine ends_bind.mpr ⟨⟨_, _, .pending⟩, fun _ t st => ?_⟩
  cases st with
  | pending =>
    rw [run_pendingSync hlimit]
    have hq : pendingKeys s.table = ((pendingRows s.table).take limit.toNat).map
        (·.idempotencyKey) ++ (pendingKeys s.table).drop limit.toNat := by
      rw [List.map_take]
      exact (List.take_append_drop _ _).symm
    have hmap : ((pendingRows s.table).take limit.toNat).map (·.idempotencyKey) =
      (pendingKeys s.table).take limit.toNat := List.map_take
    rw [← hmap]
    refine drains_drainRecords _ h (fun r hr => ?_) hq
    obtain ⟨hr, hp⟩ := mem_pendingRows.mp (List.mem_of_mem_take hr)
    exact ⟨Table.select_of_mem hr, hp⟩

theorem drains_drainRepeatedly (h : s.Ready) {limit : Int} (hlimit : limit < 2 ^ 63) (m : Nat) :
    Returns (draining T) (drainRepeatedly limit m) (fun _ t => ∃ served,
      t.attempts = s.attempts ++ served ∧
      Rounds limit.toNat (pendingKeys s.table) served m (pendingKeys t.table)) s := by
  induction m generalizing s with
  | zero => exact ⟨[], (List.append_nil _).symm, .nil⟩
  | succ m ih =>
    refine (drains_drainPendingPublications h hlimit).bind ?_
    rintro _ t ⟨ht, ha, failed, hf, hq⟩
    refine (ih ht).mono ?_
    rintro _ u ⟨served, hs, hr⟩
    refine ⟨_, ?_, .round hf (hq ▸ hr)⟩
    rw [hs, ha, List.append_assoc]

/-- However publication fares, `N` pending records are each tried in `N / limit` calls rounded up,
and in any number of calls none is tried again before all have been. -/
theorem drain_fair (h : s.Ready) (limit : Int) (hl : 1 ≤ limit) (hlimit : limit < 2 ^ 63)
    (m : Nat) :
    Returns (draining T) (drainRepeatedly limit m) (fun _ t => ∃ served,
      t.attempts = s.attempts ++ served ∧
      (((pendingKeys s.table).length + limit.toNat - 1) / limit.toNat ≤ m →
        ∀ k ∈ pendingKeys s.table, k ∈ served) ∧
      ∀ pre k post, served = pre ++ k :: post → k ∈ pre →
        ∀ j ∈ pendingKeys s.table, j ∈ pre) s := by
  refine (drains_drainRepeatedly h hlimit m).mono ?_
  rintro _ t ⟨served, ha, hr⟩
  refine ⟨served, ha, fun hm => hr.all ?_, fun pre k post => hr.fair (pendingKeys_nodup _)⟩
  have hpos : 0 < limit.toNat := by omega
  have hlt := (Nat.div_lt_iff_lt_mul hpos).mp (Nat.lt_succ_of_le hm)
  rw [Nat.succ_mul] at hlt
  omega

end Drain

def pendingRow (operationId key : String) (updatedAt : Nat) : Row Nat where
  operationId := operationId
  idempotencyKey := key
  requestFingerprint := ""
  documentId := ⟨py "d", encodable_py _⟩
  manifestVersion := ⟨py "1", encodable_py _⟩
  capability := DOCUMENT_VECTORIZE_CAPABILITY
  normalizedPayload := Json.null.written rfl
  status := .succeeded
  attemptCount := 1
  createdAt := 0
  updatedAt := updatedAt
  resultJson := none
  errorJson := none
  metadataJson := Json.null.written rfl
  publicationState := .pending
  publicationAttempts := 0
  outboundTopic := some "document.artifacts"
  outboundMessageId := some "m"
  outboundPayloadJson := some (Json.null.written rfl)
  leaseUntil := none
  claimToken := none

def twoPending : Draining Nat where
  table := ⟨[pendingRow "o" "k" 1, pendingRow "p" "l" 0], by decide⟩
  clock := 2
  attempts := []

theorem twoPending_ready : twoPending.Ready where
  stamped := by simp [twoPending, pendingRow]
  distinct := by simp [DistinctIds, twoPending, pendingRow]
  complete := by simp [twoPending, pendingRow]

/-- Two calls of limit one. -/
theorem drain_fair_two : Returns (draining Nat) (drainRepeatedly 1 2)
    (fun _ t => "k" ∈ t.attempts ∧ "l" ∈ t.attempts) twoPending := by
  have hkeys : pendingKeys twoPending.table = ["l", "k"] := by decide
  refine (drain_fair twoPending_ready 1 le_rfl (by decide) 2).mono ?_
  rintro _ t ⟨served, ha, hall, -⟩
  rw [hkeys] at hall
  have hall := hall (by decide)
  rw [ha]
  exact ⟨hall "k" (by simp), hall "l" (by simp)⟩

/-- A call whose limit is no 64-bit integer tries nothing. -/
theorem drain_overflows : ¬ Returns (draining Nat) (drainRepeatedly (2 ^ 63) 1)
    (fun _ t => "k" ∈ t.attempts ∧ "l" ∈ t.attempts) twoPending := by
  intro h
  have hraised := (ends_bind.mp (ends_bind.mp h)).2 _ _ .pending
  rw [run_pendingSync_overflow (by decide)] at hraised
  exact hraised

end PrismPipe.Document
