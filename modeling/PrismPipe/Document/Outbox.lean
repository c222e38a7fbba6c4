import PrismPipe.Document.Fencing
import PrismPipe.Document.Loading
import PrismPipe.Document.Workers

/-! Every task of every consumer keeps one discipline: what is announced of an operation is what
its row settled on, and only announced or exhausted operations are acknowledged. -/

namespace PrismPipe.Document

open Python Program

structure Row.Evolves (r q : Row T) : Prop where
  settles : r.status.settled → r.Settles q
  published : r.publicationState = .published → q.publicationState = .published
  attempts : r.publicationAttempts ≤ q.publicationAttempts

theorem Row.Evolves.refl (r : Row T) : r.Evolves r := ⟨fun _ => .refl r, id, le_rfl⟩

theorem Row.Evolves.trans {r q p : Row T} (h : r.Evolves q) (k : q.Evolves p) : r.Evolves p where
  settles hr := (h.settles hr).trans (k.settles ((h.settles hr).settled ▸ hr))
  published hr := k.published (h.published hr)
  attempts := h.attempts.trans k.attempts

structure Row.Consistent (r : Row T) : Prop where
  stored : r.status ≠ .received
  settled : r.status.settled → r.publicationState ≠ .none ∧
    (∃ topic, r.outboundTopic = some topic) ∧ (∃ id, r.outboundMessageId = some id) ∧
      ∃ payload, r.outboundPayloadJson = some payload
  opened : ¬ r.status.settled → r.publicationState = .none

structure Row.Announces (r : Row T) (topic messageId : String) (payload : Json) : Prop where
  settled : r.status.settled
  topic : r.outboundTopic = some topic
  messageId : r.outboundMessageId = some messageId
  payload : r.outboundPayloadJson.map (·.value) = some payload

theorem Row.Announces.evolves {r q : Row T} (h : r.Announces name message body)
    (hq : r.Evolves q) : q.Announces name message body := by
  have hs := hq.settles h.settled
  exact ⟨hs.settled ▸ h.settled, hs.outboundTopic.trans h.topic,
    hs.outboundMessageId.trans h.messageId, by rw [hs.outboundPayloadJson, h.payload]⟩

def Row.Done (r : Row T) (maxAttempts : Int) : Prop :=
  r.status.settled ∧ (r.publicationState = .published ∨ maxAttempts ≤ r.publicationAttempts)

theorem Row.Done.evolves {r q : Row T} (h : r.Done n) (hq : r.Evolves q) : q.Done n := by
  refine ⟨(hq.settles h.1).settled ▸ h.1, ?_⟩
  rcases h.2 with hp | ha
  · exact .inl (hq.published hp)
  · exact .inr (ha.trans (by exact_mod_cast hq.attempts))

/-- The row of a key satisfies `P`. -/
def Workers.Has (s : Workers T) (key : String) (P : Row T → Prop) : Prop :=
  ∃ r, s.table.select key = some r ∧ P r

structure Workers.Consistent (s : Workers T) : Prop where
  rows : s.table.select key = some r → r.Consistent
  published : s.table.select key = some r → r.publicationState = .published →
    ∃ topic messageId payload, .published key topic messageId payload true ∈ s.log
  announced : .published key topic messageId payload succeeded ∈ s.log →
    s.Has key (·.Announces topic messageId payload)
  acknowledged : .acknowledged key maxAttempts ∈ s.log → s.Has key (·.Done maxAttempts)

structure Workers.Evolves (s t : Workers T) : Prop where
  rows : s.table.select key = some r → t.Has key r.Evolves
  log : ∀ e ∈ s.log, e ∈ t.log

theorem Workers.Evolves.refl (s : Workers T) : s.Evolves s := ⟨fun h => ⟨_, h, .refl _⟩, fun _ => id⟩

theorem Workers.Evolves.trans {s t u : Workers T} (h : s.Evolves t) (k : t.Evolves u) :
    s.Evolves u where
  rows hr := by
    obtain ⟨q, hq, hrq⟩ := h.rows hr
    obtain ⟨p, hp, hqp⟩ := k.rows hq
    exact ⟨p, hp, hrq.trans hqp⟩
  log e he := k.log e (h.log e he)

theorem Workers.Has.evolves {s t : Workers T} {P : Row T → Prop} (h : s.Has key P)
    (hst : s.Evolves t) (hP : ∀ r q, P r → r.Evolves q → P q) : t.Has key P := by
  obtain ⟨r, hr, hp⟩ := h
  obtain ⟨q, hq, hrq⟩ := hst.rows hr
  exact ⟨q, hq, hP r q hp hrq⟩

def outbox (T : Type) : Discipline (Workers T) where
  inv := Workers.Consistent
  rel := Workers.Evolves
  refl := .refl
  trans := .trans

theorem Workers.Consistent.write {s : Workers T} {u : Operations T} (h : s.Consistent)
    (hset : s.table.Sets key q u) (hq : q.Consistent)
    (hr : ∀ r, s.table.select key = some r → r.Evolves q)
    (hp : q.publicationState = .published →
      ∃ topic messageId payload, .published key topic messageId payload true ∈ s.log) :
    (Workers.mk u s.log).Consistent ∧ s.Evolves ⟨u, s.log⟩ := by
  have he : s.Evolves ⟨u, s.log⟩ := by
    refine ⟨?_, fun _ => id⟩
    intro k r hk
    by_cases hkk : key = k
    · subst hkk
      exact ⟨q, hset.select, hr r hk⟩
    · exact ⟨r, (hset.select_ne hkk).trans hk, .refl r⟩
  refine ⟨⟨?_, ?_, ?_, ?_⟩, he⟩
  · intro k r hk
    by_cases hkk : key = k
    · subst hkk
      obtain rfl := Option.some.inj (hset.select.symm.trans hk)
      exact hq
    · exact h.rows ((hset.select_ne hkk).symm.trans hk)
  · intro k r hk hpub
    by_cases hkk : key = k
    · subst hkk
      obtain rfl := Option.some.inj (hset.select.symm.trans hk)
      exact hp hpub
    · exact h.published ((hset.select_ne hkk).symm.trans hk) hpub
  · exact fun hm => (h.announced hm).evolves he fun _ _ => .evolves
  · exact fun hm => (h.acknowledged hm).evolves he fun _ _ => .evolves

def Workers.Knows (s : Workers T) (record : DocumentOperationRecord T) : Prop :=
  ∃ r, record = .fromRow r ∧ r.Consistent ∧ s.Has r.idempotencyKey r.Evolves

theorem Workers.Knows.evolves {s t : Workers T} (h : s.Knows record) (hst : s.Evolves t) :
    t.Knows record := by
  obtain ⟨r, rfl, hr, hh⟩ := h
  exact ⟨r, rfl, hr, hh.evolves hst fun _ _ h => h.trans⟩

theorem Workers.Consistent.knows {s : Workers T} (h : s.Consistent)
    (hr : s.table.select key = some r) : s.Knows (.fromRow r) :=
  ⟨r, rfl, h.rows hr, r, (Table.select_key hr).symm ▸ hr, .refl r⟩

theorem Row.Consistent.not_published {r : Row T} (h : r.Consistent) (hs : ¬ r.status.settled) :
    r.publicationState ≠ .published := by
  rw [h.opened hs]
  decide

theorem Row.Consistent.evolves {r q : Row T} (h : r.Consistent) (hs : ¬ r.status.settled)
    (ha : r.publicationAttempts ≤ q.publicationAttempts) : r.Evolves q where
  settles hd := absurd hd hs
  published hp := absurd hp (h.not_published hs)
  attempts := ha

theorem ClaimArgs.row_consistent [LinearOrder T] (args : ClaimArgs) (h : args.writable)
    (now leaseUntil : T) (claimToken : String) :
    (args.row h now leaseUntil claimToken).Consistent where
  stored := by simp [ClaimArgs.row, Row.opened]
  settled hd := by cases hd
  opened _ := rfl

theorem Row.Consistent.reclaimed {r : Row T} (h : r.Consistent) (hs : ¬ r.status.settled)
    (now leaseUntil : T) (claimToken : String) :
    (r.reclaimed now leaseUntil claimToken).Consistent where
  stored := by simp [Row.reclaimed]
  settled hd := by cases hd
  opened _ := h.opened hs

theorem Row.finished_consistent (r : Row T) (args : FinishArgs) (hs : args.status.settled)
    (result error : Option Utf8Text) (payload : Utf8Text) (now : T) :
    (r.finished args result error payload now).Consistent where
  stored hr := by
    change args.status = _ at hr
    rw [hr] at hs
    cases hs
  settled _ := ⟨by simp [Row.finished], ⟨_, rfl⟩, ⟨_, rfl⟩, _, rfl⟩
  opened hd := absurd hs hd

theorem Row.Consistent.failedRetryably {r : Row T} (h : r.Consistent)
    (hs : ¬ r.status.settled) (error : Utf8Text) (now : T) :
    (r.failedRetryably error now).Consistent where
  stored := by simp [Row.failedRetryably]
  settled hd := by cases hd
  opened _ := h.opened hs

theorem Row.Consistent.publicationUpdated {r : Row T} (h : r.Consistent)
    (hp : published = true → r.status.settled) (now : T) :
    (r.publicationUpdated published now).Consistent := by
  cases published with
  | false => exact ⟨h.stored, h.settled, h.opened⟩
  | true =>
    exact ⟨h.stored, fun hd => ⟨by simp [Row.publicationUpdated], (h.settled hd).2⟩,
      fun hd => absurd (hp rfl) hd⟩

theorem Row.evolves_publicationUpdated (r : Row T) (published : Bool) (now : T) :
    r.Evolves (r.publicationUpdated published now) := by
  refine ⟨fun _ => r.settles_publicationUpdated published now, ?_, ?_⟩
  · cases published <;> simp [Row.publicationUpdated]
  · cases published <;> simp [Row.publicationUpdated]

theorem Workers.Knows.settled {s : Workers T} (h : s.Knows record) (hd : record.status.settled) :
    s.Has record.idempotencyKey (·.status.settled) := by
  obtain ⟨r, rfl, -, q, hq, he⟩ := h
  exact ⟨q, hq, (he.settles hd).settled.trans hd⟩

theorem Workers.Knows.done {s : Workers T} (h : s.Knows record) (hd : record.status.settled)
    (hp : record.publicationState = .published ∨ n ≤ (record.publicationAttempts : Int)) :
    s.Has record.idempotencyKey (·.Done n) := by
  obtain ⟨r, rfl, -, q, hq, he⟩ := h
  exact ⟨q, hq, Row.Done.evolves ⟨hd, hp⟩ he⟩

theorem Workers.Knows.pending_settled {s : Workers T} (h : s.Knows record)
    (hp : record.publicationState = .pending) : record.status.settled := by
  obtain ⟨r, rfl, hr, -⟩ := h
  by_contra hd
  have hn := hr.opened hd
  rw [show r.publicationState = .pending from hp] at hn
  cases hn

theorem Workers.Knows.announces {s : Workers T} (h : s.Knows record) (hd : record.status.settled)
    (ht : record.outboundTopic = some topic) (hm : record.outboundMessageId = some messageId)
    (hp : record.outboundPayload = some payload) :
    s.Has record.idempotencyKey (·.Announces topic messageId payload) := by
  obtain ⟨r, rfl, -, q, hq, he⟩ := h
  have ha : r.Announces topic messageId payload := ⟨hd, ht, hm, hp⟩
  exact ⟨q, hq, ha.evolves he⟩

section Steps

variable {s : Workers T} {u : Operations T}

theorem raise_eq_ok {r : Except StoreError α} (h : raise r = .ok a) : r = .ok a := by
  cases r with
  | ok => exact congrArg _ (Except.ok.inj h)
  | error => cases h

theorem Workers.Consistent.finish (h : s.Consistent) (ha : args.status.settled)
    (hrun : (finishSync args now).run s.table = (r, u)) :
    (Workers.mk u s.log).Consistent ∧ s.Evolves ⟨u, s.log⟩ ∧
      ∀ record, r = .ok record → (Workers.mk u s.log).Knows record ∧
        record.idempotencyKey = args.idempotencyKey ∧ record.status = args.status := by
  cases finishSync_outcome hrun with
  | unknown | stale | unwritable => exact ⟨h, .refl s, error_ne_ok⟩
  | @finished q result error payload _ hs had _ hset =>
    have hr := h.rows hs
    have hd : ¬ q.status.settled := had.2 ▸ expectedStatus_not_settled _
    obtain ⟨hc, he⟩ := h.write hset (q.finished_consistent args ha result error payload now)
      (fun p hp => by
        obtain rfl := Option.some.inj (hs.symm.trans hp)
        exact hr.evolves hd le_rfl) nofun
    refine ⟨hc, he, ?_⟩
    rintro _ ⟨⟩
    have hk : q.idempotencyKey = args.idempotencyKey := Table.select_key hs
    exact ⟨hc.knows hset.select, hk, rfl⟩

theorem Workers.Consistent.recordRetryable (h : s.Consistent)
    (hrun : (recordRetryableSync key claimToken error now).run s.table = (r, u)) :
    (Workers.mk u s.log).Consistent ∧ s.Evolves ⟨u, s.log⟩ := by
  cases recordRetryableSync_outcome hrun with
  | unwritable | stale => exact ⟨h, .refl s⟩
  | @recorded q _ hw hs had hset =>
    have hr := h.rows hs
    have hd : ¬ q.status.settled := by
      rw [had.2]
      decide
    refine h.write hset (hr.failedRetryably hd _ now) (fun p hp => ?_) ?_
    · obtain rfl := Option.some.inj (hs.symm.trans hp)
      exact hr.evolves hd le_rfl
    · exact fun hp => absurd hp (hr.not_published hd)

theorem Workers.Consistent.publicationUpdate (h : s.Consistent)
    (hp : b = true →
      ∃ topic messageId payload, .published key topic messageId payload true ∈ s.log)
    (hrun : (publicationUpdateSync key b now).run s.table = (r, u)) :
    (Workers.mk u s.log).Consistent ∧ s.Evolves ⟨u, s.log⟩ := by
  cases publicationUpdateSync_outcome hrun with
  | unknown => exact ⟨h, .refl s⟩
  | @updated q _ hs hset =>
    have hr := h.rows hs
    refine h.write hset (hr.publicationUpdated (fun ht => ?_) now) (fun p hp => ?_) (fun hq => ?_)
    · obtain ⟨topic, messageId, payload, hm⟩ := hp ht
      obtain ⟨p, hp, han⟩ := h.announced hm
      obtain rfl := Option.some.inj (hs.symm.trans hp)
      exact han.settled
    · obtain rfl := Option.some.inj (hs.symm.trans hp)
      exact q.evolves_publicationUpdated b now
    · cases b with
      | true => exact hp rfl
      | false => exact h.published hs hq

theorem Workers.Consistent.say (h : s.Consistent) (e : Event)
    (hpublished : ∀ key topic messageId payload succeeded,
      e = .published key topic messageId payload succeeded →
      s.Has key (·.Announces topic messageId payload))
    (hacknowledged : ∀ key maxAttempts, e = .acknowledged key maxAttempts →
      s.Has key (·.Done maxAttempts)) :
    (Workers.mk s.table (e :: s.log)).Consistent ∧ s.Evolves ⟨s.table, e :: s.log⟩ := by
  refine ⟨⟨h.rows, ?_, ?_, ?_⟩, fun hk => ⟨_, hk, .refl _⟩, fun _ => List.mem_cons_of_mem _⟩
  · intro k r hk hp
    obtain ⟨topic, messageId, payload, hm⟩ := h.published hk hp
    exact ⟨topic, messageId, payload, List.mem_cons_of_mem _ hm⟩
  · intro k t m p b hm
    rcases List.mem_cons.mp hm with he | hm
    · exact hpublished k t m p b he.symm
    · exact h.announced hm
  · intro k n hm
    rcases List.mem_cons.mp hm with he | hm
    · exact hacknowledged k n he.symm
    · exact h.acknowledged hm

theorem Workers.Consistent.publish (h : s.Consistent)
    (hr : s.Has key (·.Announces topic messageId payload)) (succeeded : Bool) :
    (Workers.mk s.table (.published key topic messageId payload succeeded :: s.log)).Consistent ∧
      s.Evolves ⟨s.table, .published key topic messageId payload succeeded :: s.log⟩ := by
  refine h.say _ ?_ fun _ _ he => by cases he
  rintro _ _ _ _ _ ⟨⟩
  exact hr

theorem Workers.Consistent.acknowledge (h : s.Consistent) (hr : s.Has key (·.Done maxAttempts)) :
    (Workers.mk s.table (.acknowledged key maxAttempts :: s.log)).Consistent ∧
      s.Evolves ⟨s.table, .acknowledged key maxAttempts :: s.log⟩ := by
  refine h.say _ (fun _ _ _ _ _ he => by cases he) ?_
  rintro _ _ ⟨⟩
  exact hr

variable [LinearOrder T]

theorem Workers.Consistent.claim (h : s.Consistent)
    (hrun : (claimSync args now leaseUntil claimToken).run s.table = (r, u)) :
    (Workers.mk u s.log).Consistent ∧ s.Evolves ⟨u, s.log⟩ ∧
      ∀ claim, r = .ok claim → (Workers.mk u s.log).Knows claim.record := by
  cases claimSync_outcome hrun with
  | unwritable | taken | conflict => exact ⟨h, .refl s, error_ne_ok⟩
  | busy hs =>
    refine ⟨h, .refl s, ?_⟩
    rintro _ ⟨⟩
    exact h.knows hs
  | opened hw hs _ hset =>
    obtain ⟨hc, he⟩ := h.write hset (args.row_consistent hw now leaseUntil claimToken)
      (fun p hp => by
        rw [hs] at hp
        cases hp) nofun
    refine ⟨hc, he, ?_⟩
    rintro _ ⟨⟩
    exact hc.knows hset.select
  | @reclaimed q _ hs _ hh hset =>
    have hr := h.rows hs
    have hd : ¬ q.status.settled := fun hd => hh (.inl hd)
    obtain ⟨hc, he⟩ := h.write hset (hr.reclaimed hd now leaseUntil claimToken)
      (fun p hp => by
        obtain rfl := Option.some.inj (hs.symm.trans hp)
        exact hr.evolves hd le_rfl)
      (fun hp => absurd hp (hr.not_published hd))
    refine ⟨hc, he, ?_⟩
    rintro _ ⟨⟩
    exact hc.knows hset.select

end Steps

section Calls

variable [LinearOrder T] {s : Workers T}

theorem keeps_perform {o : DocumentOp} {P : o.Value T → Workers T → Prop}
    (h : ∀ t r u, s.Evolves t → t.Consistent → Workers.Step t o r u →
      u.Consistent ∧ t.Evolves u ∧ ∀ a, r = .ok a → P a u) :
    Keeps (workers T) (outbox T) (perform o) P s := by
  intro t r ht hi
  refine ⟨fun u st => h t r u ht hi st, ?_⟩
  rintro ⟨-, rfl⟩
  exact error_ne_ok

theorem keeps_silent {o : DocumentOp} {P : o.Value T → Workers T → Prop}
    (h : ∀ t r u, s.Evolves t → t.Consistent → Workers.Step t o r u →
      u = t ∧ ∀ a, r = .ok a → P a t) :
    Keeps (workers T) (outbox T) (perform o) P s :=
  keeps_perform fun t r u ht hi st => by
    obtain ⟨rfl, hp⟩ := h t r u ht hi st
    exact ⟨hi, .refl u, hp⟩

theorem keeps_claim (args : ClaimArgs) : Keeps (workers T) (outbox T) (perform (.claim args))
    (fun claim t => t.Knows claim.record) s := by
  refine keeps_perform fun t r u _ hi st => ?_
  cases st with
  | claim now leaseUntil claimToken hrun =>
    obtain ⟨hc, he, hk⟩ := hi.claim hrun
    exact ⟨hc, he, fun c hc => hk c (raise_eq_ok hc)⟩
  | unavailable => exact ⟨hi, .refl _, error_ne_ok⟩

def Workers.Reads (s : Workers T) (key : String) (record : DocumentOperationRecord T) : Prop :=
  s.Knows record ∧ s.Has key (record = .fromRow ·)

theorem keeps_get (key : String) : Keeps (workers T) (outbox T) (perform (.get key))
    (fun record t => ∀ r, record = some r → t.Reads key r) s := by
  refine keeps_silent fun t r u _ hi st => ?_
  cases st with
  | get =>
    refine ⟨rfl, ?_⟩
    intro a ha r hr
    subst hr
    have hs : (t.table.select key).map .fromRow = some r := Except.ok.inj (raise_eq_ok ha)
    obtain ⟨q, hq, rfl⟩ := Option.map_eq_some_iff.mp hs
    exact ⟨hi.knows hq, q, hq, rfl⟩
  | unavailable => exact ⟨rfl, error_ne_ok⟩

theorem keeps_finish {args : FinishArgs} (ha : args.status.settled) :
    Keeps (workers T) (outbox T) (perform (.finish args)) (fun record t => t.Knows record ∧
      record.idempotencyKey = args.idempotencyKey ∧ record.status = args.status) s := by
  refine keeps_perform fun t r u _ hi st => ?_
  cases st with
  | finish now hrun =>
    obtain ⟨hc, he, hk⟩ := hi.finish ha hrun
    exact ⟨hc, he, fun a ha => hk a (raise_eq_ok ha)⟩
  | unavailable => exact ⟨hi, .refl _, error_ne_ok⟩

theorem keeps_recordRetryable : Keeps (workers T) (outbox T)
    (perform (.recordRetryable key claimToken error)) (fun _ _ => True) s := by
  refine keeps_perform fun t r u _ hi st => ?_
  cases st with
  | recordRetryable now hrun =>
    obtain ⟨hc, he⟩ := hi.recordRetryable hrun
    exact ⟨hc, he, fun _ _ => trivial⟩
  | unavailable => exact ⟨hi, .refl _, error_ne_ok⟩

def Workers.Announced (s : Workers T) (key : String) : Prop :=
  ∃ topic messageId payload, .published key topic messageId payload true ∈ s.log

omit [LinearOrder T] in
theorem Workers.Consistent.settled (h : s.Consistent) (ha : s.Announced key) :
    s.Has key (·.status.settled) := by
  obtain ⟨topic, messageId, payload, hm⟩ := ha
  obtain ⟨r, hr, han⟩ := h.announced hm
  exact ⟨r, hr, han.settled⟩

theorem keeps_publicationUpdate (h : b = true → s.Announced key) : Keeps (workers T) (outbox T)
    (perform (.publicationUpdate key b))
    (fun _ t => b = true → t.Has key (·.publicationState = .published)) s := by
  refine keeps_perform fun t r u ht hi st => ?_
  cases st with
  | publicationUpdate now hrun =>
    have hb (hb : b = true) : t.Announced key := by
      obtain ⟨topic, messageId, payload, hm⟩ := h hb
      exact ⟨topic, messageId, payload, ht.log _ hm⟩
    obtain ⟨hc, he⟩ := hi.publicationUpdate hb hrun
    refine ⟨hc, he, ?_⟩
    rintro - - rfl
    cases publicationUpdateSync_outcome hrun with
    | unknown hs =>
      obtain ⟨q, hq, -⟩ := hi.settled (hb rfl)
      rw [hs] at hq
      cases hq
    | updated hs hset => exact ⟨_, hset.select, rfl⟩
  | unavailable => exact ⟨hi, .refl _, error_ne_ok⟩

theorem keeps_pending (limit : Int) : Keeps (workers T) (outbox T) (perform (.pending limit))
    (fun (records : List (DocumentOperationRecord T)) t =>
      ∀ r ∈ records, t.Knows r ∧ r.publicationState = .pending) s := by
  refine keeps_silent fun t r u _ hi st => ?_
  cases st with
  | pending =>
    refine ⟨rfl, ?_⟩
    intro a ha r hr
    obtain ⟨q, hq, hp, rfl⟩ := mem_pendingSync (raise_eq_ok ha) hr
    exact ⟨hi.knows (Table.select_of_mem hq), hp⟩
  | unavailable => exact ⟨rfl, error_ne_ok⟩

def DocumentOp.silent : DocumentOp → Bool
  | .load _ | .execute _ | .rounds | .sleep | .retry _ => true
  | _ => false

theorem keeps_unlogged {o : DocumentOp} (h : o.silent) : Keeps (workers T) (outbox T) (perform o)
    (fun _ _ => True) s := by
  refine keeps_silent fun t r u _ hi st => ?_
  cases st with
  | load | execute | rounds | sleep | retry | get | pending | unavailable =>
    exact ⟨rfl, fun _ _ => trivial⟩
  | claim | finish | recordRetryable | publicationUpdate | publish | acknowledge => cases h

theorem keeps_publish (h : s.Has key (·.Announces topic messageId payload)) :
    Keeps (workers T) (outbox T) (perform (.publish key topic messageId payload headers))
      (fun _ t => t.Announced key) s := by
  refine keeps_perform fun t r u ht hi st => ?_
  cases st with
  | publish r =>
    obtain ⟨hc, he⟩ := hi.publish (h.evolves ht fun _ _ => .evolves) r.isOk
    refine ⟨hc, he, ?_⟩
    rintro a rfl
    exact ⟨topic, messageId, payload, List.mem_cons_self⟩
  | unavailable => exact ⟨hi, .refl _, error_ne_ok⟩

theorem keeps_acknowledge (h : s.Has key (·.Done maxAttempts)) : Keeps (workers T) (outbox T)
    (perform (.acknowledge message key maxAttempts)) (fun _ _ => True) s := by
  refine keeps_perform fun t r u ht hi st => ?_
  cases st with
  | acknowledge r =>
    obtain ⟨hc, he⟩ := hi.acknowledge (h.evolves ht fun _ _ => .evolves)
    exact ⟨hc, he, fun _ _ => trivial⟩
  | unavailable => exact ⟨hi, .refl _, error_ne_ok⟩

end Calls

section Tasks

variable [LinearOrder T] {s : Workers T} {record : DocumentOperationRecord T}

theorem keeps_recordRetryableFailure : Keeps (workers T) (outbox T)
    (recordRetryableFailure key claimToken error) (fun r t => t.Knows r) s := by
  refine keeps_recordRetryable.bind fun _ t _ _ => ?_
  refine (keeps_get key).bind fun found t' _ hr => ?_
  cases found with
  | none => exact .throw
  | some r => exact .pure (hr r rfl).1

theorem keeps_updatePublication (h : b = true → s.Announced key)
    (hd : s.Has key (·.status.settled)) : Keeps (workers T) (outbox T)
    (publicationUpdate key b) (fun r t => t.Knows r ∧ r.status.settled ∧
      (b = true → r.publicationState = .published)) s := by
  refine (keeps_publicationUpdate h).bind fun _ t ht hp => ?_
  refine (keeps_get key).bind fun found t' ht' hr => ?_
  cases found with
  | none => exact .throw
  | some r =>
    obtain ⟨hk, q, hq, rfl⟩ := hr r rfl
    refine .pure ⟨hk, ?_, fun hb => ?_⟩
    · obtain ⟨p, hp, hs⟩ := hd.evolves (ht.trans ht') fun _ _ hs he => (he.settles hs).settled ▸ hs
      obtain rfl := Option.some.inj (hq.symm.trans hp)
      exact hs
    · obtain ⟨p, hp, hs⟩ := (hp hb).evolves ht' fun _ _ hs he => he.published hs
      obtain rfl := Option.some.inj (hq.symm.trans hp)
      exact hs

theorem keeps_claimTokenOf : Keeps (workers T) (outbox T) (claimTokenOf record)
    (fun _ _ => True) s := by
  unfold claimTokenOf
  split
  · exact .pure trivial
  · exact .throw

theorem keeps_finishFailure (error : Dict) (deadLettered : Bool) : Keeps (workers T) (outbox T)
    (finishFailure record error deadLettered) (fun r t => t.Knows r ∧ r.status.settled) s := by
  refine keeps_claimTokenOf.bind fun claimToken t _ _ => ?_
  have hs : DocumentOperationStatus.settled
      (if deadLettered then .deadLettered else .terminalFailure) := by
    cases deadLettered <;> rfl
  refine (keeps_finish hs).mono fun r t' _ hr => ⟨hr.1, ?_⟩
  rw [hr.2.2]
  exact hs

theorem keeps_pollDuplicate (hr : s.Knows record) (n : Nat) : Keeps (workers T) (outbox T)
    (pollDuplicate record n) (fun r t => t.Knows r) s := by
  induction n generalizing s with
  | zero => exact .pure hr
  | succ n ih =>
    refine (keeps_unlogged rfl).bind fun _ t ht _ => ?_
    refine (keeps_get _).bind fun found t' ht' hf => ?_
    cases found with
    | none => exact .pure (hr.evolves (ht.trans ht'))
    | some current =>
      dsimp only
      split
      · exact .pure (hf current rfl).1
      · exact ih (hr.evolves (ht.trans ht'))

theorem keeps_settledDuplicate (hr : s.Knows record) : Keeps (workers T) (outbox T)
    (settledDuplicate record) (fun r t => t.Knows r) s := by
  unfold settledDuplicate
  split
  · exact .pure hr
  · refine (keeps_unlogged rfl).bind fun n t ht _ => ?_
    exact keeps_pollDuplicate (hr.evolves ht) n

theorem keeps_claimOrConflict (args : ClaimArgs) : Keeps (workers T) (outbox T)
    (claimOrConflict args) (fun claim t => ∀ c, claim = some c → t.Knows c.record) s := by
  refine .tryCatch ?_ fun e t _ => ?_
  · refine (keeps_claim args).map fun c t _ hc => ?_
    rintro _ ⟨⟩
    exact hc
  · split
    · exact .pure fun _ h => nomatch h
    · exact .throw

/-- What `process` promises of its result. -/
def Workers.Results (result : DocumentProcessingResult T) (s : Workers T) : Prop :=
  s.Knows result.record

theorem keeps_recordConflict (runtime : Runtime) (normalizedPayload : Dict) (fingerprint : String)
    (metadata : Dict) : Keeps (workers T) (outbox T)
    (recordConflict runtime record normalizedPayload fingerprint metadata) Workers.Results s := by
  refine (keeps_claim _).bind fun claim t _ hc => ?_
  split
  · exact (keeps_settledDuplicate hc).bind fun r t' _ hr => .pure hr
  · exact (keeps_finishFailure _ _).bind fun r t' _ hr => .pure hr.1

theorem keeps_recordConflictOf (runtime : Runtime) (key : String) (normalizedPayload : Dict)
    (fingerprint : String) (metadata : Dict) : Keeps (workers T) (outbox T)
    (recordConflictOf runtime key normalizedPayload fingerprint metadata) Workers.Results s := by
  refine (keeps_get key).bind fun found t _ _ => ?_
  cases found with
  | none => exact .throw
  | some existing => exact keeps_recordConflict _ _ _ _

theorem keeps_liftEncode {m : Except EncodeError α} : Keeps (workers T) (outbox T)
    (liftEncode m) (fun _ _ => True) s := by
  unfold liftEncode
  split
  · exact .pure trivial
  · exact .throw

theorem keeps_liftRaised {m : Except Raised α} : Keeps (workers T) (outbox T)
    (liftRaised m) (fun _ _ => True) s := by
  unfold liftRaised
  split
  · exact .pure trivial
  · exact .throw

theorem keeps_asMapping {j : Json} : Keeps (workers T) (outbox T) (asMapping j)
    (fun _ _ => True) s := by
  unfold asMapping
  split
  · exact .pure trivial
  · exact .throw

theorem keeps_recordValidationFailure (runtime : Runtime) (payload : Json) (messageId : PyStr)
    (headers : Dict) (message : PyStr) : Keeps (workers T) (outbox T)
    (recordValidationFailure runtime payload messageId headers message) Workers.Results s := by
  refine keeps_liftRaised.bind fun _ _ _ _ => ?_
  refine keeps_asMapping.bind fun _ _ _ _ => ?_
  refine keeps_liftEncode.bind fun _ _ _ _ => ?_
  refine keeps_liftEncode.bind fun _ _ _ _ => ?_
  refine (keeps_claimOrConflict _).bind fun claim t _ hc => ?_
  cases claim with
  | none => exact keeps_recordConflictOf _ _ _ _ _
  | some claim =>
    dsimp only
    split
    · exact (keeps_settledDuplicate (hc claim rfl)).bind fun r t' _ hr => .pure hr
    · exact (keeps_finishFailure _ _).bind fun r t' _ hr => .pure hr.1

theorem keeps_resolveChunkContent (runtime : Runtime) (request : DocumentVectorizeInput) :
    Keeps (workers T) (outbox T) (resolveChunkContent runtime request) (fun _ _ => True) s := by
  have h : Loads (T := T) (fun _ _ => True) (fun _ => True) fun _ => True :=
    ⟨fun _ _ _ => trivial, trivial, fun _ _ _ _ => trivial, fun _ _ _ _ => trivial⟩
  refine ((h.resolveChunkContent runtime request fun _ => trivial).keeps ?_ fun _ _ =>
    trivial).mono fun _ _ _ _ => trivial
  intro o t r u ho hi st
  obtain rfl := st.of_isLoad ho
  exact ⟨trivial, hi, .refl _⟩

theorem keeps_deepcopy {room : Bool} {a : α} : Keeps (workers T) (outbox T) (deepcopy room a)
    (fun _ _ => True) s := by
  unfold deepcopy
  split
  · exact .pure trivial
  · exact .throw

theorem keeps_executeVectorizer (runtime : Runtime) (request : DocumentVectorizeInput) :
    Keeps (workers T) (outbox T) (executeVectorizer runtime request) (fun _ _ => True) s := by
  refine keeps_deepcopy.bind fun _ _ _ _ => ?_
  refine (keeps_unlogged rfl).bind fun result t _ _ => ?_
  split
  · exact .pure trivial
  · exact .throw

theorem keeps_vectorizeClaimed (runtime : Runtime) (request : DocumentVectorizeInput)
    (key operationId token : String) :
    Keeps (workers T) (outbox T) (vectorizeClaimed runtime request record key operationId token)
      Workers.Results s := by
  refine (keeps_resolveChunkContent _ _).bind fun _ _ _ _ => ?_
  refine (keeps_executeVectorizer _ _).bind fun _ _ _ _ => ?_
  exact (keeps_finish rfl).bind fun r t _ hr => .pure hr.1

theorem keeps_vectorizeFailed (key token : String) (raised : Raised) :
    Keeps (workers T) (outbox T) (vectorizeFailed record key token raised)
      Workers.Results s := by
  unfold vectorizeFailed
  split
  · refine .bind (P := fun _ _ => True) (.tryCatch ?_ fun e t _ => ?_) fun _ _ _ _ => .throw
    · exact keeps_recordRetryableFailure.bind fun _ _ _ _ => .pure trivial
    · split
      · exact .pure trivial
      · exact .throw
  · split
    · split
      · exact keeps_recordRetryableFailure.bind fun r t _ hr => .pure hr
      · exact (keeps_finishFailure _ _).bind fun r t _ hr => .pure hr.1
    · exact .throw

theorem keeps_processRequest (runtime : Runtime) (request : DocumentVectorizeInput)
    (messageId : PyStr) (metadata : Dict) : Keeps (workers T) (outbox T)
    (processRequest runtime request messageId metadata) Workers.Results s := by
  refine keeps_liftEncode.bind fun key _ _ _ => ?_
  refine keeps_liftEncode.bind fun fingerprint _ _ _ => ?_
  refine (keeps_claimOrConflict _).bind fun claim t _ hc => ?_
  cases claim with
  | none => exact keeps_recordConflictOf _ _ _ _ _
  | some claim =>
    dsimp only
    split
    · exact (keeps_settledDuplicate (hc claim rfl)).bind fun r t' _ hr => .pure hr
    · refine keeps_claimTokenOf.bind fun token t' _ _ => ?_
      exact .tryCatch (keeps_vectorizeClaimed _ _ _ _ _) fun e _ _ => keeps_vectorizeFailed _ _ e

theorem keeps_process (runtime : Runtime) (payload : Json) (messageId : PyStr) (headers : Dict) :
    Keeps (workers T) (outbox T) (process runtime payload messageId headers) Workers.Results s := by
  unfold process
  dsimp only
  split
  · exact keeps_processRequest _ _ _ _
  · exact keeps_recordValidationFailure _ _ _ _ _
  · exact .throw
  · exact .throw

theorem keeps_publishRecord (hr : s.Knows record) (hp : record.publicationState = .pending) :
    Keeps (workers T) (outbox T) (publishRecord record)
      (fun r t => t.Knows r ∧ r.status.settled ∧ r.publicationState = .published) s := by
  have hd := hr.pending_settled hp
  unfold publishRecord
  split
  next topic messageId payload ht hm hp =>
    refine .bind (.tryCatch (keeps_publish (hr.announces hd ht hm hp)) fun e t _ => ?_) ?_
    · split <;> exact .throw
    · intro _ t ht ha
      refine (keeps_updatePublication (fun _ => ha)
        ((hr.evolves ht).settled hd)).mono fun r t' _ hr => ?_
      exact ⟨hr.1, hr.2.1, hr.2.2 rfl⟩
  · exact .throw

theorem keeps_publishOrFail (hr : s.Knows record) (hp : record.publicationState = .pending) :
    Keeps (workers T) (outbox T) (publishOrFail record) (fun found t => ∀ r, found = some r →
      t.Knows r ∧ r.status.settled ∧ r.publicationState = .published) s := by
  refine .tryCatch ?_ fun e t _ => ?_
  · refine (keeps_publishRecord hr hp).map fun r t _ hr => ?_
    rintro _ ⟨⟩
    exact hr
  · split
    · exact .pure fun _ h => nomatch h
    · exact .throw

theorem keeps_incrementPublicationAttempt (hr : s.Knows record) (hd : record.status.settled) :
    Keeps (workers T) (outbox T) (incrementPublicationAttempt record.idempotencyKey)
      (fun r t => t.Knows r ∧ r.status.settled) s :=
  (keeps_updatePublication (b := false) nofun (hr.settled hd)).mono fun _ _ _ hr => ⟨hr.1, hr.2.1⟩

theorem keeps_retryLater (consumer : ConsumerConfig) (message : DeepiriMessage) :
    Keeps (workers T) (outbox T) (retryLater consumer message) (fun _ _ => True) s := by
  unfold retryLater
  split
  · exact (keeps_unlogged rfl).bind fun _ _ _ _ => keeps_unlogged rfl
  · exact keeps_unlogged rfl

theorem keeps_announce (consumer : ConsumerConfig) (message : DeepiriMessage)
    (result : DocumentProcessingResult T) (hr : s.Knows result.record)
    (hd : result.record.status.settled) : Keeps (workers T) (outbox T)
    (announce consumer message result) (fun _ _ => True) s := by
  unfold announce
  split
  next hp =>
    refine (keeps_publishOrFail hr hp).bind fun found t ht hf => ?_
    cases found with
    | some record =>
      obtain ⟨hk, hs, hpub⟩ := hf record rfl
      exact (keeps_acknowledge (hk.done hs (.inl hpub))).bind fun _ _ _ _ => .pure trivial
    | none =>
      refine (keeps_incrementPublicationAttempt (hr.evolves ht) hd).bind fun r t' _ hr => ?_
      split
      · exact (keeps_retryLater _ _).bind fun _ _ _ _ => .pure trivial
      next hn =>
        exact (keeps_acknowledge (hr.1.done hr.2 (.inr (not_lt.mp hn)))).bind
          fun _ _ _ _ => .pure trivial
  next hp =>
    have hpub : result.record.publicationState = .published := by
      obtain ⟨r, he, hc, -⟩ := hr
      rw [he] at hd hp ⊢
      have hn := (hc.settled hd).1
      change r.publicationState ≠ .pending at hp
      change r.publicationState = .published
      cases h : r.publicationState with
      | none => exact absurd h hn
      | pending => exact absurd h hp
      | published => rfl
    exact (keeps_acknowledge (hr.done hd (.inl hpub))).bind fun _ _ _ _ => .pure trivial

theorem keeps_processMessage (consumer : ConsumerConfig) (message : DeepiriMessage) :
    Keeps (workers T) (outbox T) (processMessage consumer message) (fun _ _ => True) s := by
  refine (keeps_process _ _ _ _).bind fun result t _ hr => ?_
  split
  · split
    · exact (keeps_retryLater _ _).bind fun _ _ _ _ => .pure trivial
    · exact .pure trivial
  split
  · split
    · exact (keeps_retryLater _ _).bind fun _ _ _ _ => .pure trivial
    · refine (keeps_finishFailure _ _).bind fun record t' _ hk => ?_
      exact keeps_announce _ _ _ hk.1 hk.2
  next hp hf =>
    refine keeps_announce _ _ _ hr ?_
    obtain ⟨r, he, hc, -⟩ := hr
    rw [he] at hp hf ⊢
    have hn := hc.stored
    change r.status.settled
    change r.status ≠ .processing at hp
    change r.status ≠ .retryableFailure at hf
    cases h : r.status with
    | received => exact absurd h hn
    | processing => exact absurd h hp
    | retryableFailure => exact absurd h hf
    | succeeded | terminalFailure | deadLettered => rfl

theorem keeps_drainRecords (records : List (DocumentOperationRecord T))
    (hr : ∀ r ∈ records, s.Knows r ∧ r.publicationState = .pending) :
    Keeps (workers T) (outbox T) (drainRecords records) (fun _ _ => True) s := by
  induction records generalizing s with
  | nil => exact .pure trivial
  | cons record rest ih =>
    obtain ⟨hk, hp⟩ := hr record List.mem_cons_self
    have hrest (t : Workers T) (ht : s.Evolves t) (r) (h : r ∈ rest) :
        t.Knows r ∧ r.publicationState = .pending :=
      ⟨(hr r (List.mem_cons_of_mem _ h)).1.evolves ht, (hr r (List.mem_cons_of_mem _ h)).2⟩
    refine (keeps_publishOrFail hk hp).bind fun found t ht _ => ?_
    cases found with
    | some _ => exact (ih (hrest t ht)).bind fun _ _ _ _ => .pure trivial
    | none =>
      refine (keeps_incrementPublicationAttempt (hk.evolves ht) (hk.pending_settled hp)).bind
        fun r t' ht' _ => ?_
      exact ih (hrest t' (ht.trans ht'))

theorem keeps_drainPendingPublications (limit : Int) :
    Keeps (workers T) (outbox T) (drainPendingPublications limit) (fun _ _ => True) s :=
  (keeps_pending limit).bind fun records _ _ hr => keeps_drainRecords records hr

end Tasks

def Task.detach (p : Task T α) : Program (documentOps T) Unit := p.run.bind fun _ => .pure ()

inductive Consuming : Program (documentOps T) Unit → Prop
  | message (consumer : ConsumerConfig) (message : DeepiriMessage) :
      Consuming (processMessage consumer message).detach
  | drain (limit : Int) : Consuming (drainPendingPublications limit).detach

section Consumers

variable [LinearOrder T]

def consumers (T : Type) [LinearOrder T] :
    Transition.System (Pool (documentOps T) (Workers T)) Unit :=
  Pool.system (workers T) (fun s => s.table = .empty ∧ s.log = []) Consuming

theorem detach_safe {p : Task T α} {s : Workers T}
    (h : Keeps (workers T) (outbox T) p (fun _ _ => True) s) :
    p.detach.Safe (workers T) (outbox T) (fun _ _ => True) s :=
  Safe.bind h fun _ _ _ _ => trivial

theorem Consuming.safe {p : Program (documentOps T) Unit} (h : Consuming p) (s : Workers T) :
    p.Safe (workers T) (outbox T) (fun _ _ => True) s := by
  cases h with
  | message consumer message => exact detach_safe (keeps_processMessage consumer message)
  | drain limit => exact detach_safe (keeps_drainPendingPublications limit)

theorem consumers_sound :
    Transition.Invariant (consumers T) (Pool.Sound (workers T) (outbox T)) := by
  refine Pool.sound ?_ fun p hp s _ => hp.safe s
  rintro ⟨_, _⟩ ⟨rfl, rfl⟩
  exact ⟨nofun, nofun, nofun, nofun⟩

structure OutboxConsistent (p : Pool (documentOps T) (Workers T)) : Prop where
  one_message : .published key topic messageId payload succeeded ∈ p.world.log →
    .published key topic' messageId' payload' succeeded' ∈ p.world.log →
    topic' = topic ∧ messageId' = messageId ∧ payload' = payload
  published_announced : p.world.table.select key = some r → r.publicationState = .published →
    p.world.Announced key
  acknowledges_done {maxAttempts : Int} : q ∈ p.tasks →
    q.next = some (.acknowledge message key maxAttempts) →
    ∃ r, p.world.table.select key = some r ∧ r.status.settled ∧
      (r.publicationState = .published ∨ maxAttempts ≤ r.publicationAttempts)

theorem outbox_consistent {p : Pool (documentOps T) (Workers T)}
    (hp : Transition.Reachable (consumers T) p) : OutboxConsistent p := by
  obtain ⟨hc, ht⟩ := consumers_sound.reachable hp
  refine ⟨?_, hc.published, ?_⟩
  · intro key topic messageId payload b topic' messageId' payload' b' h h'
    obtain ⟨r, hr, ha⟩ := hc.announced h
    obtain ⟨q, hq, ha'⟩ := hc.announced h'
    obtain rfl := Option.some.inj (hr.symm.trans hq)
    refine ⟨?_, ?_, ?_⟩
    · exact Option.some.inj (ha'.topic.symm.trans ha.topic)
    · exact Option.some.inj (ha'.messageId.symm.trans ha.messageId)
    · exact Option.some.inj (ha'.payload.symm.trans ha.payload)
  · intro q message key maxAttempts hq hn
    obtain ⟨k, rfl⟩ := exists_call hn
    have hs := (ht _ hq _ (.ok ()) (.refl _) hc).1 _ (.acknowledge (.ok ()))
    exact hs.1.acknowledged List.mem_cons_self

/-- A refused payload, recorded, published and about to be acknowledged. -/
theorem outbox_consistent_acknowledging : ∃ p : Pool (documentOps Nat) (Workers Nat),
    Transition.Reachable (consumers Nat) p ∧ OutboxConsistent p ∧ p.world.log.length = 1 ∧
      p.tasks.all fun q => match q.next with
        | some (.acknowledge _ _ n) => n = 3
        | _ => false := by
  let message : DeepiriMessage := ⟨[], .dict [], [], 1, none⟩
  let consumer : ConsumerConfig := ⟨.ample, 3, false⟩
  let world := quiet 0 5 "a" .none ⟨false, false, none, none, none, none⟩
  have h0 : Transition.Reachable (consumers Nat) ⟨⟨.empty, []⟩, []⟩ := .init ⟨⟨rfl, rfl⟩, rfl⟩
  have h1 := h0.step (e := ()) (.spawn (.message consumer message))
  have h2 := world.drive_reachable 5 h1
  refine ⟨_, h2, outbox_consistent h2, ?_, ?_⟩
  · decide +kernel
  · decide +kernel

end Consumers

end PrismPipe.Document
