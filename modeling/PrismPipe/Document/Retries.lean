import PrismPipe.Document.Deliveries

/-! One message redelivered as often as its consumer asks for it: what a delivery can do to its
operation, and how long the chain of them gets. -/

namespace PrismPipe.Document

open Python Program

variable {T : Type} [LinearOrder T]

/-- Nothing is cancelled, the vectorizer says what can be written, and publication succeeds, fails
or times out. -/
def DocumentOp.Regular {T : Type} : (o : DocumentOp) → Except Raised (o.Value T) → Prop
  | .load _, r => ∀ e, r = .error e → e.Loggable
  | .execute _, r => ∃ node : NodeResult, r = .ok node ∧ node.Writable
  | .publish .., r => r = .ok () ∨ r = .error .transport ∨ r = .error .timeout
  | .sleep, r => r = .ok ()
  | .acknowledge .., r => r = .ok ()
  | .retry _, r => r = .ok ()
  | _, _ => True

abbrev regular (T : Type) [LinearOrder T] : World (documentOps T) (Desk T) :=
  desk T DocumentOp.Regular

theorem regular_answers [Inhabited T] (s : Desk T) (o : DocumentOp) :
    ∃ a t, (regular T).step s o a t := by
  have hsilent : Desk.silent.Writable := ⟨nofun, nofun, nofun, nofun⟩
  refine Desk.answers (fun s o _ => ?_) s o
  cases o with
  | load => exact fun _ h => nomatch h
  | execute => exact ⟨_, rfl, hsilent⟩
  | publish => exact .inl rfl
  | sleep | acknowledge | retry => rfl
  | claim | get | finish | recordRetryable | publicationUpdate | pending | rounds => trivial

section Quiet

variable [Inhabited T] {s : Desk T}

end Quiet

structure Row.Closed (r : Row T) (publications : Nat) : Prop where
  settled : r.status.settled
  pending : r.publicationState = .pending
  topic : ∃ topic, r.outboundTopic = some topic
  messageId : ∃ messageId, r.outboundMessageId = some messageId
  payload : ∃ payload, r.outboundPayloadJson = some payload
  publications : r.publicationAttempts = publications

structure Row.Failed (r : Row T) (attempts : Nat) : Prop where
  status : r.status = .retryableFailure
  claimToken : ∃ claimToken, r.claimToken = some claimToken
  attempts : r.attemptCount = attempts
  publications : r.publicationAttempts = 0

structure Row.Claimed (r : Row T) (claimToken : String) (attempts : Nat) : Prop where
  admits : r.Admits claimToken .processing
  attempts : r.attemptCount = attempts
  publications : r.publicationAttempts = 0

inductive Attempted (attempts : Nat) : Row T → List Deed → Prop
  | settled (r : Row T) : r.Closed 0 → ds = [] ∨ ds = [.executed] →
      Attempted attempts r (ds ++ [.settled])
  | failed (r : Row T) : r.Failed attempts → ds = [] ∨ ds = [.executed] → Attempted attempts r ds

/-- The attempt on the row of a key, from `s` to `t`. -/
def Attempt (key fingerprint : String) (attempts : Nat) (s : Desk T)
    (result : DocumentProcessingResult T) (t : Desk T) : Prop :=
  ∃ r ds, result = ⟨.fromRow r, false⟩ ∧ s.1.table.Sets key r t.1.table ∧ t.2 = s.2 ++ ds ∧
    Attempted attempts r ds ∧ r.requestFingerprint = fingerprint

def refuseOwned (error : Dict) (record : DocumentOperationRecord T) :
    Task T (DocumentProcessingResult T) := do
  let record ← finishFailure record error
  return ⟨record, false⟩

section Attempts

variable [Inhabited T] {s : Desk T} {q : Row T} {attempts : Nat}

omit [LinearOrder T] [Inhabited T] in
theorem Row.closed_finished {args : FinishArgs} {result error : Option Utf8Text}
    {payload : Utf8Text} {now : T} (h : args.status.settled) (hp : q.publicationAttempts = p) :
    (q.finished args result error payload now).Closed p :=
  ⟨h, rfl, ⟨_, rfl⟩, ⟨_, rfl⟩, ⟨_, rfl⟩, hp⟩

end Attempts

/-- Refused, filed under this key with this fingerprint as `normalized`. -/
structure Delivery.Refused (runtime : Runtime) (d : Delivery) (normalized : Dict)
    (key fingerprint : String) : Prop where
  rejected : ∃ message, runtime.fromPayload d.payload =
    .error (.payload (.validation message)) ∧ message.encodable
  normal : normalizeUntrustedPayload runtime d.payload = .ok (.dict normalized)
  keyed : buildDocumentIdempotencyKey runtime normalized d.messageId d.metadata = .ok key
  printed : buildDocumentRequestFingerprint runtime normalized = .ok fingerprint
  metadata : Json.writable (.dict d.metadata)

omit [LinearOrder T] in
theorem Delivery.Refused.process_eq {runtime : Runtime} {d : Delivery} {normalized : Dict}
    {key fingerprint : String}
    (h : d.Refused runtime normalized key fingerprint) :
    ∃ (args : ClaimArgs) (error : Dict), args.writable ∧ args.idempotencyKey = key ∧
      args.requestFingerprint = fingerprint ∧
      args.operationId = buildDocumentOperationId runtime key ∧ Json.writable (.dict error) ∧
      (d.process runtime : Task T _) = claimOrConflict args >>= afterClaim
        (recordConflictOf runtime key normalized fingerprint d.metadata) (refuseOwned error) := by
  obtain ⟨⟨message, hr, hmessage⟩, hn, hk, hf, hm⟩ := h
  obtain ⟨_, htext, -⟩ := bind_eq_ok hf
  have hw : Json.writable (.dict normalized) := (Runtime.dumpText_eq_ok htext).2
  have hid := safeIdentityValue_encodable (Json.writable_get hw "documentId")
    (encodable_py "unknown")
  let args : ClaimArgs := {
    operationId := buildDocumentOperationId runtime key
    idempotencyKey := key
    requestFingerprint := fingerprint
    documentId := safeIdentityValue (normalized.get "documentId") (py "unknown")
    manifestVersion := safeIdentityValue (normalized.get "manifestVersion") (py "unknown")
    capability := DOCUMENT_VECTORIZE_CAPABILITY
    normalizedPayload := .dict normalized
    requestMetadata := .dict d.metadata }
  have hargs : args.writable := ClaimArgs.writable_iff.mpr ⟨hw, hm, hid,
    safeIdentityValue_encodable (Json.writable_get hw _) (encodable_py _)⟩
  refine ⟨args, _, hargs, rfl, rfl, rfl, validationError_writable hmessage hid, ?_⟩
  unfold Delivery.metadata at *
  unfold Delivery.process Document.process
  simp only [hr]
  unfold recordValidationFailure
  simp only [hn, hk, hf, liftRaised, asMapping, liftEncode, pure_bind]
  refine congrArg _ (funext fun found => ?_)
  cases found <;> rfl

def Delivery.FiledUnder (runtime : Runtime) (d : Delivery) (key : String) : Prop :=
  ∃ filedAs, filed runtime d.payload = some filedAs ∧
    buildDocumentIdempotencyKey runtime filedAs d.messageId d.metadata = .ok key

/-- `process` is a claim, and an attempt on what it claims. -/
structure Delivery.Handled [Inhabited T] (runtime : Runtime) (d : Delivery) (args : ClaimArgs)
    (conflict : Task T (DocumentProcessingResult T))
    (work : DocumentOperationRecord T → Task T (DocumentProcessingResult T)) : Prop where
  filed : d.FiledUnder runtime args.idempotencyKey
  writable : args.writable
  operationId : args.operationId = buildDocumentOperationId runtime args.idempotencyKey
  process_eq : d.process runtime = claimOrConflict args >>= afterClaim conflict work
  attempt : ∀ (s : Desk T) q claimToken attempts, s.1.table.select args.idempotencyKey = some q →
    q.Claimed claimToken attempts → Returns (regular T) (work (.fromRow q))
      (Attempt args.idempotencyKey q.requestFingerprint attempts s) s

inductive Standing (key fingerprint : String) (t : Operations T) : Nat → Prop
  | unclaimed : t.select key = none → Standing key fingerprint t 0
  | failed {attempts : Nat} : t.select key = some r → r.requestFingerprint = fingerprint →
      r.Failed attempts → Standing key fingerprint t attempts

omit [LinearOrder T] in
theorem Attempt.after {key fingerprint : String} {attempts : Nat} {s u t : Desk T} {q : Row T}
    (h : Attempt key fingerprint attempts u result t) (hset : s.1.table.Sets key q u.1.table)
    (hlog : u.2 = s.2) : Attempt key fingerprint attempts s result t := by
  obtain ⟨r, ds, hres, hr, hds, hatt, hfp⟩ := h
  exact ⟨r, ds, hres, hset.trans hr, hlog ▸ hds, hatt, hfp⟩

section Handled

variable [Inhabited T] {runtime : Runtime} {d : Delivery} {args : ClaimArgs} {attempts : Nat}
  {conflict : Task T (DocumentProcessingResult T)}
  {work : DocumentOperationRecord T → Task T (DocumentProcessingResult T)} {s : Desk T}

theorem Delivery.Handled.opened (h : d.Handled runtime args conflict work)
    (hid : ∀ r ∈ s.1.table.rows, r.operationId = args.operationId →
      r.idempotencyKey = args.idempotencyKey)
    (hst : Standing args.idempotencyKey args.requestFingerprint s.1.table attempts) :
    Returns (regular T) (d.process runtime)
      (Attempt args.idempotencyKey args.requestFingerprint (attempts + 1) s) s := by
  rw [h.process_eq]
  cases hst with
  | unclaimed hnone =>
    refine ends_afterClaim_absent regular_answers h.writable hid hnone ?_
    intro hw now leaseUntil claimToken u hset
    have hq : (args.row hw now leaseUntil claimToken).Claimed claimToken 1 :=
      ⟨⟨rfl, rfl⟩, rfl, rfl⟩
    refine (h.attempt (⟨u, s.1.log⟩, s.2) _ _ _ hset.select hq).mono fun _ _ ha => ?_
    exact ha.after hset rfl
  | @failed r _ hs hfp hr =>
    refine ends_afterClaim_present regular_answers h.writable hid hs hfp (fun hheld => ?_) ?_
    · rw [hr.status] at hheld
      rcases hheld with hheld | hheld <;> cases hheld
    · intro now leaseUntil claimToken u _ hset
      have hq : (r.reclaimed now leaseUntil claimToken).Claimed claimToken (attempts + 1) :=
        ⟨⟨rfl, rfl⟩, congrArg (· + 1) hr.attempts, hr.publications⟩
      refine (h.attempt (⟨u, s.1.log⟩, s.2) _ _ _ hset.select hq).mono fun _ _ ha => ?_
      exact hfp ▸ ha.after hset rfl

theorem Delivery.Handled.settled (h : d.Handled runtime args conflict work)
    (hid : ∀ r ∈ s.1.table.rows, r.operationId = args.operationId →
      r.idempotencyKey = args.idempotencyKey)
    (hs : s.1.table.select args.idempotencyKey = some r)
    (hf : r.requestFingerprint = args.requestFingerprint) (hr : r.status.settled) :
    Returns (regular T) (d.process runtime)
      (fun result t => result = ⟨.fromRow r, true⟩ ∧ t = s) s := by
  rw [h.process_eq]
  exact returns_afterClaim_settled regular_answers h.writable hid hs hf hr

end Handled

section Consumer

variable [Inhabited T] {consumer : ConsumerConfig} {s : Desk T} {r : Row T}

theorem returns_publishOrFail (hs : s.1.table.select r.idempotencyKey = some r)
    (hr : r.Closed publications) : Returns (regular T) (publishOrFail (.fromRow r))
      (fun found t => t.2 = s.2 ∧ (found = none → t.1.table = s.1.table)) s := by
  obtain ⟨topic, ht⟩ := hr.topic
  obtain ⟨messageId, hm⟩ := hr.messageId
  obtain ⟨payload, hp⟩ := hr.payload
  refine ends_tryCatch.mpr ?_
  rw [map_eq_pure_bind]
  refine ends_bind.mpr ?_
  simp only [publishRecord, DocumentOperationRecord.fromRow, ht, hm, hp, Option.map_some]
  refine ends_bind.mpr (ends_tryCatch.mpr (Desk.ends_perform regular_answers fun a u st => ?_))
  obtain ⟨st, ha⟩ := st
  have hlog : s.2 ++ [] = s.2 := List.append_nil _
  cases st with
  | publish =>
    rcases ha with rfl | rfl | rfl
    · change Ends (regular T) (publicationUpdate r.idempotencyKey true) _ _ (_, s.2 ++ [])
      rw [hlog]
      refine Ends.mono (Desk.returns_publicationUpdate regular_answers true hs) ?_
        fun _ _ => False.elim
      rintro record t ⟨now, -, -, ht⟩
      exact ⟨ht, fun h => absurd h (Option.some_ne_none _)⟩
    · exact ⟨hlog, fun _ => rfl⟩
    · exact ⟨hlog, fun _ => rfl⟩
  | unavailable _ ho => cases ho

theorem returns_acknowledge {message : DeepiriMessage} {record : DocumentOperationRecord T} :
    Returns (regular T) (acknowledge consumer message record)
      (fun _ t => t.2 = s.2 ++ [.acknowledged message]) s := by
  refine Desk.ends_perform regular_answers fun a u st => ?_
  obtain ⟨-, rfl⟩ := st
  rfl

theorem returns_retryLater {message : DeepiriMessage} :
    Returns (regular T) (retryLater consumer message)
      (fun _ t => t.1.table = s.1.table ∧ t.2 = s.2 ++ [.retried message]) s := by
  have hretry (s : Desk T) : Returns (regular T) (perform (.retry message))
      (fun _ t => t.1.table = s.1.table ∧ t.2 = s.2 ++ [.retried message]) s := by
    refine Desk.ends_perform regular_answers fun a u st => ?_
    obtain ⟨st, rfl⟩ := st
    cases st with
    | retry => exact ⟨rfl, rfl⟩
  unfold retryLater
  split
  · refine ends_bind.mpr (Desk.ends_perform regular_answers fun a u st => ?_)
    obtain ⟨st, rfl⟩ := st
    cases st with
    | sleep =>
      change Ends (regular T) (perform (.retry message)) _ _ (s.1, s.2 ++ [])
      rw [List.append_nil]
      exact hretry s
  · exact hretry s

/-- The delivery acknowledged its message, or asked for another with one failed publication more
behind it. -/
def Announced (consumer : ConsumerConfig) (message : DeepiriMessage) (key fingerprint : String)
    (publications : Nat) (s t : Desk T) : Prop :=
  t.2 = s.2 ++ [.acknowledged message] ∨
    t.2 = s.2 ++ [.retried message] ∧ (publications + 1 : Int) < consumer.maxAttempts ∧
      ∃ r, s.1.table.Sets key r t.1.table ∧ r.requestFingerprint = fingerprint ∧
        r.Closed (publications + 1)

theorem returns_announce {message : DeepiriMessage} {duplicate : Bool}
    (hs : s.1.table.select key = some r) (hr : r.Closed publications) :
    Returns (regular T) (announce consumer message ⟨.fromRow r, duplicate⟩)
      (fun _ t => Announced consumer message key r.requestFingerprint publications s t) s := by
  obtain rfl := Table.select_key hs
  unfold announce
  rw [if_pos (show (DocumentOperationRecord.fromRow r).publicationState = .pending from hr.pending)]
  refine (returns_publishOrFail hs hr).bind ?_
  rintro (_ | record) t ⟨hlog, htable⟩
  · have htable := htable rfl
    have ht : t.1.table.select r.idempotencyKey = some r := htable ▸ hs
    refine (Desk.returns_publicationUpdate regular_answers false ht).bind ?_
    rintro _ u ⟨now, rfl, hset, hu⟩
    dsimp only
    split
    next hlt =>
      refine returns_retryLater.bind ?_
      rintro _ v ⟨hv, hdeeds⟩
      have hpublications : (r.publicationUpdated false now).publicationAttempts =
          publications + 1 := congrArg (· + 1) hr.publications
      refine ends_pure.mpr (.inr ⟨by rw [hdeeds, hu, hlog], ?_,
        r.publicationUpdated false now, ?_, rfl, ?_⟩)
      · change ((r.publicationUpdated false now).publicationAttempts : Int) < _ at hlt
        rw [hpublications] at hlt
        exact_mod_cast hlt
      · rw [hv, ← htable]
        exact hset
      · exact ⟨hr.settled, hr.pending, hr.topic, hr.messageId, hr.payload, hpublications⟩
    · refine returns_acknowledge.bind ?_
      rintro _ v hdeeds
      exact ends_pure.mpr (.inl (by rw [hdeeds, hu, hlog]))
  · refine returns_acknowledge.bind ?_
    rintro _ v hdeeds
    exact ends_pure.mpr (.inl (by rw [hdeeds, hlog]))

omit [LinearOrder T] [Inhabited T] in
theorem exhausted_writable (r : Row T) :
    Json.writable (.dict (exhausted (DocumentOperationRecord.fromRow r).error)) := by
  have hset {error : Dict} (h : Json.writable (.dict error)) : Json.writable (.dict
      ((error.set (py "retryable") (.bool false)).set (py "exhausted") (.bool true))) :=
    Json.writable_set (Json.writable_set h (encodable_py _) rfl) (encodable_py _) rfl
  unfold exhausted
  refine hset ?_
  split
  next d hd =>
    obtain ⟨text, -, ht⟩ := Option.map_eq_some_iff.mp hd
    rw [← ht]
    exact text.writable
  · rfl

/-- What `process` reads of a message. -/
def deliveryOf (message : DeepiriMessage) : Delivery where
  payload := message.payload
  messageId := message.messageId
  headers := message.headers

def Solo (args : ClaimArgs) (t : Operations T) : Prop :=
  ∀ r ∈ t.rows, r.operationId = args.operationId → r.idempotencyKey = args.idempotencyKey

omit [LinearOrder T] [Inhabited T] in
theorem Solo.sets {args : ClaimArgs} {t u : Operations T} (h : Solo args t)
    (hset : t.Sets args.idempotencyKey r u) : Solo args u := by
  intro q hq hid
  by_cases hk : args.idempotencyKey = q.idempotencyKey
  · exact hk.symm
  · have hs := Table.select_of_mem hq
    rw [hset.select_ne hk] at hs
    exact h q (Table.select_mem hs) hid

/-- What a delivery does to an open operation: it fails again and asks for another, or settles and
announces it. -/
inductive Processed (consumer : ConsumerConfig) (message : DeepiriMessage) (args : ClaimArgs)
    (attempts : Nat) (s t : Desk T) : Prop
  | failed : ds = [] ∨ ds = [.executed] → t.2 = s.2 ++ ds ++ [.retried message] →
      (attempts : Int) < consumer.maxAttempts → Solo args t.1.table →
      Standing args.idempotencyKey args.requestFingerprint t.1.table attempts →
      Processed consumer message args attempts s t
  | settled (u : Desk T) : ds = [] ∨ ds = [.executed] → u.2 = s.2 ++ ds ++ [.settled] →
      Solo args u.1.table →
      Announced consumer message args.idempotencyKey args.requestFingerprint 0 u t →
      Processed consumer message args attempts s t

section Message

variable {message : DeepiriMessage} {args : ClaimArgs} {attempts : Nat}
  {conflict : Task T (DocumentProcessingResult T)}
  {work : DocumentOperationRecord T → Task T (DocumentProcessingResult T)}

theorem returns_processMessage_open
    (h : (deliveryOf message).Handled consumer.runtime args conflict work)
    (hid : Solo args s.1.table)
    (hst : Standing args.idempotencyKey args.requestFingerprint s.1.table attempts) :
    Returns (regular T) (processMessage consumer message)
      (fun _ t => Processed consumer message args (attempts + 1) s t) s := by
  refine (h.opened hid hst).bind ?_
  rintro _ u ⟨r, ds, rfl, hset, hlog, hatt, hf⟩
  have hsolo := hid.sets hset
  dsimp only
  cases hatt with
  | @settled ds _ hr hds =>
    have hsettled := hr.settled
    have hne : r.status ≠ .processing ∧ r.status ≠ .retryableFailure := by
      constructor <;> intro he <;> rw [he] at hsettled <;> cases hsettled
    split
    next he => exact absurd he hne.1
    split
    next he => exact absurd he hne.2
    refine (returns_announce hset.select hr).mono fun _ t ht => ?_
    rw [← List.append_assoc] at hlog
    exact .settled u hds hlog hsolo (hf ▸ ht)
  | failed _ hr hds =>
    have hne : r.status ≠ .processing := by rw [hr.status]; exact nofun
    split
    next he => exact absurd he hne
    split
    rotate_left
    next he => exact absurd hr.status he
    split
    next hlt =>
      refine returns_retryLater.bind ?_
      rintro _ t ⟨htable, hdeeds⟩
      refine ends_pure.mpr (.failed hds (by rw [hdeeds, hlog]) ?_ (htable ▸ hsolo) ?_)
      · have hcount : (r.attemptCount : Int) < consumer.maxAttempts :=
          (le_max_left _ _).trans_lt hlt
        rwa [hr.attempts] at hcount
      · rw [htable]
        exact .failed hset.select hf hr
    · obtain ⟨claimToken, htoken⟩ := hr.claimToken
      refine (Desk.returns_finishFailure regular_answers true hset.select
        ⟨htoken, hr.status⟩ (exhausted_writable r)).bind ?_
      rintro _ v ⟨finish, payload, now, w, hstatus, -, rfl, hset', rfl⟩
      have hsettled : finish.status.settled := by rw [hstatus]; rfl
      have hclosed : (r.finished finish none (some ((Json.dict _).written (exhausted_writable r)))
        payload now).Closed 0 := Row.closed_finished hsettled hr.publications
      refine (returns_announce hset'.select hclosed).mono fun _ t ht => ?_
      exact .settled _ hds (by rw [hlog]) (hsolo.sets hset') (hf ▸ ht)

theorem returns_processMessage_settled
    (h : (deliveryOf message).Handled consumer.runtime args conflict work)
    (hid : Solo args s.1.table) (hs : s.1.table.select args.idempotencyKey = some r)
    (hf : r.requestFingerprint = args.requestFingerprint) (hr : r.Closed publications) :
    Returns (regular T) (processMessage consumer message)
      (fun _ t => Announced consumer message args.idempotencyKey args.requestFingerprint
        publications s t) s := by
  refine (h.settled hid hs hf hr.settled).bind ?_
  rintro _ t ⟨rfl, ht⟩
  obtain rfl := ht.symm
  have hsettled := hr.settled
  have hne : r.status ≠ .processing ∧ r.status ≠ .retryableFailure := by
    constructor <;> intro he <;> rw [he] at hsettled <;> cases hsettled
  dsimp only
  split
  next he => exact absurd he hne.1
  split
  next he => exact absurd he hne.2
  exact hf ▸ returns_announce hs hr

end Message

section Chain

variable {message : DeepiriMessage} {args : ClaimArgs}
  {conflict : Task T (DocumentProcessingResult T)}
  {work : DocumentOperationRecord T → Task T (DocumentProcessingResult T)}

def Ordered (log : List Deed) : Prop := log.Pairwise fun x y => x.isSettled → ¬ y.isExecuted

omit [LinearOrder T] [Inhabited T] in
theorem Ordered.append {log deeds : List Deed} (h : Ordered log) (hd : Ordered deeds)
    (hn : settlings log = 0 ∨ executions deeds = 0) : Ordered (log ++ deeds) := by
  refine List.pairwise_append.mpr ⟨h, hd, fun x hx y hy hs he => ?_⟩
  rcases hn with hn | hn
  · exact List.countP_eq_zero.mp hn x hx hs
  · exact List.countP_eq_zero.mp hn y hy he

structure Redelivery (T : Type) where
  desk : Desk T
  queue : List DeepiriMessage

def redelivered (deeds : List Deed) : List DeepiriMessage :=
  deeds.filterMap fun
    | .retried message => some { message with deliveryAttempt := message.deliveryAttempt + 1 }
    | _ => none

theorem redelivered_append (l m : List Deed) :
    redelivered (l ++ m) = redelivered l ++ redelivered m := List.filterMap_append

theorem redelivered_attempt {ds : List Deed} (h : ds = [] ∨ ds = [.executed]) :
    redelivered ds = [] := by
  rcases h with rfl | rfl <;> rfl

theorem attempt_deeds {log ds log' : List Deed} {last : Deed} (hlog : log' = log ++ ds ++ [last])
    (h : ds = [] ∨ ds = [.executed]) (hlast : executions [last] = 0) (hsett : settlings log = 0)
    (hord : Ordered log) : settlings log' = settlings [last] ∧
      acknowledgements log' = acknowledgements log + acknowledgements [last] ∧
      executions log' ≤ executions log + 1 ∧ Ordered log' := by
  have hds : settlings ds = 0 ∧ acknowledgements ds = 0 ∧ executions ds ≤ 1 ∧ Ordered ds := by
    rcases h with rfl | rfl
    · exact ⟨rfl, rfl, Nat.zero_le _, .nil⟩
    · exact ⟨rfl, rfl, le_rfl, List.pairwise_singleton _ _⟩
  obtain ⟨hds1, hds2, hds3, hds4⟩ := hds
  rw [hlog, settlings_append, settlings_append, acknowledgements_append, acknowledgements_append,
    executions_append, executions_append, hsett, hds1, hds2, hlast]
  refine ⟨Nat.zero_add _, rfl, Nat.add_le_add_left hds3 _, ?_⟩
  exact (hord.append hds4 (.inl hsett)).append (List.pairwise_singleton _ _) (.inr hlast)

def redeliveries (T : Type) [LinearOrder T] (consumer : ConsumerConfig) :
    Transition.System (Redelivery T) (Except Raised (DocumentProcessingResult T)) where
  init s := ∃ message, s.queue = [message]
  step s r t := ∃ message rest deeds, s.queue = message :: rest ∧
    Executes (regular T) (processMessage consumer message).run s.desk r t.desk ∧
    t.desk.2 = s.desk.2 ++ deeds ∧ t.queue = rest ++ redelivered deeds

/-- What `k` deliveries come to. -/
inductive Chained (consumer : ConsumerConfig) (message : DeepiriMessage) (args : ClaimArgs)
    (k : Nat) (s : Redelivery T) : Prop
  | failing (m : DeepiriMessage) : s.queue = [m] → deliveryOf m = deliveryOf message →
      Solo args s.desk.1.table →
      Standing args.idempotencyKey args.requestFingerprint s.desk.1.table k →
      (k : Int) < consumer.maxAttempts → settlings s.desk.2 = 0 → acknowledgements s.desk.2 = 0 →
      executions s.desk.2 ≤ k → Ordered s.desk.2 → Chained consumer message args k s
  | announcing (m : DeepiriMessage) (r : Row T) (publications : Nat) : s.queue = [m] →
      deliveryOf m = deliveryOf message → Solo args s.desk.1.table →
      s.desk.1.table.select args.idempotencyKey = some r →
      r.requestFingerprint = args.requestFingerprint → r.Closed publications →
      (publications : Int) < consumer.maxAttempts →
      (k : Int) + 1 ≤ consumer.maxAttempts + publications → settlings s.desk.2 = 1 →
      acknowledgements s.desk.2 = 0 → (executions s.desk.2 : Int) ≤ consumer.maxAttempts →
      Ordered s.desk.2 → Chained consumer message args k s
  | done : s.queue = [] → settlings s.desk.2 = 1 → acknowledgements s.desk.2 = 1 →
      (executions s.desk.2 : Int) ≤ consumer.maxAttempts → Ordered s.desk.2 →
      (k : Int) ≤ 2 * consumer.maxAttempts - 1 → Chained consumer message args k s

omit [LinearOrder T] [Inhabited T] in
theorem Chained.announced {m : DeepiriMessage} {publications k : Nat} {u : Desk T}
    {t : Redelivery T}
    (h : Announced consumer m args.idempotencyKey args.requestFingerprint publications u t.desk)
    (hm : deliveryOf m = deliveryOf message) (hsolo : Solo args u.1.table)
    (hqueue : ∀ deeds, t.desk.2 = u.2 ++ deeds → t.queue = redelivered deeds)
    (hlt : (publications : Int) < consumer.maxAttempts)
    (hk : (k : Int) ≤ consumer.maxAttempts + publications) (hsett : settlings u.2 = 1)
    (hack : acknowledgements u.2 = 0) (hexec : (executions u.2 : Int) ≤ consumer.maxAttempts)
    (hord : Ordered u.2) : Chained consumer message args k t := by
  rcases h with hlog | ⟨hlog, hlt', r, hset, hf, hr⟩
  · refine .done (hqueue _ hlog) ?_ ?_ ?_ ?_ (by omega)
    · simpa [hlog, settlings, Deed.isSettled] using hsett
    · simpa [hlog, acknowledgements, Deed.isAcknowledged] using hack
    · simpa [hlog, executions, Deed.isExecuted] using hexec
    · exact hlog ▸ hord.append (List.pairwise_singleton _ _) (.inr rfl)
  · refine .announcing _ r (publications + 1) (hqueue _ hlog) hm (hsolo.sets hset) hset.select hf hr
      (by exact_mod_cast hlt') (by push_cast; omega) ?_ ?_ ?_ ?_
    · simpa [hlog, settlings, Deed.isSettled] using hsett
    · simpa [hlog, acknowledgements, Deed.isAcknowledged] using hack
    · simpa [hlog, executions, Deed.isExecuted] using hexec
    · exact hlog ▸ hord.append (List.pairwise_singleton _ _) (.inr rfl)

theorem Chained.step {s t : Redelivery T} {e : Except Raised (DocumentProcessingResult T)}
    (hh : (deliveryOf message).Handled consumer.runtime args conflict work)
    (h : Chained consumer message args k s) (st : (redeliveries T consumer).step s e t) :
    Chained consumer message args (k + 1) t := by
  obtain ⟨m', rest, deeds, hqueue, hex, hdeeds, hqueue'⟩ := st
  cases h with
  | failing m hq hm hsolo hst hlt hsett hack hexec hord =>
    obtain ⟨rfl, rfl⟩ := List.cons.inj (hq.symm.trans hqueue)
    rw [← hm] at hh
    have hpost : Processed consumer m args (k + 1) s.desk t.desk := by
      have := Completes.executes (returns_processMessage_open hh hsolo hst) hex
      cases e with
      | ok => exact this
      | error => exact this.elim
    cases hpost with
    | @failed ds hds hlog hlt' hsolo' hst' =>
      obtain ⟨hsett', hack', hexec', hord'⟩ := attempt_deeds hlog hds rfl hsett hord
      refine .failing { m with deliveryAttempt := m.deliveryAttempt + 1 } ?_ hm hsolo' hst' hlt'
        hsett' (hack'.trans (congrArg (· + 0) hack)) (by omega) hord'
      rw [List.append_assoc] at hlog
      obtain rfl := List.append_cancel_left (hdeeds.symm.trans hlog)
      rw [hqueue', redelivered_append, redelivered_attempt hds]
      rfl
    | @settled ds u hds hlog hsolo' hann =>
      obtain ⟨hsett', hack', hexec', hord'⟩ := attempt_deeds hlog hds rfl hsett hord
      refine Chained.announced hann hm hsolo' (fun X hX => ?_) (by omega) (by push_cast; omega)
        hsett' (hack'.trans (congrArg (· + 0) hack)) (by omega) hord'
      rw [hlog, List.append_assoc, List.append_assoc] at hX
      obtain rfl := List.append_cancel_left (hdeeds.symm.trans hX)
      rw [hqueue', redelivered_append, redelivered_attempt hds]
      rfl
  | announcing m r publications hq hm hsolo hs hf hr hlt hk hsett hack hexec hord =>
    obtain ⟨rfl, rfl⟩ := List.cons.inj (hq.symm.trans hqueue)
    rw [← hm] at hh
    have hpost : Announced consumer m args.idempotencyKey args.requestFingerprint publications
        s.desk t.desk := by
      have := Completes.executes (returns_processMessage_settled hh hsolo hs hf hr) hex
      cases e with
      | ok => exact this
      | error => exact this.elim
    refine Chained.announced hpost hm hsolo (fun X hX => ?_) hlt (by push_cast; omega) hsett hack
      hexec hord
    obtain rfl := List.append_cancel_left (hdeeds.symm.trans hX)
    exact hqueue'
  | done hq => cases hq.symm.trans hqueue

theorem Chained.run {s t : Redelivery T} {es : List (Except Raised (DocumentProcessingResult T))}
    (hh : (deliveryOf message).Handled consumer.runtime args conflict work)
    (hrun : Transition.Run (redeliveries T consumer) s es t)
    (h : Chained consumer message args k s) :
    Chained consumer message args (k + es.length) t := by
  induction hrun generalizing k with
  | nil => exact h
  | cons st _ ih =>
    have := ih (h.step hh st)
    rwa [Nat.add_assoc, Nat.add_comm 1] at this

def Fresh (runtime : Runtime) (d : Delivery) (t : Operations T) : Prop :=
  ∀ key, d.FiledUnder runtime key → t.select key = none ∧
    ∀ r ∈ t.rows, r.operationId ≠ buildDocumentOperationId runtime key

end Chain

end Consumer

end PrismPipe.Document
