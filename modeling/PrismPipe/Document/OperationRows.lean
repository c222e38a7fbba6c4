import PrismPipe.Lib.Crew
import PrismPipe.Document.Outbox

/-! What every row of `document_operations` satisfies while processors and consumers run, and what
they can count on in the records they read. -/

namespace PrismPipe.Document

open Python Program Transition

structure Row.WellFormed (r : Row T) : Prop where
  stored : r.status ≠ .received
  processing : r.status = .processing → r.claimToken.isSome ∧ r.leaseUntil.isSome ∧
    r.resultJson = none ∧ r.publicationState = .none
  retryableFailure : r.status = .retryableFailure → r.claimToken.isSome ∧ r.errorJson.isSome ∧
    r.leaseUntil = none ∧ r.resultJson = none ∧ r.publicationState = .none
  settled : r.status.settled → r.claimToken = none ∧ r.leaseUntil = none ∧
    (r.outboundTopic.isSome ∧ r.outboundMessageId.isSome ∧ r.outboundPayloadJson.isSome) ∧
    (r.publicationState = .pending ∨ r.publicationState = .published)

def granted (key : String) : Answer (documentOps T) → Bool
  | ⟨.claim args, .ok claim⟩ => claim.owner && args.idempotencyKey = key
  | _ => false

/-- What a statement writes over a row, or where there is none; and whether it grants ownership. -/
inductive RowWrite {T : Type} [LinearOrder T] : Option (Row T) → Row T → Bool → Prop
  | opened {args : ClaimArgs} (h : args.writable) :
      RowWrite none (args.row h now leaseUntil claimToken) true
  | reclaimed : ¬ r.status.settled → RowWrite (some r) (r.reclaimed now leaseUntil claimToken) true
  | finished : RowWrite (some r) (r.finished args result error payload now) false
  | failedRetryably : r.Admits claimToken .processing →
      RowWrite (some r) (r.failedRetryably error now) false
  | publicationUpdated : RowWrite (some r) (r.publicationUpdated published now) false

theorem Row.WellFormed.open_result {r : Row T} (h : r.WellFormed) (hs : ¬ r.status.settled) :
    r.resultJson = none := by
  cases hr : r.status with
  | received => exact absurd hr h.stored
  | processing => exact (h.processing hr).2.2.1
  | retryableFailure => exact (h.retryableFailure hr).2.2.2.1
  | succeeded | terminalFailure | deadLettered =>
    rw [hr] at hs
    exact absurd rfl hs

section Writes

variable [LinearOrder T]

theorem RowWrite.wellFormed {old : Option (Row T)} {q : Row T} (w : RowWrite old q b)
    (hold : ∀ r ∈ old, r.WellFormed) (hq : q.Consistent) : q.WellFormed := by
  cases w with
  | opened hw => exact ⟨nofun, fun _ => ⟨rfl, rfl, rfl, rfl⟩, nofun, nofun⟩
  | @reclaimed r now leaseUntil claimToken hs =>
    have hr := (hold r rfl).open_result hs
    exact ⟨nofun, fun _ => ⟨rfl, rfl, hr, hq.opened nofun⟩, nofun, nofun⟩
  | @finished r args =>
    have hs : args.status.settled := by
      by_contra hs
      have hn := hq.opened hs
      cases hn
    refine ⟨hq.stored, fun hp => ?_, fun hp => ?_, fun _ => ?_⟩
    · change args.status = .processing at hp
      rw [hp] at hs
      cases hs
    · change args.status = .retryableFailure at hp
      rw [hp] at hs
      cases hs
    · exact ⟨rfl, rfl, ⟨rfl, rfl, rfl⟩, .inl rfl⟩
  | @failedRetryably r claimToken error now ha =>
    have hr := hold r rfl
    obtain ⟨ht, -, hn, hp⟩ := hr.processing ha.2
    exact ⟨nofun, nofun, fun _ => ⟨ht, rfl, rfl, hn, hp⟩, nofun⟩
  | @publicationUpdated r published now =>
    have hr := hold r rfl
    cases published with
    | false => exact ⟨hr.stored, hr.processing, hr.retryableFailure, hr.settled⟩
    | true =>
      have hs : r.status.settled := by
        by_contra hs
        have hn := hq.opened hs
        cases hn
      obtain ⟨ht, hl, ho, -⟩ := hr.settled hs
      refine ⟨hr.stored, fun hp => ?_, fun hp => ?_, fun _ => ⟨ht, hl, ho, .inr rfl⟩⟩
      · change r.status = .processing at hp
        rw [hp] at hs
        cases hs
      · change r.status = .retryableFailure at hp
        rw [hp] at hs
        cases hs

inductive Workers.Writes (s t : Workers T) (a : Answer (documentOps T)) : Prop
  | quiet : t.table = s.table → (∀ key, granted key a = false) → Writes s t a
  | row : s.table.select key = old → RowWrite old q b → s.table.Sets key q t.table →
      (∀ k, granted k a = (b && key = k)) → Writes s t a

theorem Workers.Step.writes {s t : Workers T} (st : Workers.Step s o r t) :
    s.Writes t ⟨o, r⟩ := by
  cases st with
  | claim now leaseUntil claimToken hrun =>
    cases claimSync_outcome hrun with
    | unwritable | taken | conflict | busy => exact .quiet rfl fun _ => rfl
    | opened hw hs _ hset => exact .row hs (.opened hw) hset fun _ => rfl
    | reclaimed hs _ hh hset =>
      exact .row hs (.reclaimed fun hd => hh (.inl hd)) hset fun _ => rfl
  | finish now hrun =>
    cases finishSync_outcome hrun with
    | unknown | stale | unwritable => exact .quiet rfl fun _ => rfl
    | finished hs _ _ hset => exact .row hs .finished hset fun _ => rfl
  | recordRetryable now hrun =>
    cases recordRetryableSync_outcome hrun with
    | unwritable | stale => exact .quiet rfl fun _ => rfl
    | recorded _ hs ha hset => exact .row hs (.failedRetryably ha) hset fun _ => rfl
  | publicationUpdate now hrun =>
    cases publicationUpdateSync_outcome hrun with
    | unknown => exact .quiet rfl fun _ => rfl
    | updated hs hset => exact .row hs .publicationUpdated hset fun _ => rfl
  | unavailable => exact .quiet rfl fun key => by cases o <;> rfl
  | get | pending | load | execute | rounds | sleep | publish | acknowledge | retry =>
    exact .quiet rfl fun _ => rfl

def Workers.WellFormed (s : Workers T) : Prop :=
  ∀ key r, s.table.select key = some r → r.WellFormed

theorem Workers.Writes.wellFormed {s t : Workers T} (w : s.Writes t a) (h : s.WellFormed)
    (ht : t.Consistent) : t.WellFormed := by
  cases w with
  | quiet he _ =>
    intro key r hr
    rw [he] at hr
    exact h key r hr
  | @row key old q b hs hw hset _ =>
    intro k r hr
    by_cases hk : key = k
    · subst hk
      obtain rfl := Option.some.inj (hset.select.symm.trans hr)
      refine hw.wellFormed (fun p hp => h key p ?_) (ht.rows hr)
      rw [hs]
      exact hp
    · rw [hset.select_ne hk] at hr
      exact h k r hr

def attempts (row : Option (Row T)) : Nat := row.elim 0 (·.attemptCount)

theorem RowWrite.attempts {old : Option (Row T)} {q : Row T} (w : RowWrite old q b) :
    q.attemptCount = Document.attempts old + b.toNat := by
  cases w with
  | opened | reclaimed | finished | failedRetryably => rfl
  | @publicationUpdated r published => cases published <;> rfl

theorem Workers.Writes.attempts {s t : Workers T} (w : s.Writes t a) (key : String) :
    Document.attempts (t.table.select key) =
      Document.attempts (s.table.select key) + (granted key a).toNat := by
  cases w with
  | quiet he hg =>
    rw [he, hg key]
    rfl
  | @row k old q b hs hw hset hg =>
    rw [hg key]
    by_cases hk : k = key
    · subst hk
      rw [hset.select, hs, decide_eq_true rfl, Bool.and_true]
      exact hw.attempts
    · rw [hset.select_ne hk, decide_eq_false hk, Bool.and_false]
      rfl

end Writes

section Answers

def DocumentOperationRecord.WellFormed (record : DocumentOperationRecord T) : Prop :=
  ∃ r : Row T, r.WellFormed ∧ record = .fromRow r

theorem DocumentOperationRecord.WellFormed.token {record : DocumentOperationRecord T}
    (h : record.WellFormed)
    (hs : record.status = .processing ∨ record.status = .retryableFailure) :
    record.claimToken.isSome := by
  obtain ⟨r, hr, rfl⟩ := h
  rcases hs with hs | hs
  · exact (hr.processing hs).1
  · exact (hr.retryableFailure hs).1

theorem DocumentOperationRecord.WellFormed.outbound {record : DocumentOperationRecord T}
    (h : record.WellFormed) (hp : record.publicationState = .pending) :
    record.outboundTopic.isSome ∧ record.outboundMessageId.isSome ∧
      record.outboundPayload.isSome := by
  obtain ⟨r, hr, rfl⟩ := h
  change r.publicationState = .pending at hp
  cases hs : r.status with
  | received => exact absurd hs hr.stored
  | processing =>
    obtain ⟨-, -, -, hn⟩ := hr.processing hs
    rw [hp] at hn
    cases hn
  | retryableFailure =>
    obtain ⟨-, -, -, -, hn⟩ := hr.retryableFailure hs
    rw [hp] at hn
    cases hn
  | succeeded | terminalFailure | deadLettered =>
    obtain ⟨-, -, ⟨ht, hm, hb⟩, -⟩ := hr.settled (by rw [hs]; rfl)
    refine ⟨ht, hm, ?_⟩
    change (r.outboundPayloadJson.map (·.value)).isSome
    rwa [Option.isSome_map]

def DocumentOp.Stores {T : Type} : (o : DocumentOp) → o.Value T → Prop
  | .claim _, c => c.record.WellFormed ∧ (c.owner → c.record.status = .processing)
  | .get _, found => ∀ record ∈ found, record.WellFormed
  | .finish _, record => record.WellFormed
  | .pending _, records => ∀ record ∈ records,
    record.WellFormed ∧ record.publicationState = .pending
  | _, _ => True

/-- No collaborator raises the store's own values or this module's own `RuntimeError`. -/
def Sane (o : DocumentOp) (r : Except Raised (o.Value T)) : Prop :=
  r ≠ .error .runtimeError ∧ ∀ a, r = .ok a → o.Stores a

variable [LinearOrder T]

theorem Workers.Step.sane {s t : Workers T} (st : Workers.Step s o r t) (hs : s.WellFormed)
    (ht : t.WellFormed) (hr : r ≠ .error .runtimeError) : Sane o r := by
  refine ⟨hr, fun a ha => ?_⟩
  cases st with
  | claim now leaseUntil claimToken hrun =>
    obtain rfl := raise_eq_ok ha
    cases claimSync_outcome hrun with
    | opened hw _ _ hset => exact ⟨⟨_, ht _ _ hset.select, rfl⟩, fun _ => rfl⟩
    | reclaimed _ _ _ hset => exact ⟨⟨_, ht _ _ hset.select, rfl⟩, fun _ => rfl⟩
    | busy h => exact ⟨⟨_, hs _ _ h, rfl⟩, nofun⟩
  | get =>
    intro record hrec
    obtain rfl := Except.ok.inj (raise_eq_ok ha)
    obtain ⟨q, hq, rfl⟩ := Option.map_eq_some_iff.mp hrec
    exact ⟨q, hs _ _ hq, rfl⟩
  | finish now hrun =>
    obtain rfl := raise_eq_ok ha
    cases finishSync_outcome hrun with
    | finished _ _ _ hset => exact ⟨_, ht _ _ hset.select, rfl⟩
  | pending =>
    intro record hrec
    obtain ⟨q, hq, hp, rfl⟩ := mem_pendingSync (raise_eq_ok ha) hrec
    exact ⟨⟨q, hs _ _ (Table.select_of_mem hq), rfl⟩, hp⟩
  | unavailable => cases ha
  | recordRetryable | publicationUpdate | load | execute | rounds | sleep | publish |
    acknowledge | retry => exact trivial

end Answers

section Tasks

variable {record : DocumentOperationRecord T}

/-- Answered sanely, a task does not come to a `RuntimeError`. -/
def Upholds (p : Task T α) (P : α → Prop) : Prop :=
  Gives (I := documentOps T) Sane (· ≠ .runtimeError) p P

def DocumentProcessingResult.WellFormed (result : DocumentProcessingResult T) : Prop :=
  result.record.WellFormed

theorem upholds_perform {o : DocumentOp} {P : o.Value T → Prop} (h : ∀ a, o.Stores a → P a) :
    Upholds (perform o) P := by
  rintro (e | a) ⟨hr, ha⟩
  · exact fun he => hr (congrArg _ he)
  · exact h a (ha a rfl)

theorem upholds_unit (o : DocumentOp) : Upholds (T := T) (perform o) fun _ => True :=
  upholds_perform fun _ _ => trivial

theorem upholds_liftEncode {m : Except EncodeError α} :
    Upholds (T := T) (liftEncode m) fun _ => True := by
  unfold liftEncode
  split
  · exact .pure trivial
  · exact .throw nofun

theorem upholds_liftRaised {m : Except Raised α} (h : m ≠ .error .runtimeError) :
    Upholds (T := T) (liftRaised m) fun _ => True := by
  unfold liftRaised
  split
  · exact .pure trivial
  · exact .throw fun he => h (congrArg _ he)

theorem upholds_asMapping {j : Json} : Upholds (T := T) (asMapping j) fun _ => True := by
  unfold asMapping
  split
  · exact .pure trivial
  · exact .throw nofun

theorem upholds_claimTokenOf (h : record.claimToken.isSome) :
    Upholds (claimTokenOf record) fun _ => True := by
  unfold claimTokenOf
  split
  · exact .pure trivial
  next hn =>
    rw [hn] at h
    cases h

theorem upholds_recordRetryableFailure (key claimToken : String) (error : Dict) :
    Upholds (recordRetryableFailure key claimToken error)
      (DocumentOperationRecord.WellFormed (T := T)) := by
  refine (upholds_unit _).bind fun _ _ => ?_
  refine (upholds_perform (fun _ h => h)).bind fun found hf => ?_
  cases found with
  | none => exact .throw nofun
  | some r => exact .pure (hf r rfl)

theorem upholds_publicationUpdate (key : String) (published : Bool) :
    Upholds (publicationUpdate key published) (DocumentOperationRecord.WellFormed (T := T)) := by
  refine (upholds_unit _).bind fun _ _ => ?_
  refine (upholds_perform (fun _ h => h)).bind fun found hf => ?_
  cases found with
  | none => exact .throw nofun
  | some r => exact .pure (hf r rfl)

theorem upholds_finishFailure (h : record.claimToken.isSome) (error : Dict)
    (deadLettered : Bool) :
    Upholds (finishFailure record error deadLettered) DocumentOperationRecord.WellFormed :=
  (upholds_claimTokenOf h).bind fun _ _ => upholds_perform fun _ h => h

theorem upholds_pollDuplicate (h : record.WellFormed) (n : Nat) :
    Upholds (pollDuplicate record n) DocumentOperationRecord.WellFormed := by
  induction n with
  | zero => exact .pure h
  | succ n ih =>
    refine (upholds_unit _).bind fun _ _ => ?_
    refine (upholds_perform (fun _ h => h)).bind fun found hf => ?_
    cases found with
    | none => exact .pure h
    | some current =>
      dsimp only
      split
      · exact .pure (hf current rfl)
      · exact ih

theorem upholds_settledDuplicate (h : record.WellFormed) :
    Upholds (settledDuplicate record) DocumentOperationRecord.WellFormed := by
  unfold settledDuplicate
  split
  · exact .pure h
  · exact (upholds_unit _).bind fun n _ => upholds_pollDuplicate h n

theorem upholds_claimOrConflict (args : ClaimArgs) :
    Upholds (T := T) (claimOrConflict args) fun claim => ∀ c ∈ claim,
      DocumentOp.Stores (.claim args) c := by
  refine .tryCatch (F := (· ≠ .runtimeError)) ?_ fun e he => ?_
  · refine Gives.map (upholds_perform fun _ h => h) fun c hc => ?_
    rintro _ ⟨⟩
    exact hc
  · split
    · exact .pure fun c hc => absurd hc (Option.not_mem_none c)
    · exact .throw he

theorem upholds_recordConflict (runtime : Runtime) (normalizedPayload : Dict) (fingerprint : String)
    (metadata : Dict) : Upholds (recordConflict runtime record normalizedPayload fingerprint metadata)
      DocumentProcessingResult.WellFormed := by
  refine (upholds_perform (fun _ h => h)).bind fun claim hc => ?_
  dsimp only
  split
  · exact (upholds_settledDuplicate hc.1).bind fun r hr => .pure hr
  next ho =>
    have ht := hc.1.token (.inl (hc.2 (by simpa using ho)))
    exact (upholds_finishFailure ht _ _).bind fun r hr => .pure hr

theorem upholds_recordConflictOf (runtime : Runtime) (key : String) (normalizedPayload : Dict)
    (fingerprint : String) (metadata : Dict) :
    Upholds (recordConflictOf (T := T) runtime key normalizedPayload fingerprint metadata)
      DocumentProcessingResult.WellFormed := by
  refine (upholds_perform (fun _ h => h)).bind fun found _ => ?_
  cases found with
  | none => exact .throw nofun
  | some existing => exact upholds_recordConflict _ _ _ _

theorem upholds_recordValidationFailure (runtime : Runtime) (payload : Json) (messageId : PyStr)
    (headers : Dict) (message : PyStr) :
    Upholds (recordValidationFailure (T := T) runtime payload messageId headers message)
      DocumentProcessingResult.WellFormed := by
  have hn : normalizeUntrustedPayload runtime payload ≠ .error .runtimeError := by
    unfold normalizeUntrustedPayload
    repeat' split
    all_goals nofun
  refine (upholds_liftRaised hn).bind fun _ _ => ?_
  refine upholds_asMapping.bind fun _ _ => ?_
  refine upholds_liftEncode.bind fun _ _ => ?_
  refine upholds_liftEncode.bind fun _ _ => ?_
  refine (upholds_claimOrConflict _).bind fun claim hc => ?_
  cases claim with
  | none => exact upholds_recordConflictOf _ _ _ _ _
  | some claim =>
    obtain ⟨hw, ho⟩ := hc claim rfl
    dsimp only
    split
    · exact (upholds_settledDuplicate hw).bind fun r hr => .pure hr
    next hno =>
      have ht := hw.token (.inl (ho (by simpa using hno)))
      exact (upholds_finishFailure ht _ _).bind fun r hr => .pure hr

theorem upholds_resolveChunkContent (runtime : Runtime) (request : DocumentVectorizeInput) :
    Upholds (T := T) (resolveChunkContent runtime request) fun loaded =>
      loaded.untexted = request.untexted ∧ request.loadable := by
  have h : Loads (T := T) Sane (fun _ => True) (· ≠ .runtimeError) := by
    refine ⟨fun _ _ _ => trivial, trivial, fun _ e _ _ => ?_, fun _ _ _ _ => nofun⟩
    cases e <;> exact nofun
  exact (h.resolveChunkContent runtime request fun _ => nofun).gives

theorem upholds_deepcopy (room : Bool) (a : α) :
    Upholds (T := T) (deepcopy room a) fun _ => True := by
  unfold deepcopy
  split
  · exact .pure trivial
  · exact .throw nofun

theorem upholds_executeVectorizer (runtime : Runtime) (request : DocumentVectorizeInput) :
    Upholds (T := T) (executeVectorizer runtime request) fun _ => True := by
  refine (upholds_deepcopy _ _).bind fun _ _ => ?_
  refine (upholds_unit _).bind fun result _ => ?_
  split
  · exact .pure trivial
  · refine .throw ?_
    unfold nodeFailure
    split <;> nofun

theorem upholds_vectorizeClaimed (runtime : Runtime) (request : DocumentVectorizeInput)
    (key operationId claimToken : String) :
    Upholds (vectorizeClaimed runtime request record key operationId claimToken)
      DocumentProcessingResult.WellFormed := by
  refine (upholds_resolveChunkContent _ _).bind fun _ _ => ?_
  refine (upholds_executeVectorizer _ _).bind fun _ _ => ?_
  exact (upholds_perform (fun _ h => h)).bind fun r hr => .pure hr

theorem upholds_vectorizeFailed (h : record.claimToken.isSome) (key claimToken : String)
    {raised : Raised} (hr : raised ≠ .runtimeError) :
    Upholds (vectorizeFailed record key claimToken raised)
      DocumentProcessingResult.WellFormed := by
  unfold vectorizeFailed
  split
  · refine .bind (P := fun _ => True) (.tryCatch (F := (· ≠ .runtimeError)) ?_ fun e he => ?_)
      fun _ _ => .throw nofun
    · exact (upholds_recordRetryableFailure _ _ _).bind fun _ _ => .pure trivial
    · split
      · exact .pure trivial
      · exact .throw he
  · split
    · split
      · exact (upholds_recordRetryableFailure _ _ _).bind fun r hr => .pure hr
      · exact (upholds_finishFailure h _ _).bind fun r hr => .pure hr
    · exact .throw hr

theorem upholds_processRequest (runtime : Runtime) (request : DocumentVectorizeInput)
    (messageId : PyStr) (metadata : Dict) :
    Upholds (processRequest (T := T) runtime request messageId metadata)
      DocumentProcessingResult.WellFormed := by
  refine upholds_liftEncode.bind fun key _ => ?_
  refine upholds_liftEncode.bind fun fingerprint _ => ?_
  refine (upholds_claimOrConflict _).bind fun claim hc => ?_
  cases claim with
  | none => exact upholds_recordConflictOf _ _ _ _ _
  | some claim =>
    obtain ⟨hw, ho⟩ := hc claim rfl
    dsimp only
    split
    · exact (upholds_settledDuplicate hw).bind fun r hr => .pure hr
    next hno =>
      have ht := hw.token (.inl (ho (by simpa using hno)))
      refine (upholds_claimTokenOf ht).bind fun token _ => ?_
      exact .tryCatch (upholds_vectorizeClaimed _ _ _ _ _) fun e he =>
        upholds_vectorizeFailed ht _ _ he

theorem upholds_process (runtime : Runtime) (payload : Json) (messageId : PyStr) (headers : Dict) :
    Upholds (process (T := T) runtime payload messageId headers)
      DocumentProcessingResult.WellFormed := by
  unfold process
  dsimp only
  split
  · exact upholds_processRequest _ _ _ _
  · exact upholds_recordValidationFailure _ _ _ _ _
  · exact .throw nofun
  · exact .throw nofun

theorem upholds_publishRecord (h : record.WellFormed) (hp : record.publicationState = .pending) :
    Upholds (publishRecord record) DocumentOperationRecord.WellFormed := by
  obtain ⟨ht, hm, hb⟩ := h.outbound hp
  unfold publishRecord
  split
  · refine .bind (P := fun _ => True) (.tryCatch (F := (· ≠ .runtimeError)) ?_ fun e he => ?_)
      fun _ _ => upholds_publicationUpdate _ _
    · exact upholds_unit _
    · split
      · exact .throw nofun
      · exact .throw he
  next hn =>
    obtain ⟨topic, ht⟩ := Option.isSome_iff_exists.mp ht
    obtain ⟨messageId, hm⟩ := Option.isSome_iff_exists.mp hm
    obtain ⟨payload, hb⟩ := Option.isSome_iff_exists.mp hb
    exact (hn topic messageId payload ht hm hb).elim

theorem upholds_publishOrFail (h : record.WellFormed) (hp : record.publicationState = .pending) :
    Upholds (publishOrFail record) fun _ => True := by
  refine .tryCatch (F := (· ≠ .runtimeError)) ?_ fun e he => ?_
  · exact (upholds_publishRecord h hp).map fun _ _ => trivial
  · split
    · exact .pure trivial
    · exact .throw he

theorem upholds_retryLater (consumer : ConsumerConfig) (message : DeepiriMessage) :
    Upholds (T := T) (retryLater consumer message) fun _ => True := by
  unfold retryLater
  split
  · exact (upholds_unit _).bind fun _ _ => upholds_unit _
  · exact upholds_unit _

theorem upholds_announce (consumer : ConsumerConfig) (message : DeepiriMessage)
    {result : DocumentProcessingResult T} (h : result.WellFormed) :
    Upholds (announce consumer message result) fun _ => True := by
  unfold announce
  split
  next hp =>
    refine (upholds_publishOrFail h hp).bind fun found _ => ?_
    cases found with
    | some record => exact (upholds_unit _).bind fun _ _ => .pure trivial
    | none =>
      refine (upholds_publicationUpdate _ _).bind fun r _ => ?_
      split
      · exact (upholds_retryLater _ _).bind fun _ _ => .pure trivial
      · exact (upholds_unit _).bind fun _ _ => .pure trivial
  · exact (upholds_unit _).bind fun _ _ => .pure trivial

theorem upholds_processMessage (consumer : ConsumerConfig) (message : DeepiriMessage) :
    Upholds (T := T) (processMessage consumer message) fun _ => True := by
  refine (upholds_process _ _ _ _).bind fun result hr => ?_
  split
  · split
    · exact (upholds_retryLater _ _).bind fun _ _ => .pure trivial
    · exact .pure trivial
  split
  next hs =>
    split
    · exact (upholds_retryLater _ _).bind fun _ _ => .pure trivial
    · refine (upholds_finishFailure (hr.token (.inr hs)) _ _).bind fun record hw => ?_
      exact upholds_announce _ _ hw
  · exact upholds_announce _ _ hr

theorem upholds_drainRecords (records : List (DocumentOperationRecord T))
    (h : ∀ r ∈ records, r.WellFormed ∧ r.publicationState = .pending) :
    Upholds (drainRecords records) fun _ => True := by
  induction records with
  | nil => exact .pure trivial
  | cons record rest ih =>
    obtain ⟨⟨hw, hp⟩, hrest⟩ := List.forall_mem_cons.mp h
    refine (upholds_publishOrFail hw hp).bind fun found _ => ?_
    cases found with
    | some _ => exact (ih hrest).bind fun _ _ => .pure trivial
    | none => exact (upholds_publicationUpdate _ _).bind fun _ _ => ih hrest

theorem upholds_drainPendingPublications (limit : Int) :
    Upholds (T := T) (drainPendingPublications limit) fun _ => True :=
  (upholds_perform fun _ h => h).bind fun records h => upholds_drainRecords records h

end Tasks

def Task.raises (p : Task T α) : Program (documentOps T) (Option Raised) :=
  p.run.bind fun
    | .ok _ => .pure none
    | .error e => .pure (some e)

inductive Serving : Program (documentOps T) (Option Raised) → Prop
  | process (runtime : Runtime) (payload : Json) (messageId : PyStr) (headers : Dict) :
      Serving (process runtime payload messageId headers).raises
  | message (consumer : ConsumerConfig) (message : DeepiriMessage) :
      Serving (processMessage consumer message).raises
  | drain (limit : Int) : Serving (drainPendingPublications limit).raises

theorem Upholds.raises {p : Task T α} (h : Upholds p P) :
    p.raises.Yields Sane (· ≠ some .runtimeError) := by
  refine Yields.bind h ?_
  rintro (e | a) hr
  · exact fun he => hr (Option.some.inj he)
  · exact nofun

theorem Serving.upholds {p : Program (documentOps T) (Option Raised)} (h : Serving p) :
    p.Yields Sane (· ≠ some .runtimeError) := by
  cases h with
  | process runtime payload messageId headers =>
    exact (upholds_process runtime payload messageId headers).raises
  | message consumer message => exact (upholds_processMessage consumer message).raises
  | drain limit => exact (upholds_drainPendingPublications limit).raises

theorem raises_forget (p : Task T α) : (p.raises.bind fun _ => .pure ()) = p.detach := by
  rw [Task.raises, bind_assoc', Task.detach]
  congr 1
  funext r
  cases r <;> rfl

section Crew

variable [LinearOrder T]

theorem Serving.safe {p : Program (documentOps T) (Option Raised)} (h : Serving p)
    (s : Workers T) :
    (p.bind fun _ => .pure ()).Safe (workers T) (outbox T) (fun _ _ => True) s := by
  cases h with
  | process runtime payload messageId headers =>
    rw [raises_forget]
    exact detach_safe ((keeps_process runtime payload messageId headers).mono fun _ _ _ _ => trivial)
  | message consumer message =>
    rw [raises_forget]
    exact detach_safe (keeps_processMessage consumer message)
  | drain limit =>
    rw [raises_forget]
    exact detach_safe (keeps_drainPendingPublications limit)

/-- `workers`, where `runtimeError` is what this module raises: a collaborator's own is another
exception. -/
def serving (T : Type) [LinearOrder T] : World (documentOps T) (Workers T) where
  step s o r t := Workers.Step s o r t ∧ r ≠ .error .runtimeError
  abandon := (workers T).abandon

def operations (T : Type) [LinearOrder T] :
    System (Crew (documentOps T) (Workers T) Raised) (Option (Answer (documentOps T))) :=
  Crew.system (serving T) (fun s => s.table = .empty ∧ s.log = []) Serving

/-- What the pool of the crew keeps, well-formed rows and tasks that come to no `RuntimeError`. -/
structure Orderly (c : Crew (documentOps T) (Workers T) Raised) : Prop where
  sound : c.pool.Sound (workers T) (outbox T)
  rows : c.world.WellFormed
  tasks : ∀ q ∈ c.tasks, q.Yields Sane (· ≠ some .runtimeError)

theorem Serving.step_pool {c d : Crew (documentOps T) (Workers T) Raised}
    (st : (operations T).step c e d) : Pool.Step (workers T)
      (fun p => ∃ q, Serving q ∧ p = q.bind fun _ => .pure ()) c.pool d.pool := by
  have hW {s o r t} (h : (serving T).step s o r t) : (workers T).step s o r t := h.1
  have ha {o r} (h : (serving T).abandon o r) : (workers T).abandon o r := h
  exact Crew.Step.pool hW ha (fun q hq => ⟨q, hq, rfl⟩) st

theorem orderly : Invariant (operations T) Orderly where
  init := by
    rintro ⟨⟨_, _⟩, _⟩ ⟨⟨rfl, rfl⟩, rfl⟩
    refine ⟨⟨⟨nofun, nofun, nofun, nofun⟩, List.forall_mem_nil _⟩, fun key r hs => ?_,
      List.forall_mem_nil _⟩
    cases hs
  step := by
    rintro c e d h st
    have hsound : d.pool.Sound (workers T) (outbox T) := by
      refine Pool.Step.sound ?_ h.sound (Serving.step_pool st)
      rintro _ ⟨q, hq, rfl⟩ s -
      exact hq.safe s
    have hrows : d.world.WellFormed := by
      cases st with
      | spawn | abandon => exact h.rows
      | call hs => exact hs.1.writes.wellFormed h.rows hsound.1
    refine ⟨hsound, hrows, ?_⟩
    refine Crew.Step.yields nofun (fun p hp => hp.upholds) st (fun hs => ?_) (fun ha => ?_) h.tasks
    · exact hs.1.sane h.rows hrows hs.2
    · obtain ⟨-, rfl⟩ := ha
      exact ⟨nofun, nofun⟩

theorem attempts_granted {c d : Crew (documentOps T) (Workers T) Raised}
    (hr : Run (operations T) c es d) (key : String) :
    attempts (d.world.table.select key) =
      attempts (c.world.table.select key) + es.countP (·.any (granted key)) := by
  induction hr with
  | nil => rfl
  | cons st _ ih =>
    rw [ih, List.countP_cons]
    cases st with
    | spawn | abandon => simp
    | call hs =>
      dsimp only
      rw [hs.1.writes.attempts key, Option.any_some, Bool.toNat, Bool.cond_eq_ite]
      omega

theorem operation_rows {c d : Crew (documentOps T) (Workers T) Raised}
    (hc : (operations T).init c) (hr : Run (operations T) c es d) :
    (∀ key r, d.world.table.select key = some r →
      r.WellFormed ∧ r.attemptCount = es.countP (·.any (granted key))) ∧
    (∀ fs b, Run (operations T) d fs b → ∀ key r, d.world.table.select key = some r →
      r.publicationState = .published →
        ∃ q, b.world.table.select key = some q ∧ q.publicationState = .published) ∧
    ∀ q ∈ d.tasks, q ≠ .pure (some .runtimeError) := by
  have h := orderly.run hr (orderly.init hc)
  refine ⟨fun key r hs => ⟨h.rows key r hs, ?_⟩, fun fs b hb key r hs hp => ?_, fun q hq he => ?_⟩
  · have ha := attempts_granted hr key
    rw [hs, hc.1.1] at ha
    exact ha.trans (Nat.zero_add _)
  · have he : d.world.Evolves b.world := orderly.run_rel (fun c => .refl c.world) .trans
      (fun hi st => (Serving.step_pool st).rel hi.sound) hb h
    obtain ⟨q, hq, hrq⟩ := he.rows hs
    exact ⟨q, hq, hrq.published hp⟩
  · have hy := h.tasks q hq
    rw [he] at hy
    exact hy rfl

theorem raise_ne_runtimeError {m : Except StoreError α} : raise m ≠ .error .runtimeError := by
  cases m <;> nofun

/-- A refused payload, claimed and finished. -/
theorem operation_rows_refused : ∃ c d es, (operations Nat).init c ∧ Run (operations Nat) c es d ∧
    d.world.table.rows.length = 1 ∧
    (∀ key r, d.world.table.select key = some r →
      r.WellFormed ∧ r.attemptCount = es.countP (·.any (granted key))) ∧
    (∀ fs b, Run (operations Nat) d fs b → ∀ key r, d.world.table.select key = some r →
      r.publicationState = .published →
        ∃ q, b.world.table.select key = some q ∧ q.publicationState = .published) ∧
    ∀ q ∈ d.tasks, q ≠ .pure (some .runtimeError) := by
  let node : NodeResult := ⟨false, false, none, none, none, none⟩
  let server : Server (serving Nat) := {
    serve := (quiet 0 5 "a" .none node).serve
    sound := fun s o => ⟨(quiet 0 5 "a" .none node).sound s o, by
      cases o <;> first | exact raise_ne_runtimeError | nofun⟩ }
  let c : Crew (documentOps Nat) (Workers Nat) Raised := ⟨⟨.empty, []⟩, []⟩
  have hc : (operations Nat).init c := ⟨⟨rfl, rfl⟩, rfl⟩
  have hdrive : ∃ es, Run (operations Nat) _ es _ :=
    Crew.drive_run server 3 (p := (process .ample (.dict []) [] []).raises) (s := ⟨.empty, []⟩)
  obtain ⟨es, hr⟩ := hdrive
  have hrun := Run.cons (S := operations Nat) (.spawn (.process .ample (.dict []) [] [])) hr
  refine ⟨c, _, _, hc, hrun, ?_, operation_rows hc hrun⟩
  decide +kernel

end Crew

end PrismPipe.Document
