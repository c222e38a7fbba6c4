import PrismPipe.Document.Deliveries

/-! Deliveries that share an idempotency key: the fingerprint of the first owns it, every other is
filed once as a conflict. -/

namespace PrismPipe.Document

open Python Program

variable {T : Type} [LinearOrder T]

abbrev unruled (T : Type) [LinearOrder T] : World (documentOps T) (Desk T) :=
  desk T fun _ _ => True

theorem unruled_answers [Inhabited T] (s : Desk T) (o : DocumentOp) :
    ∃ a t, (unruled T).step s o a t := Desk.answers (fun _ _ _ => trivial) s o

/-- Only the row of `q`'s key was written, and it is of the same request. -/
def Beside (t₀ : Operations T) (q : Row T) (t : Operations T) : Prop :=
  (∀ k, q.idempotencyKey ≠ k → t.select k = t₀.select k) ∧
    ∃ r, t.select q.idempotencyKey = some r ∧ r.requestFingerprint = q.requestFingerprint ∧
      r.operationId = q.operationId

omit [LinearOrder T] in
theorem beside_of_sets {t₀ t : Operations T} {q : Row T} (h : t₀.Sets q.idempotencyKey q t) :
    Beside t₀ q t := ⟨fun _ hk => h.select_ne hk, q, h.select, rfl, rfl⟩

omit [LinearOrder T] in
theorem Beside.sets {t₀ t u : Operations T} {q r p : Row T} (h : Beside t₀ q t)
    (hs : t.select q.idempotencyKey = some r) (hset : t.Sets q.idempotencyKey p u)
    (hf : p.requestFingerprint = r.requestFingerprint) (ho : p.operationId = r.operationId) :
    Beside t₀ q u := by
  obtain ⟨hother, r', hs', hf', ho'⟩ := h
  obtain rfl := Option.some.inj (hs.symm.trans hs')
  exact ⟨fun k hk => (hset.select_ne hk).trans (hother k hk), p, hset.select, hf.trans hf',
    ho.trans ho'⟩

def Stays (J : Operations T → Prop) (p : Task T α) : Prop :=
  ∀ s : Desk T, J s.1.table →
    Ends (unruled T) p (fun _ t => J t.1.table) (fun _ t => J t.1.table) s

namespace Stays

variable {J : Operations T → Prop}

theorem pure (a : α) : Stays J (Pure.pure a : Task T α) := fun _ h => h

theorem throw (e : Raised) : Stays J (MonadExcept.throw e : Task T α) := fun _ h => h

theorem bind {p : Task T α} {f : α → Task T β} (hp : Stays J p) (hf : ∀ a, Stays J (f a)) :
    Stays J (p >>= f) := by
  intro s hs
  exact Ends.bind (hp s hs) (fun a t ht => hf a t ht) fun _ _ => id

theorem tryCatch {p : Task T α} {g : Raised → Task T α} (hp : Stays J p)
    (hg : ∀ e, Stays J (g e)) : Stays J (MonadExcept.tryCatch p g) := by
  intro s hs
  exact ends_tryCatch.mpr ((hp s hs).mono (fun _ _ => id) fun e t ht => hg e t ht)

theorem perform [Inhabited T] {o : DocumentOp}
    (h : ∀ s a u, J s.table → Workers.Step s o a u → J u.table) :
    Stays J (perform o : Task T _) := by
  intro s hs
  refine Desk.ends_perform unruled_answers fun a u st => ?_
  have := h s.1 a u hs st.1
  cases a <;> exact this

end Stays

section Owned

variable [Inhabited T] {t₀ : Operations T} {q : Row T}

theorem stays_get (J : Operations T → Prop) (key : String) : Stays J (perform (.get key)) :=
  .perform fun _ _ _ hs st => by cases st <;> exact hs

theorem stays_execute (J : Operations T → Prop) (payload : Dict) :
    Stays J (perform (.execute payload)) :=
  .perform fun _ _ _ hs st => by cases st <;> exact hs

theorem stays_finish {args : FinishArgs} (hk : args.idempotencyKey = q.idempotencyKey) :
    Stays (Beside t₀ q) (perform (.finish args)) := by
  refine .perform fun s a u hs st => ?_
  cases st with
  | finish now hrun =>
    cases finishSync_outcome hrun with
    | unknown | stale | unwritable => exact hs
    | finished hsel _ _ hset =>
      rw [hk] at hsel hset
      exact hs.sets hsel hset rfl rfl
  | unavailable => exact hs

theorem stays_recordRetryable {error : Json} {claimToken : String} :
    Stays (Beside t₀ q) (perform (.recordRetryable q.idempotencyKey claimToken error)) := by
  refine .perform fun s a u hs st => ?_
  cases st with
  | recordRetryable now hrun =>
    cases recordRetryableSync_outcome hrun with
    | unwritable | stale => exact hs
    | recorded _ hsel _ hset => exact hs.sets hsel hset rfl rfl
  | unavailable => exact hs

theorem stays_recordRetryableFailure {error : Dict} {claimToken : String} :
    Stays (Beside t₀ q) (recordRetryableFailure q.idempotencyKey claimToken error) := by
  refine stays_recordRetryable.bind fun _ => (stays_get _ _).bind fun found => ?_
  cases found with
  | none => exact .throw _
  | some record => exact .pure _

theorem stays_finishFailure {record : DocumentOperationRecord T} {error : Dict}
    (hk : record.idempotencyKey = q.idempotencyKey) :
    Stays (Beside t₀ q) (finishFailure record error) := by
  refine .bind ?_ fun _ => stays_finish hk
  unfold claimTokenOf
  split
  · exact .pure _
  · exact .throw _

theorem stays_resolveChunkContent (J : Operations T → Prop) (runtime : Runtime)
    (request : DocumentVectorizeInput) : Stays J (resolveChunkContent runtime request) := by
  have h : Loads (T := T) (fun _ _ => True) (fun _ => True) fun _ => True :=
    ⟨fun _ _ _ => trivial, trivial, fun _ _ _ _ => trivial, fun _ _ _ _ => trivial⟩
  intro s hs
  refine ((h.resolveChunkContent runtime request fun _ => trivial).ends
    (J := fun s : Desk T => J s.1.table) hs ?_).mono (fun _ _ => And.right) fun _ _ => And.right
  intro o t ho ht
  refine ⟨unruled_answers t o, fun r u st => ⟨trivial, ?_⟩⟩
  rw [st.1.1.of_isLoad ho]
  exact ht

omit [Inhabited T] in
theorem stays_deepcopy (J : Operations T → Prop) (room : Bool) (a : α) :
    Stays J (deepcopy room a) := by
  unfold deepcopy
  split
  · exact .pure _
  · exact .throw _

theorem stays_executeVectorizer (J : Operations T → Prop) (runtime : Runtime)
    (request : DocumentVectorizeInput) : Stays J (executeVectorizer runtime request) := by
  refine (stays_deepcopy _ _ _).bind fun _ => ?_
  refine (stays_execute _ _).bind fun result => ?_
  split
  · exact .pure _
  · exact .throw _

theorem stays_vectorize {request : DocumentVectorizeInput} {record : DocumentOperationRecord T}
    {operationId claimToken : String} (hk : record.idempotencyKey = q.idempotencyKey) :
    Stays (Beside t₀ q)
      (tryCatch (vectorizeClaimed runtime request record q.idempotencyKey operationId claimToken)
        (vectorizeFailed record q.idempotencyKey claimToken)) := by
  refine .tryCatch ?_ fun raised => ?_
  · refine .bind (stays_resolveChunkContent _ _ _) fun _ => ?_
    exact (stays_executeVectorizer _ _ _).bind fun _ => (stays_finish rfl).bind fun _ => .pure _
  · unfold vectorizeFailed
    split
    · refine .bind (.tryCatch (stays_recordRetryableFailure.bind fun _ => .pure _) fun e => ?_)
        fun _ => .throw _
      split
      · exact .pure _
      · exact .throw _
    · split
      · split
        · exact stays_recordRetryableFailure.bind fun _ => .pure _
        · exact (stays_finishFailure hk).bind fun _ => .pure _
      · exact .throw _

theorem stays_pollDuplicate (J : Operations T → Prop) (record : DocumentOperationRecord T)
    (n : Nat) : Stays J (pollDuplicate record n) := by
  induction n with
  | zero => exact .pure _
  | succ n ih =>
    refine .bind (.perform fun _ _ _ hs st => by cases st <;> exact hs) fun _ => ?_
    refine (stays_get _ _).bind fun found => ?_
    split
    · exact .pure _
    · split
      · exact .pure _
      · exact ih

theorem stays_settledDuplicate (J : Operations T → Prop) (record : DocumentOperationRecord T) :
    Stays J (settledDuplicate record) := by
  unfold settledDuplicate
  split
  · exact .pure _
  · refine .bind (.perform fun _ _ _ hs st => by cases st <;> exact hs) fun n => ?_
    exact stays_pollDuplicate _ _ _

/-- The keys that deliveries of these fingerprints to `key` write rows under. -/
def Filed (key : String) (fingerprints : String → Prop) (k : String) : Prop :=
  k = key ∨ ∃ f, fingerprints f ∧ k = conflictKey key f

structure DigestsInjective (runtime : Runtime) (key : String) (fingerprints : String → Prop) :
    Prop where
  short : ∀ f g, fingerprints f → fingerprints g → take24 f = take24 g → f = g
  ids : ∀ a b, Filed key fingerprints a → Filed key fingerprints b →
    buildDocumentOperationId runtime a = buildDocumentOperationId runtime b → a = b

structure Unfiled (runtime : Runtime) (key : String) (fingerprints : String → Prop) (s : Desk T) :
    Prop where
  keys : ∀ k, Filed key fingerprints k → s.1.table.select k = none
  ids : ∀ r ∈ s.1.table.rows, ∀ k, Filed key fingerprints k →
    r.operationId ≠ buildDocumentOperationId runtime k

structure Row.Conflicting (r : Row T) (fingerprint : String) : Prop where
  fingerprint : r.requestFingerprint = fingerprint
  status : r.status = .terminalFailure
  code : ∃ error : Dict, r.errorJson.map (·.value) = some (.dict error) ∧
    error.get "code" = .str (py "IDEMPOTENCY_CONFLICT")

/-- What the deliveries keep: who owns the key, that a conflict's row is a settled conflict, and
that no other row has an id of theirs. -/
structure Owned (runtime : Runtime) (key : String) (fingerprints : String → Prop) (owner : String)
    (t : Operations T) : Prop where
  owner : ∃ r, t.select key = some r ∧ r.requestFingerprint = owner
  conflicts : ∀ f, fingerprints f → ∀ r, t.select (conflictKey key f) = some r → r.Conflicting f
  ids : ∀ r ∈ t.rows, ∀ k, Filed key fingerprints k →
    r.operationId = buildDocumentOperationId runtime k → r.idempotencyKey = k

section Keep

variable {runtime : Runtime} {fingerprints : String → Prop} {owner : String} {t₀ t : Operations T}
  {q : Row T}

omit [LinearOrder T] [Inhabited T]

theorem conflictKey_ne (key f : String) : conflictKey key f ≠ key := by
  intro h
  have hlength := congrArg String.length h
  have hmark : ":conflict:".length = 10 := by decide
  simp only [conflictKey, String.length_append, hmark] at hlength
  omega

theorem DigestsInjective.conflictKey_inj (hi : DigestsInjective runtime key fingerprints)
    (hf : fingerprints f) (hg : fingerprints g)
    (h : conflictKey key f = conflictKey key g) : f = g :=
  hi.short f g hf hg ((String.append_right_inj _).mp h)

theorem Beside.ids (h : Beside t₀ q t) (hq : q.idempotencyKey = key)
    (hold : ∀ r ∈ t₀.rows, ∀ k, Filed key fingerprints k →
      r.operationId = buildDocumentOperationId runtime k → r.idempotencyKey = k)
    (hnew : ∀ k, Filed key fingerprints k →
      q.operationId = buildDocumentOperationId runtime k → key = k) :
    ∀ r ∈ t.rows, ∀ k, Filed key fingerprints k →
      r.operationId = buildDocumentOperationId runtime k → r.idempotencyKey = k := by
  obtain ⟨hother, r', hs', -, ho'⟩ := h
  intro r hr k hk hid
  have hs := Table.select_of_mem hr
  by_cases hkey : q.idempotencyKey = r.idempotencyKey
  · rw [← hkey] at hs
    obtain rfl := Option.some.inj (hs'.symm.trans hs)
    rw [← hkey, hq]
    exact hnew k hk (ho' ▸ hid)
  · rw [hother _ hkey] at hs
    exact hold r (Table.select_mem hs) k hk hid

theorem Owned.beside (h : Owned runtime key fingerprints owner t₀) (hb : Beside t₀ q t)
    (hq : q.idempotencyKey = key) (hf : q.requestFingerprint = owner)
    (hnew : ∀ k, Filed key fingerprints k →
      q.operationId = buildDocumentOperationId runtime k → key = k) :
    Owned runtime key fingerprints owner t where
  owner := by
    obtain ⟨-, r, hs, hfp, -⟩ := hb
    exact ⟨r, hq ▸ hs, hfp.trans hf⟩
  conflicts f hF r hs := by
    refine h.conflicts f hF r ?_
    rwa [← hb.1 _ fun he => conflictKey_ne key f (he.symm.trans hq)]
  ids := hb.ids hq h.ids hnew

theorem Unfiled.beside {s : Desk T} (h : Unfiled runtime key fingerprints s)
    (hi : DigestsInjective runtime key fingerprints) (hb : Beside s.1.table q t)
    (hq : q.idempotencyKey = key) (hid : q.operationId = buildDocumentOperationId runtime key) :
    Owned runtime key fingerprints q.requestFingerprint t where
  owner := by
    obtain ⟨-, r, hs, hfp, -⟩ := hb
    exact ⟨r, hq ▸ hs, hfp⟩
  conflicts f hF r hs := by
    rw [hb.1 _ fun he => conflictKey_ne key f (he.symm.trans hq),
      h.keys _ (.inr ⟨f, hF, rfl⟩)] at hs
    cases hs
  ids := hb.ids hq (fun r hr k hk he => absurd he (h.ids r hr k hk)) fun k hk he =>
    hi.ids key k (.inl rfl) hk (hid.symm.trans he)

end Keep

/-- The delivery was filed as the settled conflict in `q`, and wrote nothing else. -/
structure FiledAs (key fingerprint : String) (s : Desk T) (q : Row T)
    (result : DocumentProcessingResult T) (t : Desk T) : Prop where
  result : result = ⟨.fromRow q, true⟩
  stored : t.1.table.select (conflictKey key fingerprint) = some q
  conflicting : q.Conflicting fingerprint
  others : ∀ k, conflictKey key fingerprint ≠ k → t.1.table.select k = s.1.table.select k
  same : ∀ r, s.1.table.select (conflictKey key fingerprint) = some r → r = q
  unexecuted : executions t.2 = executions s.2

section Spec

variable {runtime : Runtime} {key fingerprint owner : String} {fingerprints : String → Prop}
  {s : Desk T} {d : Delivery} {r : Row T}

omit [LinearOrder T] [Inhabited T] in
theorem Row.conflicting_finished {args : FinishArgs} {document : Utf8Text} {now : T}
    (hf : r.requestFingerprint = fingerprint) (hs : args.status = .terminalFailure)
    {operationId idempotencyKey : String}
    (he : Json.writable (.dict (idempotencyConflictError.toPayload.set (py "details") (.dict [
      (py "conflictingOperationId", .str (py operationId)),
      (py "conflictingIdempotencyKey", .str (py idempotencyKey))])))) :
    (r.finished args none (some (Json.written _ he)) document now).Conflicting fingerprint :=
  ⟨hf, hs, _, rfl, rfl⟩

omit [LinearOrder T] [Inhabited T] in
theorem Owned.filed (h : Owned runtime key fingerprints owner s.1.table)
    (hi : DigestsInjective runtime key fingerprints) (hF : fingerprints fingerprint) {q : Row T}
    {t : Operations T} (hset : s.1.table.Sets (conflictKey key fingerprint) q t)
    (hq : q.Conflicting fingerprint)
    (hid : q.operationId = buildDocumentOperationId runtime (conflictKey key fingerprint)) :
    Owned runtime key fingerprints owner t where
  owner := by
    obtain ⟨r, hs, hfp⟩ := h.owner
    exact ⟨r, (hset.select_ne (conflictKey_ne _ _)).trans hs, hfp⟩
  conflicts f hf p hp := by
    by_cases hfk : conflictKey key fingerprint = conflictKey key f
    · obtain rfl := hi.conflictKey_inj hF hf hfk
      obtain rfl := Option.some.inj (hset.select.symm.trans hp)
      exact hq
    · rw [hset.select_ne hfk] at hp
      exact h.conflicts f hf p hp
  ids p hp k hkf hpid := by
    have hs := Table.select_of_mem hp
    by_cases hkey : conflictKey key fingerprint = p.idempotencyKey
    · rw [← hkey] at hs
      obtain rfl := Option.some.inj (hset.select.symm.trans hs)
      exact hkey.symm.trans
        (hi.ids _ k (.inr ⟨fingerprint, hF, rfl⟩) hkf (hid.symm.trans hpid))
    · rw [hset.select_ne hkey] at hs
      exact h.ids p (Table.select_mem hs) k hkf hpid

theorem Owned.recordConflictOf (h : Owned runtime key fingerprints owner s.1.table)
    (hi : DigestsInjective runtime key fingerprints) (hF : fingerprints fingerprint)
    (hs : s.1.table.select key = some r) {payload metadata : Dict}
    (hp : Json.writable (.dict payload)) (hm : Json.writable (.dict metadata)) :
    Returns (unruled T) (recordConflictOf runtime key payload fingerprint metadata)
      (fun result t => ∃ q, FiledAs key fingerprint s q result t ∧
        Owned runtime key fingerprints owner t.1.table) s := by
  refine (Desk.returns_get unruled_answers).bind ?_
  rintro _ t ⟨rfl, ht⟩
  obtain rfl := ht.symm
  rw [hs, Option.map_some]
  obtain rfl := Table.select_key hs
  unfold recordConflict
  dsimp only
  let key := r.idempotencyKey
  have hckF : Filed key fingerprints (conflictKey key fingerprint) := .inr ⟨fingerprint, hF, rfl⟩
  refine Ends.bind (Desk.ends_claim unruled_answers ?_
    fun q hq => h.ids q hq _ hckF) ?_ ?_
  · exact ClaimArgs.writable_iff.mpr ⟨hp, hm,
      safeIdentityValue_encodable (Json.writable_get hp _) r.documentId.encodable,
      safeIdentityValue_encodable (Json.writable_get hp _) r.manifestVersion.encodable⟩
  · intro claim t hc
    generalize hclaim : some claim = found at hc
    cases hc with
    | conflict => cases hclaim
    | held q hq _ _ =>
      cases hclaim
      have hconf := h.conflicts fingerprint hF q hq
      have hne : q.status ≠ .processing := by rw [hconf.status]; exact nofun
      refine (Desk.returns_settledDuplicate hne).bind ?_
      rintro _ _ ⟨rfl, rfl⟩
      refine ends_pure.mpr ⟨q, ⟨rfl, hq, hconf, fun _ _ => rfl, fun p hp => ?_, rfl⟩, h⟩
      exact Option.some.inj (hp.symm.trans hq)
    | reclaimed q _ _ _ _ hq _ hn =>
      exact absurd (by rw [(h.conflicts fingerprint hF q hq).status]; rfl) hn
    | opened hargs now leaseUntil claimToken u hn hset =>
      cases hclaim
      let structured := idempotencyConflictError.toPayload.set (py "details") (.dict [
        (py "conflictingOperationId", .str (py r.operationId)),
        (py "conflictingIdempotencyKey", .str (py r.idempotencyKey))])
      have he : Json.writable (.dict structured) := Json.writable_set
        (by simp [idempotencyConflictError, DocumentProcessingError.toPayload]) (encodable_py _)
        (by simp)
      refine (Desk.returns_finishFailure unruled_answers false hset.select ⟨rfl, rfl⟩ he).bind ?_
      rintro _ _ ⟨args, document, now', v, hstatus, -, rfl, hset', rfl⟩
      have hsets := hset.trans hset'
      refine ends_pure.mpr ⟨_, ⟨rfl, hset'.select, Row.conflicting_finished rfl hstatus he,
        fun k hk => hsets.select_ne hk, fun p hp => ?_, ?_⟩,
        h.filed hi hF hsets (Row.conflicting_finished rfl hstatus he) rfl⟩
      · cases hn.symm.trans hp
      · simp [executions, Deed.isExecuted]
  · rintro _ _ ⟨rfl, hc⟩
    generalize hclaim : (none : Option (DocumentOperationClaim T)) = found at hc
    cases hc with
    | conflict q hq hn => exact hn (h.conflicts fingerprint hF q hq).fingerprint
    | _ => cases hclaim

theorem Owned.conflict (h : Owned runtime key fingerprints owner s.1.table)
    (hi : DigestsInjective runtime key fingerprints) (hd : d.Files runtime key fingerprint)
    (hF : fingerprints fingerprint) (hne : fingerprint ≠ owner) :
    Returns (unruled T) (d.process runtime)
      (fun result t => ∃ q, FiledAs key fingerprint s q result t ∧
        Owned runtime key fingerprints owner t.1.table) s := by
  obtain ⟨r, hs, hfp⟩ := h.owner
  have hid := fun q hq => h.ids q hq key (.inl rfl)
  obtain ⟨request, args, -, hargs, hk, hf, ho, hw, he⟩ := hd.process_eq (T := T)
  rw [he]
  exact ends_afterClaim_other unruled_answers hargs (fun q hq hqid => hk ▸ hid q hq (ho ▸ hqid))
    (hk ▸ hs) (fun hrf => hne (hf.symm.trans (hrf.symm.trans hfp)))
    (h.recordConflictOf hi hF hs hw hd.metadata)

theorem Owned.settled (h : Owned runtime key fingerprints owner s.1.table)
    (hd : d.Files runtime key owner) (hs : s.1.table.select key = some r) (hr : r.status.settled) :
    Returns (unruled T) (d.process runtime) (fun result t => result = ⟨.fromRow r, true⟩ ∧ t = s)
      s := by
  have hid := fun q hq => h.ids q hq key (.inl rfl)
  obtain ⟨p, hp, hfp⟩ := h.owner
  obtain rfl := Option.some.inj (hp.symm.trans hs)
  obtain ⟨request, args, -, hargs, hk, hf, ho, -, he⟩ := hd.process_eq (T := T)
  rw [he]
  exact returns_afterClaim_settled unruled_answers hargs
    (fun q hq hqid => hk ▸ hid q hq (ho ▸ hqid)) (hk ▸ hs) (hfp.trans hf.symm) hr

theorem ends_work {request : DocumentVectorizeInput} {q : Row T} {operationId : String}
    {t : Desk T} (hk : q.idempotencyKey = key) (hset : s.1.table.Sets key q t.1.table) :
    Ends (unruled T) (vectorizeOwned runtime request key operationId (.fromRow q))
      (fun _ u => Beside s.1.table q u.1.table) (fun _ u => Beside s.1.table q u.1.table) t := by
  subst hk
  refine Stays.bind ?_ (fun _ => stays_vectorize rfl) t (beside_of_sets hset)
  unfold claimTokenOf
  split
  · exact .pure _
  · exact .throw _

theorem Owned.worked (h : Owned runtime key fingerprints owner s.1.table)
    (hd : d.Files runtime key owner) : Ends (unruled T) (d.process runtime)
      (fun _ t => Owned runtime key fingerprints owner t.1.table ∧
        ∀ k, key ≠ k → t.1.table.select k = s.1.table.select k)
      (fun _ t => Owned runtime key fingerprints owner t.1.table ∧
        ∀ k, key ≠ k → t.1.table.select k = s.1.table.select k) s := by
  have hid := fun q hq => h.ids q hq key (.inl rfl)
  obtain ⟨r, hs, hfp⟩ := h.owner
  obtain ⟨request, args, -, hargs, hk, hf, ho, -, he⟩ := hd.process_eq (T := T)
  rw [he]
  refine ends_afterClaim_present unruled_answers hargs
    (fun q hq hqid => hk ▸ hid q hq (ho ▸ hqid)) (hk ▸ hs) (hfp.trans hf.symm) ?_ ?_
  · intro _
    have hstays : Stays (fun t => Owned runtime key fingerprints owner t ∧
        ∀ k, key ≠ k → t.select k = s.1.table.select k) (do
          let settled ← settledDuplicate (.fromRow r)
          return (⟨settled, true⟩ : DocumentProcessingResult T)) :=
      (stays_settledDuplicate _ _).bind fun _ => .pure _
    exact hstays s ⟨h, fun _ _ => rfl⟩
  · intro now leaseUntil claimToken u _ hset
    have hrk := Table.select_key hs
    rw [hk] at hset
    have hnew : ∀ k, Filed key fingerprints k →
        r.operationId = buildDocumentOperationId runtime k → key = k := fun k hkF hrid =>
      hrk.symm.trans (h.ids r (Table.select_mem hs) k hkF hrid)
    let q := r.reclaimed now leaseUntil claimToken
    have hwork : Ends (unruled T)
        (vectorizeOwned runtime request key (buildDocumentOperationId runtime key) (.fromRow q))
        (fun _ v => Beside s.1.table q v.1.table) (fun _ v => Beside s.1.table q v.1.table)
        (⟨u, s.1.log⟩, s.2) := ends_work hrk hset
    have hother (v : Desk T) (hb : Beside s.1.table (r.reclaimed now leaseUntil claimToken)
        v.1.table) : Owned runtime key fingerprints owner v.1.table ∧
          ∀ k, key ≠ k → v.1.table.select k = s.1.table.select k :=
      ⟨h.beside hb hrk hfp hnew, fun k hne => hb.1 k fun he => hne (hrk.symm.trans he)⟩
    exact hwork.mono (fun _ => hother) fun _ => hother

theorem Unfiled.worked (h : Unfiled runtime key fingerprints s)
    (hi : DigestsInjective runtime key fingerprints) (hd : d.Files runtime key fingerprint) :
    Ends (unruled T) (d.process runtime)
      (fun _ t => Owned runtime key fingerprints fingerprint t.1.table)
      (fun _ t => Owned runtime key fingerprints fingerprint t.1.table) s := by
  have hn := h.keys key (.inl rfl)
  obtain ⟨request, args, -, hargs, hk, hf, hid, -, he⟩ := hd.process_eq (T := T)
  rw [he]
  refine ends_afterClaim_absent unruled_answers hargs
    (fun q hq hqid => absurd (hqid.trans hid) (h.ids q hq key (.inl rfl))) (hk ▸ hn) ?_
  intro hw now leaseUntil claimToken u hset
  rw [hk] at hset
  have hown (u : Desk T)
      (hb : Beside s.1.table (args.row hw now leaseUntil claimToken) u.1.table) :
      Owned runtime key fingerprints fingerprint u.1.table := by
    have := h.beside hi hb hk hid
    rwa [show (args.row hw now leaseUntil claimToken).requestFingerprint = fingerprint from hf]
      at this
  exact (ends_work hk hset).mono (fun _ u => hown u) fun _ u => hown u

end Spec

theorem Delivery.Files.unique {runtime : Runtime} {d : Delivery} {key f g : String}
    (h : d.Files runtime key f) (h' : d.Files runtime key g) : f = g := by
  obtain ⟨request, hr, -, hf⟩ := h.accepted
  obtain ⟨request', hr', -, hg⟩ := h'.accepted
  cases hr.symm.trans hr'
  exact Except.ok.inj (hf.symm.trans hg)

/-- Deliveries to `process` one after another, each with what it came to. -/
def deliveries (T : Type) [LinearOrder T] (runtime : Runtime) : Transition.System (Desk T)
    (Delivery × Except Raised (DocumentProcessingResult T)) where
  init _ := True
  step s e t := Executes (unruled T) (e.1.process runtime).run s e.2 t

section Runs

variable {runtime : Runtime} {key fingerprint owner : String} {fingerprints : String → Prop}
  {s t : Desk T} {d : Delivery}
  {outcome₀ : Except Raised (DocumentProcessingResult T)}
  {later : List (Delivery × Except Raised (DocumentProcessingResult T))}

def Recorded (runtime : Runtime) (key owner : String)
    (later : List (Delivery × Except Raised (DocumentProcessingResult T))) (t : Operations T) :
    Prop :=
  ∀ d result f, (d, .ok result) ∈ later → d.Files runtime key f → f ≠ owner →
    ∃ q, t.select (conflictKey key f) = some q ∧ result = ⟨.fromRow q, true⟩

theorem Recorded.step (h : Owned runtime key fingerprints owner s.1.table)
    (hrec : Recorded runtime key owner later s.1.table)
    (hi : DigestsInjective runtime key fingerprints) (hF : fingerprints fingerprint)
    (hd : d.Files runtime key fingerprint)
    (st : (deliveries T runtime).step s (d, outcome₀) t) :
    Owned runtime key fingerprints owner t.1.table ∧
      Recorded runtime key owner (later ++ [(d, outcome₀)]) t.1.table := by
  by_cases hne : fingerprint = owner
  · subst hne
    have hpost : Owned runtime key fingerprints fingerprint t.1.table ∧
        ∀ k, key ≠ k → t.1.table.select k = s.1.table.select k := by
      have := Completes.executes (h.worked hd) st
      cases outcome₀ <;> exact this
    refine ⟨hpost.1, fun d' result f hmem hf hfn => ?_⟩
    rcases List.mem_append.mp hmem with hmem | hmem
    · obtain ⟨q, hq, hres⟩ := hrec d' result f hmem hf hfn
      exact ⟨q, (hpost.2 _ (conflictKey_ne _ _).symm).trans hq, hres⟩
    · cases List.mem_singleton.mp hmem
      exact absurd (hf.unique hd) hfn
  · have hpost := Completes.executes (h.conflict hi hd hF hne) st
    cases outcome₀ with
    | error e => exact hpost.elim
    | ok result =>
      obtain ⟨q, hq, hown⟩ := hpost
      refine ⟨hown, fun d' result' f hmem hf hfn => ?_⟩
      rcases List.mem_append.mp hmem with hmem | hmem
      · obtain ⟨p, hp, hres⟩ := hrec d' result' f hmem hf hfn
        by_cases hk : conflictKey key fingerprint = conflictKey key f
        · obtain rfl := hq.same p (hk ▸ hp)
          exact ⟨p, hk ▸ hq.stored, hres⟩
        · exact ⟨p, (hq.others _ hk).trans hp, hres⟩
      · cases List.mem_singleton.mp hmem
        obtain rfl := hf.unique hd
        exact ⟨q, hq.stored, hq.result⟩

theorem Recorded.run (hi : DigestsInjective runtime key fingerprints)
    (hF : ∀ e ∈ later, ∃ f, fingerprints f ∧ e.1.Files runtime key f)
    (hrun : Transition.Run (deliveries T runtime) s later t)
    {before : List (Delivery × Except Raised (DocumentProcessingResult T))}
    (h : Owned runtime key fingerprints owner s.1.table)
    (hrec : Recorded runtime key owner before s.1.table) :
    Owned runtime key fingerprints owner t.1.table ∧
      Recorded runtime key owner (before ++ later) t.1.table := by
  induction hrun generalizing before with
  | nil => exact ⟨h, by rwa [List.append_nil]⟩
  | @cons s e u es v st _ ih =>
    obtain ⟨f, hf, hd⟩ := hF e List.mem_cons_self
    obtain ⟨hown, hrec⟩ := Recorded.step h hrec hi hf hd st
    have := ih (fun e he => hF e (List.mem_cons_of_mem _ he)) hown hrec
    rwa [List.append_assoc] at this

/-- The first fingerprint owns the key: after any deliveries, one of another fingerprint runs
nothing, leaves the owner's row and is filed as its one conflict, and one of the owner, once
settled, finds the settled record. -/
theorem first_fingerprint_wins {first : Delivery} {s₀ : Desk T}
    (hi : DigestsInjective runtime key fingerprints) (h₀ : Unfiled runtime key fingerprints s₀)
    (hfirst : first.Files runtime key owner)
    (hlater : ∀ e ∈ later, ∃ f, fingerprints f ∧ e.1.Files runtime key f)
    (hrun : Transition.Run (deliveries T runtime) s₀ ((first, outcome₀) :: later) s)
    (hd : d.Files runtime key fingerprint) (hF : fingerprints fingerprint) :
    ∃ r, s.1.table.select key = some r ∧ r.requestFingerprint = owner ∧
      (fingerprint ≠ owner → Returns (unruled T) (d.process runtime) (fun result t =>
        executions t.2 = executions s.2 ∧ t.1.table.select key = some r ∧
        (∃ q, result = ⟨.fromRow q, true⟩ ∧ q.Conflicting fingerprint ∧
          t.1.table.select (conflictKey key fingerprint) = some q) ∧
        ∀ e ∈ later, e.1.Files runtime key fingerprint → ∀ earlier, e.2 = .ok earlier →
          result = earlier) s) ∧
      (fingerprint = owner → r.status.settled → Returns (unruled T) (d.process runtime)
        (fun result t => result = ⟨.fromRow r, true⟩ ∧ t = s) s) := by
  cases hrun with
  | @cons _ _ u _ _ st hrun =>
    have hown : Owned runtime key fingerprints owner u.1.table := by
      have := Completes.executes (h₀.worked hi hfirst) st
      cases outcome₀ <;> exact this
    have hnil : Recorded runtime key owner [] u.1.table := fun _ _ _ hmem =>
      absurd hmem List.not_mem_nil
    obtain ⟨hown, hrec⟩ := Recorded.run hi hlater hrun hown hnil
    obtain ⟨r, hs, hr⟩ := hown.owner
    refine ⟨r, hs, hr, fun hne => ?_, ?_⟩
    · refine (hown.conflict hi hd hF hne).mono ?_
      rintro result t ⟨q, hq, -⟩
      refine ⟨hq.unexecuted, (hq.others _ (conflictKey_ne _ _)).trans hs,
        ⟨q, hq.result, hq.conflicting, hq.stored⟩, ?_⟩
      rintro ⟨d', _⟩ he hf earlier rfl
      obtain ⟨p, hp, hres⟩ := hrec d' earlier _ he hf hne
      obtain rfl := hq.same p hp
      rw [hres, hq.result]
    · rintro rfl hsettled
      exact hown.settled hd hs hsettled

theorem exists_delivery (runtime : Runtime) (d : Delivery) (s : Desk T) :
    ∃ outcome t, (deliveries T runtime).step s (d, outcome) t := by
  obtain ⟨outcome, t, st⟩ := exists_executes unruled_answers (d.process runtime).run s
  exact ⟨outcome, t, st⟩

/-- A delivery of `n` chunks. -/
def chunked (n : Nat) : Delivery where
  payload := .dict [
    (py "routeId", .str (py "r")),
    (py "documentId", .str (py "d")),
    (py "manifestVersion", .int 1),
    (py "destination", .str (py "vectorize")),
    (py "qualityScore", .int 1),
    (py "document", .dict [(py "documentId", .str (py "d"))]),
    (py "chunks", .list ((List.range n).map fun i => .dict [
      (py "chunkId", .str (py (toString i))),
      (py "index", .int i),
      (py "text", .str (py "t"))]))]
  messageId := []
  headers := []

def chunkCount : Runtime where
  toInterpreter := .ample
  json t := match t.value with
    | .dict d => match Dict.get d "chunks" with
      | .list chunks => toString chunks.length
      | _ => ""
    | _ => ""
  text s := String.ofList s.toList.reverse
  dumps _ := true
  loads _ := true
  copies _ := true
  carries _ := true

def Delivery.filedAs (runtime : Runtime) (d : Delivery) (key fingerprint : String) : Bool :=
  (runtime.fromPayload d.payload).toOption.any fun request =>
    (buildDocumentIdempotencyKey runtime request.toPayload d.messageId d.metadata).toOption =
        some key &&
      (buildDocumentRequestFingerprint runtime request.toPayload).toOption = some fingerprint

theorem Delivery.files_of_filedAs (h : d.filedAs runtime key fingerprint)
    (hm : Json.writable (.dict d.metadata)) : d.Files runtime key fingerprint := by
  obtain ⟨request, hr, h⟩ := Option.any_eq_true _ _ |>.mp h
  rw [Bool.and_eq_true, decide_eq_true_eq, decide_eq_true_eq] at h
  exact ⟨⟨request, toOption_eq_some hr, toOption_eq_some h.1, toOption_eq_some h.2⟩, hm⟩

theorem first_fingerprint_wins_two : ∃ (outcome₀ : Except Raised (DocumentProcessingResult Nat))
    (s : Desk Nat), Transition.Run (deliveries Nat chunkCount) (⟨.empty, []⟩, [])
      [(chunked 1, outcome₀)] s ∧
    Returns (unruled Nat) (Delivery.process chunkCount (chunked 2))
      (fun _ t => executions t.2 = executions s.2) s := by
  let key := "document-vectorize:"
  let counts (f : String) : Prop := f = "1" ∨ f = "2"
  have hone : Delivery.Files chunkCount (chunked 1) key "1" :=
    Delivery.files_of_filedAs (by decide +kernel) (by decide +kernel)
  have htwo : Delivery.Files chunkCount (chunked 2) key "2" :=
    Delivery.files_of_filedAs (by decide +kernel) (by decide +kernel)
  -- opaque from here on, or elaboration runs `process` on it
  generalize chunked 2 = second at htwo ⊢
  have hi : DigestsInjective chunkCount key counts := by
    refine ⟨?_, ?_⟩
    · rintro f g (rfl | rfl) (rfl | rfl) <;> decide
    · rintro a b (rfl | ⟨f, rfl | rfl, rfl⟩) (rfl | ⟨g, rfl | rfl, rfl⟩) <;> decide
  have h₀ : Unfiled chunkCount key counts ((⟨.empty, []⟩, []) : Desk Nat) :=
    ⟨fun _ _ => rfl, fun _ hr => absurd hr List.not_mem_nil⟩
  obtain ⟨outcome₀, s, st⟩ := exists_delivery chunkCount (chunked 1)
    ((⟨.empty, []⟩, []) : Desk Nat)
  have hrun : Transition.Run (deliveries Nat chunkCount) (⟨.empty, []⟩, [])
      [(chunked 1, outcome₀)] s := .single st
  have hlater (e : Delivery × Except Raised (DocumentProcessingResult Nat)) (he : e ∈ []) :
      ∃ f, counts f ∧ e.1.Files chunkCount key f := absurd he List.not_mem_nil
  obtain ⟨r, -, -, hconflict, -⟩ := first_fingerprint_wins hi h₀ hone hlater hrun htwo (.inr rfl)
  exact ⟨outcome₀, s, hrun, (hconflict (by decide)).mono fun _ _ h => h.1⟩

end Runs

end Owned

end PrismPipe.Document
