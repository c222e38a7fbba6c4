import PrismPipe.Document.Fencing

/-! Connections interleaved statement by statement.  `claim` and `finish` read their row inside
their transaction; the other calls read it back with a statement of its own. -/

namespace PrismPipe.Document

open Python Transition

def Call.key : Call T → String
  | .claim args _ _ _ => args.idempotencyKey
  | .finish args _ => args.idempotencyKey
  | .recordRetryableFailure key _ _ _ => key
  | .publicationUpdate key _ _ => key

/-- An `UPDATE` that commits by itself, then a `SELECT`. -/
def Call.twoStatements : Call T → Bool
  | .recordRetryableFailure .. | .publicationUpdate .. => true
  | _ => false

def Call.Produced (record : DocumentOperationRecord T) : Call T → Prop
  | .recordRetryableFailure _ claimToken error _ => record.status = .retryableFailure ∧
      record.claimToken = some claimToken ∧
      ∃ text, dumpText error = .ok text ∧ record.error = some text.value
  | _ => True

structure Reading (T : Type) where
  call : Call T
  committed : Option (Row T)

/-- `committed` is the row as of the call's own commit. -/
inductive Statement (T : Type)
  | claimed (args : ClaimArgs) (answer : Except StoreError (DocumentOperationClaim T))
      (committed : Option (Row T))
  | finished (args : FinishArgs) (answer : Except StoreError (DocumentOperationRecord T))
      (committed : Option (Row T))
  | updated (call : Call T) (committed : Option (Row T))
  | refused (call : Call T) (e : StoreError)
  | read (call : Call T) (committed : Option (Row T))
      (answer : Option (DocumentOperationRecord T))

def Statement.Linear : Statement T → Prop
  | .claimed _ (.ok claim) committed => committed.map .fromRow = some claim.record
  | .finished _ (.ok record) committed => committed.map .fromRow = some record
  | .read call committed answer =>
    answer = committed.map .fromRow ∧ ∀ record ∈ answer, call.Produced record
  | _ => True

def Statement.Writes (key : String) : Statement T → Prop
  | .claimed args (.ok ⟨_, true⟩) _ => args.idempotencyKey = key
  | .finished args (.ok _) _ => args.idempotencyKey = key
  | .updated call (some _) => call.key = key
  | _ => False

def Call.marksPublished : Call T → Bool
  | .publicationUpdate _ published _ => published
  | _ => false

def Statement.marksPublished : Statement T → Bool
  | .updated call _ => call.marksPublished
  | _ => false

structure Connections (T : Type) where
  table : Operations T
  reading : List (Reading T)

def Connections.Steady (s : Connections T) : Prop :=
  ∀ p ∈ s.reading, p.committed = s.table.select p.call.key ∧
    ∀ row, p.committed = some row → p.call.Produced (.fromRow row)

section Store

variable {T : Type} [LinearOrder T]

inductive Connections.Step : Connections T → Statement T → Connections T → Prop
  | claim : (claimSync args now leaseUntil claimToken).run s.table = (answer, u) →
      Step s (.claimed args answer (u.select args.idempotencyKey)) ⟨u, s.reading⟩
  | finish : (finishSync args now).run s.table = (answer, u) →
      Step s (.finished args answer (u.select args.idempotencyKey)) ⟨u, s.reading⟩
  | update (call : Call T) : call.twoStatements → call.perform.run s.table = (.ok b, u) →
      Step s (.updated call (u.select call.key)) ⟨u, s.reading ++ [⟨call, u.select call.key⟩]⟩
  | refuse (call : Call T) : call.twoStatements → call.perform.run s.table = (.error e, u) →
      Step s (.refused call e) ⟨u, s.reading⟩
  | read : s.reading = l ++ p :: l' → (getSync p.call.key).run s.table = (.ok answer, u) →
      Step s (.read p.call p.committed answer) ⟨u, l ++ l'⟩

def connections (T : Type) [LinearOrder T] : System (Connections T) (Statement T) where
  init s := s.table = .empty ∧ s.reading = []
  step := Connections.Step

def calm (T : Type) [LinearOrder T] : System (Connections T) (Statement T) where
  init s := s.table = .empty ∧ s.reading = []
  step s a t := s.Step a t ∧ ∀ p ∈ s.reading, ¬ a.Writes p.call.key

omit [LinearOrder T] in
theorem run_getSync (t : Operations T) (key : String) :
    (getSync key).run t = (.ok ((t.select key).map .fromRow), t) := rfl

theorem update_cases {call : Call T} {t : Operations T} (ht : call.twoStatements)
    (h : call.perform.run t = (.ok b, u)) : t.select call.key = none ∧ u = t ∨
      ∃ r q, t.select call.key = some r ∧ t.Sets call.key q u ∧ call.Produced (.fromRow q) ∧
        (¬ call.marksPublished → DocumentOperationRecord.fromRow q ≠ .fromRow r) := by
  cases call with
  | claim | finish => cases ht
  | recordRetryableFailure =>
    obtain ⟨res, hr, hres⟩ := Sql.run_bind_pure h
    cases recordRetryableSync_outcome hr with
    | unwritable | stale => cases hres
    | @recorded r _ hw hs had hset =>
      refine .inr ⟨r, _, hs, hset, ⟨rfl, had.1, _, dumpText_ok hw, rfl⟩, fun _ he => ?_⟩
      have := (congrArg DocumentOperationRecord.status he).trans had.2
      cases this
  | publicationUpdate k published now =>
    obtain ⟨res, hr, -⟩ := Sql.run_bind_pure h
    cases publicationUpdateSync_outcome hr with
    | unknown hs => exact .inl ⟨hs, rfl⟩
    | @updated r _ hs hset =>
      refine .inr ⟨r, _, hs, hset, trivial, fun hm he => ?_⟩
      cases published with
      | true => exact hm rfl
      | false =>
        have := congrArg DocumentOperationRecord.publicationAttempts he
        exact absurd this (Nat.succ_ne_self _)

theorem refuse_frame {call : Call T} {t : Operations T} (ht : call.twoStatements)
    (h : call.perform.run t = (.error e, u)) : u = t := by
  cases call with
  | claim | finish => cases ht
  | recordRetryableFailure =>
    obtain ⟨res, hr, hres⟩ := Sql.run_bind_pure h
    cases recordRetryableSync_outcome hr with
    | unwritable | stale => rfl
    | recorded => cases hres
  | publicationUpdate =>
    obtain ⟨res, hr, hres⟩ := Sql.run_bind_pure h
    cases hr
    cases hres

theorem Connections.Step.frame {s t : Connections T} (h : s.Step a t) (hk : ¬ a.Writes key) :
    t.table.select key = s.table.select key := by
  cases h with
  | claim h =>
    cases claimSync_outcome h with
    | unwritable | taken | conflict | busy => rfl
    | opened _ _ _ hset => exact hset.select_ne hk
    | reclaimed _ _ _ hset => exact hset.select_ne hk
  | finish h =>
    cases finishSync_outcome h with
    | unknown | stale | unwritable => rfl
    | finished _ _ _ hset => exact hset.select_ne hk
  | update call ht h =>
    rcases update_cases ht h with ⟨-, rfl⟩ | ⟨r, q, -, hset, -⟩
    · rfl
    · rw [hset.select] at hk
      exact hset.select_ne hk
  | refuse call ht h => rw [refuse_frame ht h]
  | read _ h =>
    rw [run_getSync] at h
    cases h
    rfl

theorem steady : Invariant (calm T) Connections.Steady where
  init := by
    rintro ⟨t, l⟩ ⟨rfl, rfl⟩ p hp
    cases hp
  step := by
    intro s a t hs h
    obtain ⟨st, hw⟩ := h
    have hframe {p : Reading T} (hp : p ∈ s.reading) :
        p.committed = t.table.select p.call.key ∧
          ∀ row, p.committed = some row → p.call.Produced (.fromRow row) := by
      rw [st.frame (hw p hp)]
      exact hs p hp
    cases st with
    | claim | finish | refuse => exact fun p hp => hframe hp
    | update call ht h =>
      intro p hp
      rcases List.mem_append.mp hp with hp | hp
      · exact hframe hp
      obtain rfl := List.mem_singleton.mp hp
      refine ⟨rfl, fun row hrow => ?_⟩
      rcases update_cases ht h with ⟨hn, rfl⟩ | ⟨r, q, -, hset, hprod, -⟩
      · exact nomatch hn.symm.trans hrow
      · exact Option.some.inj (hset.select.symm.trans hrow) ▸ hprod
    | read hp h =>
      intro q hq
      refine hframe (hp ▸ ?_)
      rcases List.mem_append.mp hq with hq | hq
      · exact List.mem_append_left _ hq
      · exact List.mem_append_right _ (List.mem_cons_of_mem _ hq)

theorem Connections.Steady.linear {s t : Connections T} (hs : s.Steady) (h : s.Step a t) :
    a.Linear := by
  cases h with
  | claim h =>
    cases claimSync_outcome h with
    | unwritable | taken | conflict => trivial
    | opened _ _ _ hset => exact congrArg (Option.map _) hset.select
    | busy hr => exact congrArg (Option.map _) hr
    | reclaimed _ _ _ hset => exact congrArg (Option.map _) hset.select
  | finish h =>
    cases finishSync_outcome h with
    | unknown | stale | unwritable => trivial
    | finished _ _ _ hset => exact congrArg (Option.map _) hset.select
  | update | refuse => trivial
  | read hp h =>
    rw [run_getSync] at h
    cases h
    obtain ⟨hc, hprod⟩ := hs _ (hp ▸ List.mem_append_right _ List.mem_cons_self)
    refine ⟨by rw [hc], ?_⟩
    intro record hr
    obtain ⟨row, hrow, rfl⟩ := Option.map_eq_some_iff.mp hr
    exact hprod row (hc.trans hrow)

theorem Connections.Step.visible {s t : Connections T} (h : s.Step a t) (hw : a.Writes key)
    (hm : ¬ a.marksPublished) :
    (t.table.select key).map DocumentOperationRecord.fromRow ≠
      (s.table.select key).map .fromRow := by
  cases h with
  | claim h =>
    cases claimSync_outcome h with
    | unwritable | taken | conflict | busy => cases hw
    | opened _ hs _ hset =>
      cases hw
      rw [hset.select, hs]
      exact nofun
    | reclaimed hs _ _ hset =>
      cases hw
      rw [hset.select, hs]
      intro he
      have := congrArg DocumentOperationRecord.attemptCount (Option.some.inj he)
      exact absurd this (Nat.succ_ne_self _)
  | finish h =>
    cases finishSync_outcome h with
    | unknown | stale | unwritable => cases hw
    | finished hs had _ hset =>
      cases hw
      rw [hset.select, hs]
      intro he
      have := (congrArg DocumentOperationRecord.claimToken (Option.some.inj he)).trans had.1
      cases this
  | update call ht h =>
    rcases update_cases ht h with ⟨hn, rfl⟩ | ⟨r, q, hr, hset, -, hne⟩
    · rw [hn] at hw
      cases hw
    · rw [hset.select] at hw
      obtain rfl : call.key = key := hw
      rw [hset.select, hr]
      exact fun he => hne hm (Option.some.inj he)
  | refuse | read => cases hw

/-- Where no row is written between a call's commit and its read, what is returned is the row as
of the commit; where one is, other than by another mark of publication, a read there returns
something else. -/
theorem records_linear {s t : Connections T} (hs : (calm T).init s)
    (h : Run (calm T) s es t) : (∀ a ∈ es, a.Linear) ∧
      ∀ a u p, t.Step a u → p ∈ t.reading → a.Writes p.call.key → ¬ a.marksPublished →
        ¬ (Statement.read p.call p.committed
          ((u.table.select p.call.key).map .fromRow)).Linear := by
  have hsteady := steady.init hs
  clear hs
  induction h with
  | nil =>
    refine ⟨List.forall_mem_nil _, fun a u p st hp hw hm hl => ?_⟩
    have hv := st.visible hw hm
    rw [← (hsteady p hp).1] at hv
    exact hv hl.1
  | cons st _ ih =>
    obtain ⟨hes, hend⟩ := ih (steady.step hsteady st)
    refine ⟨fun a ha => ?_, hend⟩
    rcases List.mem_cons.mp ha with rfl | ha
    · exact hsteady.linear st.1
    · exact hes a ha

/-- A claim, and its failure recorded and read back. -/
theorem records_linear_failure : ∃ (s t : Connections Nat) (es : List (Statement Nat)),
    es.length = 3 ∧ Run (calm Nat) s es t ∧ ∀ a ∈ es, a.Linear := by
  let args : ClaimArgs := ⟨"op", "k", "f", [], [], "document.vectorize", .dict [], .dict []⟩
  have h : Run (calm Nat) ⟨.empty, []⟩ _ _ :=
    .cons ⟨.claim (show (claimSync args 0 5 "a").run _ = _ from rfl),
      List.forall_mem_nil _⟩ <|
    .cons ⟨.update (.recordRetryableFailure "k" "a" (.dict []) 1) rfl rfl,
      List.forall_mem_nil _⟩ <|
    .cons ⟨.read (show [_] = [] ++ _ :: [] from rfl) rfl, fun _ _ hw => hw⟩ .nil
  exact ⟨_, _, _, rfl, h, (records_linear ⟨rfl, rfl⟩ h).1⟩

/-- Between the failure and its read, another worker claims the operation: the failed attempt is
handed the token of the new one. -/
theorem reclaimed_not_linear : ∃ (s t : Connections Nat) (es : List (Statement Nat)),
    (connections Nat).init s ∧ Run (connections Nat) s es t ∧ ∃ a ∈ es, ¬ a.Linear := by
  let args : ClaimArgs := ⟨"op", "k", "f", [], [], "document.vectorize", .dict [], .dict []⟩
  have h : Run (connections Nat) ⟨.empty, []⟩ _ _ :=
    .cons (.claim (show (claimSync args 0 5 "a").run _ = _ from rfl)) <|
    .cons (.update (.recordRetryableFailure "k" "a" (.dict []) 1) rfl rfl) <|
    .cons (.claim (show (claimSync args 1 6 "b").run _ = _ from rfl)) <|
    .cons (.read (show [_] = [] ++ _ :: [] from rfl) rfl) .nil
  refine ⟨_, _, _, ⟨rfl, rfl⟩, h, _, List.mem_of_getElem? (i := 3) rfl, ?_⟩
  rintro ⟨he, -⟩
  have he : some (some "b") = some (some "a") :=
    congrArg (Option.map DocumentOperationRecord.claimToken) he
  exact absurd he (by decide)

end Store

end PrismPipe.Document
