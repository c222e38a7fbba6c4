import PrismPipe.Lib.Transition
import PrismPipe.Document.OperationsLaws

/-! Any number of workers over one store, with whatever claim tokens they kept: leases exclude,
tokens fence, an operation settles once. -/

namespace PrismPipe.Document

open Python Transition

inductive Call (T : Type)
  | claim (args : ClaimArgs) (now leaseUntil : T) (claimToken : String)
  | finish (args : FinishArgs) (now : T)
  | recordRetryableFailure (idempotencyKey claimToken : String) (error : Json) (now : T)
  | publicationUpdate (idempotencyKey : String) (published : Bool) (now : T)

/-- A call and its answer: whether it did what it is for.  A claim that returns the record of
another's operation did not. -/
structure Entry (T : Type) where
  call : Call T
  answer : Except StoreError Bool

def Entry.grant (key : String) : Entry T → Option String
  | ⟨.claim args _ _ claimToken, .ok true⟩ =>
    if args.idempotencyKey = key then some claimToken else none
  | _ => none

def Entry.finishes (key : String) : Entry T → Bool
  | ⟨.finish args _, .ok true⟩ => args.idempotencyKey = key
  | _ => false

structure Shared (T : Type) where
  table : Operations T
  clock : T
  history : List (Entry T)

namespace Shared

def grants (s : Shared T) (key : String) : List String := s.history.filterMap (Entry.grant key)

def lastGrant (s : Shared T) (key : String) : Option String := (s.grants key).head?

def finishes (s : Shared T) (key : String) : Nat := s.history.countP (Entry.finishes key)

end Shared

structure Row.Settles (r q : Row T) : Prop where
  status : q.status = r.status
  resultJson : q.resultJson = r.resultJson
  errorJson : q.errorJson = r.errorJson
  outboundTopic : q.outboundTopic = r.outboundTopic
  outboundMessageId : q.outboundMessageId = r.outboundMessageId
  outboundPayloadJson : q.outboundPayloadJson = r.outboundPayloadJson

theorem Row.Settles.refl (r : Row T) : r.Settles r := ⟨rfl, rfl, rfl, rfl, rfl, rfl⟩

theorem Row.Settles.trans {r q p : Row T} (h : r.Settles q) (k : q.Settles p) : r.Settles p :=
  ⟨k.1.trans h.1, k.2.trans h.2, k.3.trans h.3, k.4.trans h.4, k.5.trans h.5, k.6.trans h.6⟩

theorem Row.settles_publicationUpdated (published : Bool) (now : T) (r : Row T) :
    r.Settles (r.publicationUpdated published now) := by
  cases published <;> exact ⟨rfl, rfl, rfl, rfl, rfl, rfl⟩

structure View (T : Type) where
  row : Option (Row T)
  grants : List String
  finishes : Nat

def Shared.view (s : Shared T) (key : String) : View T :=
  ⟨s.table.select key, s.grants key, s.finishes key⟩

inductive Move {T : Type} : View T → View T → Prop
  | idle : Move v v
  | grant : (∀ r ∈ v.row, ¬ r.status.settled) → r'.status = .processing →
      r'.claimToken = some claimToken → Move v ⟨some r', claimToken :: v.grants, v.finishes⟩
  | finish : r.Admits claimToken (expectedStatus status) → status.settled → r'.status = status →
      r'.claimToken = none → Move ⟨some r, g, n⟩ ⟨some r', g, n + 1⟩
  | fail : r.status = .processing → r'.status = .retryableFailure →
      r'.claimToken = r.claimToken → Move ⟨some r, g, n⟩ ⟨some r', g, n⟩
  | publish : r.Settles r' → r'.claimToken = r.claimToken → Move ⟨some r, g, n⟩ ⟨some r', g, n⟩

inductive View.Fenced {T : Type} : View T → Prop
  | unknown : Fenced ⟨none, [], 0⟩
  | opened : ¬ r.status.settled → r.claimToken = some claimToken →
      Fenced ⟨some r, claimToken :: g, 0⟩
  | settled : r.status.settled → r.claimToken = none → Fenced ⟨some r, g, 1⟩

theorem Row.Settles.settled {r q : Row T} (h : r.Settles q) : q.status.settled = r.status.settled :=
  congrArg _ h.status

theorem expectedStatus_not_settled (status : DocumentOperationStatus) :
    ¬ (expectedStatus status).settled := by
  cases status <;> decide

theorem Move.fenced {v w : View T} (m : Move v w) (h : v.Fenced) : w.Fenced := by
  cases m with
  | idle => exact h
  | grant hd hs ht =>
    have hd' : ¬ DocumentOperationStatus.settled .processing := by decide
    cases h with
    | unknown => exact .opened (hs ▸ hd') ht
    | opened => exact .opened (hs ▸ hd') ht
    | settled hr => exact absurd hr (hd _ rfl)
  | finish ha hs hs' ht =>
    cases h with
    | opened => exact .settled (hs' ▸ hs) ht
    | settled hr => exact absurd (ha.2 ▸ hr) (expectedStatus_not_settled _)
  | fail hs hs' ht =>
    have hd' : ¬ DocumentOperationStatus.settled .retryableFailure := by decide
    cases h with
    | opened hd hc => exact .opened (hs' ▸ hd') (ht.trans hc)
    | settled hr =>
      rw [hs] at hr
      cases hr
  | publish hq ht =>
    cases h with
    | opened hd hc => exact .opened (hq.settled ▸ hd) (ht.trans hc)
    | settled hr hc => exact .settled (hq.settled ▸ hr) (ht.trans hc)

theorem View.Fenced.finishes_le {v : View T} (h : v.Fenced) : v.finishes ≤ 1 := by
  cases h <;> simp

theorem View.Fenced.settled_row {v : View T} (h : v.Fenced) (hn : v.finishes ≠ 0) :
    ∃ r, v.row = some r ∧ r.status.settled := by
  cases h with
  | unknown | opened => exact absurd rfl hn
  | settled hr => exact ⟨_, rfl, hr⟩

def View.Freezes (v w : View T) : Prop :=
  v.finishes ≠ 0 → w.finishes = v.finishes ∧ w.grants = v.grants ∧
    ∀ r, v.row = some r → ∃ q, w.row = some q ∧ r.Settles q

theorem View.Freezes.refl (v : View T) : v.Freezes v :=
  fun _ => ⟨rfl, rfl, fun r hr => ⟨r, hr, .refl r⟩⟩

theorem View.Freezes.trans {v w x : View T} (h : v.Freezes w) (k : w.Freezes x) :
    v.Freezes x := by
  intro hn
  obtain ⟨hf, hg, hr⟩ := h hn
  obtain ⟨kf, kg, kr⟩ := k (hf ▸ hn)
  refine ⟨kf.trans hf, kg.trans hg, ?_⟩
  intro r hv
  obtain ⟨q, hq, hs⟩ := hr r hv
  obtain ⟨p, hp, ks⟩ := kr q hq
  exact ⟨p, hp, hs.trans ks⟩

theorem Move.freezes {v w : View T} (m : Move v w) (h : v.Fenced) : v.Freezes w := by
  intro hn
  cases h with
  | unknown | opened => exact absurd rfl hn
  | settled hr =>
    cases m with
    | idle => exact View.Freezes.refl _ hn
    | grant hd => exact absurd hr (hd _ rfl)
    | finish ha => exact absurd (ha.2 ▸ hr) (expectedStatus_not_settled _)
    | fail hs =>
      rw [hs] at hr
      cases hr
    | publish hq =>
      refine ⟨rfl, rfl, ?_⟩
      intro r hr
      cases hr
      exact ⟨_, rfl, hq⟩

def Shared.Holds (s : Shared T) (key claimToken : String) (status : DocumentOperationStatus) :
    Prop :=
  s.lastGrant key = some claimToken ∧ ∃ r, s.table.select key = some r ∧ r.status = status

theorem Shared.holds_iff {s : Shared T} (h : (s.view key).Fenced) (hs : ¬ status.settled) :
    s.Holds key claimToken status ↔
      ∃ r, s.table.select key = some r ∧ r.Admits claimToken status := by
  unfold Holds lastGrant
  generalize hv : s.view key = v at h
  rw [view] at hv
  cases h with
  | unknown => simp_all
  | opened =>
    injection hv with hr hg
    simp_all [Row.Admits, and_comm]
  | settled hd hc =>
    injection hv with hr hg
    simp only [hr, Option.some.injEq, exists_eq_left', Row.Admits, hc]
    constructor
    · exact fun hst => absurd (hst.2 ▸ hd) hs
    · exact fun hst => absurd (hst.2 ▸ hd) hs

section Store

variable {T : Type} [LinearOrder T]

def Call.perform : Call T → Sql T Bool
  | .claim args now leaseUntil claimToken => do
    return (← claimSync args now leaseUntil claimToken).owner
  | .finish args now => do
    let _ ← finishSync args now
    return true
  | .recordRetryableFailure key claimToken error now => do
    recordRetryableSync key claimToken error now
    return true
  | .publicationUpdate key published now => do
    publicationUpdateSync key published now
    return true

/-- A claim reads the clock before its transaction and draws a token no claim has drawn; a
finish carries one of the three settled statuses.  Nothing restricts the tokens presented. -/
def Call.Allowed (history : List (Entry T)) (clock : T) : Call T → Prop
  | .claim _ now _ claimToken => now ≤ clock ∧
      ∀ e ∈ history, ∀ args now leaseUntil, e.call ≠ .claim args now leaseUntil claimToken
  | .finish args _ => args.status.settled
  | _ => True

inductive Shared.Step : Shared T → Entry T → Shared T → Prop
  | perform (call : Call T) : s.clock ≤ later → call.Allowed s.history later →
      call.perform.run s.table = (answer, u) →
      Step s ⟨call, answer⟩ ⟨u, later, ⟨call, answer⟩ :: s.history⟩

def store (T : Type) [LinearOrder T] : System (Shared T) (Entry T) where
  init s := s.table = .empty ∧ s.history = []
  step := Shared.Step

section

omit [LinearOrder T]

variable {s : Shared T} {u : Operations T} {later : T} {answer : Except StoreError Bool}

theorem Shared.view_quiet {e : Entry T} (hg : e.grant key = none) (hf : e.finishes key = false) :
    (Shared.mk u later (e :: s.history)).view key =
      ⟨u.select key, s.grants key, s.finishes key⟩ := by
  simp [view, grants, finishes, hg, hf]

theorem Shared.moves_quiet {e : Entry T} (hg : e.grant key = none)
    (hf : e.finishes key = false) :
    Move (s.view key) ((Shared.mk s.table later (e :: s.history)).view key) := by
  rw [view_quiet hg hf]
  exact .idle

theorem Shared.moves_row {e : Entry T} (hg : e.grant key = none) (hf : e.finishes key = false)
    (hs : s.table.select k = some r) (hset : s.table.Sets k r' u)
    (hm : ∀ g n, Move ⟨some r, g, n⟩ ⟨some r', g, n⟩) :
    Move (s.view key) ((Shared.mk u later (e :: s.history)).view key) := by
  rw [view_quiet hg hf]
  by_cases hk : k = key
  · rw [← hk, hset.select, view, hs]
    exact hm _ _
  · rw [hset.select_ne hk]
    exact .idle

theorem Shared.view_grant (args : ClaimArgs) (now leaseUntil : T) (claimToken key : String) :
    (Shared.mk u later (⟨.claim args now leaseUntil claimToken, .ok true⟩ :: s.history)).view key =
      ⟨u.select key, if args.idempotencyKey = key then claimToken :: s.grants key
        else s.grants key, s.finishes key⟩ := by
  by_cases hk : args.idempotencyKey = key <;>
    simp [view, grants, finishes, Entry.grant, Entry.finishes, hk]

theorem Shared.view_finish (args : FinishArgs) (now : T) (key : String) :
    (Shared.mk u later (⟨.finish args now, .ok true⟩ :: s.history)).view key =
      ⟨u.select key, s.grants key,
        if args.idempotencyKey = key then s.finishes key + 1 else s.finishes key⟩ := by
  by_cases hk : args.idempotencyKey = key <;>
    simp [view, grants, finishes, show (Entry.mk (.finish args now) (.ok true)).grant key = none
      from rfl, Entry.finishes, hk]

end

theorem Shared.moves_claim {s : Shared T}
    (h : (Call.claim args now leaseUntil claimToken).perform.run s.table = (answer, u))
    (key : String) : Move (s.view key) ((Shared.mk u later
      (⟨.claim args now leaseUntil claimToken, answer⟩ :: s.history)).view key) := by
  obtain ⟨res, hr, rfl⟩ := Sql.run_bind_pure h
  cases claimSync_outcome hr with
  | unwritable | taken | conflict | busy =>
    exact moves_quiet rfl rfl
  | opened hw hs _ hset =>
    refine (view_grant ..).symm ▸ ?_
    by_cases hk : args.idempotencyKey = key
    · rw [← hk, hset.select, if_pos rfl]
      refine .grant ?_ rfl rfl
      intro r hr
      simp [view, hs] at hr
    · rw [hset.select_ne hk, if_neg hk]
      exact .idle
  | reclaimed hs hf hh hset =>
    refine (view_grant ..).symm ▸ ?_
    by_cases hk : args.idempotencyKey = key
    · rw [← hk, hset.select, if_pos rfl]
      refine .grant ?_ rfl rfl
      intro q hq
      rw [view, hs] at hq
      cases hq
      exact fun hd => hh (.inl hd)
    · rw [hset.select_ne hk, if_neg hk]
      exact .idle

theorem Shared.moves_finish {s : Shared T} (ha : args.status.settled)
    (h : (Call.finish args now).perform.run s.table = (answer, u)) (key : String) :
    Move (s.view key)
      ((Shared.mk u later (⟨.finish args now, answer⟩ :: s.history)).view key) := by
  obtain ⟨res, hr, rfl⟩ := Sql.run_bind_pure h
  cases finishSync_outcome hr with
  | unknown | stale | unwritable =>
    exact moves_quiet rfl rfl
  | finished hs had _ hset =>
    refine (view_finish ..).symm ▸ ?_
    by_cases hk : args.idempotencyKey = key
    · rw [← hk, hset.select, if_pos rfl, view, hs]
      exact .finish had ha rfl rfl
    · rw [hset.select_ne hk, if_neg hk]
      exact .idle

theorem Shared.moves_recordRetryableFailure {s : Shared T}
    (h : (Call.recordRetryableFailure k claimToken error now).perform.run s.table = (answer, u))
    (key : String) : Move (s.view key) ((Shared.mk u later
      (⟨.recordRetryableFailure k claimToken error now, answer⟩ :: s.history)).view key) := by
  obtain ⟨res, hr, rfl⟩ := Sql.run_bind_pure h
  cases recordRetryableSync_outcome hr with
  | unwritable | stale => exact moves_quiet rfl rfl
  | recorded hw hs had hset => exact moves_row rfl rfl hs hset fun _ _ => .fail had.2 rfl rfl

theorem Shared.moves_publicationUpdate {s : Shared T}
    (h : (Call.publicationUpdate k published now).perform.run s.table = (answer, u))
    (key : String) : Move (s.view key) ((Shared.mk u later
      (⟨.publicationUpdate k published now, answer⟩ :: s.history)).view key) := by
  obtain ⟨res, hr, rfl⟩ := Sql.run_bind_pure h
  cases publicationUpdateSync_outcome hr with
  | unknown => exact moves_quiet rfl rfl
  | @updated r _ hs hset =>
    exact moves_row rfl rfl hs hset fun _ _ =>
      .publish (r.settles_publicationUpdated published now) (by cases published <;> rfl)

theorem Shared.Step.moves {s s' : Shared T} (h : s.Step e s') (key : String) :
    Move (s.view key) (s'.view key) := by
  obtain ⟨call, -, ha, h⟩ := h
  cases call with
  | claim => exact moves_claim h key
  | finish => exact moves_finish ha h key
  | recordRetryableFailure => exact moves_recordRetryableFailure h key
  | publicationUpdate => exact moves_publicationUpdate h key

theorem store_fenced : Invariant (store T) fun s => ∀ key, (s.view key).Fenced where
  init := by
    rintro ⟨t, c, h⟩ ⟨rfl, rfl⟩ key
    exact .unknown
  step h st key := (Shared.Step.moves st key).fenced (h key)

omit [LinearOrder T] in
theorem Entry.grant_eq_some {e : Entry T} (h : e.grant key = some claimToken) :
    ∃ args now leaseUntil, e.call = .claim args now leaseUntil claimToken := by
  unfold Entry.grant at h
  split at h
  · split at h
    · cases h
      exact ⟨_, _, _, rfl⟩
    · cases h
  · cases h

theorem Shared.Step.grants {s s' : Shared T} (h : s.Step e s') (key : String) :
    s'.grants key = s.grants key ∨
      ∃ claimToken, s'.grants key = claimToken :: s.grants key ∧ claimToken ∉ s.grants key := by
  obtain ⟨call, -, ha, h⟩ := h
  cases hg : (Entry.mk call _).grant key with
  | none => exact .inl (List.filterMap_cons_none hg)
  | some claimToken =>
    refine .inr ⟨claimToken, List.filterMap_cons_some hg, ?_⟩
    intro hm
    obtain ⟨args, now, leaseUntil, rfl⟩ := Entry.grant_eq_some hg
    obtain ⟨e, he, hk⟩ := List.mem_filterMap.mp hm
    obtain ⟨args', now', leaseUntil', hc⟩ := Entry.grant_eq_some hk
    exact ha.2 e he _ _ _ hc

theorem store_grants_nodup : Invariant (store T) fun s => ∀ key, (s.grants key).Nodup where
  init := by
    rintro ⟨t, c, h⟩ ⟨rfl, rfl⟩ key
    exact List.nodup_nil
  step h st key := by
    rcases Shared.Step.grants st key with he | ⟨claimToken, he, hn⟩
    · exact he ▸ h key
    · exact he ▸ List.nodup_cons.mpr ⟨hn, h key⟩

theorem Shared.Step.claim_leased {s s' : Shared T}
    (h : s.Step ⟨.claim args now leaseUntil claimToken, answer⟩ s')
    (hs : s.table.select args.idempotencyKey = some r) (hr : r.status = .processing)
    (hl : r.leaseUntil = some l) (hn : s'.clock < l ∨ now < l) : answer ≠ .ok true := by
  cases h with
  | perform _ _ ha h =>
  have hlt : now < l := hn.elim (lt_of_le_of_lt ha.1) id
  obtain ⟨res, hres, rfl⟩ := Sql.run_bind_pure h
  cases claimSync_outcome hres with
  | unwritable | taken | conflict | busy => exact nofun
  | opened _ hs' => simp [hs] at hs'
  | reclaimed hs' _ hh =>
    rw [hs] at hs'
    cases hs'
    exact absurd (.inr ⟨hr, by simpa [hl] using hlt⟩) hh

theorem Shared.Step.finish_fenced {s s' : Shared T} (h : s.Step ⟨.finish args now, answer⟩ s')
    (hf : (s.view args.idempotencyKey).Fenced) :
    (answer = .ok true → s.Holds args.idempotencyKey args.claimToken (expectedStatus args.status)) ∧
      (¬ s.Holds args.idempotencyKey args.claimToken (expectedStatus args.status) →
        s'.table = s.table ∧ answer = .error (if s.table.select args.idempotencyKey = none
          then .keyError args.idempotencyKey else .stale args.idempotencyKey)) := by
  rw [Shared.holds_iff hf (expectedStatus_not_settled _)]
  cases h with
  | perform _ _ ha h =>
  obtain ⟨res, hres, rfl⟩ := Sql.run_bind_pure h
  cases finishSync_outcome hres with
  | unknown hs => simp [hs, Except.map]
  | stale hs hr => simp [hs, hr, Except.map]
  | unwritable hs hr => simp [hs, hr, Except.map]
  | finished hs hr => simp [hs, hr]

theorem Shared.Step.recordRetryableFailure_fenced {s s' : Shared T}
    (h : s.Step ⟨.recordRetryableFailure key claimToken error now, answer⟩ s')
    (hf : (s.view key).Fenced) :
    (answer = .ok true → s.Holds key claimToken .processing) ∧
      (¬ s.Holds key claimToken .processing → s'.table = s.table ∧
        (error.writable → answer = .error (.stale key)) ∧
        (¬ error.writable → ∃ e, answer = .error (.encode e))) := by
  rw [Shared.holds_iff hf (by decide)]
  cases h with
  | perform _ _ ha h =>
  obtain ⟨res, hres, rfl⟩ := Sql.run_bind_pure h
  cases recordRetryableSync_outcome hres with
  | unwritable hw => simp [hw, Except.map]
  | stale hw hn => simp [hw, Except.map]
  | recorded hw hs hr => simp [hs, hr]

theorem Shared.run_freezes {s s' : Shared T} (hs : Reachable (store T) s)
    (hr : Run (store T) s es s') (key : String) : (s.view key).Freezes (s'.view key) :=
  store_fenced.run_rel (R := fun s s' => (s.view key).Freezes (s'.view key)) (fun _ => .refl _)
    .trans (fun h st => (Shared.Step.moves st key).freezes (h key)) hr (store_fenced.reachable hs)

structure Shared.Fencing (s : Shared T) : Prop where
  leased : s.Step ⟨.claim args now leaseUntil claimToken, answer⟩ s' →
    s.table.select args.idempotencyKey = some r → r.status = .processing →
    r.leaseUntil = some l → s'.clock < l ∨ now < l → answer ≠ .ok true
  finish : s.Step ⟨.finish args now, answer⟩ s' →
    (answer = .ok true → s.Holds args.idempotencyKey args.claimToken (expectedStatus args.status)) ∧
      (¬ s.Holds args.idempotencyKey args.claimToken (expectedStatus args.status) →
        s'.table = s.table ∧ answer = .error (if s.table.select args.idempotencyKey = none
          then .keyError args.idempotencyKey else .stale args.idempotencyKey))
  recordRetryableFailure : s.Step ⟨.recordRetryableFailure key claimToken error now, answer⟩ s' →
    (answer = .ok true → s.Holds key claimToken .processing) ∧
      (¬ s.Holds key claimToken .processing → s'.table = s.table ∧
        (error.writable → answer = .error (.stale key)) ∧
        (¬ error.writable → ∃ e, answer = .error (.encode e)))
  unrepeated : (s.grants key).Nodup
  once : s.finishes key ≤ 1
  settled : s.finishes key ≠ 0 → Run (store T) s es s' →
    s'.finishes key = s.finishes key ∧ s'.grants key = s.grants key ∧
      ∃ r q, s.table.select key = some r ∧ s'.table.select key = some q ∧
        r.status.settled ∧ r.Settles q

theorem fencing_and_single_settlement {s : Shared T} (hs : Reachable (store T) s) : s.Fencing where
  leased := Shared.Step.claim_leased
  finish h := h.finish_fenced (store_fenced.reachable hs _)
  recordRetryableFailure h := h.recordRetryableFailure_fenced (store_fenced.reachable hs _)
  unrepeated := store_grants_nodup.reachable hs _
  once := (store_fenced.reachable hs _).finishes_le
  settled hn hr := by
    obtain ⟨hf, hg, hq⟩ := Shared.run_freezes hs hr _ hn
    obtain ⟨r, hv, hd⟩ := (store_fenced.reachable hs _).settled_row hn
    obtain ⟨q, hw, hs⟩ := hq r hv
    exact ⟨hf, hg, r, q, hv, hw, hd, hs⟩

/-- A claim, its retryable failure, and the claim after it. -/
theorem fencing_after_reclaim : ∃ s : Shared Nat, Reachable (store Nat) s ∧ s.Fencing ∧
    s.grants "k" = ["b", "a"] := by
  let args : ClaimArgs := ⟨"op", "k", "f", [], [], "document.vectorize", .dict [], .dict []⟩
  let s0 : Shared Nat := ⟨.empty, 0, []⟩
  have h0 : Reachable (store Nat) s0 := .init ⟨rfl, rfl⟩
  have h1 := h0.step (.perform (.claim args 0 5 "a") (show (0 : Nat) ≤ 1 by decide)
    ⟨by decide, by simp [s0]⟩ rfl)
  have h2 := h1.step (.perform (.recordRetryableFailure "k" "a" (.dict []) 1)
    (show (1 : Nat) ≤ 1 by decide) trivial rfl)
  have h3 := h2.step (.perform (.claim args 1 6 "b") (show (1 : Nat) ≤ 1 by decide)
    ⟨by decide, by simp [s0]⟩ rfl)
  exact ⟨_, h3, fencing_and_single_settlement h3, rfl⟩

/-- A stale worker whose error `canonical_json` refuses does not learn that it is stale: the
statement's parameters are computed before its guard is. -/
theorem unwritable_error_not_stale : ∃ s s' : Shared Nat, ∃ answer, Reachable (store Nat) s ∧
    s.Step ⟨.recordRetryableFailure "k" "a" (.dict [(py "x", .float .nan)]) 0, answer⟩ s' ∧
    ¬ s.Holds "k" "a" .processing ∧ answer ≠ .error (.stale "k") := by
  let s0 : Shared Nat := ⟨.empty, 0, []⟩
  have h0 : Reachable (store Nat) s0 := .init ⟨rfl, rfl⟩
  refine ⟨s0, _, _, h0, .perform _ (show (0 : Nat) ≤ 0 by decide) trivial rfl, ?_, ?_⟩
  · rintro ⟨h, -⟩
    cases h
  · exact nofun

end Store

end PrismPipe.Document
