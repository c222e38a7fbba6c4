import PrismPipe.Document.Processing

/-! The world the workers share: the database, and a record of what reached the transport. -/

namespace PrismPipe.Document

open Python

inductive Event
  | published (idempotencyKey topic messageId : String) (payload : Json) (succeeded : Bool)
  | acknowledged (idempotencyKey : String) (maxAttempts : Int)

structure Workers (T : Type) where
  table : Operations T
  log : List Event

def DocumentOp.stored : DocumentOp → Bool
  | .claim _ | .get _ | .finish _ | .recordRetryable .. | .publicationUpdate .. | .pending _ => true
  | _ => false

variable {T : Type} [LinearOrder T]

def raise (r : Except StoreError α) : Except Raised α := r.mapError .store

/-- Clock readings and claim tokens are arbitrary; so is what storage, vectorizer and transport
answer. -/
inductive Workers.Step : Workers T → (o : DocumentOp) → Except Raised (o.Value T) → Workers T → Prop
  | claim (now leaseUntil : T) (claimToken : String) :
      (claimSync args now leaseUntil claimToken).run s.table = (r, u) →
      Step s (.claim args) (raise r) ⟨u, s.log⟩
  | get : Step s (.get key) (raise ((getSync key).run s.table).1) s
  | finish (now : T) : (finishSync args now).run s.table = (r, u) →
      Step s (.finish args) (raise r) ⟨u, s.log⟩
  | recordRetryable (now : T) : (recordRetryableSync key claimToken error now).run s.table = (r, u) →
      Step s (.recordRetryable key claimToken error) (raise r) ⟨u, s.log⟩
  | publicationUpdate (now : T) : (publicationUpdateSync key published now).run s.table = (r, u) →
      Step s (.publicationUpdate key published) (raise r) ⟨u, s.log⟩
  | pending : Step s (.pending limit) (raise ((pendingSync limit).run s.table).1) s
  | unavailable (errorType : PyStr) : o.stored → Step s o (.error (.other errorType)) s
  | load (r : Except Raised Content) : Step s (.load storageKey) r s
  | execute (r : Except Raised NodeResult) : Step s (.execute payload) r s
  | rounds (n : Nat) : Step s .rounds (.ok n) s
  | sleep (r : Except Raised Unit) : Step s .sleep r s
  | publish (r : Except Raised Unit) : Step s (.publish key topic messageId payload headers) r
      { s with log := .published key topic messageId payload r.isOk :: s.log }
  | acknowledge (r : Except Raised Unit) : Step s (.acknowledge message key maxAttempts) r
      { s with log := .acknowledged key maxAttempts :: s.log }
  | retry (r : Except Raised Unit) : Step s (.retry message) r s

def workers (T : Type) [LinearOrder T] : World (documentOps T) (Workers T) where
  step s o r t := Workers.Step s o r t
  abandon o r := o.stored ∧ r = .error .cancelled

/-- A quiet world: the clock stands, storage holds `content`, the vectorizer answers `node`, the
transport takes everything. -/
def quiet (now leaseUntil : T) (claimToken : String) (content : Content) (node : NodeResult) :
    Server (workers T) where
  serve s
    | .claim args =>
      let (r, u) := (claimSync args now leaseUntil claimToken).run s.table
      (raise r, ⟨u, s.log⟩)
    | .get key => (raise ((getSync key).run s.table).1, s)
    | .finish args =>
      let (r, u) := (finishSync args now).run s.table
      (raise r, ⟨u, s.log⟩)
    | .recordRetryable key claimToken error =>
      let (r, u) := (recordRetryableSync key claimToken error now).run s.table
      (raise r, ⟨u, s.log⟩)
    | .publicationUpdate key published =>
      let (r, u) := (publicationUpdateSync key published now).run s.table
      (raise r, ⟨u, s.log⟩)
    | .pending limit => (raise ((pendingSync limit).run s.table).1, s)
    | .load _ => (.ok content, s)
    | .execute _ => (.ok node, s)
    | .rounds => (.ok 0, s)
    | .sleep => (.ok (), s)
    | .publish key topic messageId payload _ =>
      (.ok (), ⟨s.table, .published key topic messageId payload true :: s.log⟩)
    | .acknowledge _ key maxAttempts => (.ok (), ⟨s.table, .acknowledged key maxAttempts :: s.log⟩)
    | .retry _ => (.ok (), s)
  sound s o := by
    cases o with
    | claim args => exact .claim now leaseUntil claimToken rfl
    | get => exact .get
    | finish args => exact .finish now rfl
    | recordRetryable => exact .recordRetryable now rfl
    | publicationUpdate => exact .publicationUpdate now rfl
    | pending => exact .pending
    | load => exact .load _
    | execute => exact .execute _
    | rounds => exact .rounds 0
    | sleep => exact .sleep _
    | publish => exact .publish (.ok ())
    | acknowledge => exact .acknowledge (.ok ())
    | retry => exact .retry _

end PrismPipe.Document
