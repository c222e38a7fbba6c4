import Mathlib.Data.List.Forall2
import Mathlib.Data.List.Induction
import Mathlib.Data.Set.Operations

/-! Stores addressed by keys, by the answers they give to a history of operations, and those that
keep their values under names of the keys. -/

universe u v w x

namespace PrismPipe.KeyedStore

variable {σ τ : Type w} {κ : Type u} {β : Type v} {ν : Type x}

inductive Operation (κ : Type u) (β : Type v)
  | save (key : κ) (value : β)
  | load (key : κ)
  | delete (key : κ)
  | exist (key : κ)

inductive Answer (β : Type v)
  | done
  | loaded (value : Option β)
  | existing (found : Bool)
  | raised

/-- A store may refuse to save a value, and fail to read what it has (`none`). -/
structure Store (σ : Type w) (κ : Type u) (β : Type v) where
  save : σ → κ → β → Bool × σ
  load : σ → κ → Option (Option β)
  delete : σ → κ → σ
  exist : σ → κ → Bool

def Operation.key : Operation κ β → κ
  | save k _ | load k | delete k | exist k => k

namespace Store

def answer (S : Store σ κ β) (s : σ) : Operation κ β → Answer β
  | .save k v => if (S.save s k v).1 then .done else .raised
  | .delete _ => .done
  | .load k => (S.load s k).elim .raised .loaded
  | .exist k => .existing (S.exist s k)

def after (S : Store σ κ β) (s : σ) : Operation κ β → σ
  | .save k v => (S.save s k v).2
  | .delete k => S.delete s k
  | .load _ | .exist _ => s

def answers (S : Store σ κ β) : σ → List (Operation κ β) → List (Answer β)
  | _, [] => []
  | s, op :: ops => S.answer s op :: S.answers (S.after s op) ops

/-- What is `kept` of a key is under the key's name: the value, of which a load `gives` its image. -/
structure Under [DecidableEq ν] (S : Store σ κ β) (name : κ → ν) (takes : β → Bool)
    (gives : β → Option β) (kept : σ → ν → Option β) : Prop where
  taken : ∀ s k v, (S.save s k v).1 = takes v
  save : ∀ s k v n, takes v → kept (S.save s k v).2 n = if n = name k then some v else kept s n
  delete : ∀ s k n, kept (S.delete s k) n = if n = name k then none else kept s n
  load : ∀ s k, S.load s k = (kept s (name k)).elim (some none) fun v => (gives v).map some
  exist : ∀ s k, S.exist s k = (kept s (name k)).isSome

end Store

inductive Answer.Rel (r : β → β → Prop) : Answer β → Answer β → Prop
  | done : Rel r done done
  | loaded : Option.Rel r a b → Rel r (loaded a) (loaded b)
  | existing : Rel r (existing b) (existing b)
  | raised : Rel r raised raised

section

variable [DecidableEq ν]

def Operation.leave (name : κ → ν) (n : ν) (found : Option β) : Operation κ β → Option β
  | save k v => if n = name k then some v else found
  | delete k => if n = name k then none else found
  | load _ | exist _ => found

/-- What the last `save` or `delete` of a key of the name left. -/
def left (name : κ → ν) (n : ν) (ops : List (Operation κ β)) : Option β :=
  ops.foldl (Operation.leave name n) none

@[simp] theorem left_nil (name : κ → ν) (n : ν) :
    left name n ([] : List (Operation κ β)) = none := rfl

theorem left_concat (name : κ → ν) (n : ν) (ops : List (Operation κ β)) (op : Operation κ β) :
    left name n (ops ++ [op]) = op.leave name n (left name n ops) := by
  simp [left]

namespace Store.Under

variable {S : Store σ κ β} {name : κ → ν} {takes : β → Bool} {gives : β → Option β}
  {kept : σ → ν → Option β}

theorem after (h : S.Under name takes gives kept) {past : List (Operation κ β)}
    (hs : ∀ n, kept s n = left name n past) {op : Operation κ β}
    (hop : ∀ k v, op = .save k v → takes v) (n : ν) :
    kept (S.after s op) n = left name n (past ++ [op]) := by
  rw [left_concat]
  cases op with
  | save k v => rw [Store.after, h.save s k v n (hop k v rfl), Operation.leave, hs]
  | delete k => rw [Store.after, h.delete, Operation.leave, hs]
  | load k => exact hs n
  | exist k => exact hs n

end Store.Under

end

def Operation.Finds (takes : β → Bool) (r : β → β → Prop) (a b : Option β) :
    Operation κ β → Prop
  | save _ v => takes v
  | load _ => Option.Rel r a b
  | exist _ => a.isSome = b.isSome
  | delete _ => True

/-- A load gives back what is `r` to the value. -/
def Given (gives : β → Option β) (r : β → β → Prop) (a b : β) : Prop :=
  ∃ w, gives a = some w ∧ r w b

section

variable [DecidableEq κ] [DecidableEq ν]

/-- What is saved is taken, and each read finds under its key's name what was left for the key
itself. -/
def Undisturbed (takes : β → Bool) (r : β → β → Prop) (name : κ → ν) (ops : List (Operation κ β)) :
    Prop :=
  ∀ before op after, ops = before ++ op :: after →
    op.Finds takes r (left name (name op.key) before) (left id op.key before)

variable {S : Store σ κ β} {T : Store τ κ β} {name : κ → ν} {takes : β → Bool}
  {gives : β → Option β} {kept : σ → ν → Option β} {kept' : τ → κ → Option β} {r : β → β → Prop}

end

end PrismPipe.KeyedStore
