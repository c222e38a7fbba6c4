import PrismPipe.Document.Limits

/-! The checks of `from_payload` as a list, in its order: the first that is not passed decides
whether the payload is refused or something else is raised. -/

namespace PrismPipe.Document

open Python

inductive Check
  /-- Refused unless it holds. -/
  | requires (condition : Bool)
  /-- `float` of the integer. -/
  | converts (i : Int)
  /-- Raises `RecursionError` unless it holds. -/
  | fits (condition : Bool)

inductive Verdict
  | passed
  | refused
  | escaped
  deriving DecidableEq

def Verdict.andThen : Verdict → Verdict → Verdict
  | passed, v => v
  | v, _ => v

def Check.verdict : Check → Verdict
  | requires condition => if condition then .passed else .refused
  | converts i => if (PyFloat.ofInt i).isSome then .passed else .escaped
  | fits condition => if condition then .passed else .escaped

def judge : List Check → Verdict
  | [] => .passed
  | check :: rest => check.verdict.andThen (judge rest)

def LimitedError.verdict : LimitedError → Verdict
  | payload (.validation _) => .refused
  | _ => .escaped

def verdictOf : Limited α → Verdict
  | .ok _ => .passed
  | .error e => e.verdict

@[simp] theorem Verdict.andThen_passed (v : Verdict) : v.andThen .passed = v := by
  cases v <;> rfl

theorem Verdict.andThen_assoc (u v w : Verdict) :
    (u.andThen v).andThen w = u.andThen (v.andThen w) := by
  cases u <;> rfl

theorem LimitedError.verdict_andThen (e : LimitedError) (v : Verdict) :
    e.verdict.andThen v = e.verdict := by
  rcases e with (_ | _) | _ <;> rfl

theorem judge_append (cs ds : List Check) : judge (cs ++ ds) = (judge cs).andThen (judge ds) := by
  induction cs with
  | nil => rfl
  | cons check rest ih => rw [List.cons_append, judge, judge, ih, Verdict.andThen_assoc]

theorem judge_passed {L : List (List Check)} (h : judge cs = .passed)
    (hl : judge L.flatten = v) : judge (cs :: L).flatten = v := by
  rw [List.flatten_cons, judge_append, h, hl]
  rfl

theorem judge_escaped {L : List (List Check)} (h : judge cs = .escaped) :
    judge (cs :: L).flatten = .escaped := by
  rw [List.flatten_cons, judge_append, h]
  rfl

/-- The limit aside it is `p`, and the checks decide how it ends. -/
structure Follows (r : Limited α) (p : Parse α) (cs : List Check) : Prop where
  erases : Erases r p
  judged : verdictOf r = judge cs

structure Covers (r : Limited α) (p : Parse α) (cs : List Check) : Prop where
  erases : Erases r p
  escapes : verdictOf r = .escaped ↔ judge cs = .escaped

def passes : Parse α → Bool
  | .ok _ => true
  | .error _ => false

def needs (p : Parse α) : List Check := [.requires (passes p)]

def Plain (p : Parse α) : Prop := p ≠ .error .overflow

section Follows

variable {r : Limited α} {p : Parse α} {f : α → Limited β} {g : α → Parse β}

theorem Follows.bind {ds : List Check} (h : Follows r p cs)
    (hf : ∀ a, p = .ok a → Follows (f a) (g a) ds) : Follows (r >>= f) (p >>= g) (cs ++ ds) where
  erases := h.erases.bind fun a ha => (hf a ha).erases
  judged := by
    rw [judge_append, ← h.judged]
    cases r with
    | error e => exact (e.verdict_andThen _).symm
    | ok a => exact (hf a (h.erases.eq_ok rfl)).judged

theorem Covers.bind {ds : List Check} (h : Follows r p cs)
    (hf : ∀ a, p = .ok a → Covers (f a) (g a) ds) : Covers (r >>= f) (p >>= g) (cs ++ ds) where
  erases := h.erases.bind fun a ha => (hf a ha).erases
  escapes := by
    rw [judge_append, ← h.judged]
    cases r with
    | error e => exact iff_of_eq (congrArg (· = _) (e.verdict_andThen _).symm)
    | ok a => exact (hf a (h.erases.eq_ok rfl)).escapes

theorem Follows.step {L : List (List Check)} (h : Follows r p cs)
    (hf : ∀ a, p = .ok a → Follows (f a) (g a) L.flatten) :
    Follows (r >>= f) (p >>= g) (cs :: L).flatten :=
  h.bind hf

theorem Covers.step {L : List (List Check)} (h : Follows r p cs)
    (hf : ∀ a, p = .ok a → Covers (f a) (g a) L.flatten) :
    Covers (r >>= f) (p >>= g) (cs :: L).flatten :=
  .bind h hf

theorem Follows.map (h : Follows r p cs) (f : α → β) : Follows (f <$> r) (f <$> p) cs where
  erases := h.erases.map f
  judged := by
    rw [← h.judged]
    cases r <;> rfl

theorem Follows.ok (a : α) : Follows (.ok a) (.ok a) [] := ⟨.inr rfl, rfl⟩

theorem Follows.invalid (message : PyStr) :
    Follows (lift (invalid message) : Limited α) (invalid message) [.requires false] :=
  ⟨.of_lift _, rfl⟩

theorem Follows.refuse (condition : Bool) (message : PyStr) :
    Follows (lift (refuse condition message)) (refuse condition message)
      [.requires !condition] := by
  refine ⟨.of_lift _, ?_⟩
  cases condition <;> rfl

theorem Follows.plain (h : Plain p) : Follows (lift p) p (needs p) := by
  refine ⟨.of_lift _, ?_⟩
  rcases p with (message | _) | a
  · rfl
  · exact absurd rfl h
  · rfl

theorem Follows.converts (i : Int) :
    Follows (lift (floatOfInt i)) (floatOfInt i) [.converts i] := by
  refine ⟨.of_lift _, ?_⟩
  rw [judge, judge, Verdict.andThen_passed, Check.verdict]
  unfold floatOfInt
  split
  next h =>
    rw [h]
    rfl
  next h =>
    rw [h]
    rfl

theorem Follows.finite (f : PyFloat) (a : α) (message : PyStr) :
    Follows (lift (if f.isFinite then .ok a else Document.invalid message))
      (if f.isFinite then .ok a else Document.invalid message) [.requires f.isFinite] := by
  cases f.isFinite with
  | true => exact ⟨.inr rfl, rfl⟩
  | false => exact .invalid message

end Follows

theorem Covers.ok (a : α) : Covers (.ok a) (.ok a) [] := ⟨.inr rfl, nofun, nofun⟩

theorem Plain.covers {p : Parse α} {f : α → Limited β} {g : α → Parse β} (h : Plain p)
    (hf : ∀ a, Covers (f a) (g a) []) : Covers (lift p >>= f) (p >>= g) [] where
  erases := (Erases.of_lift p).bind fun a _ => (hf a).erases
  escapes := by
    rcases p with (message | _) | a
    · exact ⟨nofun, nofun⟩
    · exact absurd rfl h
    · exact (hf a).escapes

theorem Plain.ok (a : α) : Plain (.ok a) := nofun

theorem Plain.invalid (message : PyStr) : Plain (invalid message : Parse α) := nofun

theorem Plain.bind {p : Parse α} {f : α → Parse β} (h : Plain p) (hf : ∀ a, Plain (f a)) :
    Plain (p >>= f) := by
  cases p with
  | error e =>
    intro he
    cases he
    exact h rfl
  | ok a => exact hf a

theorem Plain.refuse (condition : Bool) (message : PyStr) : Plain (refuse condition message) := by
  cases condition
  · exact .ok ()
  · exact .invalid message

theorem Names.plain {p : Parse α} (h : Names label p) : Plain p := by
  intro he
  obtain ⟨text, ht⟩ := h _ he
  cases ht

theorem Names.follows {p : Parse α} (h : Names label p) : Follows (lift p) p (needs p) :=
  .plain h.plain

theorem optionalRootOrDocumentString_plain (payload document : Dict) (key : String) :
    Plain (optionalRootOrDocumentString payload document key) := by
  unfold optionalRootOrDocumentString
  split
  · exact (optionalString_names _ _ _).plain
  · exact (optionalString_names _ _ _).plain

theorem positiveDimensions_plain (value : Json) (message : PyStr) :
    Plain (positiveDimensions value message) := by
  unfold positiveDimensions
  split
  · exact .ok _
  · split
    · exact .invalid _
    · exact .ok _
  · exact .invalid _

theorem normalizeFlag_plain (payload : Dict) : Plain (VectorizeOptions.normalizeFlag payload) := by
  unfold VectorizeOptions.normalizeFlag
  split
  · exact .ok _
  · exact .invalid _

namespace DocumentVectorizeInput

theorem validateChunks_plain (documentId : PyStr) : ∀ (chunks : List ChunkReference)
    (position : Nat) (ids : List PyStr) (indices : List Int),
    Plain (validateChunks documentId position ids indices chunks)
  | [], _, _, _ => .ok ()
  | chunk :: rest, position, ids, indices => by
    unfold validateChunks
    dsimp only
    split
    · exact .invalid _
    · split
      · exact .invalid _
      · split
        · exact .invalid _
        · split
          · exact .invalid _
          · split
            · exact .invalid _
            · exact validateChunks_plain documentId rest _ _ _

theorem validateArtifacts_plain (options : VectorizeOptions) :
    ∀ (artifacts : List ArtifactRequest) (position : Nat),
      Plain (validateArtifacts options position artifacts)
  | [], _ => .ok ()
  | artifact :: rest, position => by
    unfold validateArtifacts
    dsimp only
    split
    · exact .invalid _
    · exact validateArtifacts_plain options rest _

theorem validateRelationships_plain (r : DocumentVectorizeInput) :
    Plain r.validateRelationships :=
  .bind (.refuse _ _) fun _ => .bind (.refuse _ _) fun _ => .bind (.refuse _ _) fun _ =>
    .bind (validateChunks_plain _ _ _ _ _) fun _ => validateArtifacts_plain _ _ _

end DocumentVectorizeInput

end PrismPipe.Document
