import PrismPipe.Engine.SemanticCache

/-! The loops of `PrismEngine.execute` and of a branch of `execute_parallel` on local nodes: a bound
on the nodes they execute, the same for all nodes. -/

namespace PrismPipe.Engine

variable {I V : Type}

/-- `PrismEngine.execute` and `run_branch`. -/
inductive EnvelopeLoop
  | execute
  | runBranch
  deriving DecidableEq

namespace EnvelopeLoop

/-- What follows the node: `execute` goes on with the plan where there is no `next`. -/
def advance : EnvelopeLoop → RequestEnvelope I V → RequestEnvelope I V
  | execute, e => e.advancePlan
  | runBranch, e => e

structure Wants (e : RequestEnvelope I V) (capability : String) : Prop where
  next : truthy e.next
  live : e.terminated = false
  route : e.getCapability = some capability
  nonempty : capability ≠ ""

inductive Executes (loop : EnvelopeLoop) (router : String → Option (LocalNode I V)) :
    RequestEnvelope I V → Nat → RequestEnvelope I V → Prop
  | zero : Executes loop router e 0 e
  | succ : Wants e capability → router capability = some node →
      Executes loop router (loop.advance (node e)) n e' → Executes loop router e (n + 1) e'

inductive Leaves (router : String → Option (LocalNode I V)) :
    RequestEnvelope I V → RequestEnvelope I V → Prop
  | done : (truthy e.next && !e.terminated) = false → Leaves router e e
  | noCapability : truthy e.next → e.terminated = false → ¬ truthy e.getCapability →
      Leaves router e e
  | notFound : Wants e capability → router capability = none →
      Leaves router e (e.terminate ("Node not found: " ++ capability))

def Bounded (loop : EnvelopeLoop) (registered : String → Bool) (e : RequestEnvelope I V) : Prop :=
  ∃ limit, ∀ router : String → Option (LocalNode I V),
    (∀ capability, (router capability).isSome = registered capability) →
    (∀ n e', loop.Executes router e n e' → n ≤ limit) ∧
      ∃ n e' final, loop.Executes router e n e' ∧ Leaves router e' final

variable {loop : EnvelopeLoop} {registered : String → Bool} {e : RequestEnvelope I V}
  {router : String → Option (LocalNode I V)}

def idle (registered : String → Bool) (capability : String) : Option (LocalNode I V) :=
  if registered capability then some id else none

theorem advance_of_next (h : truthy e.next) : loop.advance e = e := by
  cases loop with
  | execute => exact if_neg fun hn => hn.2 h
  | runBranch => rfl

theorem executes_idle (hw : Wants e capability) (hr : registered capability) (n : Nat) :
    loop.Executes (idle registered) e n e := by
  induction n with
  | zero => exact .zero
  | succ n ih =>
    refine .succ hw (if_pos hr) ?_
    rwa [id, advance_of_next hw.next]

theorem not_bounded (hw : Wants e capability) (hr : registered capability) :
    ¬ loop.Bounded registered e := by
  rintro ⟨limit, h⟩
  have hidle : ∀ capability, (idle (I := I) (V := V) registered capability).isSome =
      registered capability := by
    intro capability
    unfold idle
    split <;> simp_all
  exact absurd ((h _ hidle).1 _ _ (executes_idle hw hr (limit + 1))) (Nat.not_succ_le_self _)

theorem leaves_of_unwanted (h : ∀ capability, Wants e capability → router capability = none) :
    ∃ final, Leaves router e final := by
  by_cases hd : (truthy e.next && !e.terminated) = false
  · exact ⟨_, .done hd⟩
  · rw [Bool.not_eq_false, Bool.and_eq_true, Bool.not_eq_true'] at hd
    cases hc : e.getCapability with
    | none => exact ⟨_, .noCapability hd.1 hd.2 (by rw [hc]; decide)⟩
    | some capability =>
      by_cases he : capability = ""
      · exact ⟨_, .noCapability hd.1 hd.2 (by rw [hc, he]; decide)⟩
      · have hw : Wants e capability := ⟨hd.1, hd.2, hc, he⟩
        exact ⟨_, .notFound hw (h _ hw)⟩

theorem bounded_iff : loop.Bounded registered e ↔
    ∀ capability, Wants e capability → registered capability = false := by
  constructor
  · intro hb capability hw
    by_contra hr
    exact not_bounded hw (Bool.not_eq_false _ ▸ hr) hb
  · intro h
    refine ⟨0, fun router hrouter => ?_⟩
    have hnone (capability : String) (hw : Wants e capability) : router capability = none := by
      rw [← Option.not_isSome_iff_eq_none, hrouter, h capability hw]
      decide
    constructor
    · intro n e' hn
      cases hn with
      | zero => exact le_rfl
      | succ hw hs => cases hs.symm.trans (hnone _ hw)
    · obtain ⟨final, hf⟩ := leaves_of_unwanted hnone
      exact ⟨0, e, final, .zero, hf⟩

theorem routes_iff {final : RequestEnvelope I V} : Routes router e final ↔
    ∃ n e', execute.Executes router e n e' ∧ Leaves router e' final := by
  constructor
  · intro h
    induction h with
    | done hd => exact ⟨0, _, .zero, .done hd⟩
    | noCapability hn hl hc => exact ⟨0, _, .zero, .noCapability hn (by simpa using hl) hc⟩
    | notFound hn hl hc he hr =>
      exact ⟨0, _, .zero, .notFound ⟨hn, by simpa using hl, hc, he⟩ hr⟩
    | step hn hl hc he hr _ ih =>
      obtain ⟨n, e', hx, hleave⟩ := ih
      exact ⟨n + 1, e', .succ ⟨hn, by simpa using hl, hc, he⟩ hr hx, hleave⟩
  · rintro ⟨n, e', hx, hleave⟩
    induction hx with
    | zero =>
      cases hleave with
      | done hd => exact .done hd
      | noCapability hn hl hc => exact .noCapability hn (by simpa using hl) hc
      | notFound hw hr =>
        exact .notFound hw.next (by simpa using hw.live) hw.route hw.nonempty hr
    | succ hw hr _ ih =>
      exact .step hw.next (by simpa using hw.live) hw.route hw.nonempty hr (ih hleave)

end EnvelopeLoop

/-- `execute` answers from the cache, raises, or enters its loop with the envelope. -/
def PrismEngine.Bounded (hash : IntentHash I) (registered : String → Bool) (g : PrismEngine I V)
    (e : RequestEnvelope I V) : Prop :=
  ∀ h, hash e.intent e.input = some h → g.semanticCache.get e.intent h = none →
    EnvelopeLoop.execute.Bounded registered e

/-- `branch_envelope.set_next(branch.capability)`. -/
def RequestEnvelope.branch (e : RequestEnvelope I V) (capability : String) : RequestEnvelope I V :=
  { e with next := some capability }

/-- `execute` and a branch have a limit on the nodes they run, independent of what the nodes do,
exactly where they run none: where the cache answers, or the first capability is not registered. -/
theorem routing_bounded_iff (hash : IntentHash I) (registered : String → Bool)
    (g : PrismEngine I V) (e : RequestEnvelope I V) (capability : String) :
    (g.Bounded hash registered e ↔
      ((∃ h, hash e.intent e.input = some h ∧ g.semanticCache.get e.intent h = none) →
        ∀ first, EnvelopeLoop.Wants e first → registered first = false)) ∧
    (EnvelopeLoop.runBranch.Bounded registered (e.branch capability) ↔
      ∀ first, EnvelopeLoop.Wants (e.branch capability) first → registered first = false) := by
  refine ⟨⟨?_, ?_⟩, EnvelopeLoop.bounded_iff⟩
  · rintro hb ⟨h, hh, hg⟩
    exact EnvelopeLoop.bounded_iff.mp (hb h hh hg)
  · intro hw h hh hg
    exact EnvelopeLoop.bounded_iff.mpr (hw ⟨h, hh, hg⟩)

def requesting : RequestEnvelope Unit Unit where
  intent := .httpRequest
  input := ()
  state := .empty
  history := []
  plan := ⟨[], 0⟩
  next := some "a"
  error := none
  terminated := false

/-- Its node may leave `next` as it is, and then neither loop ends. -/
theorem requesting_unbounded :
    ¬ (PrismEngine.fresh fun _ => requesting).Bounded (fun _ _ => some "h") (· = "a") requesting ∧
      ¬ EnvelopeLoop.runBranch.Bounded (· = "a") (requesting.branch "a") := by
  have hw : EnvelopeLoop.Wants requesting "a" := ⟨rfl, rfl, rfl, by decide⟩
  constructor
  · exact fun h => EnvelopeLoop.not_bounded hw rfl (h "h" rfl rfl)
  · exact EnvelopeLoop.not_bounded hw rfl

end PrismPipe.Engine
