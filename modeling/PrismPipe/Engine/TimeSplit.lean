import Mathlib.Data.List.FinRange
import Mathlib.Data.List.Find
import PrismPipe.Core.Kinds
import PrismPipe.Engine.Organism

/-! `TimeSplitter`: the branches of an organism and the race between their tasks, which share what
the state of the organism refers to. -/

namespace PrismPipe.Engine

open Core (OrganismState)

/-- `while pending and winner is None`, over the tasks that each `asyncio.wait` finds done, in the
order it gives them.  What is left over is cancelled. -/
def race [DecidableEq τ] (failed : τ → Bool) : List (List τ) → List τ → Option τ × List τ
  | [], pending => (none, pending)
  | done :: groups, pending =>
    match done.find? fun task => !failed task with
    | some winner => (some winner, pending.filter (· ∉ done))
    | none => race failed groups (pending.filter (· ∉ done))

section Race

variable {τ : Type} [DecidableEq τ] {failed failed' : τ → Bool} {groups : List (List τ)}
  {pending left : List τ} {winner : Option τ}

structure Groups (groups : List (List τ)) (pending : List τ) : Prop where
  nonempty : ∀ done ∈ groups, done ≠ []
  perm : groups.flatten.Perm pending
  nodup : pending.Nodup

theorem Groups.tail (h : Groups (done :: groups) pending) :
    Groups groups (pending.filter (· ∉ done)) where
  nonempty g hg := h.nonempty g (List.mem_cons_of_mem _ hg)
  perm := by
    have hnd : (done ++ groups.flatten).Nodup := h.perm.nodup_iff.mpr h.nodup
    have hp := h.perm.filter (· ∉ done)
    rw [List.flatten_cons, List.filter_append] at hp
    have hnil : done.filter (· ∉ done) = [] := by simp
    have hself : groups.flatten.filter (· ∉ done) = groups.flatten :=
      List.filter_eq_self.mpr fun x hx => by
        simpa using fun hd => (List.nodup_append.mp hnd).2.2 x hd x hx rfl
    rwa [hnil, hself, List.nil_append] at hp
  nodup := h.nodup.filter _

theorem race_left (hr : race failed groups pending = (winner, left)) (hm : task ∈ left) :
    task ∈ pending := by
  induction groups generalizing pending with
  | nil =>
    cases hr
    exact hm
  | cons done groups ih =>
    rw [race] at hr
    split at hr
    · cases hr
      exact List.mem_of_mem_filter hm
    · exact List.mem_of_mem_filter (ih hr)

theorem race_spec (h : Groups groups pending) (hr : race failed groups pending = (winner, left)) :
    (∀ task, winner = some task → task ∈ pending ∧ task ∉ left ∧ failed task = false) ∧
      (winner = none → ∀ task ∈ pending, failed task) := by
  induction groups generalizing pending with
  | nil =>
    obtain rfl : pending = [] := by simpa using h.perm.symm
    cases hr
    exact ⟨nofun, fun _ => nofun⟩
  | cons done groups ih =>
    rw [race] at hr
    split at hr
    next task hf =>
      cases hr
      have hd := List.mem_of_find?_eq_some hf
      refine ⟨?_, nofun⟩
      rintro _ ⟨⟩
      exact ⟨h.perm.mem_iff.mp (List.mem_append_left _ hd), by simp [hd],
        by simpa using List.find?_some hf⟩
    next hf =>
      have hfailed := List.find?_eq_none.mp hf
      obtain ⟨hw, hn⟩ := ih h.tail hr
      refine ⟨fun task ht => ?_, fun hnone task hm => ?_⟩
      · obtain ⟨hm, hrest⟩ := hw task ht
        exact ⟨List.mem_of_mem_filter hm, hrest⟩
      · by_cases hd : task ∈ done
        · simpa using hfailed task hd
        · exact hn hnone task (List.mem_filter.mpr ⟨hm, by simpa using hd⟩)

theorem race_congr (h : Groups groups pending) (hr : race failed groups pending = (winner, left))
    (hf : ∀ task ∈ pending, task ∉ left → failed' task = failed task) :
    race failed' groups pending = (winner, left) := by
  induction groups generalizing pending with
  | nil => exact hr
  | cons done groups ih =>
    have hleft : ∀ task ∈ left, task ∉ done := by
      rw [race] at hr
      intro task hm
      split at hr
      · cases hr
        simpa using (List.mem_filter.mp hm).2
      · simpa using (List.mem_filter.mp (race_left hr hm)).2
    have hdone : done.find? (fun task => !failed' task) = done.find? fun task => !failed task :=
      List.find?_congr fun task hd => by
        have hm := h.perm.mem_iff.mp (List.mem_append_left groups.flatten hd)
        rw [hf task hm fun hl => hleft task hl hd]
    rw [race] at hr ⊢
    rw [hdone]
    split at hr
    · exact hr
    · exact ih h.tail hr fun task hm => hf task (List.mem_of_mem_filter hm)

theorem race_eq_find (h : Groups groups pending) :
    (race failed groups pending).1 = groups.flatten.find? fun task => !failed task := by
  induction groups generalizing pending with
  | nil => rfl
  | cons done groups ih =>
    rw [race, List.flatten_cons, List.find?_append]
    split
    next hf => rw [hf, Option.some_or]
    next hf => rw [hf, Option.none_or, ih h.tail]

end Race

/-- What `TimeSplitter` reads and writes of an organism; children are given by their ids. -/
structure Brancher (I V H : Type) where
  id : String
  input : I
  state : StateDict V
  history : List H
  lifecycle : OrganismState
  next : Option String
  children : List String

namespace Brancher

variable {I V H : Type}

def terminated (o : Brancher I V H) : Bool := o.lifecycle = .terminated

/-- Under the id that `uuid4` gives. -/
def spawnChild (o : Brancher I V H) (id : String) : Brancher I V H where
  id := id
  input := o.input
  state := o.state
  history := []
  lifecycle := .spawned
  next := o.next
  children := []

def terminate [PyValue V] (o : Brancher I V H) (error : String) : Brancher I V H :=
  { o with
    lifecycle := .terminated
    state := if error = "" then o.state else o.state.set "_error" (PyValue.ofStr error) }

end Brancher

structure Explored (V H : Type) where
  state : StateDict V
  history : List H
  lifecycle : OrganismState
  next : Option String

/-- How the execution of a branch ends: with an `Exception` where it raises, and with
`CancelledError` or another that is not one where it escapes. -/
inductive BranchOutcome (V H : Type)
  | returned (branch : Explored V H)
  | raised (branch : Explored V H) (message : String)
  | timedOut (branch : Explored V H)
  | escaped

structure TimeSplitter where
  maxBranches : Nat

/-- What `execute_time_split` returns, and the tasks it had and cancelled. -/
inductive TimeSplit (I V H : Type) (τ : Type)
  | returned (organism : Brancher I V H) (winner : Option τ) (cancelled : List τ)
  | raised

variable {I V H : Type}

namespace BranchOutcome

def completes : BranchOutcome V H → Bool
  | returned branch => branch.lifecycle ≠ .terminated
  | _ => false

def escapes : BranchOutcome V H → Bool
  | escaped => true
  | _ => false

/-- `task.result()` raises, or is a winner. -/
def decides (outcome : BranchOutcome V H) : Bool := outcome.completes || outcome.escapes

theorem eq_returned {outcome : BranchOutcome V H} (h : outcome.completes) :
    ∃ e, outcome = .returned e ∧ e.lifecycle ≠ .terminated := by
  cases outcome with
  | returned e => exact ⟨e, rfl, by simpa [completes] using h⟩
  | raised | timedOut | escaped => cases h

end BranchOutcome

def Brancher.explored (b : Brancher I V H) (e : Explored V H) : Brancher I V H :=
  { b with state := e.state, history := e.history, lifecycle := e.lifecycle, next := e.next }

/-- `run_branch` -/
def Brancher.runBranch [PyValue V] (b : Brancher I V H) :
    BranchOutcome V H → Option (Brancher I V H)
  | .returned e => some (b.explored e)
  | .raised e message => some ((b.explored e).terminate message)
  | .timedOut e => some ((b.explored e).terminate "branch timeout")
  | .escaped => none

namespace TimeSplitter

def split (x : TimeSplitter) (o : Brancher I V H) (ids : Nat → String)
    (capabilities : List String) : List (Brancher I V H) :=
  (capabilities.take x.maxBranches).mapIdx fun i capability =>
    { o.spawnChild (ids i) with next := some capability, lifecycle := .exploring }

variable [PyValue V]

/-- The branch `i` as its task returns it. -/
def result (x : TimeSplitter) (o : Brancher I V H) (ids : Nat → String) (capabilities : List String)
    (outcome : Fin (x.split o ids capabilities).length → BranchOutcome V H)
    (i : Fin (x.split o ids capabilities).length) : Option (Brancher I V H) :=
  ((x.split o ids capabilities).get i).runBranch (outcome i)

/-- The tasks are the branches; `groups` is how they complete. -/
def executeTimeSplit (x : TimeSplitter) (o : Brancher I V H) (ids : Nat → String)
    (capabilities : List String)
    (outcome : Fin (x.split o ids capabilities).length → BranchOutcome V H)
    (groups : List (List (Fin (x.split o ids capabilities).length))) :
    TimeSplit I V H (Fin (x.split o ids capabilities).length) :=
  let children := (x.split o ids capabilities).map (·.id)
  match race (fun i => (x.result o ids capabilities outcome i).any (·.terminated)) groups
      (List.finRange _) with
  | (some i, pending) =>
    match x.result o ids capabilities outcome i with
    | none => .raised
    | some winner => .returned { o with
        state := winner.state.set "_time_split_winner" (PyValue.ofStr winner.id)
        history := winner.history
        children := children
        lifecycle := .learning } (some i) pending
  | (none, pending) =>
    .returned ({ o with children := o.children ++ children }.terminate "All branches failed")
      none pending

variable {x : TimeSplitter} {o : Brancher I V H} {ids : Nat → String} {capabilities : List String}
  {outcome outcome' : Fin (x.split o ids capabilities).length → BranchOutcome V H}
  {groups : List (List (Fin (x.split o ids capabilities).length))}

omit [PyValue V] in
theorem split_length_le : (x.split o ids capabilities).length ≤ x.maxBranches := by
  rw [split, List.length_mapIdx, List.length_take]
  exact min_le_left _ _

theorem result_failed (i : Fin (x.split o ids capabilities).length) :
    (x.result o ids capabilities outcome i).any (·.terminated) = !(outcome i).decides := by
  unfold result
  cases outcome i with
  | returned e =>
    have hc : (BranchOutcome.returned e).decides = !decide (e.lifecycle = .terminated) := by
      have hescapes : (BranchOutcome.returned e).escapes = false := rfl
      rw [BranchOutcome.decides, hescapes, Bool.or_false]
      exact decide_not
    rw [hc, Bool.not_not]
    rfl
  | raised | timedOut | escaped => rfl

def decisive (outcome : Fin n → BranchOutcome V H) (groups : List (List (Fin n))) :
    Option (Fin n) := groups.flatten.find? fun i => (outcome i).decides

theorem race_decisive (h : Groups groups (List.finRange (x.split o ids capabilities).length)) :
    (race (fun i => (x.result o ids capabilities outcome i).any (·.terminated)) groups
      (List.finRange _)).1 = decisive outcome groups := by
  rw [race_eq_find h, decisive]
  congr
  funext i
  rw [result_failed, Bool.not_not]

theorem race_outcome_congr
    (h : Groups groups (List.finRange (x.split o ids capabilities).length))
    (hrace : race (fun i => (x.result o ids capabilities outcome i).any (·.terminated)) groups
      (List.finRange _) = (winner, left)) (heq : ∀ i, i ∉ left → outcome' i = outcome i) :
    race (fun i => (x.result o ids capabilities outcome' i).any (·.terminated)) groups
      (List.finRange _) = (winner, left) :=
  race_congr h hrace fun i _ hi => by rw [result_failed, result_failed, heq i hi]

end TimeSplitter

inductive StateSlot (V : Type)
  | own (value : V)
  | shared (p : Nat)

instance [PyValue V] : PyValue (StateSlot V) := ⟨.own ∘ PyValue.ofBool, .own ∘ PyValue.ofStr⟩

def stands (heap : Nat → V) (s : StateDict (StateSlot V)) : StateDict V := fun k =>
  (s k).map fun
    | .own value => value
    | .shared p => heap p

/-- Tasks are found done together; a branch, or the thread of one of its nodes, writes into an
object. -/
inductive RaceEvent (n : Nat) (V : Type)
  | done (group : List (Fin n))
  | write (i : Fin n) (p : Nat) (value : V)

namespace RaceEvent

variable {n : Nat}

def group : RaceEvent n V → Option (List (Fin n))
  | done group => some group
  | write .. => none

def isBy (cancelled : List (Fin n)) : RaceEvent n V → Bool
  | done _ => false
  | write i _ _ => i ∈ cancelled

def apply (heap : Nat → V) : RaceEvent n V → Nat → V
  | done _ => heap
  | write _ p value => Function.update heap p value

end RaceEvent

section Sharing

variable {n : Nat} {heap heap' : Nat → V} {es : List (RaceEvent n V)} {p : Nat}

def groupsOf (es : List (RaceEvent n V)) : List (List (Fin n)) := es.filterMap RaceEvent.group

def heapAfter (heap : Nat → V) (es : List (RaceEvent n V)) : Nat → V := es.foldl RaceEvent.apply heap

structure Racing (outcome : Fin n → BranchOutcome (StateSlot V) H) (es : List (RaceEvent n V)) :
    Prop where
  groups : Groups (groupsOf es) (List.finRange n)
  closed : ∀ before group after, es = before ++ .done group :: after → ∀ i ∈ group,
    (outcome i).completes → ∀ p value, .write i p value ∉ after

def Apart (outcome : Fin n → BranchOutcome (StateSlot V) H) (es : List (RaceEvent n V)) : Prop :=
  ∀ i p value, .write i p value ∈ es → ∀ j e, outcome j = .returned e → j ≠ i →
    ∀ k, e.state k ≠ some (.shared p)

/-- From where the branch is found done, its state stands as it did, and as it would without what
the cancelled branches have written. -/
def Undisturbed (heap : Nat → V) (es : List (RaceEvent n V)) (i : Fin n)
    (state : StateDict (StateSlot V)) (cancelled : List (Fin n)) : Prop :=
  ∀ before group later after, es = before ++ .done group :: later ++ after → i ∈ group →
    stands (heapAfter heap (before ++ .done group :: later)) state =
        stands (heapAfter heap before) state ∧
      stands (heapAfter heap (before ++ .done group :: later)) state =
        stands (heapAfter heap ((before ++ .done group :: later).filter (!·.isBy cancelled))) state

theorem heapAfter_append (es fs : List (RaceEvent n V)) :
    heapAfter heap (es ++ fs) = heapAfter (heapAfter heap es) fs := List.foldl_append

theorem heapAfter_of_not (h : ∀ i value, .write i p value ∉ es) : heapAfter heap es p = heap p := by
  induction es generalizing heap with
  | nil => rfl
  | cons e es ih =>
    refine (ih fun i value he => h i value (List.mem_cons_of_mem _ he)).trans ?_
    cases e with
    | done => rfl
    | write i q value =>
      refine Function.update_of_ne ?_ ..
      rintro rfl
      exact h i value List.mem_cons_self

theorem heapAfter_filter {keep : RaceEvent n V → Bool} (hp : heap p = heap' p)
    (h : ∀ i value, .write i p value ∈ es → keep (.write i p value)) :
    heapAfter heap (es.filter keep) p = heapAfter heap' es p := by
  induction es generalizing heap heap' with
  | nil => exact hp
  | cons e es ih =>
    have hrest := fun i value he => h i value (List.mem_cons_of_mem e he)
    have happly : e.apply heap p = e.apply heap' p := by
      cases e with
      | done => exact hp
      | write i q value =>
        by_cases hq : p = q
        · subst hq
          simp [RaceEvent.apply]
        · simpa [RaceEvent.apply, Function.update_of_ne hq] using hp
    rw [List.filter_cons]
    split
    next => exact ih happly hrest
    next hkeep =>
      refine ih ?_ hrest
      cases e with
      | done => exact hp
      | write i q value =>
        rw [RaceEvent.apply, Function.update_of_ne, hp]
        rintro rfl
        exact hkeep (h i value List.mem_cons_self)

theorem stands_congr {s : StateDict (StateSlot V)}
    (h : ∀ k p, s k = some (.shared p) → heap p = heap' p) : stands heap s = stands heap' s := by
  funext k
  unfold stands
  cases hk : s k with
  | none => rfl
  | some slot =>
    cases slot with
    | own value => rfl
    | shared p => exact congrArg some (h k p hk)

variable {outcome : Fin n → BranchOutcome (StateSlot V) H} {i : Fin n}
  {e : Explored (StateSlot V) H}

theorem Apart.by_own (h : Apart outcome es) (ho : outcome i = .returned e)
    (hk : e.state k = some (.shared p)) (hw : .write j p value ∈ es) : j = i := by
  by_contra hne
  exact h j p value hw i e ho (Ne.symm hne) k hk

theorem Apart.undisturbed (h : Apart outcome es) (hracing : Racing outcome es)
    (ho : outcome i = .returned e) (hlive : (outcome i).completes) (hi : i ∉ cancelled) :
    Undisturbed heap es i e.state cancelled := by
  intro before group later after hes hgroup
  have hes' : es = before ++ .done group :: (later ++ after) := by simpa using hes
  constructor
  · refine stands_congr fun k p hk => ?_
    rw [heapAfter_append]
    refine heapAfter_of_not fun j value hw => ?_
    rcases List.mem_cons.mp hw with hw | hw
    · cases hw
    · obtain rfl := h.by_own ho hk (hes' ▸ List.mem_append_right _
        (List.mem_cons_of_mem _ (List.mem_append_left _ hw)))
      exact hracing.closed _ _ _ hes' j hgroup hlive p value (List.mem_append_left _ hw)
  · refine stands_congr fun k p hk => (heapAfter_filter rfl fun j value hw => ?_).symm
    obtain rfl := h.by_own ho hk (hes ▸ List.mem_append_left _ hw)
    simp [RaceEvent.isBy, hi]

end Sharing

namespace TimeSplitter

variable [PyValue V] {x : TimeSplitter} {o : Brancher I (StateSlot V) H} {ids : Nat → String}
  {capabilities : List String}
  {outcome : Fin (x.split o ids capabilities).length → BranchOutcome (StateSlot V) H}
  {heap : Nat → V} {es : List (RaceEvent (x.split o ids capabilities).length V)}
  {r : TimeSplit I (StateSlot V) H (Fin (x.split o ids capabilities).length)}

/-- A branch that completes wins whenever there is one, and the organism gets its state and no
other; where none does, the organism is terminated. What is cancelled makes no difference. -/
structure Splits (x : TimeSplitter) (o : Brancher I (StateSlot V) H) (ids : Nat → String)
    (capabilities : List String)
    (outcome : Fin (x.split o ids capabilities).length → BranchOutcome (StateSlot V) H)
    (heap : Nat → V) (es : List (RaceEvent (x.split o ids capabilities).length V))
    (r : TimeSplit I (StateSlot V) H (Fin (x.split o ids capabilities).length)) : Prop where
  started : (x.split o ids capabilities).length ≤ x.maxBranches
  picks : (∃ i, (outcome i).completes) → ∃ organism i cancelled e,
    r = .returned organism (some i) cancelled ∧ organism.terminated = false ∧ i ∉ cancelled ∧
    outcome i = .returned e ∧ e.lifecycle ≠ .terminated ∧
    organism.state =
      e.state.set "_time_split_winner" (PyValue.ofStr ((x.split o ids capabilities).get i).id) ∧
    Undisturbed heap es i e.state cancelled
  fails : (∀ i, (outcome i).completes = false) → ∃ organism cancelled,
    r = .returned organism none cancelled ∧ organism.terminated ∧
    organism.state = o.state.set "_error" (PyValue.ofStr "All branches failed")
  alone : ∀ organism winner cancelled, r = .returned organism winner cancelled →
    ∀ outcome', (∀ i, i ∉ cancelled → outcome' i = outcome i) →
      x.executeTimeSplit o ids capabilities outcome' (groupsOf es) = r

theorem splits_of_completes (h : Racing outcome es) (hapart : Apart outcome es)
    (hrace : race (fun i => (x.result o ids capabilities outcome i).any (·.terminated))
      (groupsOf es) (List.finRange _) = (some i, left)) (hi : (outcome i).completes) :
    x.Splits o ids capabilities outcome heap es
      (x.executeTimeSplit o ids capabilities outcome (groupsOf es)) := by
  obtain ⟨e, ho, hlive⟩ := BranchOutcome.eq_returned hi
  have hleft : i ∉ left := ((race_spec h.groups hrace).1 i rfl).2.1
  have hresult (outcome') (ho' : outcome' i = outcome i) :
      x.result o ids capabilities outcome' i =
        some (((x.split o ids capabilities).get i).explored e) := by
    rw [result, ho', ho, Brancher.runBranch]
  have hexecute (outcome') (heq : ∀ j, j ∉ left → outcome' j = outcome j) :
      x.executeTimeSplit o ids capabilities outcome' (groupsOf es) = .returned { o with
        state := e.state.set "_time_split_winner"
          (PyValue.ofStr ((x.split o ids capabilities).get i).id)
        history := e.history
        children := (x.split o ids capabilities).map (·.id)
        lifecycle := .learning } (some i) left := by
    unfold executeTimeSplit
    rw [race_outcome_congr h.groups hrace heq]
    dsimp only
    rw [hresult outcome' (heq i hleft)]
    rfl
  rw [hexecute outcome fun _ _ => rfl]
  refine ⟨split_length_le, fun _ => ⟨_, i, left, e, rfl, rfl, hleft, ho, hlive, rfl,
    hapart.undisturbed h ho hi hleft⟩, fun hnone => ?_, ?_⟩
  · rw [hnone i] at hi
    cases hi
  · rintro _ _ _ ⟨⟩ outcome' heq
    exact hexecute outcome' heq

theorem splits_of_none (h : Racing outcome es)
    (hrace : race (fun i => (x.result o ids capabilities outcome i).any (·.terminated))
      (groupsOf es) (List.finRange _) = (none, left)) :
    x.Splits o ids capabilities outcome heap es
      (x.executeTimeSplit o ids capabilities outcome (groupsOf es)) := by
  have hnone (i) : (outcome i).completes = false := by
    have hfailed := (race_spec h.groups hrace).2 rfl i (List.mem_finRange i)
    rw [result_failed, Bool.not_eq_true', BranchOutcome.decides, Bool.or_eq_false_iff] at hfailed
    exact hfailed.1
  have hexecute (outcome') (heq : ∀ j, j ∉ left → outcome' j = outcome j) :
      x.executeTimeSplit o ids capabilities outcome' (groupsOf es) =
        .returned ({ o with
          children := o.children ++ (x.split o ids capabilities).map Brancher.id }.terminate
            "All branches failed") none left := by
    unfold executeTimeSplit
    rw [race_outcome_congr h.groups hrace heq]
  rw [hexecute outcome fun _ _ => rfl]
  refine ⟨split_length_le, fun ⟨i, hi⟩ => ?_, fun _ => ⟨_, left, rfl, rfl, rfl⟩, ?_⟩
  · rw [hnone i] at hi
    cases hi
  · rintro _ _ _ ⟨⟩ outcome' heq
    exact hexecute outcome' heq

theorem raised_of_escapes
    (hrace : race (fun i => (x.result o ids capabilities outcome i).any (·.terminated))
      (groupsOf es) (List.finRange _) = (some i, left)) (hi : (outcome i).escapes) :
    x.executeTimeSplit o ids capabilities outcome (groupsOf es) = .raised := by
  have hnone : x.result o ids capabilities outcome i = none := by
    unfold result
    cases ho : outcome i with
    | escaped => rfl
    | returned | raised | timedOut =>
      rw [ho] at hi
      cases hi
  unfold executeTimeSplit
  rw [hrace]
  dsimp only
  rw [hnone]

theorem not_splits_raised : ¬ x.Splits o ids capabilities outcome heap es .raised := by
  intro hs
  by_cases hc : ∃ i, (outcome i).completes
  · obtain ⟨_, _, _, _, h, -⟩ := hs.picks hc
    cases h
  · obtain ⟨_, _, h, -⟩ := hs.fails fun i => Bool.eq_false_of_not_eq_true fun hi => hc ⟨i, hi⟩
    cases h

/-- Where no branch writes into what the state of another has, all is so exactly if no branch is
found to have raised what is not an `Exception` before one that has completed. -/
theorem executeTimeSplit_iff (h : Racing outcome es) (hapart : Apart outcome es)
    (hr : x.executeTimeSplit o ids capabilities outcome (groupsOf es) = r) :
    x.Splits o ids capabilities outcome heap es r ↔
      ∀ i, decisive outcome (groupsOf es) = some i → (outcome i).escapes = false := by
  subst hr
  have hdecisive : _ = decisive outcome (groupsOf es) := race_decisive h.groups
  rcases hrace : race (fun i => (x.result o ids capabilities outcome i).any (·.terminated))
    (groupsOf es) (List.finRange _) with ⟨_ | i, left⟩
  · rw [hrace] at hdecisive
    exact iff_of_true (splits_of_none h hrace) fun i hi => by cases hdecisive.trans hi
  · rw [hrace] at hdecisive
    obtain ⟨-, -, hfailed⟩ := (race_spec h.groups hrace).1 i rfl
    rw [result_failed, Bool.not_eq_false'] at hfailed
    cases he : (outcome i).escapes with
    | true =>
      rw [raised_of_escapes hrace he]
      refine iff_of_false not_splits_raised fun hall => ?_
      cases he.symm.trans (hall i hdecisive.symm)
    | false =>
      rw [BranchOutcome.decides, he, Bool.or_false] at hfailed
      refine iff_of_true (splits_of_completes h hapart hrace hfailed) fun j hj => ?_
      obtain rfl := Option.some.inj (hdecisive.trans hj)
      exact he

section Sample

instance : PyValue String := ⟨toString, id⟩

def sampleOrganism : Brancher Unit (StateSlot String) Unit :=
  ⟨"org", (), StateDict.empty.set "list" (.shared 0), [], .spawned, none, []⟩

def sampleOutcome (i : Nat) : BranchOutcome (StateSlot String) Unit :=
  if i = 0 then .raised ⟨StateDict.empty, [], .exploring, none⟩ "failed"
  else .returned ⟨StateDict.empty.set "list" (.shared 0), [], .learning, none⟩

def sampleEvents (p : Nat) : List (RaceEvent 2 String) :=
  [.done [1], .write 0 p "[1]", .done [0]]

theorem sample_racing (p : Nat) : Racing (fun i => sampleOutcome i) (sampleEvents p) where
  groups := by
    change Groups [[1], [0]] (List.finRange 2)
    exact ⟨by decide, by decide, by decide⟩
  closed := by
    intro before group after hes i hi hc q value hw
    have hby (j : Fin 2) : .write j q value ∈ sampleEvents p → j = 0 := by
      simp +contextual [sampleEvents]
    obtain rfl := hby i (hes ▸ List.mem_append_right _ (List.mem_cons_of_mem _ hw))
    cases hc

/-- Its node writes into the list that the request came with. -/
theorem sample_not_splits :
    ¬ (⟨2⟩ : TimeSplitter).Splits sampleOrganism toString ["a", "b"] (fun i => sampleOutcome i)
      (fun _ => "[]") (sampleEvents 0)
      ((⟨2⟩ : TimeSplitter).executeTimeSplit sampleOrganism toString ["a", "b"]
        (fun i => sampleOutcome i) (groupsOf (sampleEvents 0))) := by
  intro hs
  obtain ⟨_, i, _, e, -, -, -, ho, -, -, hkept⟩ := hs.picks ⟨⟨1, by decide⟩, rfl⟩
  have hi : i = ⟨1, by decide⟩ := by
    rcases i with ⟨_ | _ | i, hi⟩
    · cases ho
    · rfl
    · exact absurd hi (by simp [split])
  subst hi
  cases ho
  have hstands := congrFun (hkept [] [⟨1, by decide⟩] [.write ⟨0, by decide⟩ 0 "[1]"]
    [.done [⟨0, by decide⟩]] rfl List.mem_cons_self).1 "list"
  revert hstands
  decide

/-- It writes into a list of its own. -/
theorem executeTimeSplit_iff_two :
    (⟨2⟩ : TimeSplitter).Splits sampleOrganism toString ["a", "b"] (fun i => sampleOutcome i)
      (fun _ => "[]") (sampleEvents 1)
      ((⟨2⟩ : TimeSplitter).executeTimeSplit sampleOrganism toString ["a", "b"]
        (fun i => sampleOutcome i) (groupsOf (sampleEvents 1))) := by
  have hapart : Apart (fun i => sampleOutcome i) (sampleEvents 1) := by
    intro i p value hw j e ho _ k hk
    obtain rfl : p = 1 := by
      have hwrite : i = 0 ∧ p = 1 ∧ value = "[1]" := by simpa [sampleEvents] using hw
      exact hwrite.2.1
    dsimp only [sampleOutcome] at ho
    split at ho
    · cases ho
    · cases ho
      dsimp only [StateDict.set] at hk
      split at hk <;> cases hk
  refine (executeTimeSplit_iff (sample_racing 1) hapart rfl).mpr fun i hi => ?_
  rcases i with ⟨_ | i, hi'⟩
  · rfl
  · rfl

end Sample

end TimeSplitter

end PrismPipe.Engine
