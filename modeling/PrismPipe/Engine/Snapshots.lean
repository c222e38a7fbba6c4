import Mathlib.Data.List.AList
import PrismPipe.Core.Wire
import PrismPipe.Lib.Transition

/-! `snapshot` and `restore` of `ReplayEngine`: what of an envelope comes back. -/

namespace PrismPipe.Wire

open Python Transition
open Core (Intent)

variable {D R : Type}

/-- An envelope as it is held. Its input and what its state has are objects, which others may
hold too; its history is what is read of it at the time. -/
structure Held (D R : Type) where
  id : PyStr
  intent : Intent
  input : R
  state : List (PyStr × R)
  history : List (HistoryEntry D)
  metadata : Metadata
  plan : ExecutionPlan
  next : Option PyStr
  error : Option PyStr
  terminated : Bool
  parentId : Option PyStr

abbrev Memory (R : Type) := R → Json

def Held.look (memory : Memory R) (envelope : Held D R) : RequestEnvelope D where
  id := envelope.id
  intent := envelope.intent
  input := memory envelope.input
  state := envelope.state.map fun kv => (kv.1, memory kv.2)
  history := envelope.history
  metadata := envelope.metadata
  plan := envelope.plan
  next := envelope.next
  error := envelope.error
  terminated := envelope.terminated
  parentId := envelope.parentId

/-- `timestamp` is not read. -/
structure Snapshot (D R : Type) where
  id : PyStr
  intent : PyStr
  input : R
  state : List (PyStr × R)
  history : List (Dumped D)
  plan : Dumped D
  next : Option PyStr

def Snapshot.of (envelope : Held D R) : Snapshot D R where
  id := envelope.id
  intent := py envelope.intent.value
  input := envelope.input
  state := envelope.state
  history := envelope.history.map HistoryEntry.modelDump
  plan := envelope.plan.modelDump
  next := envelope.next

structure ValidationError

/-- Models built of what `model_dump()` returned. -/
structure Construct (D : Type) where
  entry : Dumped D → Except ValidationError (HistoryEntry D)
  plan : Dumped D → Except ValidationError ExecutionPlan

structure Construct.Keeps (C : Construct D) : Prop where
  entry (entry : HistoryEntry D) : C.entry entry.modelDump = .ok entry
  plan (plan : ExecutionPlan) : C.plan plan.modelDump = .ok plan

structure ReplayEngine (D R : Type) where
  snapshots : AList fun _ : PyStr => Snapshot D R
  forks : AList fun _ : PyStr => List PyStr

namespace ReplayEngine

def empty : ReplayEngine D R := ⟨∅, ∅⟩

/-- `fresh` is of a new `uuid4`. -/
def snapshotId (label : Option PyStr) (fresh : PyStr) : PyStr :=
  match label with
  | some label => if label = [] then fresh else label
  | none => fresh

def snapshot (self : ReplayEngine D R) (envelope : Held D R) (label : Option PyStr)
    (fresh : PyStr) : PyStr × ReplayEngine D R :=
  let snapshotId := snapshotId label fresh
  (snapshotId, {
    snapshots := self.snapshots.insert snapshotId (.of envelope)
    forks := self.forks.insert envelope.id
      ((self.forks.lookup envelope.id).getD [] ++ [snapshotId]) })

def defaultMetadata : Metadata := ⟨none, none, none, none, none, none, 0, [], []⟩

def restore (C : Construct D) (self : ReplayEngine D R) (snapshotId : PyStr) :
    Except ValidationError (Option (Held D R)) :=
  match self.snapshots.lookup snapshotId with
  | none => .ok none
  | some snap => do
    let intent ← match Intent.read (.str snap.intent) with
      | some intent => .ok intent
      | none => .error ⟨⟩
    let history ← snap.history.mapM C.entry
    let plan ← C.plan snap.plan
    return some {
      id := snap.id
      intent
      input := snap.input
      state := snap.state
      history
      metadata := defaultMetadata
      plan
      next := snap.next
      error := none
      terminated := false
      parentId := none }

inductive Step : ReplayEngine D R → PyStr → ReplayEngine D R → Prop
  | snapshot : engine.snapshot envelope label fresh = (key, engine') →
      Step engine key engine'

def snapshotting (D R : Type) : System (ReplayEngine D R) PyStr where
  init engine := engine = empty
  step := Step

/-- What `snapshot` leaves out has its default. -/
structure Plain (envelope : Held D R) : Prop where
  metadata : envelope.metadata = defaultMetadata
  error : envelope.error = none
  terminated : envelope.terminated = false
  parentId : envelope.parentId = none

structure Untouched (before after : Memory R) (envelope : Held D R) : Prop where
  input : after envelope.input = before envelope.input
  state : ∀ kv ∈ envelope.state, after kv.2 = before kv.2

theorem lookup_snapshot {engine engine' : ReplayEngine D R}
    (h : engine.snapshot envelope label fresh = (key, engine')) :
    engine'.snapshots.lookup key = some (.of envelope) := by
  obtain ⟨rfl, rfl⟩ := Prod.mk.inj h
  exact AList.lookup_insert _

theorem Step.lookup {engine engine' : ReplayEngine D R} (st : Step engine taken engine')
    (h : key ≠ taken) : engine'.snapshots.lookup key = engine.snapshots.lookup key := by
  cases st with
  | snapshot hs =>
    obtain ⟨rfl, rfl⟩ := Prod.mk.inj hs
    exact AList.lookup_insert_ne h

theorem lookup_run {engine engine' : ReplayEngine D R}
    (hr : Run (snapshotting D R) engine taken engine') (h : key ∉ taken) :
    engine'.snapshots.lookup key = engine.snapshots.lookup key := by
  induction hr with
  | nil => rfl
  | cons st _ ih =>
    rw [ih (List.not_mem_of_not_mem_cons h), Step.lookup st (List.ne_of_not_mem_cons h)]

def stripped (envelope : Held D R) : Held D R :=
  { envelope with
    metadata := defaultMetadata, error := none, terminated := false, parentId := none }

variable {C : Construct D}

theorem mapM_entry (hC : C.Keeps) (history : List (HistoryEntry D)) :
    (history.map HistoryEntry.modelDump).mapM C.entry = .ok history := by
  induction history with
  | nil => rfl
  | cons entry history ih =>
    rw [List.map_cons, List.mapM_cons, hC.entry, ih]
    rfl

theorem restore_of_lookup (hC : C.Keeps) {engine : ReplayEngine D R}
    (h : engine.snapshots.lookup key = some (.of envelope)) :
    engine.restore C key = .ok (some (stripped envelope)) := by
  simp only [restore, h, Snapshot.of, Intent.read_value, mapM_entry hC, hC.plan]
  rfl

theorem look_stripped_iff {before after : Memory R} (envelope : Held D R) :
    (stripped envelope).look after = envelope.look before ↔
      Plain envelope ∧ Untouched before after envelope := by
  constructor
  · intro h
    have hstate := congrArg RequestEnvelope.state h
    refine ⟨⟨?_, ?_, ?_, ?_⟩, congrArg RequestEnvelope.input h, fun kv hkv => ?_⟩
    · exact (congrArg RequestEnvelope.metadata h).symm
    · exact (congrArg RequestEnvelope.error h).symm
    · exact (congrArg RequestEnvelope.terminated h).symm
    · exact (congrArg RequestEnvelope.parentId h).symm
    · exact (Prod.mk.inj (List.map_inj_left.mp hstate kv hkv)).2
  · rintro ⟨⟨hmetadata, herror, hterminated, hparent⟩, hinput, hstate⟩
    have hmap : envelope.state.map (fun kv => (kv.1, after kv.2)) =
        envelope.state.map fun kv => (kv.1, before kv.2) :=
      List.map_inj_left.mpr fun kv hkv => by rw [hstate kv hkv]
    simp only [Held.look, stripped, hmetadata, herror, hterminated, hparent, hinput, hmap]

/-- An envelope comes back as it was exactly if it has no metadata, error, end or parent, and
nothing it holds is changed meanwhile. -/
theorem restore_iff (hC : C.Keeps) {engine engine' engine'' : ReplayEngine D R}
    (hs : engine.snapshot envelope label fresh = (key, engine'))
    (hr : Run (snapshotting D R) engine' taken engine'') (hk : key ∉ taken)
    (before after : Memory R) :
    (∃ restored, engine''.restore C key = .ok (some restored) ∧
      restored.look after = envelope.look before) ↔
        Plain envelope ∧ Untouched before after envelope := by
  rw [restore_of_lookup hC ((lookup_run hr hk).trans (lookup_snapshot hs)),
    ← look_stripped_iff envelope]
  constructor
  · rintro ⟨restored, hrestored, hlook⟩
    cases hrestored
    exact hlook
  · exact fun h => ⟨_, rfl, h⟩

def readFloat : Json → Option PyFloat
  | .float f => some f
  | _ => none

def rebuildEntry : Dumped D → Option (HistoryEntry D)
  | .dict [(_, .json (.str nodeId)), (_, .json (.str nodeType)), (_, .json (.str capability)),
      (_, .json (.str action)), (_, .datetime timestamp), (_, .json durationMs),
      (_, .json inputSnapshot), (_, .json outputSnapshot)] => do
    let durationMs ← optional readFloat durationMs
    let inputSnapshot ← optional (readDict some) inputSnapshot
    let outputSnapshot ← optional (readDict some) outputSnapshot
    return ⟨nodeId, nodeType, capability, action, timestamp, durationMs, inputSnapshot,
      outputSnapshot⟩
  | _ => none

def readStr : Json → Option PyStr
  | .str s => some s
  | _ => none

def rebuildPlan : Dumped D → Option ExecutionPlan
  | .dict [(_, .json capabilities), (_, .json (.int currentIndex))] => do
    let capabilities ← readList readStr capabilities
    return ⟨capabilities, currentIndex⟩
  | _ => none

def rebuild : Construct D where
  entry d := (rebuildEntry d).elim (.error ⟨⟩) .ok
  plan d := (rebuildPlan d).elim (.error ⟨⟩) .ok

theorem rebuild_keeps : (rebuild : Construct D).Keeps where
  entry entry := by
    have hsnapshot (o : Option Dict) : optional (readDict some) (optionalJson .dict o) = some o :=
      optional_optionalJson readDict_some (fun _ h => by cases h) o
    have hfloat (f : PyFloat) : readFloat (.float f) = some f := rfl
    have hduration : optional readFloat (optionalJson .float entry.durationMs) =
        some entry.durationMs :=
      optional_optionalJson hfloat (fun _ h => by cases h) _
    simp only [rebuild, HistoryEntry.modelDump, rebuildEntry, hsnapshot, hduration]
    rfl
  plan plan := by
    have hstr (s : PyStr) : readStr (.str s) = some s := rfl
    have hlist : readList readStr (.list (plan.capabilities.map .str)) = some plan.capabilities :=
      readList_map hstr _
    simp only [rebuild, ExecutionPlan.modelDump, rebuildPlan, hlist]
    rfl

def failed : Held Unit Unit where
  id := py "req"
  intent := .httpRequest
  input := ()
  state := []
  history := []
  metadata := defaultMetadata
  plan := ⟨[], 0⟩
  next := some (py "a")
  error := some (py "boom")
  terminated := true
  parentId := none

def keeping : ReplayEngine Unit Unit := (empty.snapshot failed (some (py "s")) []).2

theorem snapshot_failed : empty.snapshot failed (some (py "s")) [] = (py "s", keeping) := rfl

/-- It comes back as one that runs. -/
theorem failed_not_restored :
    empty.snapshot failed (some (py "s")) [] = (py "s", keeping) ∧
      ¬ ∃ restored, keeping.restore rebuild (py "s") = .ok (some restored) ∧
        restored.look (fun _ => .null) = failed.look fun _ => .null := by
  refine ⟨snapshot_failed, ?_⟩
  rintro ⟨restored, hrestored, hlook⟩
  rw [restore_of_lookup rebuild_keeps (lookup_snapshot snapshot_failed)] at hrestored
  cases hrestored
  have h := ((look_stripped_iff failed).mp hlook).1.terminated
  cases h

theorem restore_iff_failed :
    ¬ ∃ restored, keeping.restore rebuild (py "s") = .ok (some restored) ∧
      restored.look (fun _ => .null) = failed.look fun _ => .null := by
  intro h
  have hplain := ((restore_iff rebuild_keeps snapshot_failed .nil List.not_mem_nil _ _).mp h).1
  exact nomatch hplain.terminated

end ReplayEngine

end PrismPipe.Wire
