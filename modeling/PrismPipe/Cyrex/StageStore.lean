import Mathlib.Data.List.Sort
import Mathlib.Order.WithBot
import PrismPipe.Lib.Table

/-! `cyrex_stage_store.py`: the inputs and the outputs of stages, in two tables joined by run and
stage.  Stage rows are completed, artifacts are not deleted. -/

namespace PrismPipe.Cyrex

structure StageInput where
  runId : String
  stageName : String
  inputHash : String
  inputRef : String

structure StageOutput where
  runId : String
  stageName : String
  artifactId : String
  outputType : Option String

def StageInput.key (i : StageInput) : String × String × String :=
  (i.runId, i.stageName, i.inputRef)

def StageOutput.key (o : StageOutput) : String × String × String :=
  (o.runId, o.stageName, o.artifactId)

structure StageTables where
  inputs : Table StageInput StageInput.key
  outputs : Table StageOutput StageOutput.key

/-- The arguments of `record`. -/
structure RecordArgs where
  runId : String
  stageName : String
  inputHash : String
  artifactIds : List String
  inputRef : String
  outputType : Option String

def RecordArgs.input (args : RecordArgs) : StageInput :=
  ⟨args.runId, args.stageName, args.inputHash, args.inputRef⟩

/-- `ON CONFLICT (run_id, stage_name, input_ref) DO UPDATE SET input_hash`. -/
def recordInput (t : Table StageInput StageInput.key) (i : StageInput) :
    Table StageInput StageInput.key :=
  (t.insert i).getD
    (t.update (fun r => r.key = i.key) (fun r => { r with inputHash := i.inputHash })
      fun _ => rfl)

/-- `ON CONFLICT (run_id, stage_name, artifact_id) DO NOTHING`. -/
def recordOutput (t : Table StageOutput StageOutput.key) (o : StageOutput) :
    Table StageOutput StageOutput.key :=
  (t.insert o).getD t

/-- `record`, one transaction. -/
def record (s : StageTables) (args : RecordArgs) : StageTables where
  inputs := recordInput s.inputs args.input
  outputs := args.artifactIds.foldl
    (fun t a => recordOutput t ⟨args.runId, args.stageName, a, args.outputType⟩) s.outputs

def recorded : List RecordArgs → StageTables
  | [] => ⟨.empty, .empty⟩
  | args :: history => record (recorded history) args

/-- `FROM pipeline_stage_inputs i JOIN pipeline_stage_outputs o WHERE ...`. -/
def joined (s : StageTables) (stageName inputHash : String) : List StageOutput :=
  (s.inputs.rows.filter fun i => i.stageName = stageName ∧ i.inputHash = inputHash).flatMap
    fun i => s.outputs.rows.filter fun o => o.runId = i.runId ∧ o.stageName = i.stageName

structure StageMemoHit where
  artifactIds : List String
  outputTypes : List (Option String)
  sourceRunId : String

def StageMemoHit.ofRows : List StageOutput → Option StageMemoHit
  | [] => none
  | o :: rest => some
      ⟨(o :: rest).map (·.artifactId), (o :: rest).map (·.outputType), o.runId⟩

section Lookup

variable {T : Type} [LinearOrder T]

/-- `ORDER BY s.completed_at DESC NULLS LAST`, whatever the order of equal rows; `⊥` is `NULL`. -/
def Ordered (completedAt : String → String → WithBot T) (stageName : String)
    (rows : List StageOutput) : Prop :=
  rows.Pairwise fun r s => completedAt s.runId stageName ≤ completedAt r.runId stageName

/-- What `lookup` may answer. -/
def Lookup (completedAt : String → String → WithBot T) (s : StageTables)
    (stageName inputHash : String) (limit : Nat) (answer : Option StageMemoHit) : Prop :=
  ∃ rows, rows.Perm (joined s stageName inputHash) ∧ Ordered completedAt stageName rows ∧
    answer = StageMemoHit.ofRows (rows.take limit)

end Lookup

def Made (history : List RecordArgs) (runId stageName artifactId : String) : Prop :=
  ∃ args ∈ history, args.runId = runId ∧ args.stageName = stageName ∧ artifactId ∈ args.artifactIds

def MadeFrom (history : List RecordArgs) (stageName inputHash artifactId : String) : Prop :=
  ∃ args ∈ history, args.stageName = stageName ∧ args.inputHash = inputHash ∧
    artifactId ∈ args.artifactIds

def lastHash (history : List RecordArgs) (runId stageName inputRef : String) : Option String :=
  (history.find? fun args => args.input.key = (runId, stageName, inputRef)).map (·.inputHash)

def Matches (history : List RecordArgs) (runId stageName inputHash : String) : Prop :=
  ∃ inputRef, lastHash history runId stageName inputRef = some inputHash

def StageMemoHit.Addressed (history : List RecordArgs) (stageName inputHash : String)
    (hit : StageMemoHit) : Prop :=
  ∀ a ∈ hit.artifactIds, MadeFrom history stageName inputHash a ∧
    Made history hit.sourceRunId stageName a

theorem recordInput_sets (t : Table StageInput StageInput.key) (i : StageInput) :
    t.Sets i.key i (recordInput t i) := by
  unfold recordInput
  cases h : t.insert i with
  | some u => exact Table.insert_sets h
  | none =>
    cases hs : t.select i.key with
    | none =>
      obtain ⟨u, hu⟩ := Table.insert_eq_some hs
      exact nomatch h.symm.trans hu
    | some r =>
      have hk : r.key = i.key := Table.select_key hs
      have hr : { r with inputHash := i.inputHash } = i := by
        cases r
        cases i
        simp_all [StageInput.key]
      have hset : t.Sets i.key { r with inputHash := i.inputHash } (t.update (·.key = i.key)
          (fun r => { r with inputHash := i.inputHash }) fun _ => rfl) :=
        Table.update_key_sets hs
      rwa [hr] at hset

theorem select_inputs (history : List RecordArgs) (runId stageName inputRef : String) :
    ((recorded history).inputs.select (runId, stageName, inputRef)).map (·.inputHash) =
      lastHash history runId stageName inputRef := by
  induction history with
  | nil => rfl
  | cons args history ih =>
    have hset := recordInput_sets (recorded history).inputs args.input
    rw [recorded, record, hset, lastHash, List.find?_cons]
    by_cases hk : args.input.key = (runId, stageName, inputRef)
    · simp only [hk, decide_true]
      rfl
    · simp only [hk, decide_false]
      exact ih

theorem mem_recordOutput {t : Table StageOutput StageOutput.key} {o : StageOutput} {k} :
    k ∈ (recordOutput t o).rows.map (·.key) ↔ k ∈ t.rows.map (·.key) ∨ k = o.key := by
  unfold recordOutput
  cases h : t.insert o with
  | some u =>
    simp only [Option.getD_some, List.mem_map, Table.mem_insert h]
    constructor
    · rintro ⟨r, hr | rfl, rfl⟩
      · exact .inl ⟨r, hr, rfl⟩
      · exact .inr rfl
    · rintro (⟨r, hr, rfl⟩ | rfl)
      · exact ⟨r, .inl hr, rfl⟩
      · exact ⟨o, .inr rfl, rfl⟩
  | none =>
    have ho : o.key ∈ t.rows.map (·.key) := by
      by_contra hn
      obtain ⟨u, hu⟩ := Table.insert_eq_some (Table.select_eq_none.mpr hn)
      exact nomatch h.symm.trans hu
    constructor
    · exact .inl
    · rintro (hk | rfl)
      · exact hk
      · exact ho

theorem mem_recordOutputs (artifactIds : List String) (runId stageName : String)
    (outputType : Option String) (t : Table StageOutput StageOutput.key) {k} :
    k ∈ (artifactIds.foldl (fun t a => recordOutput t ⟨runId, stageName, a, outputType⟩) t).rows.map
        (·.key) ↔
      k ∈ t.rows.map (·.key) ∨ ∃ a ∈ artifactIds, k = (runId, stageName, a) := by
  induction artifactIds generalizing t with
  | nil => simp
  | cons a artifactIds ih =>
    rw [List.foldl_cons, ih, mem_recordOutput, or_assoc]
    simp [StageOutput.key]

theorem mem_outputs (history : List RecordArgs) (runId stageName artifactId : String) :
    (∃ o ∈ (recorded history).outputs.rows, o.key = (runId, stageName, artifactId)) ↔
      Made history runId stageName artifactId := by
  rw [← List.mem_map]
  induction history with
  | nil => simp [recorded, Made, Table.empty]
  | cons args history ih =>
    rw [recorded, record, mem_recordOutputs, ih]
    constructor
    · rintro (⟨c, hc, h⟩ | ⟨a, ha, he⟩)
      · exact ⟨c, List.mem_cons_of_mem _ hc, h⟩
      · cases he
        exact ⟨args, List.mem_cons_self, rfl, rfl, ha⟩
    · rintro ⟨c, hc, rfl, rfl, ha⟩
      rcases List.mem_cons.mp hc with rfl | hc
      · exact .inr ⟨_, ha, rfl⟩
      · exact .inl ⟨c, hc, rfl, rfl, ha⟩

theorem mem_inputs (history : List RecordArgs) (runId stageName inputHash : String) :
    (∃ i ∈ (recorded history).inputs.rows, i.runId = runId ∧ i.stageName = stageName ∧
      i.inputHash = inputHash) ↔ Matches history runId stageName inputHash := by
  constructor
  · rintro ⟨i, hi, rfl, rfl, rfl⟩
    refine ⟨i.inputRef, ?_⟩
    rw [← select_inputs]
    exact congrArg (Option.map _) (Table.select_of_mem hi)
  · rintro ⟨inputRef, h⟩
    rw [← select_inputs] at h
    obtain ⟨i, hi, rfl⟩ := Option.map_eq_some_iff.mp h
    have hk : i.key = (runId, stageName, inputRef) := Table.select_key hi
    injection hk with hr hk
    injection hk with hs
    exact ⟨i, Table.select_mem hi, hr, hs, rfl⟩

theorem mem_joined (history : List RecordArgs) (stageName inputHash runId artifactId : String) :
    (∃ o ∈ joined (recorded history) stageName inputHash, o.runId = runId ∧
      o.artifactId = artifactId) ↔
      Matches history runId stageName inputHash ∧ Made history runId stageName artifactId := by
  rw [← mem_inputs, ← mem_outputs]
  simp only [joined, List.mem_flatMap, List.mem_filter, decide_eq_true_eq, StageOutput.key]
  constructor
  · rintro ⟨o, ⟨i, ⟨hi, rfl, rfl⟩, ho, hr, hs⟩, rfl, rfl⟩
    exact ⟨⟨i, hi, hr.symm, rfl, rfl⟩, o, ho, by rw [hs]⟩
  · rintro ⟨⟨i, hi, rfl, rfl, rfl⟩, o, ho, hk⟩
    injection hk with hr hk
    injection hk with hs ha
    exact ⟨o, ⟨i, ⟨hi, rfl, rfl⟩, ho, hr, hs⟩, hr, ha⟩

section Lookup

variable {T : Type} [LinearOrder T]

/-- Of the runs that match, `runId` is one whose rows may come first. -/
structure Latest (completedAt : String → String → WithBot T) (history : List RecordArgs)
    (stageName inputHash runId : String) : Prop where
  isMatch : Matches history runId stageName inputHash
  made : ∃ a, Made history runId stageName a
  latest : Matches history r stageName inputHash → Made history r stageName a →
    completedAt r stageName ≤ completedAt runId stageName

/-- What the runs that match made was all recorded under the hash, and all made by each of the
latest. -/
structure ContentAddressed (completedAt : String → String → WithBot T) (history : List RecordArgs)
    (stageName inputHash : String) : Prop where
  content : Matches history runId stageName inputHash → Made history runId stageName a →
    MadeFrom history stageName inputHash a
  source : Matches history runId stageName inputHash → Made history runId stageName a →
    Latest completedAt history stageName inputHash r → Made history r stageName a

section

variable (completedAt : String → String → WithBot T) (stageName : String)

theorem exists_ordered (l : List StageOutput) :
    ∃ rows, rows.Perm l ∧ Ordered completedAt stageName rows := by
  let before := fun r s : StageOutput =>
    completedAt s.runId stageName ≤ completedAt r.runId stageName
  have : Std.Total before := ⟨fun r s => le_total _ _⟩
  have : IsTrans StageOutput before := ⟨fun _ _ _ h k => le_trans k h⟩
  exact ⟨_, List.perm_insertionSort before l, List.pairwise_insertionSort before l⟩

theorem exists_ordered_cons {l : List StageOutput} (ho : o ∈ l)
    (hl : ∀ r ∈ l, completedAt r.runId stageName ≤ completedAt o.runId stageName) :
    ∃ rows, (o :: rows).Perm l ∧ Ordered completedAt stageName (o :: rows) := by
  obtain ⟨l₁, l₂, rfl⟩ := List.append_of_mem ho
  obtain ⟨rows, hp, hr⟩ := exists_ordered completedAt stageName (l₁ ++ l₂)
  have hp' : (o :: rows).Perm (l₁ ++ o :: l₂) := (hp.cons o).trans List.perm_middle.symm
  exact ⟨rows, hp', List.pairwise_cons.mpr
    ⟨fun r hr => hl r (hp'.mem_iff.mp (List.mem_cons_of_mem _ hr)), hr⟩⟩

end

variable {completedAt : String → String → WithBot T} {s : StageTables}

theorem lookup_all {rows : List StageOutput} (hp : (o :: rows).Perm (joined s stageName inputHash))
    (ho : Ordered completedAt stageName (o :: rows)) : Lookup completedAt s stageName inputHash
      (rows.length + 1)
      (some ⟨(o :: rows).map (·.artifactId), (o :: rows).map (·.outputType), o.runId⟩) := by
  refine ⟨_, hp, ho, ?_⟩
  rw [List.take_of_length_le (by simp)]
  rfl

theorem eq_cons_of_take {rows : List StageOutput} (h : rows.take limit = o :: rest) :
    rows = o :: rows.tail := by
  cases rows with
  | nil => simp at h
  | cons q rows =>
    cases limit with
    | zero => simp at h
    | succ n =>
      injection h with he
      rw [he]
      rfl

theorem ContentAddressed.of_addressed {history : List RecordArgs}
    (h : ∀ limit hit, Lookup completedAt (recorded history) stageName inputHash limit (some hit) →
      hit.Addressed history stageName inputHash) :
    ContentAddressed completedAt history stageName inputHash := by
  have hj := mem_joined history stageName inputHash
  have haddr {o rows runId a}
      (hp : (o :: rows).Perm (joined (recorded history) stageName inputHash))
      (ho : Ordered completedAt stageName (o :: rows))
      (hm : Matches history runId stageName inputHash) (ha : Made history runId stageName a) :
      MadeFrom history stageName inputHash a ∧ Made history o.runId stageName a := by
    refine h _ _ (lookup_all hp ho) a ?_
    obtain ⟨r, hr, -, rfl⟩ := (hj runId a).mpr ⟨hm, ha⟩
    exact List.mem_map_of_mem (hp.mem_iff.mpr hr)
  refine ⟨fun hm ha => ?_, fun hm ha hr => ?_⟩
  · obtain ⟨r, hr, -⟩ := (hj _ _).mpr ⟨hm, ha⟩
    obtain ⟨rows, hp, ho⟩ := exists_ordered completedAt stageName
      (joined (recorded history) stageName inputHash)
    cases rows with
    | nil => exact nomatch hp.mem_iff.mpr hr
    | cons o rows => exact (haddr hp ho hm ha).1
  · obtain ⟨a', ha'⟩ := hr.made
    obtain ⟨o, ho, rfl, -⟩ := (hj _ _).mpr ⟨hr.isMatch, ha'⟩
    obtain ⟨rows, hp, ho⟩ := exists_ordered_cons completedAt stageName ho fun r hr' => by
      obtain ⟨hm', ha'⟩ := (hj r.runId r.artifactId).mp ⟨r, hr', rfl, rfl⟩
      exact hr.latest hm' ha'
    exact (haddr hp ho hm ha).2

theorem ContentAddressed.addressed {history : List RecordArgs} {hit : StageMemoHit}
    (h : ContentAddressed completedAt history stageName inputHash)
    (hlookup : Lookup completedAt (recorded history) stageName inputHash limit (some hit)) :
    hit.Addressed history stageName inputHash := by
  obtain ⟨rows, hp, ho, hh⟩ := hlookup
  have hj := mem_joined history stageName inputHash
  have hmade {r} (hr : r ∈ rows) : Matches history r.runId stageName inputHash ∧
      Made history r.runId stageName r.artifactId :=
    (hj r.runId r.artifactId).mp ⟨r, hp.mem_iff.mp hr, rfl, rfl⟩
  intro a ha
  cases hrows : rows.take limit with
  | nil =>
    rw [hrows] at hh
    cases hh
  | cons o rest =>
    rw [hrows] at hh
    cases hh
    obtain ⟨r, hr, rfl⟩ := List.mem_map.mp ha
    have hr : r ∈ rows := List.mem_of_mem_take (hrows ▸ hr)
    have hfirst : rows = o :: rows.tail := eq_cons_of_take hrows
    have ho' : o ∈ rows := hfirst ▸ List.mem_cons_self
    refine ⟨h.content (hmade hr).1 (hmade hr).2, h.source (hmade hr).1 (hmade hr).2
      ⟨(hmade ho').1, ⟨_, (hmade ho').2⟩, fun {q b} hm hb => ?_⟩⟩
    obtain ⟨p, hp', rfl, -⟩ := (hj q b).mpr ⟨hm, hb⟩
    have hp' := hp.mem_iff.mpr hp'
    rw [hfirst] at hp' ho
    rcases List.mem_cons.mp hp' with rfl | hp'
    · exact le_rfl
    · exact List.rel_of_pairwise_cons ho hp'

/-- Hits are content-addressed exactly where the runs that match made nothing else. -/
theorem lookup_addressed_iff (completedAt : String → String → WithBot T)
    (history : List RecordArgs) (stageName inputHash : String) :
    (∀ limit hit, Lookup completedAt (recorded history) stageName inputHash limit (some hit) →
      hit.Addressed history stageName inputHash) ↔
      ContentAddressed completedAt history stageName inputHash :=
  ⟨.of_addressed, fun h _ _ hlookup => h.addressed hlookup⟩

/-- A run that records a stage for two inputs serves the artifacts of both for each. -/
theorem two_inputs_not_addressed :
    let history := [⟨"r", "s", "h'", ["b"], "2", none⟩, ⟨"r", "s", "h", ["a"], "1", none⟩]
    ∃ hit, Lookup (T := Nat) (fun _ _ => ⊥) (recorded history) "s" "h" 64 (some hit) ∧
      ¬ hit.Addressed history "s" "h" := by
  refine ⟨_, ⟨_, .refl _, ?_, rfl⟩, ?_⟩
  · exact List.pairwise_iff_getElem.mpr fun _ _ _ _ _ => le_rfl
  · intro h
    obtain ⟨args, hm, -, hh, ha⟩ := (h "b" (by decide)).1
    rcases List.mem_cons.mp hm with rfl | hm
    · exact absurd hh (by decide)
    · obtain rfl := List.mem_singleton.mp hm
      exact absurd ha (by decide)

end Lookup

end PrismPipe.Cyrex
