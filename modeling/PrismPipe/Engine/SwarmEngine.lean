import PrismPipe.Lib.Gate
import PrismPipe.Python.Json

/-! `SwarmEngine.split_and_execute` of `prismpipe/swarm.py`: one partition an item, at most
`max_concurrent` of them at work. -/

namespace PrismPipe.Swarms

open Python Gate Transition

structure RequestEnvelope where
  id : PyStr
  input : Dict

structure SwarmEnvelope where
  envelope : RequestEnvelope
  partitionIndex : Nat
  totalPartitions : Nat

/-- The clone for the `i`-th item. -/
def partition (envelope : RequestEnvelope) (swarmId : PyStr) (data : List Json) (i : Nat)
    (item : Json) : SwarmEnvelope where
  envelope := {
    id := (if envelope.id = [] then swarmId else envelope.id) ++ py "_p" ++ py (toString i)
    input := envelope.input.set (py "_partition_data") item }
  partitionIndex := i
  totalPartitions := data.length

def partitions (envelope : RequestEnvelope) (swarmId : PyStr) (data : List Json) :
    List SwarmEnvelope := data.mapIdx (partition envelope swarmId data)

/-- What `process_fn` is called with. -/
def arguments (pe : SwarmEnvelope) : RequestEnvelope × Json :=
  (pe.envelope, pe.envelope.input.get "_partition_data")

/-- What a call of `process_fn` comes to. -/
inductive Outcome
  | returned (result : Json)
  /-- An `Exception`, by its text. -/
  | raised (e : PyStr)
  /-- `CancelledError`, or another exception that is not an `Exception`. -/
  | escaped (e : PyStr)

def executePartition (i : Nat) : Outcome → Except PyStr Json
  | .returned result => .ok result
  | .raised e => .ok (.dict [(py "error", .str e), (py "partition", .int i)])
  | .escaped e => .error e

def isError : Json → Bool
  | .dict d => Dict.has d "error"
  | _ => false

structure SwarmResult where
  swarmId : PyStr
  results : List Json
  partitionResults : List (Nat × Json)
  success : Bool

/-- What `split_and_execute` has come to. -/
inductive Answer
  | awaiting
  | raised (e : PyStr)
  | returned (result : SwarmResult)

def Outcome.escape : Outcome → Option PyStr
  | .escaped e => some e
  | _ => none

/-- `gather` raises the first exception that leaves a partition, while the others go on, and has
the results once every partition is done. -/
def gather (swarmId : PyStr) (n : Nat) (s : Jobs Outcome) : Answer :=
  match s.done.findSome? (·.2.escape) with
  | some e => .raised e
  | none =>
    match (List.range n).mapM fun i => (outcome s i).bind fun o => (executePartition i o).toOption
      with
    | none => .awaiting
    | some results => .returned {
        swarmId, results
        partitionResults := results.mapIdx fun i r => (i, r)
        success := results.all fun r => !isError r }

def swarm (maxConcurrent : Nat) (data : List Json) : System (Jobs Outcome) (Event Outcome) :=
  system maxConcurrent data.length

theorem find_set (d : Dict) (key : PyStr) (value : Json) :
    Dict.find (Dict.set d key value) key = some value := by
  unfold Dict.find Dict.set
  split
  next h =>
    induction d with
    | nil => simp at h
    | cons kv d ih =>
      by_cases hk : kv.1 = key
      · simp [hk]
      · simp only [List.any_cons, hk, decide_false, Bool.false_or] at h
        simpa [hk] using ih h
  next h =>
    have hnone : d.find? (fun kv => kv.1 = key) = none := by
      rw [List.find?_eq_none]
      intro kv hkv hk
      exact h (List.any_eq_true.mpr ⟨kv, hkv, hk⟩)
    simp [List.find?_append, hnone]

theorem arguments_partition (envelope : RequestEnvelope) (swarmId : PyStr) (data : List Json)
    (i : Nat) (item : Json) : (arguments (partition envelope swarmId data i item)).2 = item := by
  simp [arguments, partition, Dict.get, find_set]

theorem isError_executePartition (h : executePartition i o = .ok r) :
    isError r = false ↔ ∃ v, o = .returned v ∧ isError v = false := by
  cases o with
  | returned v =>
    cases h
    simp
  | raised e =>
    cases h
    simp [isError, Dict.has, Dict.find]
  | escaped e => cases h

theorem mapM_option_eq_some {f : α → Option β} {g : α → β} : ∀ {l : List α},
    (∀ a ∈ l, f a = some (g a)) → l.mapM f = some (l.map g)
  | [], _ => rfl
  | a :: l, h => by
    rw [List.forall_mem_cons] at h
    rw [List.mapM_cons, h.1, mapM_option_eq_some h.2]
    rfl

theorem mapM_option_eq_none {f : α → Option β} : ∀ {l : List α}, a ∈ l → f a = none →
    l.mapM f = none
  | b :: l, ha, h => by
    rw [List.mapM_cons]
    cases hb : f b with
    | none => rfl
    | some c =>
      have hne : a ≠ b := by
        rintro rfl
        rw [h] at hb
        cases hb
      rw [mapM_option_eq_none ((List.mem_cons.mp ha).resolve_left hne) h]
      rfl

/-- A partition whose `process_fn` raised what is not an `Exception`. -/
def Escape (es : List (Event Outcome)) : Prop := ∃ i e, .finish i (.escaped e) ∈ es

structure Collects (es : List (Event Outcome)) (data : List Json) (result : SwarmResult) :
    Prop where
  length : result.results.length = data.length
  outcomes : ∀ i o, .finish i o ∈ es →
    ∃ r, executePartition i o = .ok r ∧ result.results[i]? = some r
  partitionResults : result.partitionResults.map (·.2) = result.results
  success : result.success ↔ ∀ i o, .finish i o ∈ es → ∃ v, o = .returned v ∧ isError v = false

theorem escape_eq_none (h : Accounted maxConcurrent n es s) (hes : ¬ Escape es) :
    s.done.findSome? (·.2.escape) = none := by
  rw [← h.finished, List.findSome?_eq_none_iff]
  intro d hd
  obtain ⟨e, he, hed⟩ := List.mem_filterMap.mp hd
  cases e with
  | start => cases hed
  | finish i o =>
    cases hed
    cases o with
    | escaped e => exact absurd ⟨_, _, he⟩ hes
    | returned | raised => rfl

theorem collects {s : Jobs Outcome} {data : List Json} (swarmId : PyStr)
    (h : Accounted maxConcurrent data.length es s) (hes : ¬ Escape es) (hs : s.Finished) :
    ∃ result, gather swarmId data.length s = .returned result ∧ Collects es data result := by
  have hout := fun i (hi : i < data.length) => outcome_of_finished h hs hi
  have hreturns : ∀ i o, .finish i o ∈ es → ∃ r, executePartition i o = .ok r := by
    intro i o ho
    cases o with
    | returned | raised => exact ⟨_, rfl⟩
    | escaped e => exact absurd ⟨_, _, ho⟩ hes
  have hex : ∃ g : Nat → Json, ∀ i < data.length, ∃ o, .finish i o ∈ es ∧
      (∀ c, .finish i c ∈ es → c = o) ∧ outcome s i = some o ∧
      executePartition i o = .ok (g i) := by
    refine Classical.axiomOfChoice (r := fun i r => i < data.length → ∃ o, .finish i o ∈ es ∧
      (∀ c, .finish i c ∈ es → c = o) ∧ outcome s i = some o ∧ executePartition i o = .ok r)
      fun i => ?_
    by_cases hi : i < data.length
    · obtain ⟨o, ho, hc, hso⟩ := hout i hi
      obtain ⟨r, hr⟩ := hreturns i o ho
      exact ⟨r, fun _ => ⟨o, ho, hc, hso, hr⟩⟩
    · exact ⟨.null, fun h => absurd h hi⟩
  obtain ⟨g, hg⟩ := hex
  have hresults : ((List.range data.length).mapM fun i =>
      (outcome s i).bind fun o => (executePartition i o).toOption) =
      some ((List.range data.length).map g) := by
    refine mapM_option_eq_some fun i hi => ?_
    obtain ⟨o, -, -, ho, hr⟩ := hg i (List.mem_range.mp hi)
    rw [ho, Option.bind_some, hr]
    rfl
  have hlt : ∀ i o, .finish i o ∈ es → i < data.length := by
    intro i o ho
    have hdone : (i, o) ∈ s.done := by
      rw [← h.finished, List.mem_filterMap]
      exact ⟨_, ho, rfl⟩
    exact List.mem_range.mp ((h.all_done hs).mem_iff.mp (List.mem_map.mpr ⟨_, hdone, rfl⟩))
  refine ⟨_, by rw [gather, escape_eq_none h hes, hresults], by simp, fun i o ho => ?_, ?_, ?_⟩
  · have hi := hlt i o ho
    obtain ⟨o', -, hc, -, hr⟩ := hg i hi
    rw [hc o ho]
    exact ⟨g i, hr, by simp [hi]⟩
  · exact List.ext_getElem (by simp) (by simp)
  · simp only [List.all_map, List.all_eq_true, List.mem_range, Function.comp_apply,
      Bool.not_eq_true']
    constructor
    · intro hall i o ho
      have hi := hlt i o ho
      obtain ⟨o', -, hc, -, hr⟩ := hg i hi
      rw [hc o ho]
      exact (isError_executePartition hr).mp (hall i hi)
    · intro hall i hi
      obtain ⟨o, ho, -, -, hr⟩ := hg i hi
      exact (isError_executePartition hr).mpr (hall i o ho)

theorem gather_awaiting (swarmId : PyStr) (h : Accounted maxConcurrent n es s) (hes : ¬ Escape es)
    (hs : ¬ s.Finished) : gather swarmId n s = .awaiting := by
  obtain ⟨i, hi⟩ : ∃ i, i ∈ s.running ++ s.waiting := by
    by_contra hno
    refine hs ⟨?_, ?_⟩ <;> refine List.eq_nil_iff_forall_not_mem.mpr fun i hi => hno ⟨i, ?_⟩
    · exact List.mem_append_right _ hi
    · exact List.mem_append_left _ hi
  have hperm : (s.running ++ s.waiting ++ s.done.map (·.1)).Perm (List.range n) := by
    refine List.Perm.trans ?_ h.perm
    rw [List.append_assoc, List.append_assoc]
    exact List.perm_append_comm.append_left _
  have hdone : i ∉ s.done.map (·.1) :=
    List.disjoint_of_nodup_append (hperm.nodup_iff.mpr List.nodup_range) hi
  have hnone : outcome s i = none := by
    rw [Gate.outcome, List.find?_eq_none.mpr, Option.map_none]
    intro d hd hdi
    exact hdone (List.mem_map.mpr ⟨d, hd, of_decide_eq_true hdi⟩)
  have hmem : i ∈ List.range n := hperm.mem_iff.mp (List.mem_append_left _ hi)
  rw [gather, escape_eq_none h hes, mapM_option_eq_none hmem (by rw [hnone]; rfl)]

theorem escape_cons {x : Event Outcome} (hx : ∀ i e, x ≠ .finish i (.escaped e)) :
    Escape (x :: es) ↔ Escape es := by
  constructor
  · rintro ⟨i, e, he⟩
    exact ⟨i, e, (List.mem_cons.mp he).resolve_left fun heq => hx i e heq.symm⟩
  · rintro ⟨i, e, he⟩
    exact ⟨i, e, List.mem_cons_of_mem _ he⟩

theorem first_escape : ∀ {es : List (Event Outcome)}, Escape es →
    ∃ past i e later, es = past ++ .finish i (.escaped e) :: later ∧ ¬ Escape past ∧
      (es.filterMap Event.finished).findSome? (·.2.escape) = some e
  | [], h => by
    obtain ⟨i, e, he⟩ := h
    cases he
  | x :: es, h => by
    by_cases hx : ∃ i e, x = .finish i (.escaped e)
    · obtain ⟨i, e, rfl⟩ := hx
      exact ⟨[], i, e, es, rfl, fun ⟨_, _, h⟩ => List.not_mem_nil h, rfl⟩
    · have hne : ∀ i e, x ≠ .finish i (.escaped e) := fun i e he => hx ⟨i, e, he⟩
      obtain ⟨past, i, e, later, rfl, hpast, hfirst⟩ := first_escape ((escape_cons hne).mp h)
      refine ⟨x :: past, i, e, later, rfl, (escape_cons hne).not.mpr hpast, ?_⟩
      cases x with
      | start => exact hfirst
      | finish j o =>
        cases o with
        | returned | raised => exact hfirst
        | escaped e => exact absurd rfl (hne j e)

theorem gather_raised (swarmId : PyStr) (h : Accounted maxConcurrent n es s) (hes : Escape es) :
    ∃ past i e later, es = past ++ .finish i (.escaped e) :: later ∧ ¬ Escape past ∧
      gather swarmId n s = .raised e := by
  obtain ⟨past, i, e, later, heq, hpast, hfirst⟩ := first_escape hes
  refine ⟨past, i, e, later, heq, hpast, ?_⟩
  rw [h.finished] at hfirst
  rw [gather, hfirst]

/-- However the partitions interleave and whatever they come to: at most `max_concurrent` work at a
time, each is called once and in turn with its own item, and none is left behind. The results are
those of the items in their order, unless what is no `Exception` leaves a partition: the first of
these is raised. -/
theorem swarm_splits_and_collects (envelope : RequestEnvelope) (swarmId : PyStr)
    (maxConcurrent : Nat) (data : List Json) (es : List (Event Outcome)) (s : Jobs Outcome)
    (h : Run (swarm maxConcurrent data) (init maxConcurrent data.length) es s) :
    s.running.length ≤ maxConcurrent ∧
    es.filterMap Event.started <+: List.range data.length ∧ es.length ≤ 2 * data.length ∧
    (∀ (i : Nat) (item : Json), data[i]? = some item →
      ∃ pe, (partitions envelope swarmId data)[i]? = some pe ∧ (arguments pe).2 = item) ∧
    (maxConcurrent ≠ 0 → ¬ s.Finished → ∀ r, ∃ e t, Step s e t ∧ ∀ i b, e = .finish i b → b = r) ∧
    (¬ Escape es → ¬ s.Finished → gather swarmId data.length s = .awaiting) ∧
    (¬ Escape es → s.Finished → ∃ result, gather swarmId data.length s = .returned result ∧
      Collects es data result) ∧
    (Escape es → ∃ past i e later, es = past ++ .finish i (.escaped e) :: later ∧
      ¬ Escape past ∧ gather swarmId data.length s = .raised e) := by
  have ha := accounted h
  refine ⟨ha.running_le, ⟨_, ha.started⟩, ?_, fun i item hi => ?_, fun hp hs r => ?_,
    gather_awaiting swarmId ha, collects swarmId ha, gather_raised swarmId ha⟩
  · have := ha.length
    omega
  · refine ⟨partition envelope swarmId data i item, ?_, arguments_partition ..⟩
    simp [partitions, List.getElem?_mapIdx, hi]
  · exact ha.progress hp r hs

/-- Two partitions at once, of which the second is done first and the first has raised. -/
theorem swarm_splits_and_collects_two :
    ∃ result, gather (py "s") 2
        ⟨2, [], [], [(1, Outcome.returned (.int 2)), (0, Outcome.raised (py "no"))]⟩ =
        .returned result ∧
      result.results = [.dict [(py "error", .str (py "no")), (py "partition", .int 0)], .int 2] ∧
      ¬ result.success := by
  have hdone : Step ⟨0, [], [0] ++ 1 :: [], []⟩ (.finish 1 (Outcome.returned (.int 2)))
      ⟨0 + 1, [], [0] ++ [], [] ++ [(1, .returned (.int 2))]⟩ := .finish
  have hraised : Step ⟨1, [], [] ++ 0 :: [], [(1, .returned (.int 2))]⟩
      (.finish 0 (Outcome.raised (py "no")))
      ⟨1 + 1, [], [] ++ [], [(1, .returned (.int 2))] ++ [(0, .raised (py "no"))]⟩ := .finish
  have hrun : Run (swarm 2 [.int 1, .int 3]) (init 2 2)
      [.start 0, .start 1, .finish 1 (.returned (.int 2)), .finish 0 (.raised (py "no"))]
      ⟨2, [], [], [(1, .returned (.int 2)), (0, .raised (py "no"))]⟩ :=
    .cons .start (.cons .start (.cons hdone (.cons hraised .nil)))
  obtain ⟨result, hresult, hc⟩ := (swarm_splits_and_collects ⟨py "e", []⟩ (py "s") 2
    [.int 1, .int 3] _ _ hrun).2.2.2.2.2.2.1 (by simp [Escape]) ⟨rfl, rfl⟩
  obtain ⟨_, ⟨⟩, hfirst⟩ := hc.outcomes 0 (.raised (py "no")) (by simp)
  obtain ⟨_, ⟨⟩, hsecond⟩ := hc.outcomes 1 (.returned (.int 2)) (by simp)
  refine ⟨result, hresult, List.ext_getElem? fun i => ?_, fun hsuccess => ?_⟩
  · match i with
    | 0 => exact hfirst
    | 1 => exact hsecond
    | i + 2 =>
      have hlength : result.results.length = 2 := hc.length
      rw [List.getElem?_eq_none (by omega), List.getElem?_eq_none (by simp)]
  · obtain ⟨v, hv, -⟩ := hc.success.mp hsuccess 0 (.raised (py "no")) (by simp)
    cases hv

end PrismPipe.Swarms
