import PrismPipe.Core.Plan

/-! `Node.execute` on the values of an envelope, and `replay_from` on the history that it leaves. -/

namespace PrismPipe.Wire

open Python Transition

variable {D : Type}

/-- What `process` left of the envelope it was given, or the envelope it returned; `raised` is also
what `record` raises. -/
inductive Outcome (D : Type)
  | raised (envelope : RequestEnvelope D) (errorType message : PyStr)
  | returned (envelope : RequestEnvelope D) (success : Bool) (error action : Option PyStr)

structure Node (D : Type) where
  id : PyStr
  nodeType : PyStr
  capability : PyStr
  process : RequestEnvelope D → Outcome D

inductive Fate
  | completed
  | timedOut (message : PyStr)
  | exhausted

/-- A call of `Node.execute`, with what the clocks read. -/
structure Execution (D : Type) where
  node : Node D
  fate : Fate
  timestamp : D
  durationMs : PyFloat

def RequestEnvelope.terminate (envelope : RequestEnvelope D) (error : PyStr) : RequestEnvelope D :=
  { envelope with
    terminated := true
    error := if error = [] then envelope.error else some error }

namespace Execution

def capability (x : Execution D) : PyStr := x.node.capability

def record (x : Execution D) (envelope : RequestEnvelope D) (action : PyStr) : RequestEnvelope D :=
  envelope.record x.timestamp x.node.id x.node.nodeType x.node.capability action
    (some x.durationMs)

def getActionDescription (success : Bool) (error action : Option PyStr) : PyStr :=
  if success then action.getD (py "completed") else py "failed: " ++ error.getD (py "None")

/-- The body, `_finalize_result`, and the handler around both. -/
def executeSync (x : Execution D) (envelope : RequestEnvelope D) : RequestEnvelope D :=
  match x.node.process envelope with
  | .raised envelope errorType message =>
    (x.record envelope (py "error: " ++ errorType)).terminate message
  | .returned envelope success error action =>
    let envelope := x.record envelope (getActionDescription success error action)
    if success then envelope else { envelope with error }

def execute (x : Execution D) (envelope : RequestEnvelope D) : RequestEnvelope D :=
  match x.fate with
  | .completed => x.executeSync envelope
  | .timedOut message => (x.record envelope (py "timeout")).terminate message
  | .exhausted => (x.record envelope (py "capacity_exhausted")).terminate
      (py "Synchronous node execution capacity exhausted")

/-- The entries of the history are those of `Node.execute`. -/
def KeepsHistory (x : Execution D) : Prop :=
  ∀ envelope, match x.node.process envelope with
    | .raised envelope' _ _ => envelope'.history = envelope.history
    | .returned envelope' _ _ _ => envelope'.history = envelope.history

end Execution

def Records (capability : PyStr) (before after : RequestEnvelope D) : Prop :=
  ∃ entry, after.history = before.history ++ [entry] ∧ entry.capability = capability ∧
    entry.inputSnapshot = some after.state

theorem Records.terminate {before after : RequestEnvelope D} (h : Records c before after)
    (error : PyStr) : Records c before (after.terminate error) := h

theorem Records.record {before after : RequestEnvelope D} (x : Execution D)
    (h : after.history = before.history) (action : PyStr) :
    Records x.capability before (x.record after action) :=
  ⟨_, by rw [← h]; rfl, rfl, rfl⟩

theorem Execution.execute_records {x : Execution D} (h : x.KeepsHistory)
    (envelope : RequestEnvelope D) : Records x.capability envelope (x.execute envelope) := by
  unfold execute
  split
  · have hkept := h envelope
    unfold executeSync
    split
    · rename_i hp
      rw [hp] at hkept
      exact (Records.record x hkept _).terminate _
    · rename_i success error _ hp
      rw [hp] at hkept
      have hrec := Records.record x hkept (getActionDescription success error ‹_›)
      dsimp only
      split
      · exact hrec
      · exact hrec
  · exact (Records.record x rfl _).terminate _
  · exact (Records.record x rfl _).terminate _

def executing (D : Type) : System (RequestEnvelope D) (Execution D) where
  init envelope := envelope.history = []
  step envelope x envelope' := x.KeepsHistory ∧ envelope' = x.execute envelope

def replayIndex (history : List (HistoryEntry D)) (fromCapability : PyStr) : Nat :=
  match history.findIdx? fun entry => entry.capability = fromCapability with
  | some i => i + 1
  | none => 0

def stateAtPoint (history : List (HistoryEntry D)) (replayIndex : Nat) : Option Dict :=
  if replayIndex < history.length then
    (getItem history (replayIndex - 1)).bind (·.inputSnapshot)
  else none

def RequestEnvelope.replayFrom (envelope : RequestEnvelope D) (fromCapability : PyStr) :
    RequestEnvelope D :=
  let replayIndex := replayIndex envelope.history fromCapability
  { envelope with
    state := match stateAtPoint envelope.history replayIndex with
      | some state => if state.isEmpty then envelope.state else state
      | none => envelope.state
    history := envelope.history.take replayIndex
    terminated := false
    error := none
    next := some fromCapability }

def states : List (Execution D) → RequestEnvelope D → List Dict
  | [], envelope => [envelope.state]
  | x :: executions, envelope => envelope.state :: states executions (x.execute envelope)

/-- Replayed from a capability, an envelope is again where that ran first, and one on which it
never ran keeps its state and its history. -/
structure Faithful (start : RequestEnvelope D) (executions : List (Execution D))
    (envelope : RequestEnvelope D) (c : PyStr) : Prop where
  found : ∀ before x after u, executions = before ++ x :: after → x.capability = c →
    (∀ y ∈ before, y.capability ≠ c) → Run (executing D) start before u →
      (envelope.replayFrom c).state = u.state ∧ (envelope.replayFrom c).history = u.history ∧
      (envelope.replayFrom c).next = some c ∧
      states (x :: after) (envelope.replayFrom c) = states (x :: after) u
  missing : (∀ x ∈ executions, x.capability ≠ c) →
    (envelope.replayFrom c).state = envelope.state ∧
      (envelope.replayFrom c).history = envelope.history

theorem history_run {start envelope : RequestEnvelope D}
    (hr : Run (executing D) start executions envelope) :
    envelope.history.map (·.capability) =
      start.history.map (·.capability) ++ executions.map Execution.capability := by
  induction hr with
  | nil => rw [List.map_nil, List.append_nil]
  | cons st _ ih =>
    obtain ⟨hkeeps, rfl⟩ := st
    obtain ⟨entry, hhistory, hcapability, -⟩ := Execution.execute_records hkeeps _
    rw [ih, hhistory, List.map_append, List.map_singleton, hcapability, List.append_assoc,
      List.map_cons, List.singleton_append]

theorem replayIndex_of_first {history : List (HistoryEntry D)}
    (h : history.map (·.capability) = before ++ c :: after) (hc : c ∉ before) :
    replayIndex history c = before.length + 1 := by
  have hfind : (history.map (·.capability)).findIdx? (· = c) = some before.length := by
    rw [h, List.findIdx?_append, List.findIdx?_eq_none_iff.mpr, List.findIdx?_cons]
    · simp
    · intro d hd
      exact decide_eq_false fun hdc => hc (hdc ▸ hd)
  rw [List.findIdx?_map] at hfind
  have hentry : history.findIdx? (fun entry => entry.capability = c) = some before.length := hfind
  rw [replayIndex, hentry]

theorem replayIndex_of_notMem {history : List (HistoryEntry D)}
    (h : c ∉ history.map (·.capability)) : replayIndex history c = 0 := by
  have hnone : history.findIdx? (fun entry => entry.capability = c) = none := by
    refine List.findIdx?_eq_none_iff.mpr fun entry hentry => decide_eq_false fun hc => ?_
    exact h (List.mem_map.mpr ⟨entry, hentry, hc⟩)
  rw [replayIndex, hnone]

theorem not_faithful {start envelope : RequestEnvelope D} (h : start.history = [])
    (hr : Run (executing D) start executions envelope) (hne : executions ≠ []) (c : PyStr) :
    ¬ Faithful start executions envelope c := by
  intro hf
  have hmap := history_run hr
  rw [h, List.map_nil, List.nil_append] at hmap
  by_cases hc : c ∈ executions.map Execution.capability
  · obtain ⟨cs, ds, hsplit, hfirst⟩ := List.eq_append_cons_of_mem hc
    obtain ⟨before, rest, rfl, rfl, hrest⟩ := List.map_eq_append_iff.mp hsplit
    obtain ⟨x, after, rfl, hx, rfl⟩ := List.map_eq_cons_iff.mp hrest
    obtain ⟨u, -, hu, -⟩ := hr.split
    have hbefore (y) (hy : y ∈ before) : y.capability ≠ c := fun hyc =>
      hfirst (List.mem_map.mpr ⟨y, hy, hyc⟩)
    obtain ⟨-, hhistory, -⟩ := hf.found before x after u rfl hx hbefore hu
    have hlen := congrArg List.length (history_run hu)
    rw [h, ← hhistory] at hlen
    rw [hsplit] at hmap
    have htotal := congrArg List.length hmap
    simp only [RequestEnvelope.replayFrom, replayIndex_of_first hmap hfirst, List.length_map,
      List.length_take, List.length_append, List.length_cons, List.map_nil, List.nil_append]
      at hlen htotal
    omega
  · have habsent (x) (hx : x ∈ executions) : x.capability ≠ c := fun hxc =>
      hc (List.mem_map.mpr ⟨x, hx, hxc⟩)
    obtain ⟨-, hhistory⟩ := hf.missing habsent
    rw [← hmap] at hc
    rw [RequestEnvelope.replayFrom, replayIndex_of_notMem hc, List.take_zero] at hhistory
    rw [← hhistory] at hmap
    exact hne (List.map_eq_nil_iff.mp hmap.symm)

/-- What is replayed is faithful exactly if nothing ran. -/
theorem faithful_iff {start envelope : RequestEnvelope D} (h : start.history = [])
    (hr : Run (executing D) start executions envelope) (c : PyStr) :
    Faithful start executions envelope c ↔ envelope.history = [] := by
  have hmap := history_run hr
  rw [h, List.map_nil, List.nil_append] at hmap
  constructor
  · intro hf
    by_contra hne
    refine not_faithful h hr (fun he => hne ?_) c hf
    rw [he] at hmap
    exact List.map_eq_nil_iff.mp hmap
  · intro hnil
    rw [hnil] at hmap
    obtain rfl := List.map_eq_nil_iff.mp hmap.symm
    refine ⟨fun before x after u he => ?_, fun _ => ?_⟩
    · cases before <;> cases he
    · rw [RequestEnvelope.replayFrom, hnil]
      exact ⟨rfl, rfl⟩

def marking : Execution Unit where
  node := {
    id := py "Mark_1"
    nodeType := py "Mark"
    capability := py "a"
    process := fun envelope =>
      .returned { envelope with state := envelope.state.set (py "marked") (.bool true) }
        true none none }
  fate := .completed
  timestamp := ()
  durationMs := .nan

def unmarked : RequestEnvelope Unit where
  id := py "req"
  intent := .httpRequest
  input := .null
  state := []
  history := []
  metadata := ⟨none, none, none, none, none, none, 0, [], []⟩
  plan := ⟨[], 0⟩
  next := some (py "a")
  error := none
  terminated := false
  parentId := none

theorem marking_keepsHistory : marking.KeepsHistory := fun _ => rfl

theorem run_marking : Run (executing Unit) unmarked [marking] (marking.execute unmarked) :=
  .single ⟨marking_keepsHistory, rfl⟩

/-- The mark stays, and so does the entry. -/
theorem marking_not_faithful :
    Run (executing Unit) unmarked [marking] (marking.execute unmarked) ∧
      ¬ Faithful unmarked [marking] (marking.execute unmarked) (py "a") :=
  ⟨run_marking, not_faithful rfl run_marking (List.cons_ne_nil _ _) (py "a")⟩

theorem faithful_iff_marking : Faithful unmarked [] unmarked (py "a") ∧
    ¬ Faithful unmarked [marking] (marking.execute unmarked) (py "a") :=
  ⟨(faithful_iff rfl .nil (py "a")).mpr rfl,
    fun h => nomatch (faithful_iff rfl run_marking (py "a")).mp h⟩

end PrismPipe.Wire
