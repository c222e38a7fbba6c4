import Mathlib.Algebra.Order.Ring.Rat
import PrismPipe.Lib.ObjectGraph

/-! `core/node.py`: a node's `process` run in place, or on a deep copy in a worker whose result is
committed, or given up at the deadline. -/

namespace PrismPipe.Core

open ObjectGraph

/-- What is immutable: `None`, a `bool`, a `str`, or anything else that copies to itself. -/
inductive Atom
  | none
  | bool (b : Bool)
  | str (s : String)
  | other (n : Nat)
  deriving DecidableEq

/-- A key of a `dict`: a `str`, or another object. -/
inductive Key
  | str (s : String)
  | other (n : Nat)
  deriving DecidableEq

def Key.isStr : Key → Bool
  | str _ => true
  | other _ => false

inductive Class
  | envelope
  | dict (keys : List Key)
  | list
  | entry (nodeType capability action : String)
  | object (cls : String) (attributes : List String)
  deriving DecidableEq

abbrev Heap := ObjectGraph.Heap Class Atom

/-- `RequestEnvelope.model_fields`. -/
inductive Field
  | id | intent | input | state | history | metadata | plan | next | error | terminated | parentId
  deriving DecidableEq

namespace Field

def index : Field → Nat
  | id => 0
  | intent => 1
  | input => 2
  | state => 3
  | history => 4
  | metadata => 5
  | plan => 6
  | next => 7
  | error => 8
  | terminated => 9
  | parentId => 10

def modelFields : List Field :=
  [id, intent, input, state, history, metadata, plan, next, error, terminated, parentId]

end Field

def getattr (H : Heap) (e : Nat) (f : Field) : Slot Atom := H.slot e f.index (.atom .none)

def setattr (H : Heap) (e : Nat) (f : Field) (v : Slot Atom) : Heap := H.assign e f.index v

def classOf (H : Heap) (e : Nat) (f : Field) : Option Class :=
  match getattr H e f with
  | .ref p => (H[p]?).map (·.label)
  | .atom _ => none

/-- The state is a `dict` of `str` keys, which `HistoryEntry` accepts, and the history a `list`. -/
def recordable (H : Heap) (e : Nat) : Bool :=
  (match classOf H e .state with
    | some (.dict keys) => keys.all Key.isStr
    | _ => false) && classOf H e .history = some .list

/-- `dict(self.state)`, of a state that is a `dict`. -/
def snapshot (H : Heap) (e : Nat) : Cell Class Atom :=
  match getattr H e .state with
  | .ref p => (H[p]?).getD ⟨.dict [], []⟩
  | .atom _ => ⟨.dict [], []⟩

/-- `history.append(entry)`, to a history that is a `list`. -/
def append (H : Heap) (e : Nat) (entry : Nat) : Heap :=
  match getattr H e .history with
  | .ref h => H.modify h fun c =>
    if c.label = .list then { c with slots := c.slots ++ [.ref entry] } else c
  | .atom _ => H

/-- An exception's class and text, or a `NodeResult`.  `action` is `metadata.get("action")`: where
it is no `str`, the text of the `ValidationError` that `HistoryEntry` raises. -/
inductive Outcome
  | raised (errorType message : String)
  | returned (envelope : Nat) (success : Bool) (error : Option String)
      (action : Option (Except String String))

structure NodeResult where
  envelope : Nat
  success : Bool
  error : Option String
  deriving DecidableEq

/-- What leaves `Node.execute` in place of a result. -/
structure Raised where
  errorType : String
  message : String
  deriving DecidableEq

/-- `format` is `f"{timeout_seconds:g}"`; `refusal` is what `record` raises, by the classes of the
state and of the history. -/
structure Texts where
  format : ℚ → String
  refusal : Option Class → Option Class → Raised

def effectiveTimeout (timeoutMs : Option Int) (timeoutSeconds : Option ℚ) : Option ℚ :=
  match timeoutSeconds, timeoutMs with
  | none, none => none
  | some t, none => some t
  | none, some ms => some (ms / 1000)
  | some t, some ms => some (min t (ms / 1000))

/-- `f"{timeout:g}"`. -/
def timeoutMessage (capability : String) (format : ℚ → String) (timeout : ℚ) : String :=
  "Node '" ++ capability ++ "' timed out after " ++ format timeout ++ "s"

def capacityMessage : String := "Synchronous node execution capacity exhausted"

structure Node where
  nodeType : String
  capability : String
  timeoutMs : Option Int
  process : Heap → Nat → Heap × Outcome

def optional : Option String → Slot Atom
  | none => .atom .none
  | some s => .atom (.str s)

def terminate (H : Heap) (e : Nat) (error : String) : Heap :=
  let H := setattr H e .terminated (.atom (.bool true))
  if error = "" then H else setattr H e .error (.atom (.str error))

def committedFields (source : Nat) : Heap → List Field → Heap × List (Field × Slot Atom)
  | H, [] => (H, [])
  | H, f :: fs =>
    let (H, v) := deepcopy H (getattr H source f)
    let (H, rest) := committedFields source H fs
    (H, (f, v) :: rest)

def setattrs (target : Nat) : Heap → List (Field × Slot Atom) → Heap
  | H, [] => H
  | H, (f, v) :: rest => setattrs target (setattr H target f v) rest

def commitEnvelope (H : Heap) (target source : Nat) : Heap :=
  if target = source then H
  else
    let (H, committed) := committedFields source H Field.modelFields
    setattrs target H committed

/-- `envelope.model_copy(deep=True)`. -/
def modelCopy (H : Heap) (e : Nat) : Heap × Nat :=
  ((deepcopy H (.ref e)).1, e + H.length)

inductive Executor
  | exhausted
  | inTime
  | late

namespace Node

def entered (self : Node) (H : Heap) (e : Nat) (action : String) : Heap :=
  let entry : Cell Class Atom := ⟨.entry self.nodeType self.capability action, [.ref H.length]⟩
  append (H ++ [snapshot H e] ++ [entry]) e (H.length + 1)

def record (self : Node) (texts : Texts) (H : Heap) (e : Nat) (action : String) :
    Except Raised Heap :=
  if recordable H e then .ok (self.entered H e action)
  else .error (texts.refusal (classOf H e .state) (classOf H e .history))

/-- `record`, `terminate` and the result. -/
def settle (self : Node) (texts : Texts) (H : Heap) (e : Nat) (action message : String) :
    Heap × Except Raised NodeResult :=
  match self.record texts H e action with
  | .error raised => (H, .error raised)
  | .ok H => (terminate H e message, .ok ⟨e, false, some message⟩)

def failureResult (self : Node) (texts : Texts) (H : Heap) (e : Nat) (errorType message : String) :
    Heap × Except Raised NodeResult :=
  self.settle texts H e ("error: " ++ errorType) message

def getActionDescription (success : Bool) (error : Option String)
    (action : Option (Except String String)) : Except String String :=
  if success then action.getD (.ok "completed") else .ok ("failed: " ++ error.getD "None")

/-- The body, `_finalize_result`, and the handler around both. -/
def executeSync (self : Node) (texts : Texts) (H : Heap) (e : Nat) :
    Heap × Except Raised NodeResult :=
  match self.process H e with
  | (H, .raised errorType message) => self.failureResult texts H e errorType message
  | (H, .returned envelope success error action) =>
    match getActionDescription success error action with
    | .error message => self.failureResult texts H e "ValidationError" message
    | .ok action =>
      match self.record texts H envelope action with
      | .error raised => self.failureResult texts H e raised.errorType raised.message
      | .ok H =>
        (if success then H else setattr H envelope .error (optional error),
          .ok ⟨envelope, success, error⟩)

def commitCompletedResult (e : Nat) :
    Heap × Except Raised NodeResult → Heap × Except Raised NodeResult
  | (H, .error raised) => (H, .error raised)
  | (H, .ok result) => (commitEnvelope H e result.envelope, .ok { result with envelope := e })

def timeoutMessage (self : Node) (texts : Texts) (timeout : ℚ) : String :=
  Core.timeoutMessage self.capability texts.format timeout

def timeoutResult (self : Node) (texts : Texts) (H : Heap) (e : Nat) (timeout : ℚ) :
    Heap × Except Raised NodeResult :=
  self.settle texts H e "timeout" (self.timeoutMessage texts timeout)

def capacityResult (self : Node) (texts : Texts) (H : Heap) (e : Nat) :
    Heap × Except Raised NodeResult :=
  self.settle texts H e "capacity_exhausted" capacityMessage

def effectiveTimeout (self : Node) (timeoutSeconds : Option ℚ) : Option ℚ :=
  Core.effectiveTimeout self.timeoutMs timeoutSeconds

/-- The call handed to the executor, on a deep copy.  Where it is late, what it has done to the
copy until then is left out here. -/
def submit (self : Node) (texts : Texts) (x : Executor) (H : Heap) (e : Nat)
    (timeout : Option ℚ) : Heap × Except Raised NodeResult :=
  let (H, working) := modelCopy H e
  match x, timeout with
  | .exhausted, _ => self.capacityResult texts H e
  | .late, some t => self.timeoutResult texts H e t
  | _, _ => commitCompletedResult e (self.executeSync texts H working)

def executeWithTimeout (self : Node) (texts : Texts) (timeoutSeconds : Option ℚ)
    (x : Executor) (H : Heap) (e : Nat) : Heap × Except Raised NodeResult :=
  match self.effectiveTimeout timeoutSeconds with
  | none => commitCompletedResult e (self.executeSync texts H e)
  | some t =>
    if t ≤ 0 then self.timeoutResult texts H e t else self.submit texts x H e (some t)

/-- Of a `process` that is no coroutine function. -/
def executeAsync (self : Node) (texts : Texts) (timeoutSeconds : Option ℚ)
    (x : Executor) (H : Heap) (e : Nat) : Heap × Except Raised NodeResult :=
  match self.effectiveTimeout timeoutSeconds with
  | none => self.submit texts x H e none
  | some t =>
    if t ≤ 0 then self.timeoutResult texts H e t else self.submit texts x H e (some t)

end Node

end PrismPipe.Core
