import Mathlib.Data.List.Basic
import Mathlib.Logic.Function.Basic
import PrismPipe.Lib.Transition

/-! Concurrent calls of `execute_document_vectorize` on one engine, each with a vectorizer of its
own.  A call is its index, and so is its vectorizer. -/

namespace PrismPipe.Document

open Transition

/-- Where a call is suspended in `OrganismExecutor.execute`.  Futures are indices. -/
inductive CallPoint
  | atTop
  | waiting (fut : Nat)
  | acquiring (steal : Bool) (fut : Nat)
  | polling (fut : Nat)
  | computing (node : Nat) (fut : Nat)
  | finished
  | cancelled

/-- `sharing` is `use_computation_sharing`. -/
structure VectorizeCall where
  lookupKey : String
  sharing : Bool
  point : CallPoint

/-- The router's registration of the capability, the results in the shared computation graph with
the vectorizer each names, and the executor's flights. -/
structure Vectorizing where
  registered : Option Nat
  calls : List VectorizeCall
  results : List (String × Option Nat)
  futures : List Bool
  inflight : String → Option Nat

/-- `executes i j`: the payload of `i` goes to the vectorizer of `j`.  The rest carry what the
result names, if anything. -/
inductive VectorizeAct
  | internal
  | executes (i j : Nat)
  | finds (i : Nat) (names : Option Nat)
  | ends (i : Nat) (names : Option Nat)

def CallPoint.active : CallPoint → Bool
  | finished | cancelled => false
  | _ => true

namespace Vectorizing

/-- `engine.register_node(DocumentVectorizeNode(vectorizer))` comes first. -/
def start (s : Vectorizing) (lookupKey : String) (sharing : Bool) : Vectorizing :=
  { s with
    registered := some s.calls.length
    calls := s.calls ++ [⟨lookupKey, sharing, .atTop⟩] }

def setPoint (s : Vectorizing) (i : Nat) (p : CallPoint) : Vectorizing :=
  { s with calls := s.calls.modify i fun c => { c with point := p } }

/-- `_await_inflight_or_own`, where there is no flight. -/
def ownInflight (s : Vectorizing) (key : String) : Vectorizing :=
  { s with
    futures := s.futures ++ [false]
    inflight := Function.update s.inflight key (some s.futures.length) }

def finishInflight (s : Vectorizing) (key : String) (fut : Nat) : Vectorizing :=
  { s with
    futures := s.futures.set fut true
    inflight := if s.inflight key = some fut then Function.update s.inflight key none
      else s.inflight }

def register (s : Vectorizing) (key : String) (names : Option Nat) : Vectorizing :=
  { s with results := (key, names) :: s.results }

/-- From the top of the loop to the next suspension.  A lookup finds a result registered for its
key, or nothing; a result that names no vectorizer routes to the capability again. -/
inductive Advance (redis : Bool) (s : Vectorizing) (i : Nat) : VectorizeAct → Vectorizing → Prop
  | hit : s.calls[i]? = some c → c.sharing → (c.lookupKey, names) ∈ s.results →
      Advance redis s i (.finds i names)
        (s.setPoint i (if names.isSome then .finished else .atTop))
  | wait : s.calls[i]? = some c → s.inflight c.lookupKey = some fut →
      Advance redis s i .internal (s.setPoint i (.waiting fut))
  | lock : s.calls[i]? = some c → s.inflight c.lookupKey = none → c.sharing → redis →
      Advance redis s i .internal
        ((s.ownInflight c.lookupKey).setPoint i (.acquiring false s.futures.length))
  | resolve : s.calls[i]? = some c → s.inflight c.lookupKey = none →
      (c.sharing && redis) = false → s.registered = some j →
      Advance redis s i (.executes i j)
        ((s.ownInflight c.lookupKey).setPoint i (.computing j s.futures.length))

/-- `bus`: there is an event bus, whose subscribers may suspend. -/
inductive Step (bus redis : Bool) : Vectorizing → VectorizeAct → Vectorizing → Prop
  | suspend : bus → Step bus redis s .internal (s.start key sharing)
  | start : Advance redis (s.start key sharing) s.calls.length a t → Step bus redis s a t
  | resume : s.calls[i]? = some c → c.point = .atTop → Advance redis s i a t →
      Step bus redis s a t
  | wake : s.calls[i]? = some c → c.point = .waiting fut → s.futures[fut]? = some true →
      Advance redis s i a t → Step bus redis s a t
  | refused : s.calls[i]? = some c → c.point = .acquiring false fut →
      Step bus redis s .internal (s.setPoint i (.polling fut))
  /-- The lock is acquired, or the node is executed without it. -/
  | acquired : s.calls[i]? = some c → c.point = .acquiring steal fut → s.registered = some j →
      Step bus redis s (.executes i j) (s.setPoint i (.computing j fut))
  | found : s.calls[i]? = some c → c.point = .polling fut → (c.lookupKey, names) ∈ s.results →
      Advance redis (s.finishInflight c.lookupKey fut) i a t → Step bus redis s a t
  | steal : s.calls[i]? = some c → c.point = .polling fut →
      Step bus redis s .internal
        ((s.finishInflight c.lookupKey fut).setPoint i (.acquiring true fut))
  /-- The output names the node's own vectorizer; an error, or no answer in time, names none. -/
  | computed (registers : Bool) : s.calls[i]? = some c → c.point = .computing j fut →
      names = some j ∨ names = none → registers || names.isNone →
      Step bus redis s (.ends i names)
        (((if c.sharing && registers then s.register c.lookupKey names else s).finishInflight
          c.lookupKey fut).setPoint i .finished)
  | cancel : s.calls[i]? = some c → c.point.active →
      Step bus redis s .internal (s.setPoint i .cancelled)

def Careful (s : Vectorizing) : VectorizeAct → Prop
  | .internal | .ends _ _ => True
  | .executes i _ => s.calls.length ≤ i + 1
  | .finds _ _ => False

end Vectorizing

/-- The call's payload is vectorized by its vectorizer, and its result names it.  An error names
none. -/
def VectorizeAct.Isolated : VectorizeAct → Prop
  | .internal => True
  | .executes i j => j = i
  | .finds i names => names = some i
  | .ends i names => ∀ j ∈ names, j = i

def vectorizing (bus redis : Bool) : System Vectorizing VectorizeAct where
  init s := s.registered = none ∧ s.calls = [] ∧ s.results = [] ∧ s.futures = [] ∧
    ∀ key, s.inflight key = none
  step := Vectorizing.Step bus redis

def carefulVectorizing (bus redis : Bool) : System Vectorizing VectorizeAct where
  init := (vectorizing bus redis).init
  step s a t := s.Step bus redis a t ∧ s.Careful a

namespace Vectorizing

/-- The router holds the node of the call that started last; a node is computed for its own call;
a result names a call that has finished. -/
structure Own (s : Vectorizing) : Prop where
  registered : ∀ j, s.registered = some j → j + 1 = s.calls.length
  computing : ∀ (i : Nat) (c : VectorizeCall) (j fut : Nat), s.calls[i]? = some c →
    c.point = .computing j fut → j = i
  results : ∀ kn ∈ s.results, ∀ j ∈ kn.2, ∃ c : VectorizeCall, s.calls[j]? = some c ∧
    c.point = .finished

theorem getElem?_setPoint (s : Vectorizing) (i : Nat) (p : CallPoint) (k : Nat) :
    (s.setPoint i p).calls[k]? =
      (s.calls[k]?).map fun c => if i = k then { c with point := p } else c := by
  rw [setPoint, List.getElem?_modify, Option.map_eq_map]

theorem Own.start {s : Vectorizing} (h : s.Own) (key : String) (sharing : Bool) :
    (s.start key sharing).Own := by
  have hl : (s.start key sharing).calls.length = s.calls.length + 1 := List.length_append
  refine ⟨fun j hj => ?_, fun i c j fut hi hp => ?_, fun kn hkn j hj => ?_⟩
  · cases hj
    exact hl.symm
  · rcases Nat.lt_or_ge i s.calls.length with hlt | hge
    · exact h.computing i c j fut ((List.getElem?_append_left hlt).symm.trans hi) hp
    · have hi' : [⟨key, sharing, .atTop⟩][i - s.calls.length]? = some c :=
        (List.getElem?_append_right hge).symm.trans hi
      obtain rfl := List.mem_singleton.mp (List.mem_of_getElem? hi')
      cases hp
  · obtain ⟨c, hc, hp⟩ := h.results kn hkn j hj
    exact ⟨c, (List.getElem?_append_left (List.getElem?_eq_some_iff.mp hc).1).trans hc, hp⟩

theorem Own.setPoint {s : Vectorizing} (h : s.Own) (hi : s.calls[i]? = some c)
    (hc : c.point ≠ .finished) (hp : ∀ j fut, p = .computing j fut → j = i) :
    (s.setPoint i p).Own := by
  refine ⟨fun j hj => ?_, fun k d j fut hk hd => ?_, fun kn hkn j hj => ?_⟩
  · exact (h.registered j hj).trans (List.length_modify _ _ _).symm
  · rw [getElem?_setPoint] at hk
    obtain ⟨d', hd', rfl⟩ := Option.map_eq_some_iff.mp hk
    split at hd
    next hik =>
      subst hik
      exact hp j fut hd
    · exact h.computing k d' j fut hd' hd
  · obtain ⟨d, hd, hf⟩ := h.results kn hkn j hj
    have hne : i ≠ j := by
      rintro rfl
      rw [hi] at hd
      cases hd
      exact hc hf
    refine ⟨d, ?_, hf⟩
    rw [getElem?_setPoint, hd, Option.map_some, if_neg hne]

theorem Own.ownInflight {s : Vectorizing} (h : s.Own) (key : String) : (s.ownInflight key).Own :=
  ⟨h.registered, h.computing, h.results⟩

theorem Own.finishInflight {s : Vectorizing} (h : s.Own) (key : String) (fut : Nat) :
    (s.finishInflight key fut).Own :=
  ⟨h.registered, h.computing, h.results⟩

theorem Own.register {s : Vectorizing} (h : s.Own)
    (hn : ∀ j ∈ names, ∃ c, s.calls[j]? = some c ∧ c.point = .finished) :
    (s.register key names).Own where
  registered := h.registered
  computing := h.computing
  results kn hkn := by
    rcases List.mem_cons.mp hkn with rfl | hkn
    · exact hn
    · exact h.results kn hkn

theorem Own.resolve_iff {s : Vectorizing} (h : s.Own) (hr : s.registered = some j)
    (hi : s.calls[i]? = some c) : s.Careful (.executes i j) ↔ j = i := by
  have hlen := h.registered j hr
  have hlt := (List.getElem?_eq_some_iff.mp hi).1
  rw [Careful]
  omega

theorem Own.advance {s : Vectorizing} (h : s.Own) (hi : s.calls[i]? = some c)
    (hc : c.point ≠ .finished) (ha : Advance redis s i a t) :
    (s.Careful a ↔ a.Isolated) ∧ (s.Careful a → t.Own) := by
  cases ha with
  | hit _ _ hmem =>
    refine ⟨⟨False.elim, fun hn => ?_⟩, False.elim⟩
    obtain ⟨d, hd, hf⟩ := h.results _ hmem i hn
    rw [hi] at hd
    cases hd
    exact hc hf
  | wait _ _ => exact ⟨Iff.rfl, fun _ => h.setPoint hi hc nofun⟩
  | lock _ _ _ _ =>
    exact ⟨Iff.rfl, fun _ => (h.ownInflight _).setPoint hi hc nofun⟩
  | resolve _ _ _ hr =>
    have hiff := h.resolve_iff hr hi
    refine ⟨hiff, fun hcar => (h.ownInflight _).setPoint hi hc fun j fut hj => ?_⟩
    cases hj
    exact hiff.mp hcar

theorem Advance.careful_start {s : Vectorizing}
    (ha : Advance redis (s.start key sharing) s.calls.length a t) :
    (s.start key sharing).Careful a ↔ s.Careful a := by
  have hl : (s.start key sharing).calls.length = s.calls.length + 1 := List.length_append
  cases ha with
  | hit | wait | lock => exact Iff.rfl
  | resolve =>
    rw [Careful, Careful]
    omega

theorem Own.step {s : Vectorizing} (h : s.Own) (st : s.Step bus redis a t) :
    (s.Careful a ↔ a.Isolated) ∧ (s.Careful a → t.Own) := by
  cases st with
  | suspend _ => exact ⟨Iff.rfl, fun _ => h.start _ _⟩
  | start ha =>
    rename_i key sharing
    have hi : (s.start key sharing).calls[s.calls.length]? = some ⟨key, sharing, .atTop⟩ :=
      List.getElem?_concat_length
    rw [← ha.careful_start]
    exact (h.start key sharing).advance hi nofun ha
  | resume hi hp ha => exact h.advance hi (by rw [hp]; nofun) ha
  | wake hi hp _ ha => exact h.advance hi (by rw [hp]; nofun) ha
  | refused hi hp => exact ⟨Iff.rfl, fun _ => h.setPoint hi (by rw [hp]; nofun) nofun⟩
  | acquired hi hp hr =>
    have hiff := h.resolve_iff hr hi
    refine ⟨hiff, fun hcar => h.setPoint hi (by rw [hp]; nofun) fun j fut hj => ?_⟩
    cases hj
    exact hiff.mp hcar
  | found hi hp _ ha => exact (h.finishInflight _ _).advance hi (by rw [hp]; nofun) ha
  | steal hi hp =>
    exact ⟨Iff.rfl, fun _ => (h.finishInflight _ _).setPoint hi (by rw [hp]; nofun) nofun⟩
  | computed registers hi hp hn _ =>
    rename_i i c names j fut _
    obtain rfl : j = i := h.computing i c j fut hi hp
    have hfin : (s.setPoint j .finished).Own := h.setPoint hi (by rw [hp]; nofun) nofun
    refine ⟨⟨fun _ k hk => ?_, fun _ => trivial⟩, fun _ => ?_⟩
    · rcases hn with rfl | rfl
      · exact (Option.mem_some_iff.mp hk).symm
      · exact absurd hk (Option.not_mem_none k)
    · split
      · refine Own.register (s := (s.setPoint j .finished).finishInflight c.lookupKey fut)
          (hfin.finishInflight _ _) fun k hk => ?_
        rcases hn with rfl | rfl
        · obtain rfl := Option.mem_some_iff.mp hk
          refine ⟨{ c with point := .finished }, ?_, rfl⟩
          refine (getElem?_setPoint s j .finished j).trans ?_
          rw [hi, Option.map_some, if_pos rfl]
        · exact absurd hk (Option.not_mem_none k)
      · exact hfin.finishInflight _ _
  | cancel hi hp =>
    refine ⟨Iff.rfl, fun _ => h.setPoint hi (fun hf => ?_) nofun⟩
    rw [hf] at hp
    cases hp

theorem own_init {s : Vectorizing} (hs : (vectorizing bus redis).init s) : s.Own := by
  obtain ⟨hr, hc, hn, -, -⟩ := hs
  refine ⟨fun j hj => ?_, fun i c j fut hi => ?_, fun kn hkn => ?_⟩
  · rw [hr] at hj
    cases hj
  · rw [hc] at hi
    cases hi
  · rw [hn] at hkn
    cases hkn

theorem Own.isolated {s : Vectorizing} (h : s.Own)
    (hr : Run (carefulVectorizing bus redis) s as t) : ∀ a ∈ as, a.Isolated := by
  induction hr with
  | nil => exact List.forall_mem_nil _
  | cons st _ ih =>
    obtain ⟨hiff, hown⟩ := h.step st.1
    exact List.forall_mem_cons.mpr ⟨hiff.mp st.2, ih (hown st.2)⟩

theorem Own.careful {s : Vectorizing} (h : s.Own) (hr : Run (vectorizing bus redis) s as t)
    (has : ∀ a ∈ as, a.Isolated) : Run (carefulVectorizing bus redis) s as t := by
  induction hr with
  | nil => exact .nil
  | cons st _ ih =>
    obtain ⟨ha, hrest⟩ := List.forall_mem_cons.mp has
    obtain ⟨hiff, hown⟩ := h.step st
    have hcar := hiff.mpr ha
    exact .cons ⟨st, hcar⟩ (ih (hown hcar) hrest)

end Vectorizing

/-- The careful runs are the runs whose calls are isolated. -/
theorem vectorizers_isolated_iff (hs : (vectorizing bus redis).init s) :
    Run (carefulVectorizing bus redis) s as t ↔
      Run (vectorizing bus redis) s as t ∧ ∀ a ∈ as, a.Isolated := by
  have h := Vectorizing.own_init hs
  constructor
  · intro hr
    exact ⟨hr.mono And.left, h.isolated hr⟩
  · rintro ⟨hr, has⟩
    exact h.careful hr has

/-- The second call comes while the node of the first is computed. -/
theorem vectorizers_isolated_overlapping : ∃ s t, (vectorizing false false).init s ∧
    Run (carefulVectorizing false false) s
      [.executes 0 0, .executes 1 1, .ends 0 (some 0), .ends 1 (some 1)] t := by
  let s0 : Vectorizing := ⟨none, [], [], [], fun _ => none⟩
  let s1 := ((s0.start "a" false).ownInflight "a").setPoint 0 (.computing 0 0)
  let s2 := ((s1.start "b" false).ownInflight "b").setPoint 1 (.computing 1 1)
  let s3 := (s2.finishInflight "a" 0).setPoint 0 .finished
  let s4 := (s3.finishInflight "b" 1).setPoint 1 .finished
  have st1 : s0.Step false false (.executes 0 0) s1 :=
    .start (.resolve (s := s0.start "a" false) (c := ⟨"a", false, .atTop⟩) rfl rfl rfl rfl)
  have st2 : s1.Step false false (.executes 1 1) s2 :=
    .start (.resolve (s := s1.start "b" false) (c := ⟨"b", false, .atTop⟩) rfl rfl rfl rfl)
  have st3 : s2.Step false false (.ends 0 (some 0)) s3 :=
    .computed (s := s2) (i := 0) (c := ⟨"a", false, .computing 0 0⟩) true rfl rfl (.inl rfl) rfl
  have st4 : s3.Step false false (.ends 1 (some 1)) s4 :=
    .computed (s := s3) (i := 1) (c := ⟨"b", false, .computing 1 1⟩) true rfl rfl (.inl rfl) rfl
  have hinit : (vectorizing false false).init s0 := ⟨rfl, rfl, rfl, rfl, fun _ => rfl⟩
  refine ⟨s0, s4, hinit, (vectorizers_isolated_iff hinit).mpr
    ⟨.cons st1 (.cons st2 (.cons st3 (.single st4))), ?_⟩⟩
  simp [VectorizeAct.Isolated]

/-- A subscriber suspends the first call; the second registers its node before that resolves. -/
theorem vectorizer_of_another_call : ∃ s t, (vectorizing true false).init s ∧
    Run (vectorizing true false) s [.internal, .internal, .executes 0 1] t ∧
    ¬ ∀ a ∈ [.internal, .internal, .executes 0 1], VectorizeAct.Isolated a := by
  let s0 : Vectorizing := ⟨none, [], [], [], fun _ => none⟩
  let s1 := s0.start "a" false
  let s2 := s1.start "b" false
  have st1 : s0.Step true false .internal s1 := .suspend rfl
  have st2 : s1.Step true false .internal s2 := .suspend rfl
  have st3 : s2.Step true false (.executes 0 1) _ :=
    .resume (i := 0) rfl rfl (.resolve rfl rfl rfl rfl)
  refine ⟨s0, _, ⟨rfl, rfl, rfl, rfl, fun _ => rfl⟩, .cons st1 (.cons st2 (.single st3)), ?_⟩
  intro h
  have h01 : (1 : Nat) = 0 := h (.executes 0 1) (by simp)
  cases h01

end PrismPipe.Document
