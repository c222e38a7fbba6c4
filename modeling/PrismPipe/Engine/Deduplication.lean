import PrismPipe.Engine.Freshness
import PrismPipe.Engine.Organism

/-! Executions of organisms one after the other over shared results, against the same executions
with every node run. -/

namespace PrismPipe.Engine

open Transition

abbrev NodeFunction (I V : Type) := String → Fingerprint I V → StateDict V × Option String

def Router.Computes (router : Router I V) (f : NodeFunction I V) : Prop :=
  ∀ capability node e outcome, router capability = some node → node.executes e outcome →
    e.terminated = false → ∃ e' error, outcome = .returned e' true error ∧ e'.input = e.input ∧
      e'.terminated = false ∧
      e'.state.publicState = (f capability ⟨e.input, e.state.publicState⟩).1.publicState ∧
      e'.next = (f capability ⟨e.input, e.state.publicState⟩).2

/-- What one `OrganismExecutor` has; `repr` is what `!r` makes of a `str`. -/
structure Executor (I V : Type) where
  hash : Hash I V
  router : Router I V
  maxHops : Nat
  repr : String → String

inductive Cluster.Consults (json : V → V) (drawnFor : String → String) (key : String) :
    Cluster V → Option (CachedComputation V) → Cluster V → Prop
  | hit : s.Step json drawnFor (.looked key (some cached)) t →
      Consults json drawnFor key s (some cached) t
  | again : s.Step json drawnFor (.looked key none) u →
      u.Step json drawnFor (.looked key result) t → Consults json drawnFor key s result t

structure Cluster.Changes (s t : Cluster V) : Prop where
  same : t = { s with graphs := t.graphs }
  graphs : ∀ i : Nat, Option.Rel (ComputationGraph.Changes fun _ _ _ => True)
    s.graphs[i]? t.graphs[i]?

structure Execution (I V : Type) where
  cluster : Cluster V
  organism : Organism I V
  envelope : Envelope I V
  hops : Nat
  ended : Bool

/-- `outside`: time passes, a worker starts, or something shared is changed in place.  `warm` has the
state that the entry gives. -/
inductive Turn (I V : Type)
  | outside
  | leave
  | warm (capability : String) (fingerprint : Fingerprint I V) (cached : StateDict V)
  | cold

variable {I V : Type}

def Organism.envelope (o : Organism I V) : Envelope I V := ⟨o.input, o.state, o.next, false, none⟩

def Execution.begin (cluster : Cluster V) (o : Organism I V) : Execution I V :=
  ⟨cluster, o, o.envelope, 0, false⟩

structure Execution.Hops (x : Executor I V) (s : Execution I V) (capability : String) : Prop where
  running : s.ended = false
  continues : s.organism.continues
  within : s.hops < x.maxHops
  route : s.organism.getCapability = capability
  nonempty : capability ≠ ""

/-- The computations are ones that `occurs` holds of. -/
inductive Execution.Step [PyValue V] (json : V → V) (drawnFor : String → String)
    (occurs : String → Fingerprint I V → Prop) (x : Executor I V) :
    Execution I V → Turn I V → Execution I V → Prop
  | outside : s.cluster.Step json drawnFor .silent c → c.registered = s.cluster.registered →
      Step json drawnFor occurs x s .outside { s with cluster := c }
  | changed : s.cluster.Changes c →
      Step json drawnFor occurs x s .outside { s with cluster := c }
  | done : s.ended = false → s.organism.continues = false →
      Step json drawnFor occurs x s .leave { s with ended := true }
  | exceed (message : String) : s.ended = false → s.organism.continues → x.maxHops ≤ s.hops →
      Step json drawnFor occurs x s .leave
        { s with
          organism := s.organism.terminate (some message)
          envelope :=
            { s.envelope with terminated := true, error := some "max hops exceeded" }
          hops := s.hops + 1
          ended := true }
  | stop : s.ended = false → s.organism.continues → s.hops < x.maxHops →
      s.organism.getCapability = "" →
      Step json drawnFor occurs x s .leave { s with hops := s.hops + 1, ended := true }
  | warm : s.Hops x capability → occurs capability s.organism.fingerprint →
      s.cluster.Consults json drawnFor (lookupKey x.hash capability s.organism.fingerprint)
        (some cached) c →
      Step json drawnFor occurs x s (.warm capability s.organism.fingerprint cached.state)
        { s with
          cluster := c
          organism := s.organism.warm cached
          envelope :=
            { s.envelope with state := (s.organism.warm cached).state, next := cached.next }
          hops := s.hops + 1 }
  | cold : s.Hops x capability → occurs capability s.organism.fingerprint →
      s.cluster.Consults json drawnFor (lookupKey x.hash capability s.organism.fingerprint) none c →
      x.router capability = some node →
      node.executes s.envelope (.returned e success error) → c.now ≤ later →
      { c with now := later }.Step json drawnFor .silent d →
      d.registered = ⟨capability ++ ":" ++
          afterColon (lookupKey x.hash capability s.organism.fingerprint),
        e.state.publicState, e.next, later, ttl⟩ :: c.registered →
      Step json drawnFor occurs x s .cold
        { s with
          cluster := d
          organism :=
            if success && !e.terminated then s.organism.adopt e
            else (s.organism.adopt e).terminate
              (orElse (orElse error e.error) (some "node failed"))
          envelope := e
          hops := s.hops + 1 }
  | fail : s.Hops x capability → occurs capability s.organism.fingerprint →
      s.cluster.Consults json drawnFor (lookupKey x.hash capability s.organism.fingerprint) none c →
      (x.router capability = none ∧ message = nodeNotFound capability ∨
        ∃ node, x.router capability = some node ∧ node.executes s.envelope (.raised message)) →
      Step json drawnFor occurs x s .cold
        { s with
          cluster := c
          organism := s.organism.terminate (some message)
          hops := s.hops + 1 }

def execution [PyValue V] (json : V → V) (drawnFor : String → String)
    (occurs : String → Fingerprint I V → Prop) (x : Executor I V) :
    System (Execution I V) (Turn I V) where
  init s := ∃ c o, s = .begin c o
  step := Execution.Step json drawnFor occurs x

inductive Warmed [PyValue V] (json : V → V) (drawnFor : String → String)
    (occurs : String → Fingerprint I V → Prop) (x : Executor I V) : Cluster V → Prop
  | init : (cluster json drawnFor).init c → Warmed json drawnFor occurs x c
  | execute : Warmed json drawnFor occurs x c →
      Run (execution json drawnFor occurs x) (.begin c o) es t →
      Warmed json drawnFor occurs x t.cluster

/-- No public key that the state has is removed, and the entry has the values that the node gave,
neither changed in place since nor by their way through JSON. -/
def Turn.Careful (f : NodeFunction I V) : Turn I V → Prop
  | .warm capability fingerprint cached =>
    fingerprint.state.Within (f capability fingerprint).1 ∧
      cached = (f capability fingerprint).1.publicState
  | _ => True

def Turn.counts : Turn I V → Bool
  | .outside => false
  | _ => true

def Organism.view (o : Organism I V) : Organism I V := { o with state := o.state.publicState }

structure Progress (I V : Type) where
  organism : Organism I V
  hops : Nat
  ended : Bool

def Execution.progress (s : Execution I V) : Progress I V := ⟨s.organism.view, s.hops, s.ended⟩

def Progress.turn (x : Executor I V) (f : NodeFunction I V) (p : Progress I V) : Progress I V :=
  if p.ended then p
  else if p.organism.continues then
    if x.maxHops ≤ p.hops then ⟨{ p.organism with terminated := true }, p.hops + 1, true⟩
    else if p.organism.getCapability = "" then ⟨p.organism, p.hops + 1, true⟩
    else match x.router p.organism.getCapability with
      | none => ⟨{ p.organism with terminated := true }, p.hops + 1, false⟩
      | some _ =>
        ⟨{ p.organism with
            state := (f p.organism.getCapability p.organism.fingerprint).1.publicState
            next := (f p.organism.getCapability p.organism.fingerprint).2 }, p.hops + 1, false⟩
  else { p with ended := true }

section Shared

variable {x : Executor I V} {f : NodeFunction I V} {occurs : String → Fingerprint I V → Prop}
  {drawnFor : String → String} {json : V → V}

theorem sameKeys_found (json : V → V) : Found json StateDict.SameKeys where
  local_ _ _ := rfl
  stored := StateDict.sameKeys_mapValues json

theorem Cluster.Fresh.changes {s t : Cluster V} (h : s.Fresh StateDict.SameKeys drawnFor)
    (hc : s.Changes t) : t.Fresh StateDict.SameKeys drawnFor := by
  have hregistered : t.registered = s.registered := by rw [hc.same]
  have hredis : t.redis = s.redis := by rw [hc.same]
  refine ⟨fun {g} hg => ?_, fun hk => ?_⟩
  · obtain ⟨i, hi⟩ := List.mem_iff_getElem?.mp hg
    have hrel := hc.graphs i
    rw [hi] at hrel
    cases hs : s.graphs[i]? with
    | none =>
      rw [hs] at hrel
      cases hrel
    | some g' =>
    rw [hs] at hrel
    obtain ⟨hchanges⟩ := hrel
    rw [hregistered]
    refine (h.graphs (List.mem_of_getElem? hs)).changes hchanges ?_
    rintro old state ⟨r, hr, hkey, hkeys, hrest⟩ hstate
    exact ⟨r, hr, hkey, fun k => (hkeys k).trans (hstate.sameKeys k), hrest⟩
  · rw [hredis] at hk
    rw [hregistered]
    exact h.redis hk

def Executor.Serves (x : Executor I V) (f : NodeFunction I V)
    (occurs : String → Fingerprint I V → Prop) (r : Registration V) : Prop :=
  ∃ capability fingerprint, occurs capability fingerprint ∧ (x.router capability).isSome ∧
    r.lookupKey = capability ++ ":" ++ afterColon (lookupKey x.hash capability fingerprint) ∧
    r.state = (f capability fingerprint).1.publicState ∧ r.next = (f capability fingerprint).2

structure Cluster.Served (drawnFor : String → String) (x : Executor I V) (f : NodeFunction I V)
    (occurs : String → Fingerprint I V → Prop) (s : Cluster V) : Prop where
  fresh : s.Fresh StateDict.SameKeys drawnFor
  serves : ∀ r ∈ s.registered, x.Serves f occurs r

theorem Cluster.Served.looked {s t : Cluster V} (h : s.Served drawnFor x f occurs)
    (st : s.Step json drawnFor (.looked key result) t) :
    t.Served drawnFor x f occurs ∧ t.registered = s.registered := by
  have hreg : t.registered = s.registered := by
    cases st
    rfl
  exact ⟨⟨(cluster_fresh (sameKeys_found json)).step h.fresh st, hreg ▸ h.serves⟩, hreg⟩

theorem Cluster.Served.consults {s t : Cluster V} (h : s.Served drawnFor x f occurs)
    (hc : s.Consults json drawnFor key result t) :
    t.Served drawnFor x f occurs ∧ t.registered = s.registered ∧ ∀ cached, result = some cached →
      ∃ r ∈ s.registered, r.lookupKey = key ∧ r.state.SameKeys cached.state ∧ r.next = cached.next := by
  have hlooked {s t : Cluster V} {result} (h : s.Served drawnFor x f occurs)
      (st : s.Step json drawnFor (.looked key result) t) : ∀ cached, result = some cached →
        ∃ r ∈ s.registered, r.lookupKey = key ∧ r.state.SameKeys cached.state ∧ r.next = cached.next := by
    rintro cached rfl
    obtain ⟨r, hr, hk, hs, hn, -⟩ := h.fresh.looked st
    exact ⟨r, hr, hk, hs, hn⟩
  cases hc with
  | hit st =>
    obtain ⟨ht, hreg⟩ := h.looked st
    exact ⟨ht, hreg, hlooked h st⟩
  | again st st' =>
    obtain ⟨hu, hreg⟩ := h.looked st
    obtain ⟨ht, hreg'⟩ := hu.looked st'
    exact ⟨ht, hreg'.trans hreg, hreg ▸ hlooked hu st'⟩

theorem Cluster.Served.hit {s t : Cluster V} (h : s.Served drawnFor x f occurs)
    (hh : x.hash.Collisionless occurs) (ho : occurs capability fingerprint)
    (hc : s.Consults json drawnFor (lookupKey x.hash capability fingerprint) (some cached) t) :
    (x.router capability).isSome ∧
      (f capability fingerprint).1.publicState.SameKeys cached.state ∧
      cached.next = (f capability fingerprint).2 := by
  obtain ⟨-, -, hr⟩ := h.consults hc
  obtain ⟨r, hr, hk, hs, hn⟩ := hr cached rfl
  obtain ⟨c', y, ho', hsome, hk', hs', hn'⟩ := h.serves r hr
  obtain ⟨rfl, rfl⟩ := registered_inj hh ho ho' (hk.symm.trans hk')
  exact ⟨hsome, hs' ▸ hs, hn.symm.trans hn'⟩

structure Execution.Sane (drawnFor : String → String) (x : Executor I V) (f : NodeFunction I V)
    (occurs : String → Fingerprint I V → Prop) (s : Execution I V) : Prop where
  served : s.cluster.Served drawnFor x f occurs
  input : s.envelope.input = s.organism.input
  state : s.envelope.state.publicState = s.organism.state.publicState
  live : s.ended = false → s.envelope.terminated = false

theorem Execution.begin_sane (h : c.Served drawnFor x f occurs) (o : Organism I V) :
    (Execution.begin c o).Sane drawnFor x f occurs := ⟨h, rfl, rfl, fun _ => rfl⟩

theorem Execution.turn_of_hops {s : Execution I V} (h : s.Hops x capability) :
    s.progress.turn x f = match x.router capability with
      | none => ⟨{ s.organism.view with terminated := true }, s.hops + 1, false⟩
      | some _ =>
        ⟨{ s.organism.view with
            state := (f capability s.organism.fingerprint).1.publicState
            next := (f capability s.organism.fingerprint).2 }, s.hops + 1, false⟩ := by
  obtain ⟨hrun, hcont, hmax, rfl, hne⟩ := h
  have hview : s.organism.view.fingerprint = s.organism.fingerprint := by
    simp only [Organism.fingerprint, Organism.view, StateDict.publicState_publicState]
  have hcap : s.organism.view.getCapability = s.organism.getCapability := rfl
  have hcont' : s.organism.view.continues = true := hcont
  simp only [Progress.turn, Execution.progress, hrun, hcont', hview, hcap, if_neg hne,
    if_neg (Nat.not_le.mpr hmax), if_true, Bool.false_eq_true, if_false]

theorem Progress.turn_ended {p : Progress I V} (h : p.ended = true) : p.turn x f = p := if_pos h

theorem Progress.iterate_ended {p : Progress I V} (h : ((Progress.turn x f)^[n] p).ended = true)
    (hnm : n ≤ m) : (Progress.turn x f)^[m] p = (Progress.turn x f)^[n] p := by
  obtain ⟨k, rfl⟩ := Nat.exists_eq_add_of_le' hnm
  rw [Function.iterate_add_apply]
  exact Function.iterate_fixed (Progress.turn_ended h) k

structure Turns (x : Executor I V) (f : NodeFunction I V) (s : Execution I V) (e : Turn I V)
    (t : Execution I V) : Prop where
  still : e.counts = false → t.progress = s.progress
  moves : e.counts = true → (e.Careful f ↔ t.progress = s.progress.turn x f)

theorem turns_of_careful {s t : Execution I V} (hn : e.counts = true) (hc : e.Careful f)
    (h : t.progress = s.progress.turn x f) : Turns x f s e t where
  still hs := by
    rw [hn] at hs
    cases hs
  moves _ := iff_of_true hc h

theorem careful_warm (o : Organism I V) (capability : String) (cached : StateDict V) :
    (Turn.warm capability o.fingerprint cached).Careful f ↔
      o.state.Within (f capability o.fingerprint).1 ∧
        cached = (f capability o.fingerprint).1.publicState := by
  simp only [Turn.Careful, Organism.fingerprint, StateDict.Within,
    StateDict.publicState_publicState]

theorem Cluster.Served.register {s t : Cluster V} (h : s.Served drawnFor x f occurs)
    (hlater : s.now ≤ later) (st : { s with now := later }.Step json drawnFor .silent t)
    (hr : t.registered = r :: s.registered) (hserves : x.Serves f occurs r) :
    t.Served drawnFor x f occurs := by
  have htick : ({ s with now := later } : Cluster V).Fresh StateDict.SameKeys drawnFor :=
    (cluster_fresh (sameKeys_found json)).step h.fresh (.tick hlater)
  refine ⟨(cluster_fresh (sameKeys_found json)).step htick st, fun q hq => ?_⟩
  rw [hr] at hq
  rcases List.mem_cons.mp hq with rfl | hq
  · exact hserves
  · exact h.serves q hq

variable [PyValue V]

theorem Organism.view_terminate (o : Organism I V) (error : Option String) :
    (o.terminate error).view = { o.view with terminated := true } := by
  simp only [Organism.view, Organism.terminate_publicState, Organism.terminate_next,
    Organism.terminate_input, Organism.terminate_terminated]

theorem Organism.view_warm (o : Organism I V) (hs : r.publicState.SameKeys cached.state) :
    (o.warm cached).view = { o.view with state := r.publicState, next := cached.next } ↔
      o.state.Within r ∧ cached.state = r.publicState := by
  rw [← StateDict.publicState_restore_eq_iff hs]
  simp only [Organism.view, Organism.warm_publicState, Organism.warm_next, Organism.warm_input,
    Organism.warm_terminated, Organism.mk.injEq, and_true, true_and]

theorem Execution.Sane.step {s t : Execution I V} (h : s.Sane drawnFor x f occurs)
    (hh : x.hash.Collisionless occurs) (hf : x.router.Computes f)
    (st : s.Step json drawnFor occurs x e t) :
    t.Sane drawnFor x f occurs ∧ Turns x f s e t := by
  cases st with
  | outside hc hr =>
    refine ⟨⟨⟨(cluster_fresh (sameKeys_found json)).step h.served.fresh hc, ?_⟩, h.input, h.state,
      h.live⟩, fun _ => rfl, fun hn => ?_⟩
    · rw [hr]
      exact h.served.serves
    · cases hn
  | changed hc =>
    refine ⟨⟨⟨h.served.fresh.changes hc, ?_⟩, h.input, h.state, h.live⟩, fun _ => rfl,
      fun hn => ?_⟩
    · rw [hc.same]
      exact h.served.serves
    · cases hn
  | done hrun hstop =>
    have hstop' : s.organism.view.continues = false := hstop
    refine ⟨⟨h.served, h.input, h.state, fun hn => by cases hn⟩, turns_of_careful rfl trivial ?_⟩
    simp only [Progress.turn, Execution.progress, hrun, hstop', Bool.false_eq_true, if_false]
  | exceed message hrun hcont hmax =>
    have hcont' : s.organism.view.continues = true := hcont
    refine ⟨⟨h.served, h.input, ?_, fun hn => by cases hn⟩, turns_of_careful rfl trivial ?_⟩
    · rw [Organism.terminate_publicState]
      exact h.state
    · simp only [Progress.turn, Execution.progress, hrun, hcont', hmax, Bool.false_eq_true,
        if_false, if_true, Organism.view_terminate]
  | stop hrun hcont hmax hc =>
    have hcont' : s.organism.view.continues = true := hcont
    have hc' : s.organism.view.getCapability = "" := hc
    refine ⟨⟨h.served, h.input, h.state, fun hn => by cases hn⟩, turns_of_careful rfl trivial ?_⟩
    simp only [Progress.turn, Execution.progress, hrun, hcont', hc', if_neg (Nat.not_le.mpr hmax),
      Bool.false_eq_true, if_false, if_true]
  | warm hops ho hc =>
    obtain ⟨hserved, -⟩ := h.served.consults hc
    obtain ⟨hsome, hstate, hnext⟩ := h.served.hit hh ho hc
    refine ⟨⟨hserved, h.input, rfl, fun _ => h.live hops.running⟩, fun hn => ?_, fun _ => ?_⟩
    · cases hn
    obtain ⟨node, hnode⟩ := Option.isSome_iff_exists.mp hsome
    rw [s.turn_of_hops hops, hnode]
    refine (careful_warm _ _ _).trans ((s.organism.view_warm hstate).symm.trans ?_)
    rw [Execution.progress, hops.running, ← hnext]
    simp only [Progress.mk.injEq, and_true]
  | cold hops ho hc hnode he hlater hd hr =>
    obtain ⟨hserved, -⟩ := h.served.consults hc
    obtain ⟨e', error, hret, hinput, hlive, hstate, hnext⟩ :=
      hf _ _ _ _ hnode he (h.live hops.running)
    cases hret
    rw [h.input, h.state] at hstate hnext
    change _ = (f _ s.organism.fingerprint).1.publicState at hstate
    change _ = (f _ s.organism.fingerprint).2 at hnext
    refine ⟨⟨hserved.register hlater hd hr ?_, ?_, ?_, fun _ => hlive⟩,
      turns_of_careful rfl trivial ?_⟩
    · exact ⟨_, _, ho, by rw [hnode]; rfl, rfl, hstate, hnext⟩
    · simp only [hlive, Bool.not_false, Bool.and_true, if_true]
      exact hinput.trans h.input
    · simp only [hlive, Bool.not_false, Bool.and_true, if_true]
      rfl
    · rw [s.turn_of_hops hops, hnode, ← hstate, ← hnext, Execution.progress, hops.running]
      simp only [hlive, Bool.not_false, Bool.and_true, if_true]
      rfl
  | fail hops ho hc hwhy =>
    obtain ⟨hserved, -⟩ := h.served.consults hc
    have hnone : x.router s.organism.getCapability = none := by
      rw [hops.route]
      rcases hwhy with ⟨hnone, -⟩ | ⟨node, hnode, he⟩
      · exact hnone
      · obtain ⟨_, _, hret, -⟩ := hf _ _ _ _ hnode he (h.live hops.running)
        cases hret
    refine ⟨⟨hserved, h.input, ?_, fun _ => h.live hops.running⟩, turns_of_careful rfl trivial ?_⟩
    · rw [Organism.terminate_publicState]
      exact h.state
    · rw [s.turn_of_hops hops, ← hops.route, hnone, Execution.progress, Organism.view_terminate,
        hops.running]

theorem Execution.Sane.run {s t : Execution I V} (h : s.Sane drawnFor x f occurs)
    (hh : x.hash.Collisionless occurs) (hf : x.router.Computes f)
    (hr : Run (execution json drawnFor occurs x) s es t) : t.Sane drawnFor x f occurs :=
  hr.keeps (fun h st => (h.step hh hf st).1) h

theorem Warmed.served (h : Warmed json drawnFor occurs x c) (hh : x.hash.Collisionless occurs)
    (hf : x.router.Computes f) : c.Served drawnFor x f occurs := by
  induction h with
  | init hc =>
    refine ⟨(cluster_fresh (sameKeys_found json)).init hc, fun r hr => ?_⟩
    rw [hc.2.2] at hr
    cases hr
  | execute _ hr ih => exact ((Execution.begin_sane ih _).run hh hf hr).served

def turnCount (es : List (Turn I V)) : Nat := es.countP (·.counts)

theorem Execution.Sane.progress_eq {s t : Execution I V} (h : s.Sane drawnFor x f occurs)
    (hh : x.hash.Collisionless occurs) (hf : x.router.Computes f)
    (hr : Run (execution json drawnFor occurs x) s es t) (hc : ∀ e ∈ es, e.Careful f) :
    t.progress = (Progress.turn x f)^[turnCount es] s.progress := by
  induction hr with
  | nil => rfl
  | @cons s e u es t st _ ih =>
    obtain ⟨hu, hturns⟩ := h.step hh hf st
    have ih := ih hu fun e' he' => hc e' (List.mem_cons_of_mem e he')
    rw [ih]
    cases hn : e.counts with
    | false => rw [hturns.still hn, turnCount, turnCount, List.countP_cons_of_neg (by simp [hn])]
    | true =>
      rw [(hturns.moves hn).mp (hc e List.mem_cons_self), turnCount, turnCount,
        List.countP_cons_of_pos (by simp [hn]), Function.iterate_succ_apply]

theorem Execution.Sane.careful_iff {s t : Execution I V} (h : s.Sane drawnFor x f occurs)
    (hh : x.hash.Collisionless occurs) (hf : x.router.Computes f)
    (hr : Run (execution json drawnFor occurs x) s es t) :
    (∀ e ∈ es, e.Careful f) ↔ ∀ es₁ es₂ u, es = es₁ ++ es₂ →
      Run (execution json drawnFor occurs x) s es₁ u → Run (execution json drawnFor occurs x) u es₂ t →
      u.progress = (Progress.turn x f)^[turnCount es₁] s.progress := by
  constructor
  · rintro hc es₁ es₂ u rfl hu -
    exact h.progress_eq hh hf hu fun e he => hc e (List.mem_append_left es₂ he)
  · intro hp e he
    obtain ⟨es₁, es₂, rfl⟩ := List.append_of_mem he
    obtain ⟨u, v, hu, st, hv⟩ := hr.split
    obtain ⟨-, hturns⟩ := (h.run hh hf hu).step hh hf st
    cases hn : e.counts with
    | false =>
      cases e with
      | outside => trivial
      | leave => trivial
      | warm => cases hn
      | cold => trivial
    | true =>
      refine (hturns.moves hn).mpr ?_
      have hbefore := hp es₁ (e :: es₂) u rfl hu (.cons st hv)
      have hafter := hp (es₁ ++ [e]) es₂ v (by simp) (hu.snoc st) hv
      have hcount : turnCount (es₁ ++ [e]) = turnCount es₁ + 1 := by simp [turnCount, hn]
      rw [hafter, hcount, Function.iterate_succ_apply', hbefore]

/-- An execution is what its nodes alone make of it, turn by turn, exactly if no hit removes a key
and each has the values that its node gave; and then what is shared makes no difference to how it ends. -/
theorem execute_transparent_iff (hh : x.hash.Collisionless occurs) (hf : x.router.Computes f)
    (hc : Warmed json drawnFor occurs x c) (hc' : Warmed json drawnFor occurs x c')
    (hr : Run (execution json drawnFor occurs x) (.begin c o) es t)
    (hr' : Run (execution json drawnFor occurs x) (.begin c' o) fs t')
    (ht : t.ended = true) (ht' : t'.ended = true) :
    ((∀ e ∈ es, e.Careful f) ↔ ∀ es₁ es₂ u, es = es₁ ++ es₂ →
      Run (execution json drawnFor occurs x) (.begin c o) es₁ u →
      Run (execution json drawnFor occurs x) u es₂ t →
      u.progress = (Progress.turn x f)^[turnCount es₁] (Execution.begin c o).progress) ∧
    ((∀ e ∈ es, e.Careful f) → (∀ e ∈ fs, e.Careful f) →
      t.organism.view = t'.organism.view) := by
  have hs : (Execution.begin c o).Sane drawnFor x f occurs :=
    Execution.begin_sane (hc.served hh hf) o
  have hs' : (Execution.begin c' o).Sane drawnFor x f occurs :=
    Execution.begin_sane (hc'.served hh hf) o
  refine ⟨hs.careful_iff hh hf hr, fun hes hfs => ?_⟩
  have hp := hs.progress_eq hh hf hr hes
  have hp' : t'.progress = (Progress.turn x f)^[turnCount fs] (Execution.begin c o).progress :=
    hs'.progress_eq hh hf hr' hfs
  have hsame : t.progress = t'.progress := by
    rcases Nat.le_total (turnCount es) (turnCount fs) with hle | hle
    · rw [hp', Progress.iterate_ended (hp ▸ ht) hle, hp]
    · rw [hp, Progress.iterate_ended (hp' ▸ ht') hle, hp']
  exact congrArg Progress.organism hsame

end Shared

section Removal

instance : PyValue Unit := ⟨fun _ => (), fun _ => ()⟩

def removal : Node Unit Unit where
  offload := false
  executes e outcome := outcome = .returned
    { e with state := fun k => if isPrivate k then e.state k else none, next := none } true none

def removalExecutor : Executor Unit Unit where
  hash _ _ := "h"
  router capability := if capability = "c" then some removal else none
  maxHops := 4
  repr := id

def removed : NodeFunction Unit Unit := fun _ _ => (.empty, none)

def keyed : Organism Unit Unit := ⟨(), StateDict.empty.set "a" (), some "c", false⟩

def onlyKeyed (capability : String) (fingerprint : Fingerprint Unit Unit) : Prop :=
  capability = "c" ∧ fingerprint = keyed.fingerprint

theorem removal_collisionless : removalExecutor.hash.Collisionless onlyKeyed where
  inj := by
    rintro _ _ _ _ ⟨rfl, rfl⟩ ⟨rfl, rfl⟩ -
    exact ⟨rfl, rfl⟩
  colon _ _ := show ':' ∉ "h".toList by decide

theorem removal_computes : removalExecutor.router.Computes removed := by
  intro capability node e outcome hnode he hlive
  simp only [removalExecutor] at hnode
  split at hnode
  · cases hnode
    refine ⟨_, _, he, rfl, hlive, ?_, rfl⟩
    funext k
    by_cases hk : isPrivate k <;> simp [StateDict.publicState, removed, StateDict.empty, hk]
  · cases hnode

theorem keyed_key : "c" ++ ":" ++ afterColon (lookupKey removalExecutor.hash "c"
    keyed.fingerprint) = "c:h" := by
  rw [afterColon_lookupKey_of_notMem (by decide)]
  decide

theorem keyed_lookupKey : lookupKey removalExecutor.hash "c" keyed.fingerprint = "c:h" := by
  decide

theorem removal_runs : ∃ c c' t t' cached,
    Warmed id (fun _ => "c:h") onlyKeyed removalExecutor c ∧
    Warmed id (fun _ => "c:h") onlyKeyed removalExecutor c' ∧ c'.registered = [] ∧
    Run (execution id (fun _ => "c:h") onlyKeyed removalExecutor) (.begin c keyed)
      [.warm "c" keyed.fingerprint cached, .leave] t ∧
    Run (execution id (fun _ => "c:h") onlyKeyed removalExecutor) (.begin c' keyed)
      [.outside, .cold, .leave] t' ∧ t.ended = true ∧ t'.ended = true ∧
    t.organism.state "a" = some () ∧ t'.organism.state "a" = none := by
  let graph : ComputationGraph Unit := .empty 1 30 3 fun _ => none
  let state : StateDict Unit := fun k => if isPrivate k then keyed.state k else none
  let result : Envelope Unit Unit := { keyed.envelope with state := state, next := none }
  let warmed : ComputationGraph Unit :=
    graph.registerComputation 0 "n" "c" "h" state.publicState none true
  let c0 : Cluster Unit := ⟨0, [], fun _ => none, []⟩
  let c1 : Cluster Unit := ⟨0, [graph], fun _ => none, []⟩
  let c2 : Cluster Unit := ⟨0, [warmed], fun _ => none, [⟨"c:h", state.publicState, none, 0, 30⟩]⟩
  let stored : Output Unit := ⟨state.publicState, none, true, some (0 + (30 : Int)), "c:h"⟩
  let shared : CachedComputation Unit := ⟨"n", state.publicState, none⟩
  let c3 : Cluster Unit := { c2 with graphs := [warmed.put "n" stored] }
  have hops {c} : (Execution.begin c keyed).Hops removalExecutor "c" :=
    ⟨rfl, show keyed.continues = true by decide, show 0 < 4 by decide,
      show keyed.getCapability = "c" by decide, by decide⟩
  have hoccurs : onlyKeyed "c" keyed.fingerprint := ⟨rfl, rfl⟩
  have hstart : c0.Step id (fun _ => "c:h") .silent c1 := .start (s := c0)
  have hanswers {c : Cluster Unit} : c.Answers "c:h" none := by rintro _ ⟨⟩
  have hgraph : graph.getCachedResultByKey c1.now "c" "c:h" none = (none, graph) := rfl
  have hmiss : c1.Step id (fun _ => "c:h") (.looked "c:h" none) c1 :=
    .lookup (s := c1) (i := 0) rfl hanswers hgraph
  have hregister : c1.Step id (fun _ => "c:h") .silent c2 :=
    .register (s := c1) (i := 0) (g := graph) false rfl rfl (by decide)
  have hmapped : warmed.hashToNode.lookup "c:h" = some "n" := rfl
  have hstored : warmed.outputs.lookup "n" = some stored := rfl
  have hfound : warmed.findOutput 0 "c:h" = (some shared, warmed.put "n" stored) := by
    simp [ComputationGraph.findOutput, hmapped, hstored, stored, shared]
  have hwarmed : warmed.getCachedResultByKey c2.now "c" "c:h" none =
      (some shared, warmed.put "n" stored) := by
    simp only [ComputationGraph.getCachedResultByKey, c2, hfound]
  have hhit : c2.Step id (fun _ => "c:h") (.looked "c:h" (some shared)) c3 :=
    .lookup (s := c2) (i := 0) rfl hanswers hwarmed
  have hmissed : c1.Consults id (fun _ => "c:h")
      (lookupKey removalExecutor.hash "c" keyed.fingerprint) none c1 := by
    rw [keyed_lookupKey]
    exact .again hmiss hmiss
  have hshared : c2.Consults id (fun _ => "c:h")
      (lookupKey removalExecutor.hash "c" keyed.fingerprint) (some shared) c3 := by
    rw [keyed_lookupKey]
    exact .hit hhit
  have hregistered : c2.registered = ⟨"c" ++ ":" ++ afterColon (lookupKey removalExecutor.hash "c"
      keyed.fingerprint), result.state.publicState, none, 0, 30⟩ :: c1.registered := by
    rw [keyed_key]
  have hcold : (Execution.begin c1 keyed).Step id (fun _ => "c:h") onlyKeyed removalExecutor .cold
      ⟨c2, keyed.adopt result, result, 1, false⟩ :=
    .cold (e := result) hops hoccurs hmissed rfl rfl (le_refl _) hregister hregistered
  have hwarm := Execution.Step.warm (s := .begin c2 keyed) (x := removalExecutor) hops hoccurs
    hshared
  have hinit : Warmed id (fun _ => "c:h") onlyKeyed removalExecutor c0 :=
    .init ⟨rfl, fun _ => rfl, rfl⟩
  have hrun : Run (execution id (fun _ => "c:h") onlyKeyed removalExecutor) (.begin c0 keyed)
      [.outside, .cold, .leave] ⟨c2, keyed.adopt result, result, 1, true⟩ :=
    .cons (.outside hstart rfl) <| .cons hcold <| .single (.done rfl rfl)
  exact ⟨c2, c0, _, _, _, hinit.execute hrun, hinit, rfl, .cons hwarm (.single (.done rfl rfl)), hrun,
    rfl, rfl, rfl, rfl⟩

/-- The key that the node took away is there after a hit. -/
theorem removal_not_transparent : removalExecutor.hash.Collisionless onlyKeyed ∧
    removalExecutor.router.Computes removed ∧ ∃ c c' es fs t t',
      Warmed id (fun _ => "c:h") onlyKeyed removalExecutor c ∧
      Warmed id (fun _ => "c:h") onlyKeyed removalExecutor c' ∧ c'.registered = [] ∧
      Run (execution id (fun _ => "c:h") onlyKeyed removalExecutor) (.begin c keyed) es t ∧
      Run (execution id (fun _ => "c:h") onlyKeyed removalExecutor) (.begin c' keyed) fs t' ∧
      t.ended = true ∧ t'.ended = true ∧ t.organism.view ≠ t'.organism.view := by
  obtain ⟨c, c', t, t', cached, hc, hc', hempty, hr, hr', ht, ht', ha, ha'⟩ := removal_runs
  refine ⟨removal_collisionless, removal_computes, c, c', _, _, t, t', hc, hc', hempty, hr, hr',
    ht, ht', fun hview => ?_⟩
  have hsame := congrArg (fun o : Organism Unit Unit => o.state "a") hview
  have hpublic : isPrivate "a" = false := by decide
  simp [Organism.view, StateDict.publicState, hpublic, ha, ha'] at hsame

theorem execute_transparent_iff_removal : ∃ c t cached,
    Run (execution id (fun _ => "c:h") onlyKeyed removalExecutor) (.begin c keyed)
      [.warm "c" keyed.fingerprint cached, .leave] t ∧
    ¬ ∀ e ∈ [Turn.warm "c" keyed.fingerprint cached, .leave], e.Careful removed := by
  obtain ⟨c, c', t, t', cached, hc, hc', -, hr, hr', ht, ht', ha, ha'⟩ := removal_runs
  refine ⟨c, t, cached, hr, fun hes => ?_⟩
  have hview := (execute_transparent_iff removal_collisionless removal_computes hc hc' hr hr'
    ht ht').2 hes (by simp [Turn.Careful])
  have hsame := congrArg (fun o : Organism Unit Unit => o.state "a") hview
  have hpublic : isPrivate "a" = false := by decide
  simp [Organism.view, StateDict.publicState, hpublic, ha, ha'] at hsame

end Removal

end PrismPipe.Engine
