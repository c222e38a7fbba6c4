import Mathlib.Data.List.DropRight
import PrismPipe.Core.Redaction
import PrismPipe.Engine.SemanticCache

/-! The health pipelines of `deepiri_nodes.py`, as `PrismEngine.execute` runs them: the chain that
probes one service after the other, and the node that probes two of them at once. -/

namespace PrismPipe.Deepiri

open Engine Python

/-- What `_http_get_json` returns. -/
structure Probe where
  ok : Bool
  statusCode : Nat
  body : Json
  url : PyStr

def Probe.toJson (p : Probe) : Json := .dict [(py "ok", .bool p.ok),
  (py "status_code", .int p.statusCode), (py "body", p.body), (py "url", .str p.url)]

structure Services where
  authUrl : PyStr
  lisUrl : PyStr
  cyrexUrl : PyStr
  httpGetJson : PyStr → Probe

def strip (s : PyStr) : PyStr := (s.dropWhile PyStr.isSpace).rdropWhile PyStr.isSpace

/-- `f"{base.rstrip('/')}/health"`. -/
def healthUrl (base : PyStr) : PyStr := base.rdropWhile (·.val == 0x2F) ++ py "/health"

/-- An empty `CYREX_URL` skips the hop, and so do some words: nothing but ASCII is lowered to their
letters. -/
def unset (raw : PyStr) : Bool :=
  raw.isEmpty ||
    [py "-", py "none", py "off", py "disabled"].contains (raw.map Redaction.lowerAscii)

namespace Services

variable (S : Services)

def auth : Probe := S.httpGetJson (healthUrl S.authUrl)

def lis : Probe := S.httpGetJson (healthUrl S.lisUrl)

def skipped : Probe where
  ok := false
  statusCode := 0
  body := .dict [(py "skipped", .bool true), (py "reason", .str (py "CYREX_URL unset"))]
  url := []

def cyrex : Probe :=
  if unset (strip S.cyrexUrl) then skipped else S.httpGetJson (healthUrl (strip S.cyrexUrl))

end Services

variable {I : Type}

section Nodes

variable (S : Services) (e : RequestEnvelope I Json)

def authHealth : Except String (RequestEnvelope I Json) := .ok { e with
  state := e.state.set "auth_health" S.auth.toJson
  next := some "deepiri.lis.health" }

def lisHealth : Except String (RequestEnvelope I Json) := .ok { e with
  state := e.state.set "lis_health" S.lis.toJson
  next := some "deepiri.cyrex.health" }

def parallelHealth : Except String (RequestEnvelope I Json) := .ok { e with
  state := (e.state.set "auth_health" S.auth.toJson).set "lis_health" S.lis.toJson
  next := some "deepiri.cyrex.health" }

def cyrexHealth : Except String (RequestEnvelope I Json) := .ok { e with
  state := e.state.set "cyrex_health" S.cyrex.toJson
  next := some "deepiri.aggregate" }

/-- `bool(p.get("ok"))`. -/
def okOf : Json → Except String Bool
  | .dict d => .ok (Dict.get d "ok").truthy
  | p => .error ("'" ++ p.typeName ++ "' object has no attribute 'get'")

def report (auth lis cyrex : Json) (authOk lisOk cyrexOk : Bool) : Json := .dict [
  (py "probes", .dict [(py "auth", auth), (py "lis", lis), (py "cyrex", cyrex)]),
  (py "reachable", .list (([("auth", authOk), ("lis", lisOk), ("cyrex", cyrexOk)].filter
    (·.2)).map fun p => .str (py p.1))),
  (py "useful", .bool (authOk && lisOk)),
  (py "required_ok", .bool (authOk && lisOk))]

def probe (key : String) : Json := (e.state key).getD (.dict [])

def aggregate : Except String (RequestEnvelope I Json) := do
  let authOk ← okOf (probe e "auth_health")
  let lisOk ← okOf (probe e "lis_health")
  let cyrexOk ← okOf (probe e "cyrex_health")
  let report := report (probe e "auth_health") (probe e "lis_health") (probe e "cyrex_health")
    authOk lisOk cyrexOk
  return { e with
    state := (e.state.set "deepiri_report" report).set "result" report
    next := none }

end Nodes

/-- `Node.execute`, in time: what `process` raises ends the envelope. -/
def node (capability : String)
    (process : RequestEnvelope I Json → Except String (RequestEnvelope I Json)) :
    LocalNode I Json := fun e =>
  match process e with
  | .ok e' => { e' with history := e'.history ++ [capability] }
  | .error message =>
    { e with history := e.history ++ [capability] : RequestEnvelope I Json }.terminate message

/-- `register_deepiri_nodes`, beside what else is registered. -/
def registered (S : Services) (others : String → Option (LocalNode I Json)) (capability : String) :
    Option (LocalNode I Json) :=
  if capability = "deepiri.auth.health" then some (node capability (authHealth S))
  else if capability = "deepiri.lis.health" then some (node capability (lisHealth S))
  else if capability = "deepiri.health.parallel" then some (node capability (parallelHealth S))
  else if capability = "deepiri.cyrex.health" then some (node capability (cyrexHealth S))
  else if capability = "deepiri.aggregate" then some (node capability aggregate)
  else others capability

def asking (e : RequestEnvelope I Json) (capability : String) : RequestEnvelope I Json :=
  { e with next := some capability }

section Alike

variable {V : Type} {e f e' : RequestEnvelope I V} {router : String → Option (LocalNode I V)}

def Alike (e f : RequestEnvelope I V) : Prop := ∃ history, f = { e with history := history }

theorem Alike.symm (h : Alike e f) : Alike f e := by
  obtain ⟨history, rfl⟩ := h
  exact ⟨e.history, rfl⟩

def Blind (n : LocalNode I V) : Prop := ∀ e f, Alike e f → Alike (n e) (n f)

theorem Alike.advancePlan (h : Alike e f) : Alike e.advancePlan f.advancePlan := by
  obtain ⟨history, rfl⟩ := h
  refine ⟨history, ?_⟩
  unfold RequestEnvelope.advancePlan
  split <;> rfl

theorem Alike.routes (hblind : ∀ c n, router c = some n → Blind n) (h : Routes router e e') :
    ∀ {f}, Alike e f → ∃ f', Routes router f f' ∧ Alike e' f' := by
  induction h with
  | done hd =>
    rintro f ⟨history, rfl⟩
    exact ⟨_, .done hd, history, rfl⟩
  | noCapability hn ht hc =>
    rintro f ⟨history, rfl⟩
    exact ⟨_, .noCapability hn ht hc, history, rfl⟩
  | notFound hn ht hc hne hr =>
    rintro f ⟨history, rfl⟩
    exact ⟨_, .notFound hn ht hc hne hr, history, rfl⟩
  | step hn ht hc hne hr h ih =>
    intro f hf
    obtain ⟨f', hroutes, hlike⟩ := ih (hblind _ _ hr _ _ hf).advancePlan
    obtain ⟨history, rfl⟩ := hf
    exact ⟨f', .step hn ht hc hne hr hroutes, hlike⟩

end Alike

section Hop

variable {S : Services} {others : String → Option (LocalNode I Json)}
  {e e' e₁ : RequestEnvelope I Json} {capability : String}

theorem blind_node {process : RequestEnvelope I Json → Except String (RequestEnvelope I Json)}
    (h : ∀ e history, process { e with history := history } =
      (process e).map fun e' => { e' with history := history }) :
    Blind (node capability process) := by
  rintro e f ⟨history, rfl⟩
  unfold node
  rw [h e history]
  cases process e with
  | ok e' => exact ⟨history ++ [capability], rfl⟩
  | error message => exact ⟨history ++ [capability], rfl⟩

theorem aggregate_history (e : RequestEnvelope I Json) (history : List String) :
    aggregate { e with history := history } =
      (aggregate e).map fun e' => { e' with history := history } := by
  unfold aggregate probe
  cases okOf ((e.state "auth_health").getD (.dict [])) with
  | error => rfl
  | ok =>
    cases okOf ((e.state "lis_health").getD (.dict [])) with
    | error => rfl
    | ok => cases okOf ((e.state "cyrex_health").getD (.dict [])) <;> rfl

theorem blind_registered (h : ∀ c n, others c = some n → Blind n) :
    ∀ c n, registered S others c = some n → Blind n := by
  intro c n hn
  unfold registered at hn
  split at hn
  · cases hn
    exact blind_node fun _ _ => rfl
  split at hn
  · cases hn
    exact blind_node fun _ _ => rfl
  split at hn
  · cases hn
    exact blind_node fun _ _ => rfl
  split at hn
  · cases hn
    exact blind_node fun _ _ => rfl
  split at hn
  · cases hn
    exact blind_node aggregate_history
  · exact h c n hn

theorem routes_step_iff {router : String → Option (LocalNode I Json)} {n : LocalNode I Json}
    (hn : truthy e.next) (ht : e.terminated = false) (hc : e.getCapability = some capability)
    (hne : capability ≠ "") (hr : router capability = some n) :
    Routes router e e' ↔ Routes router (n e).advancePlan e' := by
  refine ⟨fun h => ?_, fun h => .step hn (by simp [ht]) hc hne hr h⟩
  cases h with
  | done hd => simp [hn, ht] at hd
  | noCapability _ _ hno =>
    rw [hc] at hno
    exact absurd (by simpa [truthy] using hne) hno
  | notFound _ _ hc' _ hr' =>
    cases hc.symm.trans hc'
    cases hr.symm.trans hr'
  | step _ _ hc' _ hr' h =>
    cases hc.symm.trans hc'
    cases hr.symm.trans hr'
    exact h

theorem routes_hop (capability : String)
    (process : RequestEnvelope I Json → Except String (RequestEnvelope I Json))
    (hr : registered S others capability = some (node capability process))
    (hne : capability ≠ "") (hplain : "capability:".toList.isPrefixOf capability.toList = false)
    (hn : e.next = some capability) (ht : e.terminated = false) (hp : process e = .ok e₁) :
    Routes (registered S others) e e' ↔ Routes (registered S others) { e₁ with
      history := e₁.history ++ [capability] : RequestEnvelope I Json }.advancePlan e' := by
  have hc : e.getCapability = some capability := by
    unfold RequestEnvelope.getCapability
    rw [hn]
    exact (if_neg hne).trans (if_neg (by rw [hplain]; exact Bool.false_ne_true))
  rw [routes_step_iff (by simpa [hn, truthy] using hne) ht hc hne hr, node, hp]

theorem advancePlan_of_next (capability : String) (h : e.next = some capability)
    (hne : capability ≠ "") : e.advancePlan = e :=
  if_neg fun hn => hn.2 (by simpa [h, truthy] using hne)

end Hop

section Pipelines

variable (S : Services) (others : String → Option (LocalNode I Json)) (e : RequestEnvelope I Json)

namespace Services

def report : Json :=
  Deepiri.report S.auth.toJson S.lis.toJson S.cyrex.toJson S.auth.ok S.lis.ok S.cyrex.ok

def reported (path : List String) : RequestEnvelope I Json := { e with
  state := ((((e.state.set "auth_health" S.auth.toJson).set "lis_health" S.lis.toJson).set
    "cyrex_health" S.cyrex.toJson).set "deepiri_report" S.report).set "result" S.report
  history := e.history ++ path
  next := none }

end Services

theorem okOf_toJson (p : Probe) : okOf p.toJson = .ok p.ok := by
  cases p with
  | mk ok => cases ok <;> rfl

theorem routes_aggregate {e e' : RequestEnvelope I Json} (hn : e.next = some "deepiri.aggregate")
    (ht : e.terminated = false) (ha : e.state "auth_health" = some S.auth.toJson)
    (hl : e.state "lis_health" = some S.lis.toJson)
    (hc : e.state "cyrex_health" = some S.cyrex.toJson) :
    Routes (registered S others) e e' ↔ Routes (registered S others) ({ e with
      state := (e.state.set "deepiri_report" S.report).set "result" S.report
      history := e.history ++ ["deepiri.aggregate"]
      next := none } : RequestEnvelope I Json).advancePlan e' := by
  have hp : aggregate e = .ok { e with
      state := (e.state.set "deepiri_report" S.report).set "result" S.report
      next := none } := by
    simp only [aggregate, probe, ha, hl, hc, Option.getD_some, okOf_toJson]
    rfl
  exact routes_hop "deepiri.aggregate" aggregate rfl (by decide) (by decide) hn ht hp

theorem routes_cyrex (e' : RequestEnvelope I Json) (ht : e.terminated = false)
    (path : List String) :
    Routes (registered S others) { e with
      state := (e.state.set "auth_health" S.auth.toJson).set "lis_health" S.lis.toJson
      history := e.history ++ path
      next := some "deepiri.cyrex.health" } e' ↔
    Routes (registered S others)
      (S.reported e (path ++ ["deepiri.cyrex.health", "deepiri.aggregate"])).advancePlan e' := by
  refine .trans (routes_hop "deepiri.cyrex.health" (cyrexHealth S) rfl (by decide) (by decide) rfl
    (by exact ht) rfl) ?_
  rw [advancePlan_of_next "deepiri.aggregate" rfl (by decide)]
  refine .trans (routes_aggregate S others rfl (by exact ht) rfl rfl rfl) ?_
  simp [Services.reported]

theorem routes_serial {e' : RequestEnvelope I Json} (ht : e.terminated = false) :
    Routes (registered S others) (asking e "deepiri.auth.health") e' ↔
      Routes (registered S others) (S.reported e ["deepiri.auth.health", "deepiri.lis.health",
        "deepiri.cyrex.health", "deepiri.aggregate"]).advancePlan e' := by
  refine .trans (routes_hop "deepiri.auth.health" (authHealth S) rfl (by decide) (by decide) rfl
    (by exact ht) rfl) ?_
  rw [advancePlan_of_next "deepiri.lis.health" rfl (by decide)]
  refine .trans (routes_hop "deepiri.lis.health" (lisHealth S) rfl (by decide) (by decide) rfl
    (by exact ht) rfl) ?_
  rw [advancePlan_of_next "deepiri.cyrex.health" rfl (by decide)]
  simpa [asking] using
    routes_cyrex S others e e' ht ["deepiri.auth.health", "deepiri.lis.health"]

theorem routes_parallel {e' : RequestEnvelope I Json} (ht : e.terminated = false) :
    Routes (registered S others) (asking e "deepiri.health.parallel") e' ↔
      Routes (registered S others) (S.reported e ["deepiri.health.parallel",
        "deepiri.cyrex.health", "deepiri.aggregate"]).advancePlan e' := by
  refine .trans (routes_hop "deepiri.health.parallel" (parallelHealth S) rfl (by decide)
    (by decide) rfl (by exact ht) rfl) ?_
  rw [advancePlan_of_next "deepiri.cyrex.health" rfl (by decide)]
  exact routes_cyrex S others e e' ht ["deepiri.health.parallel"]

/-- From anywhere in a plan, among nodes that read no history: the chain and the parallel node make
the same report, and what is run after the one is run after the other. -/
theorem health_pipelines_agree (hblind : ∀ c n, others c = some n → Blind n)
    (ht : e.terminated = false) :
    (∀ e', Routes (registered S others) (asking e "deepiri.auth.health") e' ↔
      Routes (registered S others) (S.reported e ["deepiri.auth.health", "deepiri.lis.health",
        "deepiri.cyrex.health", "deepiri.aggregate"]).advancePlan e') ∧
    (∀ e', Routes (registered S others) (asking e "deepiri.health.parallel") e' ↔
      Routes (registered S others) (S.reported e ["deepiri.health.parallel",
        "deepiri.cyrex.health", "deepiri.aggregate"]).advancePlan e') ∧
    (∀ e', Routes (registered S others) (asking e "deepiri.auth.health") e' →
      ∃ f', Routes (registered S others) (asking e "deepiri.health.parallel") f' ∧ Alike e' f') ∧
    (∀ f', Routes (registered S others) (asking e "deepiri.health.parallel") f' →
      ∃ e', Routes (registered S others) (asking e "deepiri.auth.health") e' ∧ Alike e' f') := by
  have hlike (path path' : List String) :
      Alike (S.reported e path).advancePlan (S.reported e path').advancePlan :=
    Alike.advancePlan ⟨e.history ++ path', rfl⟩
  refine ⟨fun e' => routes_serial S others e ht, fun e' => routes_parallel S others e ht,
    fun e' h => ?_, fun f' h => ?_⟩
  · rw [routes_serial S others e ht] at h
    obtain ⟨f', hroutes, hf⟩ := Alike.routes (blind_registered hblind) h (hlike _ _)
    exact ⟨f', (routes_parallel S others e ht).mpr hroutes, hf⟩
  · rw [routes_parallel S others e ht] at h
    obtain ⟨e', hroutes, he⟩ := Alike.routes (blind_registered hblind) h (hlike _ _)
    exact ⟨e', (routes_serial S others e ht).mpr hroutes, he.symm⟩

def authOnly : Services where
  authUrl := py "http://auth"
  lisUrl := py "http://lis"
  cyrexUrl := py "off"
  httpGetJson url := ⟨url == py "http://auth/health", 200, .null, url⟩

def request : RequestEnvelope Unit Json where
  intent := .custom
  input := ()
  state := .empty
  history := []
  plan := ⟨[], 0⟩
  next := none
  error := none
  terminated := false

theorem health_pipelines_agree_auth_only :
    ∃ e', Routes (registered authOnly fun _ => none) (asking request "deepiri.auth.health") e' ∧
      ∃ f', Routes (registered authOnly fun _ => none)
        (asking request "deepiri.health.parallel") f' ∧ Alike e' f' := by
  obtain ⟨hserial, -, hagree, -⟩ := health_pipelines_agree authOnly (fun _ => none) request
    nofun rfl
  have h := (hserial _).mpr (.done rfl)
  exact ⟨_, h, hagree _ h⟩

end Pipelines

end PrismPipe.Deepiri
