import PrismPipe.Engine.Freshness
import PrismPipe.Engine.FastPath

/-! Workers over one Redis, with results of one capability that are given no time to live. -/

namespace PrismPipe.Engine

open Transition

/-- `stored`: Redis took a row.  `asked`: the lookup was to ask Redis, and reached it. -/
inductive TierEvent (V : Type)
  | silent
  | stored (key : String)
  | looked (key : String) (asked : Bool) (cached : Option (CachedComputation V))

variable {V : Type}

/-- `GET` and `TTL`. -/
def Cluster.answer (s : Cluster V) (key : String) : Option (RedisReply V) :=
  match s.redis key with
  | none => none
  | some row => if row.expiresAt.any (· ≤ s.now) then none else some (row.reply s.now)

/-- What is registered for `c` has succeeded, and `text` is what Redis has of it.  A key is of one
capability, its `owner`, and node ids are unique. -/
inductive TierStep (owner drawnFor : String → String) (c : String) :
    Cluster V → TierEvent V → Cluster V → Prop
  | tick : s.now ≤ later → TierStep owner drawnFor c s .silent { s with now := later }
  | start : (ComputationGraph.empty m t n ttls : ComputationGraph V).ttlFor c true ≤ 0 →
      TierStep owner drawnFor c s .silent { s with graphs := s.graphs ++ [.empty m t n ttls] }
  | register {i : Nat} {g : ComputationGraph V} (persisted : Bool) (text : StateDict V) :
      s.graphs[i]? = some g →
      key = capability ++ ":" ++ inputHash →
      drawnFor nodeId = key → owner key = capability → (capability = c → success = true) →
      e = (if persisted then .stored key else .silent) →
      TierStep owner drawnFor c s e
        { s with
          graphs := s.graphs.set i
            (g.registerComputation s.now nodeId capability inputHash output next success)
          redis := if persisted then Function.update s.redis key
              (some (storeRedis s.now ((g.hashToNode.lookup key).getD nodeId) text next success
                (g.ttlFor capability success)))
            else s.redis }
  /-- `persist_computation_to_redis` -/
  | persist {i : Nat} {g : ComputationGraph V} : s.graphs[i]? = some g →
      g.hashToNode.lookup key = some nodeId →
      owner key = capability → (capability = c → success = true) →
      TierStep owner drawnFor c s (.stored key)
        { s with
          redis := Function.update s.redis key
            (some (storeRedis s.now nodeId output next success (g.ttlFor capability success))) }
  | lookup {i : Nat} {g g' : ComputationGraph V} {key capability : String} {asked : Bool}
      {cached : Option (CachedComputation V)} : s.graphs[i]? = some g → owner key = capability →
      g.getCachedResultByKey s.now capability key (if asked then s.answer key else none) =
        (cached, g') →
      TierStep owner drawnFor c s (.looked key asked cached)
        { s with graphs := s.graphs.set i g' }

/-- At first, nothing of `c` is in Redis. -/
def tiers (V : Type) (owner drawnFor : String → String) (c : String) :
    System (Cluster V) (TierEvent V) where
  init s := s.graphs = [] ∧ (∀ key, owner key = c → s.redis key = none) ∧
    ∀ key row, s.redis key = some row → drawnFor row.nodeId = key
  step := TierStep owner drawnFor c

variable {owner drawnFor : String → String} {c : String} {s t : Cluster V}

def Output.Over (owner : String → String) (c : String) (now : ℚ) (output : Output V) : Prop :=
  owner output.lookupKey = c → output.expiresAt.any (· ≤ now)

/-- No worker gives results of `c` time to live. -/
def Cluster.Disables (s : Cluster V) (c : String) : Prop := ∀ g ∈ s.graphs, g.ttlFor c true ≤ 0

theorem TierStep.disables (st : TierStep owner drawnFor c s e t) (h : s.Disables c) :
    t.Disables c := by
  intro g hm
  cases st with
  | tick | persist => exact h g hm
  | start ht =>
    rcases List.mem_append.mp hm with hm | hm
    · exact h g hm
    · obtain rfl := List.mem_singleton.mp hm
      exact ht
  | register _ _ hg =>
    rcases mem_set hm with rfl | hm
    · rw [ComputationGraph.registerComputation_ttlFor]
      exact h _ (List.mem_of_getElem? hg)
    · exact h g hm
  | @lookup _ _ g' _ key capability asked _ hg _ hl =>
    rcases mem_set hm with rfl | hm
    · have ht : (g'.getCachedResultByKey s.now capability key
          (if asked then s.answer key else none)).2.ttlFor = g'.ttlFor :=
        g'.getCachedResultByKey_ttlFor _
      rw [hl] at ht
      rw [ht]
      exact h _ (List.mem_of_getElem? hg)
    · exact h g hm

structure Cluster.Quiet (owner drawnFor : String → String) (c : String) (s : Cluster V) :
    Prop where
  graphs : g ∈ s.graphs → g.Sound drawnFor (Output.Over owner c s.now)
  disables : s.Disables c
  redis : s.redis key = some row → drawnFor row.nodeId = key

theorem Cluster.Quiet.answer (h : s.Quiet owner drawnFor c) (ha : s.answer key = some rep) :
    ∃ nodeId, rep.nodeId = some nodeId ∧ drawnFor nodeId = key := by
  unfold Cluster.answer at ha
  split at ha
  · cases ha
  next row hrow =>
    split at ha
    · cases ha
    · cases ha
      exact ⟨_, rfl, h.redis hrow⟩

theorem Cluster.Quiet.lookup (h : s.Quiet owner drawnFor c) (hg : g ∈ s.graphs)
    (hr : ∀ rep ∈ reply, owner key ≠ c ∧ s.answer key = some rep)
    (hl : g.getCachedResultByKey s.now capability key reply = (cached, g')) :
    g'.Sound drawnFor (Output.Over owner c s.now) ∧ (owner key = c → cached = none) := by
  obtain ⟨hg', hc⟩ := (h.graphs hg).getCachedResultByKey
    (fun rep hrep => ⟨h.answer (hr rep hrep).2, fun hk => absurd hk (hr rep hrep).1⟩) hl
  refine ⟨hg', fun hkey => ?_⟩
  cases cached with
  | none => rfl
  | some cached =>
    obtain ⟨output, hP, hk, -, hlive | ⟨rep, hrep, -⟩⟩ := hc cached rfl
    · exact absurd (hP (hk ▸ hkey)) hlive
    · exact absurd hkey (hr rep hrep).1

theorem Output.Over.mono {now later : ℚ} (hle : now ≤ later) (output : Output V)
    (h : output.Over owner c now) : output.Over owner c later := by
  intro hk
  obtain ⟨e, he, hnow⟩ := (Option.any_eq_true _ _).mp (h hk)
  rw [he, Option.any_some, decide_eq_true_eq]
  exact le_trans (of_decide_eq_true hnow) hle

theorem Cluster.Quiet.step (h : s.Quiet owner drawnFor c) (st : TierStep owner drawnFor c s e t)
    (hu : ∀ key cached, owner key = c → e = .looked key true cached → s.redis key = none) :
    t.Quiet owner drawnFor c ∧
      ∀ key asked cached, owner key = c → e = .looked key asked cached → cached = none := by
  have hd := st.disables h.disables
  cases st with
  | tick hle =>
    exact ⟨⟨fun hg => (h.graphs hg).mono (Output.Over.mono hle), hd, h.redis⟩, nofun⟩
  | start ht =>
    refine ⟨⟨fun hg => ?_, hd, h.redis⟩, nofun⟩
    rcases List.mem_append.mp hg with hg | hg
    · exact h.graphs hg
    · obtain rfl := List.mem_singleton.mp hg
      exact ComputationGraph.empty_sound ..
  | register persisted _ hg hkey hdrawn ho hc he =>
    have hg := List.mem_of_getElem? hg
    have hs := h.graphs hg
    subst hkey
    refine ⟨⟨fun hm => ?_, hd, fun {key' row} hk => ?_⟩, ?_⟩
    · rcases mem_set hm with rfl | hm
      · refine hs.registerComputation hdrawn fun hk => ?_
        obtain rfl := ho.symm.trans hk
        have ht := Int.cast_nonpos (R := ℚ) |>.mpr (h.disables _ hg)
        rw [hc rfl]
        simpa using ht
      · exact h.graphs hm
    · cases persisted with
      | false => exact h.redis hk
      | true =>
        dsimp only at hk
        rw [if_pos rfl, Function.update_apply] at hk
        split at hk
        next hkey =>
          cases hk
          rw [hkey]
          exact storedId_drawn hs hdrawn
        · exact h.redis hk
    · intro key' asked cached _ he'
      rw [he'] at he
      split at he <;> cases he
  | persist hg hn ho hc =>
    have hg := List.mem_of_getElem? hg
    refine ⟨⟨h.graphs, hd, fun {key' row} hk => ?_⟩, nofun⟩
    dsimp only at hk
    rw [Function.update_apply] at hk
    split at hk
    next hkey =>
      cases hk
      rw [hkey]
      exact (h.graphs hg).mapped hn
    · exact h.redis hk
  | @lookup _ _ g g' key capability asked cached hg ho hl =>
    have hg := List.mem_of_getElem? hg
    have hreply : ∀ rep ∈ (if asked then s.answer key else none), owner key ≠ c ∧
        s.answer key = some rep := by
      intro rep hrep
      cases asked with
      | false => cases hrep
      | true =>
        refine ⟨fun hkey => ?_, hrep⟩
        have hnone := hu key cached hkey rfl
        rw [if_pos rfl, Cluster.answer, hnone] at hrep
        cases hrep
    obtain ⟨hg', hc⟩ := h.lookup hg hreply hl
    refine ⟨⟨fun hm => ?_, hd, h.redis⟩, ?_⟩
    · rcases mem_set hm with rfl | hm
      · exact hg'
      · exact h.graphs hm
    · rintro key' asked' cached' hk he
      cases he
      exact hc hk

def Cluster.Kept (s : Cluster V) (key : String) : Prop :=
  ∃ row, s.redis key = some row ∧ row.expiresAt = none

theorem TierStep.redis (st : TierStep owner drawnFor c s e t) (h : s.Disables c)
    (hk : owner key = c) : e = .stored key ∧ t.Kept key ∨
      e ≠ .stored key ∧ t.redis key = s.redis key := by
  have hwrite {key' nodeId capability output next success} {g : ComputationGraph V}
      (hg : g ∈ s.graphs) (ho : owner key' = capability) (hc : capability = c → success = true)
      {s' : Cluster V} (hs : s'.redis = Function.update s.redis key'
        (some (storeRedis s.now nodeId output next success (g.ttlFor capability success)))) :
      TierEvent.stored (V := V) key' = .stored key ∧ s'.Kept key ∨
        TierEvent.stored (V := V) key' ≠ .stored key ∧ s'.redis key = s.redis key := by
    by_cases he : key = key'
    · subst he
      obtain rfl := ho.symm.trans hk
      have hle := h _ hg
      rw [hc rfl] at hs
      exact .inl ⟨rfl, _, by rw [hs, Function.update_self], if_neg (not_lt.mpr hle)⟩
    · refine .inr ⟨fun heq => he (TierEvent.stored.inj heq).symm, ?_⟩
      rw [hs, Function.update_of_ne he]
  cases st with
  | tick | start | lookup => exact .inr ⟨nofun, rfl⟩
  | register persisted _ hg _ _ ho hc he =>
    subst he
    cases persisted with
    | false => exact .inr ⟨nofun, rfl⟩
    | true => exact hwrite (List.mem_of_getElem? hg) ho hc rfl
  | persist hg _ ho hc => exact hwrite (List.mem_of_getElem? hg) ho hc rfl

theorem Cluster.Kept.looked (h : s.Kept key)
    (st : TierStep owner drawnFor c s (.looked key true cached) t) : cached ≠ none := by
  rintro rfl
  obtain ⟨row, hrow, he⟩ := h
  cases st with
  | register _ _ _ _ _ _ _ he' => split at he' <;> cases he'
  | @lookup _ _ g g' _ capability _ _ hg ho hl =>
    have ha : s.answer key = some (row.reply s.now) := by
      simp only [Cluster.answer, hrow, he, Option.any_none, Bool.false_eq_true, if_false]
    have hne : (row.reply s.now).ttl ≠ some (-2) := by
      simp [RedisRow.reply, he]
    rw [if_pos rfl, ha] at hl
    rcases hf : g.findOutput s.now key with ⟨_ | cached, g''⟩
    · simp only [ComputationGraph.getCachedResultByKey, hf, ComputationGraph.hydrateFromRedis,
        if_neg hne, Prod.mk.injEq, reduceCtorEq, false_and] at hl
    · simp only [ComputationGraph.getCachedResultByKey, hf, Prod.mk.injEq, reduceCtorEq,
        false_and] at hl

/-- No lookup asks Redis for a row of `c` that was stored before. -/
def TierEvent.Unserved (owner : String → String) (c : String) (e e' : TierEvent V) : Prop :=
  ∀ key cached, owner key = c → e = .stored key → e' ≠ .looked key true cached

theorem looked_none (hr : Run (tiers V owner drawnFor c) s es t) (h : s.Quiet owner drawnFor c)
    (hu : ∀ key, owner key = c → s.redis key ≠ none → ∀ cached, .looked key true cached ∉ es)
    (hp : es.Pairwise (TierEvent.Unserved owner c)) :
    ∀ key asked cached, .looked key asked cached ∈ es → owner key = c → cached = none := by
  induction hr with
  | nil => exact fun _ _ _ hm => nomatch hm
  | @cons s e u es t st _ ih =>
    obtain ⟨hhead, hp⟩ := List.pairwise_cons.mp hp
    have hnone : ∀ key cached, owner key = c → e = .looked key true cached →
        s.redis key = none := by
      rintro key cached hk rfl
      by_contra hr
      exact hu key hk hr cached List.mem_cons_self
    obtain ⟨hq, hlook⟩ := h.step st hnone
    have hrest := ih hq (fun key hk hr cached hm => ?_) hp
    · intro key asked cached hm hk
      rcases List.mem_cons.mp hm with he | hm
      · exact hlook key asked cached hk he.symm
      · exact hrest key asked cached hm hk
    · rcases st.redis h.disables hk with ⟨he, -⟩ | ⟨-, hsame⟩
      · exact hhead _ hm key cached hk he rfl
      · exact hu key hk (hsame ▸ hr) cached (List.mem_cons_of_mem _ hm)

theorem Cluster.Kept.run (hr : Run (tiers V owner drawnFor c) s es t) (hd : s.Disables c)
    (h : s.Kept key) (hk : owner key = c) : ∀ cached, .looked key true cached ∈ es →
      cached ≠ none := by
  induction hr with
  | nil => exact fun _ hm => nomatch hm
  | @cons s e u es t st _ ih =>
    intro cached hm
    rcases List.mem_cons.mp hm with rfl | hm
    · exact h.looked st
    · refine ih (st.disables hd) ?_ cached hm
      rcases st.redis hd hk with ⟨-, hkept⟩ | ⟨-, hsame⟩
      · exact hkept
      · unfold Cluster.Kept
        rw [hsame]
        exact h

theorem unserved (hr : Run (tiers V owner drawnFor c) s es t) (hd : s.Disables c)
    (hn : ∀ key asked cached, .looked key asked cached ∈ es → owner key = c → cached = none) :
    es.Pairwise (TierEvent.Unserved owner c) := by
  induction hr with
  | nil => exact .nil
  | @cons s e u es t st hr ih =>
    refine List.pairwise_cons.mpr ⟨?_, ih (st.disables hd) fun key asked cached hm =>
      hn key asked cached (List.mem_cons_of_mem _ hm)⟩
    rintro _ hm key cached hk rfl rfl
    rcases st.redis hd hk with ⟨-, hkept⟩ | ⟨hne, -⟩
    · exact hkept.run hr (st.disables hd) hk cached hm
        (hn key true cached (List.mem_cons_of_mem _ hm) hk)
    · exact hne rfl

/-- No lookup of the capability that is not to be cached returns a result, exactly if none of them
asks Redis for a key that a registration was stored under before. -/
theorem disabled_iff (hs : (tiers V owner drawnFor c).init s)
    (hr : Run (tiers V owner drawnFor c) s es t) :
    (∀ key asked cached, .looked key asked cached ∈ es → owner key = c → cached = none) ↔
      es.Pairwise (TierEvent.Unserved owner c) := by
  obtain ⟨hg, hnone, hrow⟩ := hs
  have hd : s.Disables c := by
    intro g hm
    rw [hg] at hm
    cases hm
  refine ⟨unserved hr hd, looked_none hr ⟨fun {g} hm => ?_, hd, fun {_ _} => hrow _ _⟩ ?_⟩
  · rw [hg] at hm
    cases hm
  · exact fun key hk hr => absurd (hnone key hk) hr

section Session

def sessionGraph : ComputationGraph Unit := .empty 1 30 3 fun _ => some 0

def sessionTiers : System (Cluster Unit) (TierEvent Unit) :=
  tiers Unit (fun _ => "s") (fun _ => "s:h") "s"

def sessionStart : Cluster Unit := ⟨0, [], fun _ => none, []⟩

def sessionStored : ComputationGraph Unit :=
  sessionGraph.registerComputation 0 "n" "s" "h" StateDict.empty none true

theorem session_init : sessionTiers.init sessionStart := ⟨rfl, fun _ _ => rfl, nofun⟩

/-- What is registered in the local cache only is not found. -/
theorem disabled_iff_local : ∃ t,
    Run sessionTiers sessionStart [.silent, .silent, .looked "s:h" true none] t ∧
      List.Pairwise (TierEvent.Unserved (fun _ => "s") "s")
        ([.silent, .silent, .looked "s:h" true none] : List (TierEvent Unit)) := by
  let s1 : Cluster Unit := ⟨0, [sessionGraph], fun _ => none, []⟩
  let s2 : Cluster Unit := ⟨0, [sessionStored], fun _ => none, []⟩
  have hmiss : sessionStored.getCachedResultByKey s2.now "s" "s:h" none = (none, _) :=
    Prod.ext ((sessionGraph.getCachedResultByKey_registered 0 "n" "s" "h" StateDict.empty none true
      (by decide)).2 (by decide)) rfl
  have h1 : sessionTiers.step sessionStart .silent s1 := .start (s := sessionStart) (by decide)
  have h2 : sessionTiers.step s1 .silent s2 :=
    .register (s := s1) (i := 0) (g := sessionGraph) false .empty rfl rfl rfl rfl
      (fun _ => rfl) rfl
  have h3 : sessionTiers.step s2 (.looked "s:h" true none) _ :=
    .lookup (s := s2) (i := 0) (g := sessionStored) rfl rfl hmiss
  refine ⟨_, .cons h1 (.cons h2 (.single h3)),
    (disabled_iff session_init (.cons h1 (.cons h2 (.single h3)))).mp
      fun key asked cached hm _ => ?_⟩
  have hlast : key = "s:h" ∧ asked = true ∧ cached = none := by simpa using hm
  exact hlast.2.2

/-- A row without an expiry is found by every other worker. -/
theorem disabled_served : sessionTiers.init sessionStart ∧ ∃ t cached, Run sessionTiers sessionStart
    [.silent, .silent, .stored "s:h", .looked "s:h" true (some cached)] t := by
  let row : RedisRow Unit := storeRedis 0 "n" StateDict.empty none true 0
  let s1 : Cluster Unit := ⟨0, [sessionGraph], fun _ => none, []⟩
  let s2 : Cluster Unit := ⟨0, [sessionGraph, sessionGraph], fun _ => none, []⟩
  let s3 : Cluster Unit := ⟨0, [sessionStored, sessionGraph],
    Function.update (fun _ => none) "s:h" (some row), []⟩
  have h1 : sessionTiers.step sessionStart .silent s1 := .start (s := sessionStart) (by decide)
  have h2 : sessionTiers.step s1 .silent s2 := .start (s := s1) (by decide)
  have h3 : sessionTiers.step s2 (.stored "s:h") s3 :=
    .register (s := s2) (i := 0) (g := sessionGraph) true .empty rfl rfl rfl rfl (fun _ => rfl) rfl
  have hhit : sessionGraph.getCachedResultByKey s3.now "s" "s:h" (s3.answer "s:h") =
      (some ⟨"n", StateDict.empty, none⟩, _) := rfl
  have h4 : sessionTiers.step s3 (.looked "s:h" true (some ⟨"n", StateDict.empty, none⟩)) _ :=
    .lookup (s := s3) (i := 1) (g := sessionGraph) rfl rfl hhit
  exact ⟨session_init, _, _, .cons h1 (.cons h2 (.cons h3 (.single h4)))⟩

end Session

end PrismPipe.Engine
