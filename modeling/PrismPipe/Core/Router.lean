import PrismPipe.Lib.Table
import PrismPipe.Lib.Transition

/-! `core/router.py`: registrations and aliases over one namespace, and what any sequence of calls
leaves resolvable. -/

namespace PrismPipe.Core

open Transition

structure CapabilityRegistration (N M : Type) where
  capability : String
  node : N
  priority : Int := 0
  enabled : Bool := true
  metadata : M

structure CapabilityRouter (N M : Type) where
  registrations : AList fun _ : String => CapabilityRegistration N M
  capabilityAliases : AList fun _ : String => String

inductive RouterError
  | notFound (capability : String)
  | unregistered (capability : String)

namespace CapabilityRouter

variable {N M : Type}

def empty : CapabilityRouter N M := ⟨∅, ∅⟩

def register (self : CapabilityRouter N M) (capability : String) (node : N) (priority : Int)
    (metadata : M) : CapabilityRouter N M :=
  { self with
    registrations := self.registrations.insert capability { capability, node, priority, metadata } }

def unregister (self : CapabilityRouter N M) (capability : String) :
    Bool × CapabilityRouter N M :=
  if capability ∈ self.registrations then
    (true, { self with registrations := self.registrations.erase capability })
  else if capability ∈ self.capabilityAliases then
    (true, { self with capabilityAliases := self.capabilityAliases.erase capability })
  else (false, self)

/-- `alias`. -/
def aliasTo (self : CapabilityRouter N M) (aliasName capability : String) :
    Except RouterError (CapabilityRouter N M) :=
  if capability ∈ self.registrations then
    .ok { self with capabilityAliases := self.capabilityAliases.insert aliasName capability }
  else .error (.unregistered capability)

def resolveCapability (self : CapabilityRouter N M) (capability : String) : String :=
  (self.capabilityAliases.lookup capability).getD capability

def resolveRegistration (self : CapabilityRouter N M) (capability : String) :
    Option (CapabilityRegistration N M) :=
  self.registrations.lookup (self.resolveCapability capability)

def resolve (self : CapabilityRouter N M) (capability : String) : Except RouterError N :=
  match self.resolveRegistration capability with
  | some registration => .ok registration.node
  | none => .error (.notFound capability)

def listCapabilities (self : CapabilityRouter N M) : List String := self.registrations.keys

end CapabilityRouter

/-- A call, with what `unregister` returned or that `alias` raised. -/
inductive RouterCall (N M : Type)
  | register (capability : String) (node : N) (priority : Int) (metadata : M)
  | aliased (aliasName capability : String)
  | raised (aliasName capability : String)
  | unregister (capability : String) (returned : Bool)

namespace RouterCall

variable {N M : Type}

inductive Step : CapabilityRouter N M → RouterCall N M → CapabilityRouter N M → Prop
  | register : Step s (.register capability node priority metadata)
      (s.register capability node priority metadata)
  | aliased : s.aliasTo aliasName capability = .ok t → Step s (.aliased aliasName capability) t
  | raised : s.aliasTo aliasName capability = .error e → Step s (.raised aliasName capability) s
  | unregister : s.unregister capability = (returned, t) →
      Step s (.unregister capability returned) t

def lastRegistered (capability : String) : List (RouterCall N M) → Option N
  | [] => none
  | .register c node _ _ :: rest =>
    (lastRegistered capability rest).or (if c = capability then some node else none)
  | _ :: rest => lastRegistered capability rest

def lastAliased (aliasName : String) : List (RouterCall N M) → Option String
  | [] => none
  | .aliased name capability :: rest =>
    (lastAliased aliasName rest).or (if name = aliasName then some capability else none)
  | _ :: rest => lastAliased aliasName rest

def Provides (capability : String) : RouterCall N M → Prop
  | register c _ _ _ => c = capability
  | aliased aliasName _ => aliasName = capability
  | _ => False

end RouterCall

def routerCalls (N M : Type) : System (CapabilityRouter N M) (RouterCall N M) where
  init s := s = .empty
  step := RouterCall.Step

theorem RouterCall.Step.unique {N M : Type} {s t u : CapabilityRouter N M} {call : RouterCall N M}
    (h : Step s call t) (k : Step s call u) : t = u := by
  cases h with
  | register | raised =>
    cases k
    rfl
  | aliased h =>
    cases k with
    | aliased k => exact Except.ok.inj (h.symm.trans k)
  | unregister h =>
    cases k with
    | unregister k => exact (Prod.mk.inj (h.symm.trans k)).2

namespace CapabilityRouter

open RouterCall

variable {N M : Type}

structure Consistent (calls : List (RouterCall N M)) (s : CapabilityRouter N M) : Prop where
  listed : ∀ c ∈ s.listCapabilities, ∃ node, s.resolve c = .ok node ∧
    (lastRegistered c calls = some node ∨
      ∃ d, lastAliased c calls = some d ∧ lastRegistered d calls = some node)
  aliases : ∀ a ∈ s.capabilityAliases, ∃ node, s.resolve a = .ok node
  gone : ∀ c before after, calls = before ++ .unregister c true :: after →
    (∀ call ∈ after, ¬ call.Provides c) → s.resolve c = .error (.notFound c)

def Unaliased (s : CapabilityRouter N M) (capability : String) : Prop :=
  ∀ a d, s.capabilityAliases.lookup a = some d → a ≠ capability ∧ d ≠ capability

structure Recent (calls : List (RouterCall N M)) (s : CapabilityRouter N M) : Prop where
  registered : ∀ c r, s.registrations.lookup c = some r → lastRegistered c calls = some r.node
  aliased : ∀ a d, s.capabilityAliases.lookup a = some d → lastAliased a calls = some d

def Grounded (s : CapabilityRouter N M) : Prop :=
  ∀ a d, s.capabilityAliases.lookup a = some d → d ∈ s.registrations

theorem lastRegistered_append (c : String) (xs ys : List (RouterCall N M)) :
    lastRegistered c (xs ++ ys) = (lastRegistered c ys).or (lastRegistered c xs) := by
  induction xs with
  | nil => simp [lastRegistered]
  | cons call rest ih =>
    cases call <;> simp only [List.cons_append, lastRegistered, ih, Option.or_assoc]

theorem lastAliased_append (a : String) (xs ys : List (RouterCall N M)) :
    lastAliased a (xs ++ ys) = (lastAliased a ys).or (lastAliased a xs) := by
  induction xs with
  | nil => simp [lastAliased]
  | cons call rest ih =>
    cases call <;> simp only [List.cons_append, lastAliased, ih, Option.or_assoc]

theorem aliasTo_eq_ok {s t : CapabilityRouter N M} (h : s.aliasTo a c = .ok t) :
    c ∈ s.registrations ∧
      t = { s with capabilityAliases := s.capabilityAliases.insert a c } := by
  unfold aliasTo at h
  split at h
  next hc =>
    cases h
    exact ⟨hc, rfl⟩
  · cases h

theorem unregister_cases {s t : CapabilityRouter N M} (h : s.unregister c = (returned, t)) :
    (c ∈ s.registrations ∧ returned = true ∧
      t = { s with registrations := s.registrations.erase c }) ∨
    (c ∉ s.registrations ∧ returned = true ∧
      t = { s with capabilityAliases := s.capabilityAliases.erase c }) ∨
    (returned = false ∧ t = s) := by
  unfold unregister at h
  split at h
  next hc =>
    cases h
    exact .inl ⟨hc, rfl, rfl⟩
  next hc =>
    split at h
    · cases h
      exact .inr (.inl ⟨hc, rfl, rfl⟩)
    · cases h
      exact .inr (.inr ⟨rfl, rfl⟩)

theorem Recent.step {s t : CapabilityRouter N M} (h : s.Recent calls) (st : Step s call t) :
    t.Recent (calls ++ [call]) := by
  cases st with
  | register =>
    refine ⟨fun c r hr => ?_, fun a d ha => ?_⟩
    · rw [lastRegistered_append]
      rcases lookup_of_insert hr with ⟨rfl, rfl⟩ | ⟨hne, hr⟩
      · simp [lastRegistered]
      · simp [lastRegistered, Ne.symm hne, h.registered c r hr]
    · rw [lastAliased_append, h.aliased a d ha]
      rfl
  | aliased hs =>
    obtain ⟨-, rfl⟩ := aliasTo_eq_ok hs
    refine ⟨fun c r hr => ?_, fun a d ha => ?_⟩
    · rw [lastRegistered_append, h.registered c r hr]
      rfl
    · rw [lastAliased_append]
      rcases lookup_of_insert ha with ⟨rfl, rfl⟩ | ⟨hne, ha⟩
      · simp [lastAliased]
      · simp [lastAliased, Ne.symm hne, h.aliased a d ha]
  | raised =>
    refine ⟨fun c r hr => ?_, fun a d ha => ?_⟩
    · rw [lastRegistered_append, h.registered c r hr]
      rfl
    · rw [lastAliased_append, h.aliased a d ha]
      rfl
  | unregister hs =>
    refine ⟨fun c r hr => ?_, fun a d ha => ?_⟩
    · rw [lastRegistered_append]
      rcases unregister_cases hs with ⟨-, -, rfl⟩ | ⟨-, -, rfl⟩ | ⟨-, rfl⟩
      · exact h.registered c r (lookup_of_erase hr).2
      · exact h.registered c r hr
      · exact h.registered c r hr
    · rw [lastAliased_append]
      rcases unregister_cases hs with ⟨-, -, rfl⟩ | ⟨-, -, rfl⟩ | ⟨-, rfl⟩
      · exact h.aliased a d ha
      · exact h.aliased a d (lookup_of_erase ha).2
      · exact h.aliased a d ha

theorem Recent.run {s t : CapabilityRouter N M} (h : s.Recent before)
    (hr : Run (routerCalls N M) s calls t) : t.Recent (before ++ calls) := by
  induction hr generalizing before with
  | nil => rwa [List.append_nil]
  | @cons _ call _ calls _ st _ ih =>
    have := ih (h.step st)
    rwa [List.append_assoc, List.singleton_append] at this

theorem Recent.empty : (empty : CapabilityRouter N M).Recent [] where
  registered c r hr := by
    rw [CapabilityRouter.empty, AList.lookup_empty] at hr
    cases hr
  aliased a d ha := by
    rw [CapabilityRouter.empty, AList.lookup_empty] at ha
    cases ha

theorem Grounded.empty : (empty : CapabilityRouter N M).Grounded := by
  intro a d ha
  rw [CapabilityRouter.empty, AList.lookup_empty] at ha
  cases ha

/-- An `unregister` of what is registered finds no alias of it. -/
def Clean (s : CapabilityRouter N M) : RouterCall N M → Prop
  | .unregister c _ => c ∈ s.registrations → s.Unaliased c
  | _ => True

theorem Grounded.step {s t : CapabilityRouter N M} (h : s.Grounded) (hc : s.Clean call)
    (st : Step s call t) : t.Grounded := by
  intro a d ha
  cases st with
  | register => exact (AList.mem_insert _).mpr (.inr (h a d ha))
  | aliased hs =>
    obtain ⟨hreg, rfl⟩ := aliasTo_eq_ok hs
    rcases lookup_of_insert ha with ⟨-, rfl⟩ | ⟨-, ha⟩
    · exact hreg
    · exact h a d ha
  | raised => exact h a d ha
  | unregister hs =>
    rcases unregister_cases hs with ⟨hreg, -, rfl⟩ | ⟨-, -, rfl⟩ | ⟨-, rfl⟩
    · exact AList.mem_erase.mpr ⟨(hc hreg a d ha).2, h a d ha⟩
    · exact h a d (lookup_of_erase ha).2
    · exact h a d ha

theorem resolve_of_mem {s : CapabilityRouter N M} (h : s.resolveCapability c ∈ s.registrations) :
    ∃ r, s.registrations.lookup (s.resolveCapability c) = some r ∧ s.resolve c = .ok r.node := by
  obtain ⟨r, hr⟩ := Option.isSome_iff_exists.mp (AList.lookup_isSome.mpr h)
  refine ⟨r, hr, ?_⟩
  rw [resolve, resolveRegistration, hr]

theorem resolve_of_notMem {s : CapabilityRouter N M}
    (h : s.resolveCapability c ∉ s.registrations) : s.resolve c = .error (.notFound c) := by
  rw [resolve, resolveRegistration, AList.lookup_eq_none.mpr h]

theorem mem_of_resolve {s : CapabilityRouter N M} (h : s.resolve c = .ok node) :
    s.resolveCapability c ∈ s.registrations := by
  by_contra hc
  rw [resolve_of_notMem hc] at h
  cases h

def Unknown (s : CapabilityRouter N M) (c : String) : Prop :=
  c ∉ s.registrations ∧ c ∉ s.capabilityAliases

theorem Unknown.resolve {s : CapabilityRouter N M} (h : s.Unknown c) :
    s.resolve c = .error (.notFound c) := by
  refine resolve_of_notMem ?_
  rw [resolveCapability, AList.lookup_eq_none.mpr h.2]
  exact h.1

theorem Unknown.step {s t : CapabilityRouter N M} (h : s.Unknown c) (hp : ¬ call.Provides c)
    (st : Step s call t) : t.Unknown c := by
  cases st with
  | register => exact ⟨fun hc => ((AList.mem_insert _).mp hc).elim (fun he => hp he.symm) h.1, h.2⟩
  | aliased hs =>
    obtain ⟨-, rfl⟩ := aliasTo_eq_ok hs
    exact ⟨h.1, fun hc => ((AList.mem_insert _).mp hc).elim (fun he => hp he.symm) h.2⟩
  | raised => exact h
  | unregister hs =>
    rcases unregister_cases hs with ⟨-, -, rfl⟩ | ⟨-, -, rfl⟩ | ⟨-, rfl⟩
    · exact ⟨fun hc => h.1 (AList.mem_erase.mp hc).2, h.2⟩
    · exact ⟨h.1, fun hc => h.2 (AList.mem_erase.mp hc).2⟩
    · exact h

theorem Unknown.run {s t : CapabilityRouter N M} (hr : Run (routerCalls N M) s calls t)
    (h : s.Unknown c) (hp : ∀ call ∈ calls, ¬ call.Provides c) : t.Unknown c := by
  induction hr with
  | nil => exact h
  | cons st _ ih =>
    exact ih (h.step (hp _ List.mem_cons_self) st) fun call hm => hp call (List.mem_cons_of_mem _ hm)

theorem unknown_of_unregister {s t : CapabilityRouter N M} (hc : s.Clean (.unregister c true))
    (h : s.unregister c = (true, t)) : t.Unknown c := by
  rcases unregister_cases h with ⟨hreg, -, rfl⟩ | ⟨hreg, -, rfl⟩ | ⟨hf, -⟩
  · refine ⟨fun hm => (AList.mem_erase.mp hm).1 rfl, fun hm => ?_⟩
    obtain ⟨d, hd⟩ := Option.isSome_iff_exists.mp (AList.lookup_isSome.mpr hm)
    exact (hc hreg c d hd).1 rfl
  · exact ⟨hreg, fun hm => (AList.mem_erase.mp hm).1 rfl⟩
  · cases hf

theorem consistent_of_clean {s : CapabilityRouter N M} (hr : Run (routerCalls N M) .empty calls s)
    (hc : Keeping (routerCalls N M) Clean .empty calls) : s.Consistent calls := by
  have hrec : s.Recent ([] ++ calls) := .run .empty hr
  have hground : s.Grounded := hc.run hr .empty fun h st hclean => h.step hclean st
  refine ⟨fun c hm => ?_, fun a hm => ?_, ?_⟩
  · cases ha : s.capabilityAliases.lookup c with
    | none =>
      have he : s.resolveCapability c = c := by rw [resolveCapability, ha, Option.getD_none]
      obtain ⟨r, hl, hs⟩ := resolve_of_mem (he.symm ▸ AList.mem_keys.mpr hm)
      rw [he] at hl
      exact ⟨r.node, hs, .inl (hrec.registered c r hl)⟩
    | some d =>
      have he : s.resolveCapability c = d := by rw [resolveCapability, ha, Option.getD_some]
      obtain ⟨r, hl, hs⟩ := resolve_of_mem (he.symm ▸ hground c d ha)
      rw [he] at hl
      exact ⟨r.node, hs, .inr ⟨d, hrec.aliased c d ha, hrec.registered d r hl⟩⟩
  · obtain ⟨d, ha⟩ := Option.isSome_iff_exists.mp (AList.lookup_isSome.mpr hm)
    have he : s.resolveCapability a = d := by rw [resolveCapability, ha, Option.getD_some]
    obtain ⟨r, -, hs⟩ := resolve_of_mem (he.symm ▸ hground a d ha)
    exact ⟨r.node, hs⟩
  · rintro c before after rfl hp
    obtain ⟨u, v, hu, st, hv⟩ := hr.split
    cases st with
    | unregister hs =>
      exact ((unknown_of_unregister (hc before _ after u rfl hu) hs).run hv hp).resolve

theorem clean_of_consistent {s t : CapabilityRouter N M} (st : Step s call t)
    (h : t.Consistent (calls ++ [call])) : s.Clean call := by
  cases st with
  | register | aliased | raised => trivial
  | @unregister returned _ _ c hs =>
    intro hreg a d ha
    rcases unregister_cases hs with ⟨-, rfl, rfl⟩ | ⟨hn, -⟩ | ⟨rfl, -⟩
    · have hmem : a ∈ s.capabilityAliases := AList.lookup_isSome.mp (by rw [ha]; rfl)
      obtain ⟨node, hok⟩ := h.aliases a hmem
      constructor
      · rintro rfl
        rw [h.gone a calls [] rfl nofun] at hok
        cases hok
      · rintro rfl
        have hd := mem_of_resolve hok
        rw [resolveCapability, ha, Option.getD_some] at hd
        exact (AList.mem_erase.mp hd).1 rfl
    · exact absurd hreg hn
    · rw [unregister, if_pos hreg] at hs
      cases hs

/-- The router is consistent after each call of a sequence exactly if no `unregister` of it takes
away a registration that an alias leads to or has the name of. -/
theorem consistent_iff {s : CapabilityRouter N M} (hr : Run (routerCalls N M) .empty calls s) :
    (∀ before after t, calls = before ++ after → Run (routerCalls N M) .empty before t →
      t.Consistent before) ↔ Keeping (routerCalls N M) Clean .empty calls := by
  constructor
  · rintro h before call after u rfl hu
    obtain ⟨v, w, hv, st, -⟩ := hr.split
    have hw := h (before ++ [call]) after w (by simp) (hv.snoc st)
    cases hu.unique Step.unique hv
    exact clean_of_consistent st hw
  · rintro hc before after t rfl ht
    refine consistent_of_clean ht fun b call a u he hu => ?_
    exact hc b call (a ++ after) u (by rw [he]; simp) hu

/-- `register("a", node)`, `alias("b", "a")`, `unregister("a")`. -/
def orphaned : List (RouterCall Unit Unit) :=
  [.register "a" () 0 (), .aliased "b" "a", .unregister "a" true]

def orphan : CapabilityRouter Unit Unit where
  registrations := ((∅ : AList _).insert "a" ⟨"a", (), 0, true, ()⟩).erase "a"
  capabilityAliases := (∅ : AList _).insert "b" "a"

theorem run_orphaned : Run (routerCalls Unit Unit) .empty orphaned orphan :=
  .cons .register (.cons (.aliased rfl) (.single (.unregister rfl)))

theorem orphan_dangles : ¬ orphan.Consistent orphaned := by
  intro h
  obtain ⟨node, hok⟩ := h.aliases "b" (by decide)
  cases hok

/-- The alias is still there and leads nowhere. -/
theorem orphan_not_consistent :
    Run (routerCalls Unit Unit) .empty orphaned orphan ∧ ¬ orphan.Consistent orphaned :=
  ⟨run_orphaned, orphan_dangles⟩

theorem consistent_iff_orphaned :
    ¬ Keeping (routerCalls Unit Unit) Clean .empty orphaned := fun h =>
  orphan_dangles ((consistent_iff run_orphaned).mpr h orphaned [] _ (List.append_nil _).symm
    run_orphaned)

end CapabilityRouter

end PrismPipe.Core
