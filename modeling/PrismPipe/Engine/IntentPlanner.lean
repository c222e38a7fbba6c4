import PrismPipe.Core.Redaction
import PrismPipe.Lib.Ranking

/-! `IntentPlanner`: the capabilities planned for an intent, by the keywords they were registered
under. -/

namespace PrismPipe.Planning

open Python Ranking Redaction

/-- `_keyword_index`, a `defaultdict(list)`. -/
structure IntentPlanner where
  keywordIndex : List (PyStr × List String)

/-- The arguments of a call of `register_capability`. -/
structure Registration where
  capability : String
  keywords : Option (List PyStr)

variable (str : StrLower)

namespace IntentPlanner

def init : IntentPlanner := ⟨[]⟩

def registerCapability (self : IntentPlanner) (r : Registration) : IntentPlanner :=
  match r.keywords with
  | some keywords => ⟨keywords.foldl
      (fun index kw => add (str.lower kw) r.capability index) self.keywordIndex⟩
  | none => self

def matchedCapabilities (self : IntentPlanner) (intent : PyStr) : List (String × Nat) :=
  self.keywordIndex.flatMap fun (kw, capabilities) =>
    if kw <:+: str.lower intent then capabilities.map fun cap => (cap, kw.length) else []

def plan (self : IntentPlanner) (intent : PyStr) : List String :=
  firsts ((ranked (·.2) (self.matchedCapabilities str intent)).map (·.1))

def planWithFallback (self : IntentPlanner) (intent : PyStr) (fallbackPipeline : List String) :
    List String :=
  let planned := self.plan str intent
  if planned = [] then fallbackPipeline else planned

end IntentPlanner

def planner (calls : List Registration) : IntentPlanner :=
  calls.foldl (IntentPlanner.registerCapability str) .init

def registered (calls : List Registration) : List (PyStr × String) :=
  calls.flatMap fun r => (r.keywords.getD []).map fun kw => (str.lower kw, r.capability)

theorem foldl_add (cap : String) (keywords : List PyStr) (pairs : List (PyStr × String)) :
    keywords.foldl (fun index kw => add (str.lower kw) cap index) (groups pairs) =
      groups (pairs ++ keywords.map fun kw => (str.lower kw, cap)) := by
  induction keywords generalizing pairs with
  | nil => simp
  | cons kw keywords ih => simp [add_groups, ih]

theorem registerCapability_groups (pairs : List (PyStr × String)) (r : Registration) :
    IntentPlanner.registerCapability str ⟨groups pairs⟩ r =
      ⟨groups (pairs ++ registered str [r])⟩ := by
  obtain ⟨cap, keywords⟩ := r
  cases keywords with
  | none => simp [IntentPlanner.registerCapability, registered]
  | some keywords => simp [IntentPlanner.registerCapability, registered, foldl_add]

theorem planner_eq (calls : List Registration) :
    planner str calls = ⟨groups (registered str calls)⟩ := by
  induction calls using List.reverseRecOn with
  | nil => rfl
  | append_singleton calls r ih =>
    unfold planner at ih ⊢
    rw [List.foldl_concat, ih, registerCapability_groups]
    simp [registered]

section Order

variable (pairs : List (PyStr × String)) (intent : PyStr)

/-- The `i`th pair names `cap` under a keyword that the intent has in it. -/
structure Hit (i : Nat) (kw : PyStr) (cap : String) : Prop where
  registered : pairs[i]? = some (kw, cap)
  within : kw <:+: intent

/-- The longer keyword comes first; of one length, the keyword that was known first; under one
keyword, the pair that was registered first. -/
def Before (i : Nat) (kw : PyStr) (j : Nat) (other : PyStr) : Prop :=
  other.length < kw.length ∨ kw.length = other.length ∧
    ((pairs.map (·.1)).idxOf kw < (pairs.map (·.1)).idxOf other ∨ kw = other ∧ i < j)

variable {pairs} in
theorem Before.asymm {i j : Nat} {kw other : PyStr} (h : Before pairs i kw j other)
    (h' : Before pairs j other i kw) : False := by
  rcases h with h | ⟨h, h | ⟨rfl, h⟩⟩ <;> rcases h' with h' | ⟨h', h' | ⟨h'', h'⟩⟩
  any_goals omega
  subst h''
  omega

/-- `a` has a hit before every hit of `b`. -/
def Precedes (a b : String) : Prop :=
  ∃ i kw, Hit pairs intent i kw a ∧
    ∀ j other, Hit pairs intent j other b → Before pairs i kw j other

variable {pairs intent} in
theorem Precedes.asymm {a b : String} (h : Precedes pairs intent a b)
    (h' : Precedes pairs intent b a) : False := by
  obtain ⟨i, kw, ha, hb⟩ := h
  obtain ⟨j, other, hb', ha'⟩ := h'
  exact (hb j other hb').asymm (ha' i kw ha)

structure Plans (l : List String) : Prop where
  nodup : l.Nodup
  mem : ∀ cap, cap ∈ l ↔ ∃ i kw, Hit pairs intent i kw cap
  ordered : l.Pairwise (Precedes pairs intent)

variable {pairs intent} in
theorem Plans.unique {l l' : List String} (h : Plans pairs intent l) (h' : Plans pairs intent l') :
    l = l' := by
  have hperm : l.Perm l' := (List.perm_ext_iff_of_nodup h.nodup h'.nodup).mpr fun cap =>
    (h.mem cap).trans (h'.mem cap).symm
  exact hperm.eq_of_pairwise (fun a b _ _ hab hba => (hab.asymm hba).elim) h.ordered h'.ordered

def hits : List ((PyStr × String) × Nat) :=
  (firsts (pairs.map (·.1))).flatMap fun kw =>
    if kw <:+: intent then pairs.zipIdx.filter (·.1.1 = kw) else []

theorem mem_hits {p : PyStr × String} {i : Nat} :
    (p, i) ∈ hits pairs intent ↔ Hit pairs intent i p.1 p.2 := by
  simp only [hits, List.mem_flatMap, mem_firsts]
  constructor
  · rintro ⟨kw, hkw, h⟩
    split at h
    · next hin =>
      obtain ⟨hmem, heq⟩ := List.mem_filter.mp h
      obtain rfl : p.1 = kw := by simpa using heq
      have hp := List.mem_zipIdx_iff_getElem?.mp hmem
      exact ⟨hp, hin⟩
    · cases h
  · rintro ⟨h, hin⟩
    refine ⟨p.1, List.mem_map_of_mem (List.mem_of_getElem? h), ?_⟩
    rw [if_pos hin]
    exact List.mem_filter.mpr ⟨List.mem_zipIdx_iff_getElem?.mpr h, by simp⟩

theorem pairwise_hits : (hits pairs intent).Pairwise fun x y =>
    (pairs.map (·.1)).idxOf x.1.1 < (pairs.map (·.1)).idxOf y.1.1 ∨
      x.1.1 = y.1.1 ∧ x.2 < y.2 := by
  have hkeyword : ∀ (kw : PyStr) x, x ∈ (if kw <:+: intent then
      pairs.zipIdx.filter (·.1.1 = kw) else []) → x.1.1 = kw := by
    intro kw x hx
    split at hx
    · simpa using (List.mem_filter.mp hx).2
    · cases hx
  apply List.pairwise_flatMap.mpr
  constructor
  · intro kw _
    have hpositions : pairs.zipIdx.Pairwise fun x y => x.2 < y.2 := by
      rw [← List.pairwise_map, List.zipIdx_map_snd]
      exact List.pairwise_lt_range'
    split
    · apply (hpositions.filter _).imp_of_mem
      intro x y hx hy h
      have hx : x.1.1 = kw := by simpa using (List.mem_filter.mp hx).2
      have hy : y.1.1 = kw := by simpa using (List.mem_filter.mp hy).2
      exact .inr ⟨hx.trans hy.symm, h⟩
    · exact .nil
  · apply (pairwise_firsts _).imp
    intro kw other h x hx y hy
    rw [hkeyword _ _ hx, hkeyword _ _ hy]
    exact .inl h

theorem matched_eq : IntentPlanner.matchedCapabilities str ⟨groups pairs⟩ intent =
    (hits pairs (str.lower intent)).map fun x => (x.1.2, x.1.1.length) := by
  simp only [IntentPlanner.matchedCapabilities, hits, groups, List.flatMap_map, List.map_flatMap]
  congr 1
  funext kw
  split
  · next hin =>
    have hpairs : pairs.filter (·.1 = kw) =
        (pairs.zipIdx.filter (·.1.1 = kw)).map (·.1) := by
      conv_lhs => rw [← List.zipIdx_map_fst 0 pairs]
      rw [List.filter_map]
      rfl
    rw [hpairs, List.map_map, List.map_map]
    apply List.map_congr_left
    intro x hx
    have hx : x.1.1 = kw := by simpa using (List.mem_filter.mp hx).2
    simp [hx]
  · rfl

theorem plans_plan :
    Plans pairs (str.lower intent) (IntentPlanner.plan str ⟨groups pairs⟩ intent) := by
  have hplan : IntentPlanner.plan str ⟨groups pairs⟩ intent =
      firsts ((ranked (fun x => x.1.1.length) (hits pairs (str.lower intent))).map (·.1.2)) := by
    rw [IntentPlanner.plan, matched_eq, ← map_ranked, List.map_map]
    rfl
  rw [hplan]
  constructor
  case nodup => exact nodup_firsts _
  case mem =>
    intro cap
    simp only [mem_firsts, List.mem_map, mem_ranked]
    constructor
    · rintro ⟨⟨p, i⟩, h, rfl⟩
      exact ⟨i, p.1, (mem_hits ..).mp h⟩
    · rintro ⟨i, kw, h⟩
      exact ⟨((kw, cap), i), (mem_hits ..).mpr h, rfl⟩
  case ordered =>
    have hranked := pairwise_ranked (fun x => x.1.1.length)
      (pairwise_hits pairs (str.lower intent))
    apply (pairwise_firsts_map (·.1.2) hranked).imp
    rintro a b ⟨⟨p, i⟩, h, rfl, hb⟩
    refine ⟨i, p.1, (mem_hits ..).mp (mem_ranked.mp h), fun j other hj => ?_⟩
    exact hb ((other, b), j) (mem_ranked.mpr ((mem_hits ..).mpr hj)) rfl

end Order

/-- After any registrations a plan is the capabilities registered under a keyword that the intent
has in it, each once, by their longest keyword, and the fallback is for an intent that has none. -/
theorem intent_plan_iff (calls : List Registration) (intent : PyStr) (l : List String) :
    ((planner str calls).plan str intent = l ↔
      Plans (registered str calls) (str.lower intent) l) ∧
    ∀ fallbackPipeline,
      (planner str calls).planWithFallback str intent fallbackPipeline = l ↔
        l ≠ [] ∧ Plans (registered str calls) (str.lower intent) l ∨
          (∀ p ∈ registered str calls, ¬ p.1 <:+: str.lower intent) ∧ l = fallbackPipeline := by
  rw [planner_eq]
  have hplans := plans_plan str (registered str calls) intent
  have hiff (l : List String) : IntentPlanner.plan str ⟨groups (registered str calls)⟩ intent = l ↔
      Plans (registered str calls) (str.lower intent) l :=
    ⟨fun h => h ▸ hplans, hplans.unique⟩
  have hnone : IntentPlanner.plan str ⟨groups (registered str calls)⟩ intent = [] ↔
      ∀ p ∈ registered str calls, ¬ p.1 <:+: str.lower intent := by
    constructor
    · intro h p hp hin
      obtain ⟨i, hi⟩ := List.mem_iff_getElem?.mp hp
      have hmem := (hplans.mem p.2).mpr ⟨i, p.1, hi, hin⟩
      rw [h] at hmem
      cases hmem
    · intro h
      apply List.eq_nil_iff_forall_not_mem.mpr
      intro cap hcap
      obtain ⟨i, kw, hi⟩ := (hplans.mem cap).mp hcap
      exact h _ (List.mem_of_getElem? hi.registered) hi.within
  refine ⟨hiff l, fun fallbackPipeline => ?_⟩
  simp only [IntentPlanner.planWithFallback, ← hiff, ← hnone]
  split
  · next h =>
    rw [h]
    constructor
    · rintro rfl
      exact .inr ⟨rfl, rfl⟩
    · rintro (⟨hne, rfl⟩ | ⟨-, rfl⟩)
      · exact absurd rfl hne
      · rfl
  · next h =>
    constructor
    · rintro rfl
      exact .inl ⟨h, rfl⟩
    · rintro (⟨-, h'⟩ | ⟨h', -⟩)
      · exact h'
      · exact absurd h' h

end PrismPipe.Planning
