import PrismPipe.Engine.Lineage

/-! Ancestors and descendants: the parents that organisms have and the index of children agree as
long as no organism is registered again or gets another parent. -/

namespace PrismPipe.Engine.OrganismRegistry

open Relation Transition Forest

variable {O : Type} {org : Organisms O}

def Acyclic (s : OrganismRegistry O) : Prop := WellFounded (Follows s.next)

structure Dual (org : Organisms O) (s : OrganismRegistry O) : Prop where
  descendants : ∀ x y, (s.organisms x).isSome → (s.organisms y).isSome →
    ∃ descendants lineage, s.GetDescendants [x] descendants ∧ s.GetLineage (some y) lineage ∧
      ((descendants.map org.id).count y = 1 ↔ x ∈ (lineage.map org.id).tail)
  intent : ∀ intent, (s.findByIntent intent).Nodup

def KeepsIndex (org : Organisms O) (s : OrganismRegistry O) : RegistryCall O → Prop
  | .register organism => s.organisms (org.id organism) = none ∧
      (org.id organism = "" → link (s.parent organism) = none)
  | .inheritFrom organism parent => s.organisms (org.id organism) = some organism →
      link (some (org.id parent)) = link (s.parent organism)

structure InStep (org : Organisms O) (s : OrganismRegistry O) : Prop extends s.Indexed org where
  mem : ∀ i p, i ∈ s.byLineage p ↔ s.next i = some p
  nameless : s.next "" = none
  kids : ∀ p, (s.byLineage p).Nodup
  kinds : ∀ intent, (s.byIntent intent).Nodup
  wf : s.Acyclic → WellFounded (Child s.byLineage)

theorem InStep.empty (parent : O → Option String) : InStep org (.empty parent) where
  toIndexed := .empty parent
  mem := by simp [OrganismRegistry.empty, next]
  nameless := rfl
  kids _ := List.nodup_nil
  kinds _ := List.nodup_nil
  wf _ := (ordered_empty parent).lineage

theorem next_eq_none {s : OrganismRegistry O} (h : s.organisms i = none) : s.next i = none := by
  rw [next, h, Option.bind_none]

theorem nodup_append {index : String → List String} (h : ∀ p, (index p).Nodup)
    (hi : i ∉ index p) (q : String) : (append index p i q).Nodup := by
  unfold append
  by_cases hq : q = p
  · subst hq
    rw [Function.update_self]
    refine List.nodup_append.mpr ⟨h q, List.nodup_singleton i, fun a ha b hb => ?_⟩
    rintro rfl
    exact hi (List.mem_singleton.mp hb ▸ ha)
  · rw [Function.update_of_ne hq]
    exact h q

theorem InStep.reaches {s : OrganismRegistry O} (h : s.InStep org) :
    Reaches (Child s.byLineage) x y ↔ Reaches (Follows s.next) y x := by
  have hrel : (fun x y => Child s.byLineage y x) =
      Function.swap fun x y => Follows s.next y x := by
    funext x y
    exact propext (h.mem y x)
  rw [Reaches, hrel, reflTransGen_swap, Reaches]

theorem InStep.below {s : OrganismRegistry O} (h : s.InStep org) :
    Below s.byLineage y x ↔ ∃ p, s.next y = some p ∧ Reaches (Follows s.next) p x := by
  have hrel : Child s.byLineage = fun y x => Follows s.next x y := by
    funext y x
    exact propext (h.mem y x)
  rw [Below, hrel, TransGen.head'_iff]
  rfl

theorem InStep.forest {s : OrganismRegistry O} (h : s.InStep org) (ha : s.Acyclic) :
    IsForest s.byLineage where
  wf := h.wf ha
  unique hp hq := Option.some.inj (((h.mem _ _).mp hp).symm.trans ((h.mem _ _).mp hq))
  nodup := h.kids

theorem follows_update {s : OrganismRegistry O} {parent : Option String}
    (hfresh : s.next i = none) (h : Follows s.next y x) :
    Follows (Function.update s.next i parent) y x := by
  have hx : x ≠ i := by
    rintro rfl
    cases hfresh.symm.trans h
  exact (Function.update_of_ne hx _ _).trans h

theorem InStep.mem_register {s : OrganismRegistry O} (h : s.InStep org) {organism : O}
    (hfresh : s.next (org.id organism) = none) :
    i ∈ (s.register org organism).byLineage p ↔ (s.register org organism).next i = some p := by
  rw [mem_register_byLineage, next_register, h.mem]
  by_cases hi : i = org.id organism
  · subst hi
    rw [Function.update_self, hfresh]
    simp
  · rw [Function.update_of_ne hi]
    simp [hi]

theorem InStep.wf_register {s : OrganismRegistry O} (h : s.InStep org) {organism : O}
    (hfresh : s.next (org.id organism) = none) (ha : (s.register org organism).Acyclic) :
    WellFounded (Child (s.register org organism).byLineage) := by
  rw [Acyclic, next_register] at ha
  have hbefore : s.Acyclic := Subrelation.wf (follows_update hfresh) ha
  refine (register_lineage_iff (h.wf hbefore) organism).mpr fun p hp hr => ?_
  exact (wellFounded_update_iff hbefore _).mp ha p hp (h.reaches.mp hr)

theorem InStep.register {s : OrganismRegistry O} (h : s.InStep org)
    (hk : KeepsIndex org s (.register organism)) : (s.register org organism).InStep org := by
  obtain ⟨hnew, hname⟩ := hk
  have hfresh := next_eq_none hnew
  have hnot {ids : List String} (hids : ∀ i ∈ ids, (s.organisms i).isSome) :
      org.id organism ∉ ids := by
    intro hi
    have hsome := hids _ hi
    rw [hnew] at hsome
    cases hsome
  refine ⟨h.toIndexed.register organism, fun i p => h.mem_register hfresh, ?_, fun p => ?_, ?_,
    h.wf_register hfresh⟩
  · rw [next_register]
    by_cases hi : org.id organism = ""
    · rw [hi, Function.update_self]
      exact hname hi
    · rw [Function.update_of_ne (Ne.symm hi)]
      exact h.nameless
  · cases hq : link (s.parent organism) with
    | none =>
      rw [register_byLineage_none hq]
      exact h.kids p
    | some q =>
      rw [register_byLineage_some hq]
      exact nodup_append h.kids (hnot fun i => h.lineage i q) p
  · exact nodup_append h.kinds (hnot fun i => h.intent i _)

theorem GetLineage.mem {s : OrganismRegistry O} (hs : s.Indexed org)
    (h : s.GetLineage currentId lineage) (x : String) :
    x ∈ lineage.map org.id ↔
      (s.organisms x).isSome ∧ ∃ i, link currentId = some i ∧ Reaches (Follows s.next) i x := by
  induction h with
  | falsy hl => simp [hl]
  | @unknown _ i hl ho =>
    refine iff_of_false List.not_mem_nil ?_
    rintro ⟨hx, j, hj, hr⟩
    obtain rfl := Option.some.inj (hl.symm.trans hj)
    rcases ReflTransGen.cases_head hr with rfl | ⟨y, hy, -⟩
    · rw [ho] at hx
      cases hx
    · cases (next_eq_none ho).symm.trans hy
  | @known _ i organism _ hl ho _ ih =>
    have hnext : s.next i = link (s.parent organism) := by rw [next, ho, Option.bind_some]
    have hhead : Reaches (Follows s.next) i x ↔
        i = x ∨ ∃ j, link (s.parent organism) = some j ∧ Reaches (Follows s.next) j x := by
      rw [← hnext]
      exact ReflTransGen.cases_head_iff
    rw [List.map_cons, List.mem_cons, ih, hs.id i organism ho]
    simp only [hl, Option.some.injEq, exists_eq_left', hhead]
    constructor
    · rintro (rfl | ⟨hx, hr⟩)
      · exact ⟨by rw [ho]; rfl, .inl rfl⟩
      · exact ⟨hx, .inr hr⟩
    · rintro ⟨hx, rfl | hr⟩
      · exact .inl rfl
      · exact .inr ⟨hx, hr⟩

theorem GetLineage.mem_tail {s : OrganismRegistry O} (hs : s.Indexed org)
    (h : s.GetLineage (some y) lineage) (hy : y ≠ "") (hx : (s.organisms x).isSome) :
    x ∈ (lineage.map org.id).tail ↔
      ∃ p, s.next y = some p ∧ Reaches (Follows s.next) p x := by
  have hlink := link_some hy
  cases h with
  | falsy hn => cases hn.symm.trans hlink
  | unknown hl ho =>
    obtain rfl := Option.some.inj (hl.symm.trans hlink)
    simp [next_eq_none ho]
  | known hl ho hrest =>
    obtain rfl := Option.some.inj (hl.symm.trans hlink)
    rw [List.map_cons, List.tail_cons, hrest.mem hs, next, ho, Option.bind_some]
    exact and_iff_right hx

theorem InStep.mem_tail {s : OrganismRegistry O} (h : s.InStep org)
    (hl : s.GetLineage (some y) lineage) (hx : (s.organisms x).isSome) :
    x ∈ (lineage.map org.id).tail ↔ Below s.byLineage y x := by
  rw [h.below]
  by_cases hy : y = ""
  · subst hy
    rw [h.nameless]
    cases hl with
    | falsy => simp
    | unknown hlink => cases hlink
    | known hlink => cases hlink
  · exact hl.mem_tail h.toIndexed hy hx

theorem InStep.dual {s : OrganismRegistry O} (h : s.InStep org) (ha : s.Acyclic) :
    s.Dual org where
  descendants x y hx _ := by
    obtain ⟨descendants, hd⟩ := (descendants_iff h.toIndexed).mpr (h.wf ha) x
    obtain ⟨lineage, hl⟩ := exists_getLineage ha (some y)
    refine ⟨descendants, lineage, hd, hl, ?_⟩
    have hwalk := hd.walk h.toIndexed
    have hnodup := hwalk.nodup (h.forest ha) (List.pairwise_singleton _ x)
    rw [h.mem_tail hl hx, hnodup.count]
    simp [hwalk.mem]
  intent t := by
    refine List.Nodup.of_map org.id ?_
    rw [findByIntent, map_filterMap h.toIndexed fun i hi => h.toIndexed.intent i t hi]
    exact h.kinds t

section Calls

variable [DecidableEq O]

theorem InStep.inheritFrom {s : OrganismRegistry O} (h : s.InStep org) {organism parent : O}
    (hk : KeepsIndex org s (.inheritFrom organism parent)) :
    (s.inheritFrom org organism parent).InStep org := by
  have hnext : (s.inheritFrom org organism parent).next = s.next := by
    rw [next_inheritFrom h.toIndexed]
    split
    · rename_i hreg
      refine Function.update_eq_self_iff.mpr ?_
      rw [next, hreg, Option.bind_some, hk hreg]
    · rfl
  exact ⟨⟨h.id, h.lineage, h.intent⟩, fun i p => (h.mem i p).trans (by rw [hnext]),
    hnext ▸ h.nameless, h.kids, h.kinds, fun ha => h.wf (by rwa [Acyclic, hnext] at ha)⟩

theorem InStep.apply {s : OrganismRegistry O} (h : s.InStep org) {call : RegistryCall O}
    (hk : KeepsIndex org s call) : (s.apply org call).InStep org := by
  cases call with
  | register => exact h.register hk
  | inheritFrom => exact h.inheritFrom hk

theorem dual_of_keepsIndex {s t : OrganismRegistry O} (hs : (registryCalls org).init s)
    (hr : Run (registryCalls org) s calls t)
    (hk : Keeping (registryCalls org) (KeepsIndex org) s calls) (ha : t.Acyclic) : t.Dual org := by
  obtain ⟨parent, rfl⟩ := hs
  have hstep : t.InStep org := by
    refine hk.run hr (.empty parent) ?_
    rintro s call _ h rfl hcall
    exact h.apply hcall
  exact hstep.dual ha

end Calls

def adoption : List (RegistryCall Bool) :=
  [.register false, .register true, .inheritFrom true false]

def adopted (first : Bool → Option String) : OrganismRegistry Bool :=
  (((empty first).register family false).register family true).inheritFrom family true false

theorem run_adoption (first : Bool → Option String) :
    Run (registryCalls family) (.empty first) adoption (adopted first) :=
  .cons rfl (.cons rfl (.single rfl))

theorem next_adopted {first : Bool → Option String} (h : link (first false) = none) :
    (adopted first).next = Function.update (fun _ => none) "child" (some "parent") := by
  have hempty : (empty first).Indexed family := .empty first
  have hnone : Function.update (fun _ : String => (none : Option String)) "parent" none =
      fun _ => none := Function.update_eq_self "parent" _
  have hreg : (((empty first).register family false).register family true).organisms
      (family.id true) = some true := by rw [register_organisms, Function.update_self]
  rw [adopted, next_inheritFrom ((hempty.register false).register true), if_pos hreg,
    next_register, Function.update_idem, next_register]
  change Function.update (Function.update (fun _ => none) "parent" (link (first false))) _ _ = _
  rw [h, hnone]
  rfl

theorem acyclic_adopted {first : Bool → Option String} (h : link (first false) = none) :
    (adopted first).Acyclic := by
  rw [Acyclic, next_adopted h]
  refine (wellFounded_update_some (ordered_empty first).next).mpr fun hr => ?_
  rcases ReflTransGen.cases_head hr with hne | ⟨y, hy, -⟩
  · exact absurd hne (by decide)
  · cases hy

/-- Registered without a parent, the child is not in the index under the one it inherits from. -/
theorem not_dual_adopted :
    Run (registryCalls family) (.empty fun _ => none) adoption (adopted fun _ => none) ∧
      (adopted fun _ => none).Acyclic ∧ ¬ (adopted fun _ => none).Dual family := by
  refine ⟨run_adoption _, acyclic_adopted rfl, fun h => ?_⟩
  have hindexed : (adopted fun _ => none).Indexed family :=
    (((Indexed.empty _).register false).register true).apply (.inheritFrom true false)
  obtain ⟨descendants, lineage, hd, hl, hiff⟩ := h.descendants "parent" "child" rfl rfl
  have hancestor : "parent" ∈ (lineage.map family.id).tail := by
    refine (hl.mem_tail hindexed (by decide) rfl).mpr ⟨"parent", ?_, .refl⟩
    rw [next_adopted rfl, Function.update_self]
  have hmem : "child" ∈ descendants.map family.id :=
    List.count_pos_iff.mp (by rw [hiff.mpr hancestor]; decide)
  obtain ⟨x, -, hbelow⟩ := (hd.walk hindexed).mem.mp hmem
  obtain ⟨z, hz, -⟩ := TransGen.head'_iff.mp hbelow
  cases hz

theorem dual_of_keepsIndex_adoption : (adopted familyParent).Dual family := by
  refine dual_of_keepsIndex ⟨familyParent, rfl⟩ (run_adoption familyParent) ?_
    (acyclic_adopted rfl)
  have hunique {s t u : OrganismRegistry Bool} {call} (h : (registryCalls family).step s call t)
      (k : (registryCalls family).step s call u) : t = u := h.trans k.symm
  refine .cons hunique rfl ⟨rfl, fun _ => rfl⟩ (.cons hunique rfl ⟨rfl, ?_⟩
    (.cons hunique rfl (fun _ => rfl) .nil))
  exact fun h => absurd h (by decide)

end PrismPipe.Engine.OrganismRegistry
