import PrismPipe.Lib.Forest
import PrismPipe.Lib.Transition

/-! `OrganismRegistry`: organisms refer to their parents, and an index filled at registration lists
the children. When both can be walked to an end. -/

namespace PrismPipe.Engine

open Transition Forest

structure Organisms (O : Type) where
  id : O → String
  intent : O → String

/-- The registry, and the `_parent_organism_id` of each organism, registered or not. -/
structure OrganismRegistry (O : Type) where
  organisms : String → Option O
  byIntent : String → List String
  byLineage : String → List String
  parent : O → Option String

def link (parentId : Option String) : Option String := parentId.filter (· ≠ "")

inductive RegistryCall (O : Type)
  | register (organism : O)
  | inheritFrom (organism parent : O)

namespace OrganismRegistry

variable {O : Type} {org : Organisms O}

def empty (parent : O → Option String) : OrganismRegistry O :=
  ⟨fun _ => none, fun _ => [], fun _ => [], parent⟩

/-- `index[key].append(organism_id)`. -/
def append (index : String → List String) (key organismId : String) : String → List String :=
  Function.update index key (index key ++ [organismId])

def register (org : Organisms O) (self : OrganismRegistry O) (organism : O) :
    OrganismRegistry O :=
  { self with
    organisms := Function.update self.organisms (org.id organism) (some organism)
    byIntent := append self.byIntent (org.intent organism) (org.id organism)
    byLineage := match link (self.parent organism) with
      | some parentId => append self.byLineage parentId (org.id organism)
      | none => self.byLineage }

def inheritFrom [DecidableEq O] (org : Organisms O) (self : OrganismRegistry O) (organism parent : O) :
    OrganismRegistry O :=
  { self with parent := Function.update self.parent organism (some (org.id parent)) }

def findByIntent (self : OrganismRegistry O) (intent : String) : List O :=
  (self.byIntent intent).filterMap self.organisms

/-- `get_lineage`, from `current_id` on, where its loop ends. -/
inductive GetLineage (self : OrganismRegistry O) : Option String → List O → Prop
  | falsy : link currentId = none → GetLineage self currentId []
  | unknown : link currentId = some i → self.organisms i = none → GetLineage self currentId []
  | known : link currentId = some i → self.organisms i = some organism →
      GetLineage self (self.parent organism) lineage →
      GetLineage self currentId (organism :: lineage)

/-- `get_descendants`, from `queue` on, where its loop ends. -/
inductive GetDescendants (self : OrganismRegistry O) : List String → List O → Prop
  | nil : GetDescendants self [] []
  | pop : GetDescendants self
        (queue ++ (self.byLineage current).filter fun i => (self.organisms i).isSome) descendants →
      GetDescendants self (current :: queue)
        ((self.byLineage current).filterMap self.organisms ++ descendants)

def apply [DecidableEq O] (org : Organisms O) (self : OrganismRegistry O) :
    RegistryCall O → OrganismRegistry O
  | .register organism => self.register org organism
  | .inheritFrom organism parent => self.inheritFrom org organism parent

def registryCalls [DecidableEq O] (org : Organisms O) :
    System (OrganismRegistry O) (RegistryCall O) where
  init s := ∃ parent, s = .empty parent
  step s call t := t = s.apply org call

def next (s : OrganismRegistry O) (i : String) : Option String :=
  (s.organisms i).bind fun organism => link (s.parent organism)

structure Indexed (org : Organisms O) (s : OrganismRegistry O) : Prop where
  id : ∀ i organism, s.organisms i = some organism → org.id organism = i
  lineage : ∀ i p, i ∈ s.byLineage p → (s.organisms i).isSome
  intent : ∀ i t, i ∈ s.byIntent t → (s.organisms i).isSome

structure Terminates (s : OrganismRegistry O) : Prop where
  lineage : ∀ i, ∃ lineage, s.GetLineage (some i) lineage
  descendants : ∀ i, ∃ descendants, s.GetDescendants [i] descendants

def KeepsOrder (org : Organisms O) (s : OrganismRegistry O) : RegistryCall O → Prop
  | .register organism => ∀ p, link (s.parent organism) = some p →
      ¬ Reaches (Follows s.next) p (org.id organism) ∧
      ¬ Reaches (Child s.byLineage) (org.id organism) p
  | .inheritFrom organism parent => s.organisms (org.id organism) = some organism →
      ∀ p, link (some (org.id parent)) = some p →
        ¬ Reaches (Follows s.next) p (org.id organism)

theorem link_eq_some {p : Option String} (h : link p = some i) : p = some i ∧ i ≠ "" := by
  obtain ⟨hp, hi⟩ := Option.filter_eq_some_iff.mp h
  exact ⟨hp, of_decide_eq_true hi⟩

theorem link_some (h : i ≠ "") : link (some i) = some i :=
  Option.filter_eq_some_iff.mpr ⟨rfl, decide_eq_true h⟩

theorem mem_append {index : String → List String} :
    j ∈ append index p i q ↔ j ∈ index q ∨ q = p ∧ j = i := by
  unfold append
  by_cases h : q = p
  · subst h
    rw [Function.update_self, List.mem_append, List.mem_singleton, eq_self, true_and]
  · rw [Function.update_of_ne h]
    simp [h]

theorem Indexed.empty (parent : O → Option String) : Indexed org (.empty parent) :=
  ⟨nofun, nofun, nofun⟩

@[simp] theorem register_organisms (s : OrganismRegistry O) (organism : O) :
    (s.register org organism).organisms =
      Function.update s.organisms (org.id organism) (some organism) := rfl

@[simp] theorem register_parent (s : OrganismRegistry O) (organism : O) :
    (s.register org organism).parent = s.parent := rfl

@[simp] theorem inheritFrom_organisms [DecidableEq O] (s : OrganismRegistry O) (organism parent : O) :
    (s.inheritFrom org organism parent).organisms = s.organisms := rfl

@[simp] theorem inheritFrom_parent [DecidableEq O] (s : OrganismRegistry O) (organism parent : O) :
    (s.inheritFrom org organism parent).parent =
      Function.update s.parent organism (some (org.id parent)) := rfl

theorem register_byLineage_some {s : OrganismRegistry O} (h : link (s.parent organism) = some p) :
    (s.register org organism).byLineage = append s.byLineage p (org.id organism) := by
  simp only [register, h]

theorem register_byLineage_none {s : OrganismRegistry O} (h : link (s.parent organism) = none) :
    (s.register org organism).byLineage = s.byLineage := by
  simp only [register, h]

theorem isSome_update {f : String → Option O} (h : (f i).isSome) :
    (Function.update f j (some organism) i).isSome := by
  by_cases hi : i = j
  · subst hi
    rw [Function.update_self]
    rfl
  · rwa [Function.update_of_ne hi]

theorem mem_register_byLineage {s : OrganismRegistry O} :
    i ∈ (s.register org organism).byLineage p ↔
      i ∈ s.byLineage p ∨ link (s.parent organism) = some p ∧ i = org.id organism := by
  cases hq : link (s.parent organism) with
  | none =>
    rw [register_byLineage_none hq]
    simp
  | some q => rw [register_byLineage_some hq, mem_append, Option.some.injEq, eq_comm (a := q)]

theorem Indexed.register {s : OrganismRegistry O} (h : s.Indexed org) (organism : O) :
    (s.register org organism).Indexed org where
  id i found hfound := by
    by_cases hi : i = org.id organism
    · subst hi
      have hf : Function.update s.organisms _ (some organism) _ = some found := hfound
      rw [Function.update_self] at hf
      rw [Option.some.inj hf]
    · exact h.id i found ((Function.update_of_ne hi _ _).symm.trans hfound)
  lineage i p hi := by
    rcases mem_register_byLineage.mp hi with hi | ⟨-, rfl⟩
    · exact isSome_update (h.lineage i p hi)
    · exact (congrArg Option.isSome (Function.update_self _ _ s.organisms)).trans rfl
  intent i t hi := by
    rcases mem_append.mp hi with hi | ⟨-, rfl⟩
    · exact isSome_update (h.intent i t hi)
    · exact (congrArg Option.isSome (Function.update_self _ _ s.organisms)).trans rfl

theorem Indexed.apply [DecidableEq O] {s : OrganismRegistry O} (h : s.Indexed org)
    (call : RegistryCall O) :
    (s.apply org call).Indexed org := by
  cases call with
  | register organism => exact h.register organism
  | inheritFrom => exact ⟨h.id, h.lineage, h.intent⟩

theorem next_register (s : OrganismRegistry O) (organism : O) :
    (s.register org organism).next =
      Function.update s.next (org.id organism) (link (s.parent organism)) := by
  funext i
  by_cases hi : i = org.id organism
  · subst hi
    rw [Function.update_self, next, register_organisms, Function.update_self, Option.bind_some,
      register_parent]
  · rw [Function.update_of_ne hi, next, register_organisms, Function.update_of_ne hi, next,
      register_parent]

theorem next_inheritFrom [DecidableEq O] {s : OrganismRegistry O} (h : s.Indexed org)
    (organism parent : O) :
    (s.inheritFrom org organism parent).next =
      if s.organisms (org.id organism) = some organism then
        Function.update s.next (org.id organism) (link (some (org.id parent)))
      else s.next := by
  funext i
  have hother (hi : s.organisms i ≠ some organism) :
      (s.inheritFrom org organism parent).next i = s.next i := by
    refine Option.bind_congr fun found hfound => ?_
    rw [inheritFrom_parent, Function.update_of_ne]
    rintro rfl
    exact hi hfound
  split
  · rename_i hreg
    by_cases hi : i = org.id organism
    · subst hi
      rw [Function.update_self, next, inheritFrom_organisms, hreg, Option.bind_some,
        inheritFrom_parent, Function.update_self]
    · rw [Function.update_of_ne hi]
      exact hother fun hf => hi (h.id i organism hf).symm
  · rename_i hreg
    refine hother fun hf => hreg ?_
    rw [h.id i organism hf]
    exact hf

theorem GetLineage.acc {s : OrganismRegistry O} (h : s.GetLineage currentId lineage)
    (hi : link currentId = some i) : Acc (Follows s.next) i := by
  induction h generalizing i with
  | falsy hn => cases hn.symm.trans hi
  | unknown hl hn =>
    obtain rfl := Option.some.inj (hl.symm.trans hi)
    refine ⟨_, fun y hy => ?_⟩
    have hnext : (s.organisms _).bind _ = some y := hy
    rw [hn] at hnext
    cases hnext
  | known hl ho _ ih =>
    obtain rfl := Option.some.inj (hl.symm.trans hi)
    refine ⟨_, fun y hy => ih ?_⟩
    have hnext : (s.organisms _).bind _ = some y := hy
    rwa [ho] at hnext

theorem exists_getLineage {s : OrganismRegistry O} (h : WellFounded (Follows s.next))
    (currentId : Option String) : ∃ lineage, s.GetLineage currentId lineage := by
  cases hl : link currentId with
  | none => exact ⟨[], .falsy hl⟩
  | some i =>
    induction i using h.induction generalizing currentId with
    | _ i ih =>
      cases ho : s.organisms i with
      | none => exact ⟨[], .unknown hl ho⟩
      | some organism =>
        have hnext : s.next i = link (s.parent organism) := by rw [next, ho, Option.bind_some]
        cases hp : link (s.parent organism) with
        | none => exact ⟨_, .known hl ho (.falsy hp)⟩
        | some p =>
          obtain ⟨lineage, hlineage⟩ := ih p (hnext.trans hp) (s.parent organism) hp
          exact ⟨_, .known hl ho hlineage⟩

theorem lineage_iff (s : OrganismRegistry O) :
    (∀ i, ∃ lineage, s.GetLineage (some i) lineage) ↔ WellFounded (Follows s.next) := by
  constructor
  · intro h
    have hacc (i) (hi : i ≠ "") : Acc (Follows s.next) i := by
      obtain ⟨lineage, hlineage⟩ := h i
      exact hlineage.acc (link_some hi)
    -- The empty id has no lineage, and is no one's parent.
    refine ⟨fun i => ⟨i, fun y hy => hacc y ?_⟩⟩
    obtain ⟨organism, -, hlink⟩ := Option.bind_eq_some_iff.mp hy
    exact (link_eq_some hlink).2
  · exact fun h i => exists_getLineage h (some i)

theorem filter_byLineage {s : OrganismRegistry O} (h : s.Indexed org) (p : String) :
    (s.byLineage p).filter (fun i => (s.organisms i).isSome) = s.byLineage p :=
  List.filter_eq_self.mpr fun i hi => h.lineage i p hi

theorem map_filterMap {s : OrganismRegistry O} (h : s.Indexed org) {ids : List String}
    (hids : ∀ i ∈ ids, (s.organisms i).isSome) :
    (ids.filterMap s.organisms).map org.id = ids := by
  induction ids with
  | nil => rfl
  | cons i ids ih =>
    obtain ⟨organism, ho⟩ := Option.isSome_iff_exists.mp (hids i List.mem_cons_self)
    rw [List.filterMap_cons_some ho, List.map_cons, h.id i organism ho,
      ih fun j hj => hids j (List.mem_cons_of_mem _ hj)]

theorem GetDescendants.walk {s : OrganismRegistry O} (hs : s.Indexed org)
    (h : s.GetDescendants queue descendants) :
    Walk s.byLineage queue (descendants.map org.id) := by
  induction h with
  | nil => exact .nil
  | pop _ ih =>
    rw [List.map_append, map_filterMap hs fun i hi => hs.lineage i _ hi]
    rw [filter_byLineage hs] at ih
    exact .pop ih

theorem exists_getDescendants {s : OrganismRegistry O} (hs : s.Indexed org)
    (h : Walk s.byLineage queue found) : ∃ descendants, s.GetDescendants queue descendants := by
  induction h with
  | nil => exact ⟨[], .nil⟩
  | @pop queue x _ _ ih =>
    obtain ⟨descendants, hd⟩ := ih
    rw [← filter_byLineage hs x] at hd
    exact ⟨_, .pop hd⟩

theorem descendants_iff {s : OrganismRegistry O} (hs : s.Indexed org) :
    (∀ i, ∃ descendants, s.GetDescendants [i] descendants) ↔
      WellFounded (Child s.byLineage) := by
  constructor
  · intro h
    refine ⟨fun i => ?_⟩
    obtain ⟨descendants, hd⟩ := h i
    exact (hd.walk hs).acc i (List.mem_singleton_self i)
  · intro h i
    obtain ⟨found, hf⟩ := Walk.exists h [i]
    exact exists_getDescendants hs hf

structure Ordered (s : OrganismRegistry O) : Prop where
  next : WellFounded (Follows s.next)
  lineage : WellFounded (Child s.byLineage)

theorem terminates_iff {s : OrganismRegistry O} (hs : s.Indexed org) :
    s.Terminates ↔ s.Ordered :=
  ⟨fun h => ⟨(lineage_iff s).mp h.lineage, (descendants_iff hs).mp h.descendants⟩,
    fun h => ⟨(lineage_iff s).mpr h.next, (descendants_iff hs).mpr h.lineage⟩⟩

theorem child_append {index : String → List String} :
    Child (append index p i) = Joined (Child index) p i := by
  funext y x
  exact propext mem_append

theorem register_lineage_iff {s : OrganismRegistry O} (h : WellFounded (Child s.byLineage))
    (organism : O) : WellFounded (Child (s.register org organism).byLineage) ↔
      ∀ p, link (s.parent organism) = some p →
        ¬ Reaches (Child s.byLineage) (org.id organism) p := by
  cases hp : link (s.parent organism) with
  | none =>
    rw [register_byLineage_none hp]
    exact iff_of_true h nofun
  | some p =>
    rw [register_byLineage_some hp, child_append, wellFounded_joined_iff h]
    exact ⟨fun hn _ hq => Option.some.inj hq ▸ hn, fun hn => hn p rfl⟩

theorem register_ordered_iff {s : OrganismRegistry O} (h : s.Ordered) (organism : O) :
    (s.register org organism).Ordered ↔ KeepsOrder org s (.register organism) := by
  have hnext : WellFounded (Follows (s.register org organism).next) ↔
      ∀ p, link (s.parent organism) = some p →
        ¬ Reaches (Follows s.next) p (org.id organism) := by
    rw [next_register]
    exact wellFounded_update_iff h.next _
  have hlineage : WellFounded (Child (s.register org organism).byLineage) ↔ _ :=
    register_lineage_iff h.lineage organism
  constructor
  · exact fun ho p hp => ⟨hnext.mp ho.next p hp, hlineage.mp ho.lineage p hp⟩
  · intro hk
    exact ⟨hnext.mpr fun p hp => (hk p hp).1, hlineage.mpr fun p hp => (hk p hp).2⟩

theorem ordered_empty (parent : O → Option String) : (empty parent).Ordered where
  next := ⟨fun x => ⟨x, fun y hy => by cases hy⟩⟩
  lineage := ⟨fun x => ⟨x, fun y hy => by cases hy⟩⟩

section Calls

variable [DecidableEq O]

theorem inheritFrom_ordered_iff {s : OrganismRegistry O} (hi : s.Indexed org) (h : s.Ordered)
    (organism parent : O) :
    (s.inheritFrom org organism parent).Ordered ↔
      KeepsOrder org s (.inheritFrom organism parent) := by
  have hnext := next_inheritFrom hi organism parent
  by_cases hreg : s.organisms (org.id organism) = some organism
  · rw [if_pos hreg] at hnext
    have hwf : WellFounded (Follows (s.inheritFrom org organism parent).next) ↔
        ∀ p, link (some (org.id parent)) = some p →
          ¬ Reaches (Follows s.next) p (org.id organism) := by
      rw [hnext]
      exact wellFounded_update_iff h.next _
    exact ⟨fun ho _ => hwf.mp ho.next, fun hk => ⟨hwf.mpr (hk hreg), h.lineage⟩⟩
  · rw [if_neg hreg] at hnext
    exact iff_of_true ⟨hnext ▸ h.next, h.lineage⟩ fun hf => absurd hf hreg

theorem ordered_apply_iff {s : OrganismRegistry O} (hi : s.Indexed org) (h : s.Ordered)
    (call : RegistryCall O) : (s.apply org call).Ordered ↔ KeepsOrder org s call := by
  cases call with
  | register organism => exact register_ordered_iff h organism
  | inheritFrom organism parent => exact inheritFrom_ordered_iff hi h organism parent

/-- Both queries return in every state of a run exactly if no call of it makes an organism its own
ancestor, nor its own descendant in the index. -/
theorem terminates_run_iff {s t : OrganismRegistry O} (hs : (registryCalls org).init s)
    (hr : Run (registryCalls org) s calls t) :
    (∀ before after u, calls = before ++ after → Run (registryCalls org) s before u →
      u.Terminates) ↔ Keeping (registryCalls org) (KeepsOrder org) s calls := by
  obtain ⟨parent, rfl⟩ := hs
  refine hr.keeping_iff (G := fun s => s.Indexed org ∧ s.Ordered) ?_ ?_ ?_ ?_
    ⟨.empty parent, ordered_empty parent⟩
  · exact fun hs => (terminates_iff hs.1).mpr hs.2
  · rintro s call _ ⟨hi, ho⟩ rfl ht
    exact (ordered_apply_iff hi ho call).mp ((terminates_iff (hi.apply call)).mp ht)
  · rintro s call _ ⟨hi, ho⟩ rfl hk
    exact ⟨hi.apply call, (ordered_apply_iff hi ho call).mpr hk⟩
  · rintro s call _ _ rfl rfl
    rfl

end Calls

def family : Organisms Bool where
  id o := if o then "child" else "parent"
  intent _ := "custom"

def familyParent (o : Bool) : Option String := if o then some "parent" else none

def reversal : List (RegistryCall Bool) :=
  [.register false, .register true, .inheritFrom false true]

def reversed : OrganismRegistry Bool :=
  (((empty familyParent).register family false).register family true).inheritFrom family false true

theorem run_reversal : Run (registryCalls family) (.empty familyParent) reversal reversed :=
  .cons rfl (.cons rfl (.single rfl))

theorem reversed_cyclic : ¬ reversed.Terminates := by
  intro h
  have hwf := (lineage_iff reversed).mp h.lineage
  have hup : reversed.next "child" = some "parent" := by decide +kernel
  have hdown : reversed.next "parent" = some "child" := by decide +kernel
  exact not_cycle hwf hup (Reaches.head hdown .refl)

/-- The lineage of the child never ends. -/
theorem reversed_not_terminates :
    Run (registryCalls family) (.empty familyParent) reversal reversed ∧
      ¬ reversed.Terminates := ⟨run_reversal, reversed_cyclic⟩

theorem terminates_run_iff_reversal :
    ¬ Keeping (registryCalls family) (KeepsOrder family) (.empty familyParent) reversal := fun h =>
  reversed_cyclic ((terminates_run_iff ⟨familyParent, rfl⟩ run_reversal).mpr h reversal [] _
    (List.append_nil _).symm run_reversal)

end OrganismRegistry

end PrismPipe.Engine
