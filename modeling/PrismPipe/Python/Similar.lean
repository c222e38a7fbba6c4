import PrismPipe.Python.JsonLaws

/-! Values that are equal but for the order of the items of their objects. -/

namespace PrismPipe.Python.Json

def Similar (a b : Json) : Prop := a.sortKeys = b.sortKeys

def scalar : Json → Bool
  | .list _ => false
  | .dict _ => false
  | _ => true

@[refl] theorem Similar.refl (a : Json) : Similar a a := rfl

theorem Similar.eq_of_scalar (h : Similar a b) (hb : b.scalar) : a = b := by
  have hsort : b.sortKeys = b := by cases b <;> first | rfl | cases hb
  rw [Similar, hsort] at h
  cases a with
  | list items =>
    rw [sortKeys_list] at h
    subst h
    cases hb
  | dict items =>
    rw [sortKeys_dict] at h
    subst h
    cases hb
  | _ => exact h

theorem Similar.of_list (h : Similar a (.list items)) :
    ∃ items', a = .list items' ∧ items'.map sortKeys = items.map sortKeys := by
  rw [Similar, sortKeys_list] at h
  cases a with
  | list items' =>
    rw [sortKeys_list] at h
    exact ⟨items', rfl, list.inj h⟩
  | dict =>
    rw [sortKeys_dict] at h
    cases h
  | _ => cases h

theorem Similar.of_dict (h : Similar a (.dict d)) :
    ∃ e, a = .dict e ∧ sortedFields e = sortedFields d := by
  rw [Similar, sortKeys_dict] at h
  cases a with
  | dict e =>
    rw [sortKeys_dict] at h
    exact ⟨e, rfl, dict.inj h⟩
  | list =>
    rw [sortKeys_list] at h
    cases h
  | _ => cases h

structure Alike (e d : Dict) : Prop where
  nodup : (d.map (·.1)).Nodup
  sorted : sortedFields e = sortedFields d

theorem Alike.find {d e : Dict} (h : Alike e d) (hk : d.find k = some b) :
    ∃ a, e.find k = some a ∧ Similar a b := by
  have he : (e.map (·.1)).Nodup := by
    refine (keys_sortedFields e).nodup_iff.mp ?_
    rw [h.sorted]
    exact (keys_sortedFields d).nodup_iff.mpr h.nodup
  have hfind : (e.find k).map sortKeys = some b.sortKeys := by
    rw [← find_sortedFields he, h.sorted, find_sortedFields h.nodup, hk, Option.map_some]
  exact Option.map_eq_some_iff.mp hfind

theorem Alike.scalar {d e : Dict} (h : Alike e d) (hk : d.find k = some b) (hb : b.scalar) :
    e.find k = some b := by
  obtain ⟨a, ha, hab⟩ := h.find hk
  rw [ha, hab.eq_of_scalar hb]

theorem Similar.truthy (h : Similar a b) : a.truthy = b.truthy := by
  cases b with
  | list items =>
    obtain ⟨items', rfl, hmap⟩ := h.of_list
    have hlength := congrArg List.length hmap
    rw [List.length_map, List.length_map] at hlength
    cases items <;> cases items' <;> first | rfl | cases hlength
  | dict d =>
    obtain ⟨e, rfl, hsorted⟩ := h.of_dict
    have hnil : e = [] ↔ d = [] := by
      rw [← sortedFields_eq_nil, hsorted, sortedFields_eq_nil]
    have hempty : e.isEmpty = d.isEmpty := by
      rw [Bool.eq_iff_iff, List.isEmpty_iff, List.isEmpty_iff, hnil]
    rw [Json.truthy, Json.truthy, hempty]
  | _ => rw [h.eq_of_scalar rfl]

theorem Similar.or (h : Similar a b) (c : Json) : Similar (a.or c) (b.or c) := by
  rw [Json.or, Json.or, h.truthy]
  split
  · exact h
  · rfl

end PrismPipe.Python.Json
