import PrismPipe.Python.JsonLaws

/-! What `json.loads` gives back of the text that `json.dumps` makes of a value. -/

namespace PrismPipe.Python

namespace PyStr

def isHigh (c : CodePoint) : Bool := 0xD800 ≤ c.val && c.val ≤ 0xDBFF

def isLow (c : CodePoint) : Bool := 0xDC00 ≤ c.val && c.val ≤ 0xDFFF

theorem pair_lt (high low : CodePoint) :
    (0x10000 + (high.val - 0xD800) * 0x400 + (low.val - 0xDC00)) % 0x110000 < 0x110000 :=
  Nat.mod_lt _ (by decide)

/-- What `scanstring` makes of two escapes. -/
def pair (high low : CodePoint) : CodePoint :=
  ⟨(0x10000 + (high.val - 0xD800) * 0x400 + (low.val - 0xDC00)) % 0x110000, pair_lt high low⟩

/-- `s` after `py_encode_basestring_ascii` and `scanstring`. -/
def reread : PyStr → PyStr
  | a :: b :: rest =>
    if isHigh a && isLow b then pair a b :: reread rest else a :: reread (b :: rest)
  | s => s

def unpaired : PyStr → Bool
  | a :: b :: rest => !(isHigh a && isLow b) && unpaired (b :: rest)
  | _ => true

theorem length_reread_le : ∀ s : PyStr, s.reread.length ≤ s.length
  | [] => Nat.le_refl 0
  | [_] => Nat.le_refl 1
  | a :: b :: rest => by
    have hrest := length_reread_le rest
    have htail := length_reread_le (b :: rest)
    rw [reread]
    split
    · simp only [List.length_cons]
      omega
    · simpa only [List.length_cons, Nat.add_le_add_iff_right] using htail

theorem reread_eq_iff : ∀ s : PyStr, s.reread = s ↔ s.unpaired
  | [] => iff_of_true rfl rfl
  | [_] => iff_of_true rfl rfl
  | a :: b :: rest => by
    rw [reread, unpaired]
    split
    next hpair =>
      have hrest := length_reread_le rest
      refine iff_of_false (fun h => ?_) (by simp [hpair])
      have := congrArg List.length h
      simp only [List.length_cons] at this
      omega
    next hpair =>
      rw [Bool.eq_false_of_not_eq_true hpair, List.cons.injEq, reread_eq_iff (b :: rest)]
      simp

end PyStr

namespace Json

def reread : Json → Json
  | .str s => .str s.reread
  | .list items => .list (rereadItems items)
  | .dict items => .dict (rereadFields [] items)
  | j => j
where
  rereadItems : List Json → List Json
    | [] => []
    | x :: xs => x.reread :: rereadItems xs
  rereadFields : Dict → List (PyStr × Json) → Dict
    | read, [] => read
    | read, (k, x) :: xs => rereadFields (read.set k.reread x.reread) xs

section Laws

theorem map_eq_self_iff {f : α → α} {l : List α} : l.map f = l ↔ ∀ a ∈ l, f a = a := by
  rw [← List.map_inj_left, List.map_id']

theorem rereadItems_eq (l : List Json) : reread.rereadItems l = l.map reread := by
  induction l with
  | nil => rfl
  | cons x xs ih => rw [reread.rereadItems, ih, List.map_cons]

theorem set_of_notMem {d : Dict} (h : key ∉ d.map (·.1)) (value : Json) :
    d.set key value = d ++ [(key, value)] := by
  rw [Dict.set, if_neg]
  simpa using fun v hkv => h (List.mem_map.mpr ⟨(key, v), hkv, rfl⟩)

theorem length_set_of_mem {d : Dict} (h : key ∈ d.map (·.1)) (value : Json) :
    (d.set key value).length = d.length := by
  rw [Dict.set, if_pos]
  · exact List.length_map _
  · obtain ⟨kv, hkv, hk⟩ := List.mem_map.mp h
    exact List.any_eq_true.mpr ⟨kv, hkv, decide_eq_true hk⟩

theorem rereadFields_eq {read d : Dict}
    (h : (read.map (·.1) ++ d.map fun kv => kv.1.reread).Nodup) :
    reread.rereadFields read d = read ++ d.map fun kv => (kv.1.reread, kv.2.reread) := by
  induction d generalizing read with
  | nil => exact (List.append_nil read).symm
  | cons kv d ih =>
    have hkey : kv.1.reread ∉ read.map (·.1) := fun hm =>
      (List.nodup_append.mp h).2.2 _ hm _ List.mem_cons_self rfl
    rw [reread.rereadFields, set_of_notMem hkey, ih]
    · simp
    · simpa using h

theorem length_rereadFields_le (read d : Dict) :
    (reread.rereadFields read d).length ≤ read.length + d.length := by
  induction d generalizing read with
  | nil => exact Nat.le_refl _
  | cons kv d ih =>
    have hset : (read.set kv.1.reread kv.2.reread).length ≤ read.length + 1 := by
      by_cases hm : kv.1.reread ∈ read.map (·.1)
      · rw [length_set_of_mem hm]
        omega
      · rw [set_of_notMem hm, List.length_append, List.length_singleton]
    have := ih (read.set kv.1.reread kv.2.reread)
    rw [reread.rereadFields, List.length_cons]
    omega

theorem nodup_of_length {read d : Dict} (hread : (read.map (·.1)).Nodup)
    (h : (reread.rereadFields read d).length = read.length + d.length) :
    (read.map (·.1) ++ d.map fun kv => kv.1.reread).Nodup := by
  induction d generalizing read with
  | nil => simpa using hread
  | cons kv d ih =>
    rw [reread.rereadFields, List.length_cons] at h
    by_cases hm : kv.1.reread ∈ read.map (·.1)
    · have := length_rereadFields_le (read.set kv.1.reread kv.2.reread) d
      rw [length_set_of_mem hm] at this
      omega
    · rw [set_of_notMem hm] at h
      have hnodup : ((read ++ [(kv.1.reread, kv.2.reread)]).map (·.1)).Nodup := by
        rw [List.map_append, List.map_singleton, ← List.concat_eq_append]
        exact hread.concat hm
      have := ih hnodup (by rw [h, List.length_append, List.length_singleton]; omega)
      simpa using this

theorem rereadFields_self_iff {d : Dict} (hd : (d.map (·.1)).Nodup) :
    reread.rereadFields [] d = d ↔ ∀ kv ∈ d, kv.1.reread = kv.1 ∧ kv.2.reread = kv.2 := by
  constructor
  · intro h
    have hnodup : (([] : Dict).map (·.1) ++ d.map fun kv => kv.1.reread).Nodup :=
      nodup_of_length List.nodup_nil (by rw [h]; simp)
    rw [rereadFields_eq hnodup, List.nil_append] at h
    intro kv hkv
    have := map_eq_self_iff.mp h kv hkv
    exact ⟨congrArg Prod.fst this, congrArg Prod.snd this⟩
  · intro h
    have hkeys : d.map (fun kv => kv.1.reread) = d.map (·.1) :=
      List.map_congr_left fun kv hkv => (h kv hkv).1
    rw [rereadFields_eq (by simpa [hkeys] using hd), List.nil_append]
    exact map_eq_self_iff.mpr fun kv hkv => Prod.ext (h kv hkv).1 (h kv hkv).2

theorem reread_named {d : Dict} (names : List String) (hd : d.map (·.1) = names.map py)
    (hn : names.Nodup) (hp : names.all fun name => (py name).unpaired) :
    (dict d).reread = .dict (d.map fun kv => (kv.1, kv.2.reread)) := by
  have hkeys : ∀ kv ∈ d, kv.1.reread = kv.1 := fun kv hkv => by
    obtain ⟨name, hname, he⟩ := List.mem_map.mp (hd ▸ List.mem_map_of_mem hkv)
    rw [← he]
    exact (PyStr.reread_eq_iff _).mpr (List.all_eq_true.mp hp name hname)
  have hsame : d.map (fun kv => kv.1.reread) = names.map py := by
    rw [← hd]
    exact List.map_congr_left hkeys
  rw [reread, rereadFields_eq, List.nil_append]
  · congr 1
    exact List.map_congr_left fun kv hkv => by rw [hkeys kv hkv]
  · rw [List.map_nil, List.nil_append, hsame]
    exact hn.map fun _ _ => py_inj.mp

end Laws

mutual

theorem unique_sortKeys : ∀ j : Json, j.unique → j.sortKeys.unique
  | .null, h | .bool _, h | .int _, h | .float _, h | .str _, h => h
  | .list l, h => by
    rw [sortKeys_list, unique, uniqueItems_eq, List.all_eq_true]
    exact List.forall_mem_map.mpr (unique_sortItems l (unique_list h))
  | .dict d, h => by
    obtain ⟨hkeys, hvalues⟩ := unique_dict h
    rw [sortKeys_dict, unique, uniqueFields_eq, Bool.and_eq_true, decide_eq_true_eq,
      List.all_eq_true]
    refine ⟨(keys_sortedFields d).nodup_iff.mpr hkeys, fun kv hkv => ?_⟩
    obtain ⟨kv, hmem, rfl⟩ := List.mem_map.mp ((List.mem_insertionSort _).mp hkv)
    exact unique_sortFields d hvalues kv hmem

theorem unique_sortItems : ∀ l : List Json, (∀ j ∈ l, j.unique) → ∀ j ∈ l, j.sortKeys.unique
  | [], _ => nofun
  | x :: xs, h => List.forall_mem_cons.mpr ⟨unique_sortKeys x (h x List.mem_cons_self),
      unique_sortItems xs fun j hj => h j (List.mem_cons_of_mem x hj)⟩

theorem unique_sortFields : ∀ d : List (PyStr × Json), (∀ kv ∈ d, kv.2.unique) →
    ∀ kv ∈ d, kv.2.sortKeys.unique
  | [], _ => nofun
  | (k, x) :: xs, h => List.forall_mem_cons.mpr ⟨unique_sortKeys x (h (k, x) List.mem_cons_self),
      unique_sortFields xs fun kv hkv => h kv (List.mem_cons_of_mem (k, x) hkv)⟩

end

mutual

theorem reread_eq_iff : ∀ j : Json, j.unique → (j.reread = j ↔ j.All (fun _ => true) PyStr.unpaired)
  | .null, _ | .bool _, _ | .int _, _ | .float _, _ => iff_of_true rfl rfl
  | .str s, _ => by
    rw [reread, str.injEq, all_str]
    exact s.reread_eq_iff
  | .list l, h => by
    rw [reread, rereadItems_eq, list.injEq, all_list, List.all_eq_true, map_eq_self_iff]
    exact forall₂_congr (rereadItems_eq_iff l (unique_list h))
  | .dict d, h => by
    obtain ⟨hkeys, hvalues⟩ := unique_dict h
    rw [reread, dict.injEq, rereadFields_self_iff hkeys, all_dict, List.all_eq_true]
    refine forall₂_congr fun kv hkv => ?_
    rw [Bool.and_eq_true, kv.1.reread_eq_iff, rereadFields_eq_iff d hvalues kv hkv]

theorem rereadItems_eq_iff : ∀ l : List Json, (∀ j ∈ l, j.unique) →
    ∀ j ∈ l, j.reread = j ↔ j.All (fun _ => true) PyStr.unpaired
  | [], _ => nofun
  | x :: xs, h => List.forall_mem_cons.mpr ⟨reread_eq_iff x (h x List.mem_cons_self),
      rereadItems_eq_iff xs fun j hj => h j (List.mem_cons_of_mem x hj)⟩

theorem rereadFields_eq_iff : ∀ d : List (PyStr × Json), (∀ kv ∈ d, kv.2.unique) →
    ∀ kv ∈ d, kv.2.reread = kv.2 ↔ kv.2.All (fun _ => true) PyStr.unpaired
  | [], _ => nofun
  | (k, x) :: xs, h => List.forall_mem_cons.mpr ⟨reread_eq_iff x (h (k, x) List.mem_cons_self),
      rereadFields_eq_iff xs fun kv hkv => h kv (List.mem_cons_of_mem (k, x) hkv)⟩

end

end Json

/-- The limits of an interpreter: `json.dumps` refuses an integer of too many digits and nesting
that the stack has no room for, and `json.loads` such nesting too. -/
structure JsonLimits where
  dumps : Json → Bool
  loads : Json → Bool

namespace JsonLimits

/-- `json.loads` of the text of `j`. -/
def reread (limits : JsonLimits) (j : Json) : Option Json :=
  if limits.loads j then some j.reread else none

def roomy : JsonLimits := ⟨fun _ => true, fun _ => true⟩

end JsonLimits

end PrismPipe.Python
