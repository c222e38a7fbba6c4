import PrismPipe.Python.Json

/-! Serialisation writes a value exactly when nothing in it is refused. -/

namespace PrismPipe.Python

namespace PyStr

@[simp] theorem encodable_nil : encodable [] = true := rfl

@[simp] theorem encodable_append (s t : PyStr) :
    encodable (s ++ t) = (encodable s && encodable t) := List.all_append

theorem encodable_join {sep : PyStr} (hs : sep.encodable) :
    ∀ {l : List PyStr}, (∀ s ∈ l, encodable s) → (join sep l).encodable
  | [], _ => rfl
  | [s], h => h s List.mem_cons_self
  | s :: t :: rest, h => by
    have ht := encodable_join hs (l := t :: rest) fun u hu => h u (List.mem_cons_of_mem _ hu)
    simp [join, hs, ht, h s List.mem_cons_self]

theorem le_total : ∀ s t : PyStr, le s t ∨ le t s
  | [], _ => .inl rfl
  | _ :: _, [] => .inr rfl
  | a :: s, b :: t => by
    have ih := le_total s t
    simp only [le, Bool.or_eq_true, Bool.and_eq_true, decide_eq_true_eq, beq_iff_eq]
    rcases lt_trichotomy a.val b.val with h | h | h
    · exact .inl (.inl h)
    · have hab := Fin.ext h
      exact ih.imp (fun hs => .inr ⟨hab, hs⟩) fun ht => .inr ⟨hab.symm, ht⟩
    · exact .inr (.inl h)

theorem le_trans : ∀ {s t u : PyStr}, le s t → le t u → le s u
  | [], _, _ => fun _ _ => rfl
  | _ :: _, [], _ => fun h => nomatch h
  | _ :: _, _ :: _, [] => fun _ h => nomatch h
  | a :: s, b :: t, c :: u => by
    simp only [le, Bool.or_eq_true, Bool.and_eq_true, decide_eq_true_eq, beq_iff_eq]
    rintro (hab | ⟨rfl, hs⟩) (hbc | ⟨rfl, ht⟩)
    · exact .inl (hab.trans hbc)
    · exact .inl hab
    · exact .inl hbc
    · exact .inr ⟨rfl, le_trans hs ht⟩

end PyStr

theorem py_inj : py s = py t ↔ s = t := by
  refine ⟨fun h => ?_, fun h => h ▸ rfl⟩
  have hf : Function.Injective fun c : Char => (⟨c.toNat, toNat_lt c⟩ : CodePoint) := by
    intro a b hab
    exact Char.toNat_inj.mp (Fin.mk.inj hab)
  exact String.toList_inj.mp (hf.list_map h)

@[simp] theorem encodable_py (s : String) : (py s).encodable = true := by
  rw [PyStr.encodable, List.all_eq_true]
  intro c hc
  obtain ⟨d, -, rfl⟩ := List.mem_map.mp hc
  have hd := d.valid
  simp only [UInt32.isValidChar, Nat.isValidChar] at hd
  simp only [PyStr.isSurrogate, Bool.not_eq_true', Bool.and_eq_false_iff, decide_eq_false_iff_not]
  change ¬ 0xD800 ≤ d.val.toNat ∨ ¬ d.val.toNat ≤ 0xDFFF
  omega

namespace Dict

theorem mem_of_find {d : Dict} (h : d.find k = some v) : (k, v) ∈ d := by
  obtain ⟨⟨k', v'⟩, hm, rfl⟩ := Option.map_eq_some_iff.mp h
  have hk : k' = k := by simpa using List.find?_some hm
  exact hk ▸ List.mem_of_find?_eq_some hm

theorem find_of_mem {d : Dict} (hn : (d.map (·.1)).Nodup) (hkv : (k, v) ∈ d) :
    d.find k = some v := by
  unfold find
  induction d with
  | nil => cases hkv
  | cons a d ih =>
    rw [List.map_cons, List.nodup_cons] at hn
    rw [List.find?_cons]
    rcases List.mem_cons.mp hkv with rfl | hm
    · simp
    · have hne : a.1 ≠ k := fun e => hn.1 (e ▸ List.mem_map_of_mem hm)
      simpa [hne] using ih hn.2 hm

theorem find_perm {d e : Dict} (hn : (d.map (·.1)).Nodup) (h : d.Perm e) (k : PyStr) :
    e.find k = d.find k := by
  have he : (e.map (·.1)).Nodup := (h.map _).nodup_iff.mp hn
  refine Option.ext fun v => ?_
  exact ⟨fun hv => find_of_mem hn (h.mem_iff.mpr (mem_of_find hv)),
    fun hv => find_of_mem he (h.mem_iff.mp (mem_of_find hv))⟩

@[simp] theorem find_nil (k : PyStr) : find [] k = none := rfl

@[simp] theorem find_py_cons (k key : String) (v : Json) (d : Dict) :
    find ((py k, v) :: d) (py key) = if k = key then some v else d.find (py key) := by
  unfold find
  rw [List.find?_cons]
  by_cases h : k = key
  · simp [h]
  · have hp : py k ≠ py key := fun e => h (py_inj.mp e)
    simp [h, hp]

end Dict

namespace Json

section All

variable {pf : PyFloat → Bool} {ps : PyStr → Bool}

@[simp] theorem all_null : All pf ps .null = true := rfl
@[simp] theorem all_bool (b : Bool) : All pf ps (.bool b) = true := rfl
@[simp] theorem all_int (i : Int) : All pf ps (.int i) = true := rfl
@[simp] theorem all_float (f : PyFloat) : All pf ps (.float f) = pf f := rfl
@[simp] theorem all_str (s : PyStr) : All pf ps (.str s) = ps s := rfl

@[simp] theorem all_list (l : List Json) : All pf ps (.list l) = l.all (·.All pf ps) :=
  allItems_eq l

@[simp] theorem all_dict (d : Dict) :
    All pf ps (.dict d) = d.all fun kv => ps kv.1 && kv.2.All pf ps := allFields_eq d

theorem all_find {d : Dict} (h : All pf ps (.dict d)) (hk : d.find k = some v) :
    v.All pf ps := by
  rw [all_dict, List.all_eq_true] at h
  obtain ⟨kv, hkv, rfl⟩ := Option.map_eq_some_iff.mp hk
  exact (Bool.and_eq_true_iff.mp (h kv (List.mem_of_find?_eq_some hkv))).2

theorem all_getD {d : Dict} (h : All pf ps (.dict d)) (hj : j.All pf ps) (k : PyStr) :
    ((d.find k).getD j).All pf ps := by
  cases hf : d.find k with
  | none => exact hj
  | some v => exact all_find h hf

theorem all_get {d : Dict} (h : All pf ps (.dict d)) (k : String) : (d.get k).All pf ps :=
  all_getD h rfl (py k)

end All

theorem uniqueItems_eq (l : List Json) : unique.uniqueItems l = l.all (·.unique) := by
  induction l with
  | nil => rfl
  | cons x l ih => simp [unique.uniqueItems, ih]

theorem uniqueFields_eq (l : List (PyStr × Json)) :
    unique.uniqueFields l = l.all (·.2.unique) := by
  induction l with
  | nil => rfl
  | cons kv l ih => simp [unique.uniqueFields, ih]

theorem unique_dict {d : Dict} (h : unique (.dict d)) :
    (d.map (·.1)).Nodup ∧ ∀ kv ∈ d, kv.2.unique := by
  rw [unique, Bool.and_eq_true, decide_eq_true_eq, uniqueFields_eq, List.all_eq_true] at h
  exact h

theorem unique_list {l : List Json} (h : unique (.list l)) : ∀ j ∈ l, j.unique := by
  rwa [unique, uniqueItems_eq, List.all_eq_true] at h

theorem find_of_mem {d : Dict} (h : unique (.dict d)) (hkv : (k, v) ∈ d) :
    d.find k = some v :=
  Dict.find_of_mem (unique_dict h).1 hkv

theorem unique_find {d : Dict} (h : unique (.dict d)) (hk : d.find k = some v) : v.unique := by
  obtain ⟨kv, hkv, rfl⟩ := Option.map_eq_some_iff.mp hk
  exact (unique_dict h).2 kv (List.mem_of_find?_eq_some hkv)

@[simp] theorem finite_null : finite .null = true := rfl
@[simp] theorem finite_bool (b : Bool) : finite (.bool b) = true := rfl
@[simp] theorem finite_int (i : Int) : finite (.int i) = true := rfl
@[simp] theorem finite_float (f : PyFloat) : finite (.float f) = f.isFinite := rfl
@[simp] theorem finite_str (s : PyStr) : finite (.str s) = true := rfl
@[simp] theorem finite_dict_nil : finite (.dict []) = true := rfl

@[simp] theorem finite_dict_cons (k : PyStr) (v : Json) (d : Dict) :
    finite (.dict ((k, v) :: d)) = (v.finite && finite (.dict d)) := by
  simp [finite]

theorem finite_dict {d : Dict} : finite (.dict d) ↔ ∀ kv ∈ d, kv.2.finite := by
  rw [finite, all_dict, List.all_eq_true]
  rfl

theorem finite_list {l : List Json} : finite (.list l) ↔ ∀ j ∈ l, j.finite := by
  rw [finite, all_list, List.all_eq_true]
  rfl

/-- Both `canonical_json` and UTF-8 take it. -/
def writable (j : Json) : Bool := j.finite && j.encodable

theorem writable_iff {j : Json} : j.writable ↔ j.finite ∧ j.encodable := by simp [writable]

@[simp] theorem writable_null : writable .null = true := rfl
@[simp] theorem writable_bool (b : Bool) : writable (.bool b) = true := rfl
@[simp] theorem writable_int (i : Int) : writable (.int i) = true := rfl
@[simp] theorem writable_str (s : PyStr) : writable (.str s) = s.encodable := by
  simp [writable, encodable]

@[simp] theorem writable_dict_nil : writable (.dict []) = true := rfl

@[simp] theorem writable_dict_cons (k : PyStr) (v : Json) (d : Dict) :
    writable (.dict ((k, v) :: d)) = (k.encodable && v.writable && writable (.dict d)) := by
  simp only [writable, finite, encodable, all_dict, List.all_cons, Bool.true_and]
  grind

theorem writable_dict {d : Dict} :
    writable (.dict d) ↔ ∀ kv ∈ d, kv.1.encodable ∧ kv.2.writable := by
  induction d with
  | nil => simp
  | cons kv d ih =>
    obtain ⟨k, v⟩ := kv
    simp [ih, and_assoc]

theorem writable_append {d e : Dict} :
    writable (.dict (d ++ e)) ↔ writable (.dict d) ∧ writable (.dict e) := by
  simp only [writable_dict, List.mem_append]
  exact ⟨fun h => ⟨fun kv hd => h kv (.inl hd), fun kv he => h kv (.inr he)⟩,
    fun h kv hkv => hkv.elim (h.1 kv) (h.2 kv)⟩

theorem writable_set {d : Dict} (hd : writable (.dict d)) (hk : k.encodable) (hv : v.writable) :
    writable (.dict (d.set k v)) := by
  unfold Dict.set
  split
  · refine writable_dict.mpr fun kv hkv => ?_
    obtain ⟨old, hold, rfl⟩ := List.mem_map.mp hkv
    split
    · exact ⟨hk, hv⟩
    · exact writable_dict.mp hd old hold
  · exact writable_append.mpr ⟨hd, by simp [hk, hv]⟩

theorem writable_get {d : Dict} (h : writable (.dict d)) (k : String) : (d.get k).writable := by
  obtain ⟨hf, he⟩ := writable_iff.mp h
  exact writable_iff.mpr ⟨all_get hf k, all_get he k⟩

/-- A value that `canonical_json` and UTF-8 take, as its column holds it. -/
def written (j : Json) (h : j.writable) : Utf8Text :=
  ⟨⟨j.sortKeys, by simpa using (writable_iff.mp h).1⟩, by simpa using (writable_iff.mp h).2⟩

theorem sortItems_eq (l : List Json) : sortKeys.sortItems l = l.map sortKeys := by
  induction l with
  | nil => rfl
  | cons x l ih => rw [sortKeys.sortItems, ih, List.map_cons]

theorem sortFields_eq (d : Dict) : sortKeys.sortFields d = d.map fun kv => (kv.1, kv.2.sortKeys) := by
  induction d with
  | nil => rfl
  | cons kv d ih => rw [sortKeys.sortFields, ih, List.map_cons]

/-- The items of an object as `sort_keys=True` writes them. -/
def sortedFields (d : Dict) : Dict :=
  (d.map fun kv => (kv.1, kv.2.sortKeys)).insertionSort fun a b => PyStr.le a.1 b.1

theorem sortKeys_list (l : List Json) : (list l).sortKeys = .list (l.map sortKeys) := by
  rw [sortKeys, sortItems_eq]

theorem sortKeys_dict (d : Dict) : (dict d).sortKeys = .dict (sortedFields d) := by
  rw [sortKeys, sortFields_eq, sortedFields]

theorem sortedFields_eq_nil {d : Dict} : sortedFields d = [] ↔ d = [] := by
  rw [← List.length_eq_zero_iff, sortedFields, List.length_insertionSort, List.length_map,
    List.length_eq_zero_iff]

theorem keys_sortedFields (d : Dict) : ((sortedFields d).map (·.1)).Perm (d.map (·.1)) := by
  refine ((List.perm_insertionSort _ _).map _).trans ?_
  rw [List.map_map]
  exact .refl _

theorem find_sortedFields {d : Dict} (hn : (d.map (·.1)).Nodup) (k : PyStr) :
    (sortedFields d).find k = (d.find k).map sortKeys := by
  have hm : ((d.map fun kv => (kv.1, kv.2.sortKeys)).map (·.1)).Nodup := by
    rw [List.map_map]
    exact hn
  rw [sortedFields, Dict.find_perm hm (List.perm_insertionSort _ _).symm, Dict.find, Dict.find,
    List.find?_map, Option.map_map, Option.map_map]
  rfl

instance : Std.Total fun a b : PyStr × Json => (PyStr.le a.1 b.1 : Prop) :=
  ⟨fun a b => PyStr.le_total a.1 b.1⟩

instance : IsTrans (PyStr × Json) fun a b => (PyStr.le a.1 b.1 : Prop) :=
  ⟨fun _ _ _ => PyStr.le_trans⟩

theorem sortedFields_idem {d : Dict}
    (h : (d.map fun kv => (kv.1, kv.2.sortKeys)).map (fun kv : PyStr × Json => (kv.1, kv.2.sortKeys)) =
      d.map fun kv => (kv.1, kv.2.sortKeys)) : sortedFields (sortedFields d) = sortedFields d := by
  have hm := List.map_insertionSort (r := fun a b : PyStr × Json => (PyStr.le a.1 b.1 : Prop))
    (s := fun a b : PyStr × Json => (PyStr.le a.1 b.1 : Prop))
    (fun kv : PyStr × Json => (kv.1, kv.2.sortKeys)) (d.map fun kv => (kv.1, kv.2.sortKeys))
    fun _ _ _ _ => .rfl
  unfold sortedFields
  rw [hm, h]
  exact (List.pairwise_insertionSort _ _).insertionSort_eq

mutual

theorem sortKeys_idem : ∀ j : Json, j.sortKeys.sortKeys = j.sortKeys
  | .null | .bool _ | .int _ | .float _ | .str _ => rfl
  | .list items => by
    rw [sortKeys_list, sortKeys_list, sortItems_idem items]
  | .dict items => by
    rw [sortKeys_dict, sortKeys_dict, sortedFields_idem (sortFields_idem items)]

theorem sortItems_idem : ∀ l : List Json, (l.map sortKeys).map sortKeys = l.map sortKeys
  | [] => rfl
  | x :: xs => by rw [List.map_cons, List.map_cons, sortKeys_idem x, sortItems_idem xs]

theorem sortFields_idem : ∀ d : List (PyStr × Json),
    (d.map fun kv => (kv.1, kv.2.sortKeys)).map (fun kv : PyStr × Json => (kv.1, kv.2.sortKeys)) =
      d.map fun kv => (kv.1, kv.2.sortKeys)
  | [] => rfl
  | (k, x) :: xs => by
    rw [List.map_cons, List.map_cons, sortKeys_idem x, sortFields_idem xs]

end

end Json

theorem Utf8Text.writable (t : Utf8Text) : t.value.writable :=
  Json.writable_iff.mpr ⟨t.finite, t.encodable⟩

theorem bind_eq_ok {x : Except ε α} {f : α → Except ε β} (h : x >>= f = .ok b) :
    ∃ a, x = .ok a ∧ f a = .ok b := by
  cases x with
  | error e => cases h
  | ok a => exact ⟨a, rfl, h⟩

theorem canonicalJson_ok {j : Json} (h : j.finite) :
    canonicalJson j = .ok ⟨j.sortKeys, by simpa using h⟩ := dif_pos h

theorem canonicalJson_error {j : Json} (h : ¬ j.finite) : canonicalJson j = .error .valueError :=
  dif_neg h

theorem encode_ok {t : CanonicalText} (h : t.value.encodable) : t.encode = .ok ⟨t, h⟩ :=
  dif_pos h

theorem encode_error {t : CanonicalText} (h : ¬ t.value.encodable) :
    t.encode = .error .unicodeEncodeError := dif_neg h

theorem canonicalJson_eq_ok {j : Json} (h : canonicalJson j = .ok t) :
    j.finite ∧ t.value = j.sortKeys := by
  by_cases hf : j.finite
  · rw [canonicalJson_ok hf] at h
    cases h
    exact ⟨hf, rfl⟩
  · rw [canonicalJson_error hf] at h
    cases h

theorem encode_eq_ok {t : CanonicalText} (h : t.encode = .ok u) : t.value.encodable := by
  by_contra he
  rw [encode_error he] at h
  cases h

theorem bindText_eq_ok (h : bindText s = .ok s') : s.encodable := by
  by_contra hs
  simp [bindText, hs] at h

theorem dumpText_ok {j : Json} (h : j.writable) : dumpText j = .ok (j.written h) := by
  obtain ⟨hf, he⟩ := Json.writable_iff.mp h
  have he' : j.sortKeys.encodable := by simpa using he
  simp [dumpText, canonicalJson_ok hf, encode_ok, he', Json.written, bind, Except.bind]

theorem dumpText_eq_ok {j : Json} (h : dumpText j = .ok u) : j.writable := by
  obtain ⟨t, ht, hu⟩ := bind_eq_ok h
  obtain ⟨hf, hv⟩ := canonicalJson_eq_ok ht
  have he := encode_eq_ok hu
  rw [hv] at he
  exact Json.writable_iff.mpr ⟨hf, by simpa using he⟩

end PrismPipe.Python
