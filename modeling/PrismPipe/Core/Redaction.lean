import PrismPipe.Python.JsonLaws

/-! What `RedactSensitiveKeys` leaves in an event dictionary, at every depth. -/

namespace PrismPipe.Redaction

open Python

/-- `str.lower`. A lowered string has nothing to lower. -/
structure StrLower where
  lower : PyStr → PyStr
  lower_lower : ∀ s, lower (lower s) = lower s

def lowerAscii (c : CodePoint) : CodePoint :=
  if 0x41 ≤ c.val ∧ c.val ≤ 0x5A then
    ⟨(c.val + 0x20) % 0x110000, Nat.mod_lt _ (Nat.zero_lt_succ _)⟩
  else c

/-- `str.lower` as it is on ASCII. -/
def StrLower.ascii : StrLower where
  lower := List.map lowerAscii
  lower_lower s := by
    simp only [List.map_map, List.map_inj_left, Function.comp_apply]
    intro c _
    unfold lowerAscii
    split
    · have h : (c.val + 0x20) % 0x110000 = c.val + 0x20 := by omega
      simp only [h]
      split
      · omega
      · rfl
    · simp [*]

inductive Value (α : Type)
  | str (s : PyStr)
  | other (a : α)
  | list (items : List (Value α))
  | dict (items : List (PyStr × Value α))

variable {α : Type}

def Value.isLeaf : Value α → Bool
  | .list _ | .dict _ => false
  | _ => true

structure EventDict (α : Type) where
  items : List (PyStr × Value α)
  nodup : (items.map Prod.fst).Nodup

namespace EventDict

def keys (d : EventDict α) : List PyStr := d.items.map Prod.fst

/-- `event_dict[key]` -/
def get? (d : EventDict α) (key : PyStr) : Option (Value α) := d.items.lookup key

def setItems (key : PyStr) (value : Value α) :
    List (PyStr × Value α) → List (PyStr × Value α)
  | [] => [(key, value)]
  | kv :: items => if kv.1 = key then (key, value) :: items else kv :: setItems key value items

theorem keys_setItems (key : PyStr) (value : Value α) (items : List (PyStr × Value α)) :
    (setItems key value items).map Prod.fst =
      if key ∈ items.map Prod.fst then items.map Prod.fst else items.map Prod.fst ++ [key] := by
  induction items with
  | nil => simp [setItems]
  | cons kv items ih =>
    rw [setItems]
    split <;> rename_i h
    · simp [h]
    · simp only [List.map_cons, ih, List.mem_cons, Ne.symm h, false_or]
      split <;> simp

/-- `event_dict[key] = value` -/
def set (d : EventDict α) (key : PyStr) (value : Value α) : EventDict α where
  items := setItems key value d.items
  nodup := by
    rw [keys_setItems]
    split <;> rename_i h
    · exact d.nodup
    · exact List.nodup_append.mpr
        ⟨d.nodup, by simp, by rintro k hk _ hkey rfl; exact h (List.mem_singleton.mp hkey ▸ hk)⟩

end EventDict

structure RedactSensitiveKeys where
  str : StrLower
  keys : List PyStr

def defaultKeys : List PyStr :=
  [py "password", py "token", py "secret", py "api_key", py "authorization"]

/-- `keys or [..]`: of an empty list too the default is taken. -/
def RedactSensitiveKeys.init (str : StrLower) (keys : Option (List PyStr)) :
    RedactSensitiveKeys where
  str := str
  keys := match keys with
    | some (key :: rest) => key :: rest
    | _ => defaultKeys

def marker : Value α := .str (py "***REDACTED***")

namespace RedactSensitiveKeys

variable (r : RedactSensitiveKeys)

/-- `key.lower() in self.keys` -/
def redacts (key : PyStr) : Bool := r.str.lower key ∈ r.keys

def redact : Value α → Value α
  | .dict items => .dict (fields items)
  | .list items => .list (elements items)
  | .str s => .str s
  | .other a => .other a
where
  fields : List (PyStr × Value α) → List (PyStr × Value α)
    | [] => []
    | (k, v) :: items => (k, if r.redacts k then marker else redact v) :: fields items
  elements : List (Value α) → List (Value α)
    | [] => []
    | v :: items => redact v :: elements items

def visit (d : EventDict α) (key : PyStr) : EventDict α :=
  if r.redacts key then d.set key marker
  else match d.get? key with
    | some (.dict items) => d.set key (r.redact (.dict items))
    | some (.list items) => d.set key (r.redact (.list items))
    | _ => d

/-- `__call__` -/
def call (d : EventDict α) : EventDict α := d.keys.foldl r.visit d

def Sensitive (key : PyStr) : Prop := ∃ c ∈ r.keys, r.str.lower key = r.str.lower c

end RedactSensitiveKeys

inductive Place
  | key (k : PyStr)
  | index (i : Nat)

inductive At : List Place → Value α → Value α → Prop
  | here : At [] v v
  | field : (k, x) ∈ items → At path x v → At (.key k :: path) (.dict items) v
  | item : items[i]? = some x → At path x v → At (.index i :: path) (.list items) v

def EventDict.At (d : EventDict α) (path : List Place) (v : Value α) : Prop :=
  Redaction.At path (.dict d.items) v

namespace RedactSensitiveKeys

variable (r : RedactSensitiveKeys)

def Complete (d : EventDict α) : Prop :=
  ∀ path k v, r.Sensitive k → (r.call d).At (path ++ [.key k]) v → v = marker

def Minimal (d : EventDict α) : Prop :=
  ∀ path v, (∀ k, .key k ∈ path → ¬r.Sensitive k) → v.isLeaf → d.At path v → (r.call d).At path v

def LowerMet (d : EventDict α) : Prop :=
  ∀ path k v, d.At (path ++ [.key k]) v → (∀ k', .key k' ∈ path → ¬r.redacts k') →
    r.Sensitive k → r.redacts k ∨ v = marker

end RedactSensitiveKeys

namespace EventDict

theorem eq_of_mem {d : EventDict α} (h : (k, v) ∈ d.items) (h' : (k, w) ∈ d.items) : v = w := by
  have := List.inj_on_of_nodup_map d.nodup h h' rfl
  exact (Prod.mk.inj this).2

theorem mem_keys {d : EventDict α} : k ∈ d.keys ↔ ∃ v, (k, v) ∈ d.items := by
  simp [keys]

theorem get?_of_mem {d : EventDict α} (h : (k, v) ∈ d.items) : d.get? k = some v := by
  obtain ⟨before, rest, he⟩ := List.append_of_mem h
  refine List.lookup_eq_some_iff.mpr ⟨before, rest, he, fun p hp => bne_iff_ne.mpr ?_⟩
  have hnodup := d.nodup
  rw [he, List.map_append] at hnodup
  exact fun hk => List.disjoint_of_nodup_append hnodup (List.mem_map_of_mem hp) (by simp [← hk])

theorem setItems_eq_map {items : List (PyStr × Value α)}
    (hitems : (items.map Prod.fst).Nodup) (h : k ∈ items.map Prod.fst) :
    setItems k v items = items.map fun kv : PyStr × Value α => if kv.1 = k then (k, v) else kv := by
  induction items with
  | nil => cases h
  | cons kv items ih =>
    obtain ⟨hkv, hitems⟩ := List.nodup_cons.mp hitems
    rw [setItems, List.map_cons]
    split <;> rename_i hk
    · rw [List.map_congr_left (g := id), List.map_id]
      intro kv' hkv'
      exact if_neg fun hk' => hkv (List.mem_map.mpr ⟨kv', hkv', hk'.trans hk.symm⟩)
    · rw [ih hitems ((List.mem_cons.mp h).resolve_left (Ne.symm hk))]

end EventDict

namespace RedactSensitiveKeys

variable (r : RedactSensitiveKeys)

def entry (kv : PyStr × Value α) : PyStr × Value α :=
  (kv.1, if r.redacts kv.1 then marker else r.redact kv.2)

theorem fields_eq (items : List (PyStr × Value α)) :
    redact.fields r items = items.map r.entry := by
  induction items with
  | nil => rfl
  | cons kv items ih => rw [redact.fields, ih]; rfl

theorem elements_eq (items : List (Value α)) : redact.elements r items = items.map r.redact := by
  induction items with
  | nil => rfl
  | cons v items ih => rw [redact.elements, ih]; rfl

theorem redact_dict (items : List (PyStr × Value α)) :
    r.redact (.dict items) = .dict (items.map r.entry) := by
  rw [redact, fields_eq]

theorem redact_list (items : List (Value α)) :
    r.redact (.list items) = .list (items.map r.redact) := by
  rw [redact, elements_eq]

theorem redact_leaf {v : Value α} (h : v.isLeaf) : r.redact v = v := by
  cases v with
  | str s => rw [redact]
  | other a => rw [redact]
  | list items => cases h
  | dict items => cases h

theorem redact_eq_marker {v : Value α} (h : r.redact v = marker) : v = marker := by
  cases v with
  | str s => rwa [redact] at h
  | other a => rwa [redact] at h
  | list items => rw [redact] at h; cases h
  | dict items => rw [redact] at h; cases h

theorem redacts.sensitive (h : r.redacts k) : r.Sensitive k :=
  ⟨_, of_decide_eq_true h, (r.str.lower_lower k).symm⟩

theorem visit_items {d : EventDict α} (h : (k, v) ∈ d.items) :
    (r.visit d k).items = d.items.map fun kv => if kv.1 = k then r.entry kv else kv := by
  have hk : ∀ kv ∈ d.items, kv.1 = k → kv = (k, v) := by
    rintro ⟨k', w⟩ hkv rfl
    rw [EventDict.eq_of_mem hkv h]
  have hset : (d.set k (r.entry (k, v)).2).items =
      d.items.map fun kv => if kv.1 = k then r.entry kv else kv := by
    refine (EventDict.setItems_eq_map d.nodup (List.mem_map_of_mem h)).trans ?_
    refine List.map_congr_left fun kv hkv => ?_
    split <;> rename_i hkv'
    · rw [hk kv hkv hkv']
      rfl
    · rfl
  unfold visit
  split <;> rename_i hr
  · rw [← hset, entry, if_pos hr]
  · have hentry : (r.entry (k, v)).2 = r.redact v := if_neg hr
    rw [EventDict.get?_of_mem h]
    rw [hentry] at hset
    split
    · rename_i hv
      cases hv
      exact hset
    · rename_i hv
      cases hv
      exact hset
    · rename_i hdict hlist
      have hleaf : v.isLeaf := by
        cases v with
        | str | other => rfl
        | list items => exact absurd rfl (hlist items)
        | dict items => exact absurd rfl (hdict items)
      rw [List.map_congr_left (g := id), List.map_id]
      intro kv hkv
      split <;> rename_i hkv'
      · rw [hk kv hkv hkv', id, entry, if_neg hr, r.redact_leaf hleaf]
      · rfl

theorem foldl_visit {ks : List PyStr} (hks : ks.Nodup) (d : EventDict α)
    (h : ∀ k ∈ ks, k ∈ d.keys) :
    (ks.foldl r.visit d).items = d.items.map fun kv => if kv.1 ∈ ks then r.entry kv else kv := by
  induction ks generalizing d with
  | nil => simp
  | cons k ks ih =>
    obtain ⟨hk, hks⟩ := List.nodup_cons.mp hks
    obtain ⟨v, hv⟩ := EventDict.mem_keys.mp (h k List.mem_cons_self)
    have hvisit := r.visit_items hv
    have hkeys : (r.visit d k).keys = d.keys := by
      rw [EventDict.keys, hvisit, List.map_map]
      refine List.map_congr_left fun kv _ => ?_
      dsimp only [Function.comp]
      split <;> rfl
    rw [List.foldl_cons, ih hks _ fun k' hk' => hkeys ▸ h k' (List.mem_cons_of_mem _ hk'), hvisit,
      List.map_map]
    refine List.map_congr_left fun kv _ => ?_
    dsimp only [Function.comp]
    by_cases hkv : kv.1 = k
    · simp [hkv, hk, entry]
    · simp [hkv]

theorem call_items (d : EventDict α) : (r.call d).items = d.items.map r.entry := by
  refine (r.foldl_visit d.nodup d fun _ => id).trans ?_
  exact List.map_congr_left fun kv hkv => if_pos (List.mem_map_of_mem hkv)

theorem at_redact {v w : Value α} (h : At path v w) (hpath : ∀ k, .key k ∈ path → ¬r.redacts k) :
    At path (r.redact v) (r.redact w) := by
  induction h with
  | here => exact .here
  | field hx _ ih =>
    rw [redact_dict]
    refine .field ?_ (ih fun k' hk' => hpath k' (List.mem_cons_of_mem _ hk'))
    exact List.mem_map.mpr ⟨_, hx, by rw [entry, if_neg (hpath _ List.mem_cons_self)]⟩
  | item hx _ ih =>
    rw [redact_list]
    refine .item ?_ (ih fun k' hk' => hpath k' (List.mem_cons_of_mem _ hk'))
    rw [List.getElem?_map, hx]
    rfl

theorem of_at_redact {v w : Value α} (h : At (path ++ [.key k]) (r.redact v) w) :
    ∃ u, At (path ++ [.key k]) v u ∧ (∀ k', .key k' ∈ path → ¬r.redacts k') ∧
      w = (r.entry (k, u)).2 := by
  induction path generalizing v with
  | nil =>
    cases v with
    | dict items =>
      rw [redact_dict] at h
      cases h with
      | field hx hw =>
        obtain ⟨⟨_, u⟩, hu, hx⟩ := List.mem_map.mp hx
        cases hx
        cases hw
        exact ⟨u, .field hu .here, nofun, rfl⟩
    | list items => rw [redact] at h; cases h
    | str => rw [redact] at h; cases h
    | other => rw [redact] at h; cases h
  | cons p path ih =>
    cases v with
    | dict items =>
      rw [redact_dict] at h
      cases h with
      | field hx hw =>
        obtain ⟨⟨k', u⟩, hu, hx⟩ := List.mem_map.mp hx
        cases hx
        by_cases hk' : r.redacts k'
        · change At _ (if r.redacts k' then marker else _) w at hw
          rw [if_pos hk'] at hw
          cases path <;> cases hw
        · change At _ (if r.redacts k' then marker else _) w at hw
          rw [if_neg hk'] at hw
          obtain ⟨u', hu', hpath, he⟩ := ih hw
          refine ⟨u', .field hu hu', ?_, he⟩
          rintro k'' (_ | ⟨_, hk''⟩)
          · exact hk'
          · exact hpath k'' hk''
    | list items =>
      rw [redact_list] at h
      cases h with
      | item hx hw =>
        rw [List.getElem?_map] at hx
        obtain ⟨u, hu, rfl⟩ := Option.map_eq_some_iff.mp hx
        obtain ⟨u', hu', hpath, he⟩ := ih hw
        refine ⟨u', .item hu hu', ?_, he⟩
        rintro k'' (_ | ⟨_, hk''⟩)
        exact hpath k'' hk''
    | str => rw [redact] at h; cases h
    | other => rw [redact] at h; cases h

theorem call_at (d : EventDict α) :
    (r.call d).At path v ↔ At path (r.redact (.dict d.items)) v := by
  rw [EventDict.At, call_items, redact_dict]

theorem minimal (d : EventDict α) : r.Minimal d := by
  intro path v hpath hv h
  rw [call_at, ← r.redact_leaf hv]
  exact r.at_redact h fun k hk hr => hpath k hk (redacts.sensitive r hr)

theorem complete_iff (d : EventDict α) : r.Complete d ↔ r.LowerMet d := by
  constructor
  · intro h path k v hat hpath hk
    by_cases hr : r.redacts k
    · exact .inl hr
    · have hpath' : ∀ k', .key k' ∈ path ++ [Place.key k] → ¬r.redacts k' := by
        intro k' hk'
        rcases List.mem_append.mp hk' with hk' | hk'
        · exact hpath k' hk'
        · cases List.mem_singleton.mp hk'
          exact hr
      have := h path k (r.redact v) hk ((r.call_at d).mpr (r.at_redact hat hpath'))
      exact .inr (r.redact_eq_marker this)
  · intro h path k v hk hat
    obtain ⟨u, hu, hpath, rfl⟩ := r.of_at_redact ((r.call_at d).mp hat)
    unfold entry
    split <;> rename_i hr
    · rfl
    · rcases h path k u hu hpath hk with hr' | rfl
      · exact absurd hr' hr
      · exact r.redact_leaf rfl

/-- Redaction is complete and minimal exactly for the events that meet a configured key in no other
form than a configured lower-case one. -/
theorem redacted_iff (d : EventDict α) : r.Complete d ∧ r.Minimal d ↔ r.LowerMet d :=
  (and_iff_left (r.minimal d)).trans (r.complete_iff d)

theorem redacts_all_iff [Inhabited α] :
    (∀ d : EventDict α, r.Complete d ∧ r.Minimal d) ↔ ∀ c ∈ r.keys, r.redacts c := by
  simp only [redacted_iff]
  constructor
  · intro h c hc
    let d : EventDict α := ⟨[(c, .other default)], by simp⟩
    have hat : d.At ([] ++ [.key c]) (.other default) := .field List.mem_cons_self .here
    rcases h d [] c _ hat (by simp) ⟨c, hc, rfl⟩ with hr | hv
    · exact hr
    · cases hv
  · rintro h d path k v - - ⟨c, hc, hk⟩
    refine .inl (decide_eq_true ?_)
    rw [hk]
    exact of_decide_eq_true (h c hc)

end RedactSensitiveKeys

/-- `redact_keys=["API_Key"]`: the event's key is lowered, the configured one is not. -/
theorem key_leaks :
    ((RedactSensitiveKeys.init .ascii (some [py "API_Key"])).call
        (⟨[(py "API_Key", .str (py "sk-1"))], List.nodup_singleton _⟩ : EventDict Unit)).items =
          [(py "API_Key", .str (py "sk-1"))] ∧
      ¬(RedactSensitiveKeys.init .ascii (some [py "API_Key"])).Complete
        (⟨[(py "API_Key", .str (py "sk-1"))], List.nodup_singleton _⟩ : EventDict Unit) := by
  have hr : ¬(RedactSensitiveKeys.init .ascii (some [py "API_Key"])).redacts (py "API_Key") := by
    decide
  have hcall : ((RedactSensitiveKeys.init .ascii (some [py "API_Key"])).call
      (⟨[(py "API_Key", .str (py "sk-1"))], List.nodup_singleton _⟩ : EventDict Unit)).items =
        [(py "API_Key", .str (py "sk-1"))] := by
    rw [RedactSensitiveKeys.call_items, List.map_singleton, RedactSensitiveKeys.entry, if_neg hr,
      RedactSensitiveKeys.redact]
  refine ⟨hcall, fun h => ?_⟩
  have hmem : (py "API_Key", Value.str (py "sk-1")) ∈
      ((RedactSensitiveKeys.init .ascii (some [py "API_Key"])).call
        (⟨[(py "API_Key", .str (py "sk-1"))], List.nodup_singleton _⟩ : EventDict Unit)).items := by
    rw [hcall]
    exact List.mem_singleton_self _
  cases h [] _ _ ⟨_, List.mem_singleton_self _, rfl⟩ (.field hmem .here)

end PrismPipe.Redaction
