import Mathlib.Data.List.AList
import Mathlib.Data.List.Nodup
import Mathlib.Data.List.Perm.Basic

/-! A table of rows under one `UNIQUE` column: the reads and writes of SQL that address rows by
that column.  Uniqueness is a field, so no write can break it. -/

universe u v

namespace PrismPipe

section Lookup

variable {α : Type u} {κ : Type v} [DecidableEq κ] {d : AList fun _ : κ => α} {j k : κ} {v w : α}

theorem lookup_of_erase (h : (d.erase k).lookup j = some v) : j ≠ k ∧ d.lookup j = some v := by
  by_cases hj : j = k
  · subst hj
    rw [AList.lookup_erase] at h
    cases h
  · rw [AList.lookup_erase_ne hj] at h
    exact ⟨hj, h⟩

theorem lookup_of_insert (h : (d.insert k w).lookup j = some v) :
    j = k ∧ v = w ∨ j ≠ k ∧ d.lookup j = some v := by
  by_cases hj : j = k
  · subst hj
    rw [AList.lookup_insert] at h
    exact .inl ⟨rfl, (Option.some.inj h).symm⟩
  · rw [AList.lookup_insert_ne hj] at h
    exact .inr ⟨hj, h⟩

end Lookup

structure Table (ρ : Type u) {κ : Type v} (key : ρ → κ) where
  rows : List ρ
  unique : (rows.map key).Nodup

namespace Table

variable {ρ : Type u} {κ : Type v} [DecidableEq κ] {key : ρ → κ}

def empty : Table ρ key := ⟨[], List.nodup_nil⟩

/-- `SELECT * ... WHERE key = ?` then `fetchone`. -/
def select (t : Table ρ key) (k : κ) : Option ρ := t.rows.find? (fun r => key r = k)

/-- `UPDATE ... SET f WHERE p` on columns other than the unique one. -/
def update (t : Table ρ key) (p : ρ → Bool) (f : ρ → ρ) (hf : ∀ r, key (f r) = key r) :
    Table ρ key where
  rows := t.rows.map fun r => if p r then f r else r
  unique := by
    have h : (t.rows.map fun r => if p r then f r else r).map key = t.rows.map key := by
      rw [List.map_map]
      apply List.map_congr_left
      intro r _
      by_cases hp : p r <;> simp [hp, hf]
    rw [h]
    exact t.unique

/-- `cursor.rowcount` of an `UPDATE ... WHERE p`. -/
def rowcount (t : Table ρ key) (p : ρ → Bool) : Nat := t.rows.countP p

/-- `INSERT`, which fails on a row whose key is present. -/
def insert (t : Table ρ key) (r : ρ) : Option (Table ρ key) :=
  if h : key r ∈ t.rows.map key then none
  else some ⟨t.rows ++ [r], by
    rw [List.map_append, List.nodup_append]
    refine ⟨t.unique, by simp, ?_⟩
    intro a ha b hb
    rw [List.map_singleton, List.mem_singleton] at hb
    exact fun e => h (hb ▸ e ▸ ha)⟩

omit [DecidableEq κ] in
@[ext] theorem ext {t u : Table ρ key} (h : t.rows = u.rows) : t = u := by
  cases t
  cases u
  simp_all

@[simp] theorem select_empty (k : κ) : (empty : Table ρ key).select k = none := rfl

theorem select_key {t : Table ρ key} (h : t.select k = some r) : key r = k := by
  simpa using List.find?_some h

theorem select_mem {t : Table ρ key} (h : t.select k = some r) : r ∈ t.rows :=
  List.mem_of_find?_eq_some h

theorem select_eq_none {t : Table ρ key} : t.select k = none ↔ k ∉ t.rows.map key := by
  simp [select, List.find?_eq_none]

theorem select_of_mem {t : Table ρ key} (h : r ∈ t.rows) : t.select (key r) = some r := by
  obtain ⟨rows, unique⟩ := t
  simp only [select] at *
  induction rows with
  | nil => cases h
  | cons a l ih =>
    rw [List.map_cons, List.nodup_cons] at unique
    rw [List.find?_cons]
    by_cases ha : key a = key r
    · rcases List.mem_cons.mp h with rfl | hr
      · simp
      · exact absurd (ha ▸ List.mem_map_of_mem hr) unique.1
    · rcases List.mem_cons.mp h with rfl | hr
      · exact absurd rfl ha
      · simpa [ha] using ih unique.2 hr

theorem select_iff {t : Table ρ key} : t.select k = some r ↔ r ∈ t.rows ∧ key r = k := by
  constructor
  · exact fun h => ⟨select_mem h, select_key h⟩
  · rintro ⟨h, rfl⟩
    exact select_of_mem h

theorem select_update (t : Table ρ key) (p : ρ → Bool) (f : ρ → ρ) (hf : ∀ r, key (f r) = key r)
    (k : κ) : (t.update p f hf).select k =
      (t.select k).map fun r => if p r then f r else r := by
  obtain ⟨rows, unique⟩ := t
  simp only [select, update]
  clear unique
  induction rows with
  | nil => rfl
  | cons a l ih =>
    have hk : key (if p a then f a else a) = key a := by by_cases hp : p a <;> simp [hp, hf]
    rw [List.map_cons, List.find?_cons, List.find?_cons, hk]
    by_cases ha : key a = k
    · simp [ha]
    · simpa [ha] using ih

theorem select_insert {t u : Table ρ key} (h : t.insert r = some u) (k : κ) :
    u.select k = if key r = k then some r else t.select k := by
  unfold insert at h
  split at h
  · cases h
  next hn =>
    cases h
    rw [select, List.find?_append]
    by_cases hk : key r = k
    · subst hk
      have : t.rows.find? (fun s => key s = key r) = none := select_eq_none.mpr hn
      simp [this]
    · simp [hk, select]

theorem insert_eq_some {t : Table ρ key} {r : ρ} (h : t.select (key r) = none) :
    ∃ u, t.insert r = some u := by
  simp [insert, select_eq_none.mp h]

theorem select_none_of_insert {t u : Table ρ key} {r : ρ} (h : t.insert r = some u) :
    t.select (key r) = none := by
  unfold insert at h
  split at h
  · cases h
  · rename_i hn
    exact select_eq_none.mpr hn

theorem mem_insert {t u : Table ρ key} (h : t.insert r = some u) {s : ρ} :
    s ∈ u.rows ↔ s ∈ t.rows ∨ s = r := by
  unfold insert at h
  split at h
  · cases h
  · cases h
    simp

/-- `u` is `t` but for the row of `k`, which is `r`. -/
def Sets (t : Table ρ key) (k : κ) (r : ρ) (u : Table ρ key) : Prop :=
  ∀ k', u.select k' = if k = k' then some r else t.select k'

theorem Sets.select {t u : Table ρ key} (h : t.Sets k r u) : u.select k = some r := by
  rw [h, if_pos rfl]

theorem Sets.select_ne {t u : Table ρ key} (h : t.Sets k r u) (hk : k ≠ k') :
    u.select k' = t.select k' := by
  rw [h, if_neg hk]

theorem Sets.trans {t u v : Table ρ key} (h : t.Sets k r u) (h' : u.Sets k q v) :
    t.Sets k q v := by
  intro k'
  rw [h' k', h k']
  split <;> rfl

theorem insert_sets {t u : Table ρ key} (h : t.insert r = some u) : t.Sets (key r) r u :=
  select_insert h

theorem update_sets {t : Table ρ key} {p : ρ → Bool} {f : ρ → ρ} {hf : ∀ r, key (f r) = key r}
    (h : t.select k = some r) (hr : p r) (hp : ∀ s, p s → key s = k) :
    t.Sets k (f r) (t.update p f hf) := by
  intro k'
  rw [select_update]
  by_cases hk : k = k'
  · rw [if_pos hk, ← hk, h, Option.map_some, if_pos hr]
  · rw [if_neg hk]
    cases hs : t.select k' with
    | none => rfl
    | some s =>
      have hps : ¬ p s := fun hps => hk ((hp s hps).symm.trans (select_key hs))
      rw [Option.map_some, if_neg hps]

theorem update_key_sets {t : Table ρ key} {f : ρ → ρ} {hf : ∀ r, key (f r) = key r}
    (h : t.select k = some r) : t.Sets k (f r) (t.update (fun r => key r = k) f hf) :=
  update_sets h (decide_eq_true (select_key h)) fun _ => of_decide_eq_true

theorem update_where_sets {t : Table ρ key} {q : ρ → Bool} {f : ρ → ρ}
    {hf : ∀ r, key (f r) = key r} (h : t.select k = some r) (hq : q r) :
    t.Sets k (f r) (t.update (fun r => key r = k && q r) f hf) :=
  update_sets h (by simp [select_key h, hq]) fun _ hs =>
    of_decide_eq_true (Bool.and_eq_true_iff.mp hs).1

omit [DecidableEq κ] in
theorem update_eq_self {t : Table ρ key} {p : ρ → Bool} {f : ρ → ρ}
    {hf : ∀ r, key (f r) = key r} (h : ∀ r ∈ t.rows, ¬ p r) : t.update p f hf = t := by
  apply Table.ext
  change (t.rows.map fun r => if p r then f r else r) = t.rows
  rw [List.map_congr_left fun r hr => if_neg (h r hr), List.map_id']

theorem update_key_self {t : Table ρ key} {f : ρ → ρ} {hf : ∀ r, key (f r) = key r}
    (h : t.select k = none) : t.update (fun r => key r = k) f hf = t := by
  refine update_eq_self fun r hr hp => ?_
  rw [select_iff.mpr ⟨hr, of_decide_eq_true hp⟩] at h
  cases h

theorem update_where_self {t : Table ρ key} {q : ρ → Bool} {f : ρ → ρ}
    {hf : ∀ r, key (f r) = key r} (h : ∀ r, t.select k = some r → ¬ q r) :
    t.update (fun r => key r = k && q r) f hf = t := by
  refine update_eq_self fun r hr hp => ?_
  rw [Bool.and_eq_true, decide_eq_true_eq] at hp
  exact h r (select_iff.mpr ⟨hr, hp.1⟩) hp.2

theorem rowcount_eq_one {t : Table ρ key} {k : κ} {q : ρ → Bool} :
    t.rowcount (fun r => key r = k && q r) = 1 ↔ ∃ r, t.select k = some r ∧ q r := by
  obtain ⟨rows, unique⟩ := t
  simp only [rowcount, select]
  induction rows with
  | nil => simp
  | cons a l ih =>
    rw [List.map_cons, List.nodup_cons] at unique
    rw [List.countP_cons, List.find?_cons]
    by_cases ha : key a = k
    · have hl : l.countP (fun r => key r = k && q r) = 0 := by
        rw [List.countP_eq_zero]
        intro r hr
        have : key r ≠ k := fun e => unique.1 (ha ▸ e ▸ List.mem_map_of_mem hr)
        simp [this]
      by_cases hq : q a <;> simp [ha, hq, hl]
    · simpa [ha] using ih unique.2

end Table

end PrismPipe
