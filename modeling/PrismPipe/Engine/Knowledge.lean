import PrismPipe.Lib.Table
import PrismPipe.Lib.Transition
import Mathlib.Algebra.Order.Field.Rat
import Mathlib.Tactic.NormNum

/-! What organisms know and how sure they are of it, as it is ingested, spawned with and
inherited. -/

namespace PrismPipe.Engine.Knowledge

open Transition

structure KnowledgeAtom (K V : Type) where
  key : K
  value : V
  confidence : ℚ

/-- `knowledge`, with `_knowledge_index`. -/
abbrev KnowledgeIndex (K V : Type) := Table (KnowledgeAtom K V) KnowledgeAtom.key

variable {K V : Type}

/-- What `ingest_knowledge` makes of an atom it finds. -/
def KnowledgeAtom.again (existing : KnowledgeAtom K V) (value : V) (confidence : ℚ) :
    KnowledgeAtom K V :=
  { existing with value, confidence := max existing.confidence confidence }

@[simp] theorem again_key (existing : KnowledgeAtom K V) (value : V) (confidence : ℚ) :
    (existing.again value confidence).key = existing.key := rfl

def KnowledgeAtom.discount (atom : KnowledgeAtom K V) (factor : ℚ) : KnowledgeAtom K V :=
  { atom with confidence := atom.confidence * factor }

section Ingest

variable [DecidableEq K]

def ingestKnowledge (o : KnowledgeIndex K V) (key : K) (value : V) (confidence : ℚ) :
    KnowledgeIndex K V :=
  match o.insert ⟨key, value, confidence⟩ with
  | none => o.update (fun existing => existing.key = key) (·.again value confidence)
      fun existing => again_key existing value confidence
  | some o' => o'

def merge (existing : Option (KnowledgeAtom K V)) (atom : KnowledgeAtom K V) : KnowledgeAtom K V :=
  match existing with
  | none => atom
  | some existing => existing.again atom.value atom.confidence

def ingestAtom (o : KnowledgeIndex K V) (atom : KnowledgeAtom K V) : KnowledgeIndex K V :=
  ingestKnowledge o atom.key atom.value atom.confidence

end Ingest

structure Population (K V : Type) where
  organisms : List (KnowledgeIndex K V)
  ingested : List (Nat × KnowledgeAtom K V)

inductive Call (K V : Type)
  | create
  | ingestKnowledge (i : Nat) (key : K) (value : V) (confidence : ℚ)
  | spawnChild (i : Nat)
  | inheritFrom (i parent : Nat) (inheritKnowledge : Bool)
  /-- With what `find_similar` puts first, if it finds any. -/
  | inheritFromSimilar (i : Nat) (best : Option Nat)

namespace Population

def passedOn (s : Population K V) (i : Nat) (threshold factor : ℚ) : List (KnowledgeAtom K V) :=
  match s.organisms[i]? with
  | none => []
  | some o => (o.rows.filter fun atom => threshold < atom.confidence).map (·.discount factor)

def create (s : Population K V) : Population K V :=
  { s with organisms := s.organisms ++ [⟨[], List.nodup_nil⟩] }

variable [DecidableEq K]

def ingest (s : Population K V) (i : Nat) (atom : KnowledgeAtom K V) : Population K V where
  organisms := s.organisms.modify i (ingestAtom · atom)
  ingested := s.ingested ++ [(i, atom)]

def spawnChild (s : Population K V) (i : Nat) : Population K V :=
  (s.passedOn i (1 / 2) (9 / 10)).foldl (fun t atom => t.ingest s.organisms.length atom) s.create

def inheritFrom (s : Population K V) (i parent : Nat) (inheritKnowledge : Bool) :
    Population K V :=
  if inheritKnowledge then
    (s.passedOn parent (3 / 10) (8 / 10)).foldl (fun t atom => t.ingest i atom) s
  else s

def inheritFromSimilar (s : Population K V) (i : Nat) (best : Option Nat) : Population K V :=
  match best with
  | none => s
  | some parent => s.inheritFrom i parent true

def apply (s : Population K V) : Call K V → Population K V
  | .create => s.create
  | .ingestKnowledge i key value confidence => s.ingest i ⟨key, value, confidence⟩
  | .spawnChild i => s.spawnChild i
  | .inheritFrom i parent inheritKnowledge => s.inheritFrom i parent inheritKnowledge
  | .inheritFromSimilar i best => s.inheritFromSimilar i best

/-- `query_knowledge` -/
def queryKnowledge (s : Population K V) (key : K) (minConfidence : ℚ) :
    List (Nat × KnowledgeAtom K V) :=
  s.organisms.zipIdx.filterMap fun (o, i) =>
    ((o.select key).filter fun atom => minConfidence ≤ atom.confidence).map fun atom => (i, atom)

end Population

def Call.Names (s : Population K V) : Call K V → Prop
  | .create => True
  | .ingestKnowledge i .. | .spawnChild i | .inheritFromSimilar i none => i < s.organisms.length
  | .inheritFrom i parent _ | .inheritFromSimilar i (some parent) =>
    i < s.organisms.length ∧ parent < s.organisms.length

def population (K V : Type) [DecidableEq K] : System (Population K V) (Call K V) where
  init s := s = ⟨[], []⟩
  step s c t := c.Names s ∧ t = s.apply c

namespace Population

def Sound (s : Population K V) : Prop :=
  ∀ i o, s.organisms[i]? = some o → ∀ atom ∈ o.rows,
    ∃ confidence, (i, ⟨atom.key, atom.value, confidence⟩) ∈ s.ingested ∧
      atom.confidence ≤ confidence

def Outweighs (s : Population K V) (i : Nat) (atom : KnowledgeAtom K V) : Prop :=
  ∀ o, s.organisms[i]? = some o → ∀ existing ∈ o.rows, existing.key = atom.key →
    existing.confidence ≤ atom.confidence ∨
      ∃ confidence, (i, ⟨atom.key, atom.value, confidence⟩) ∈ s.ingested ∧
        existing.confidence ≤ confidence

def Keeps (s : Population K V) : Call K V → Prop
  | .ingestKnowledge i key value confidence => s.Outweighs i ⟨key, value, confidence⟩
  | .inheritFrom i parent true | .inheritFromSimilar i (some parent) =>
    ∀ atom ∈ s.passedOn parent (3 / 10) (8 / 10), s.Outweighs i atom
  | _ => True

end Population

section Ingest

variable [DecidableEq K]

theorem select_ingestAtom (o : KnowledgeIndex K V) (atom : KnowledgeAtom K V) (key : K) :
    (ingestAtom o atom).select key =
      if atom.key = key then some (merge (o.select key) atom) else o.select key := by
  unfold ingestAtom ingestKnowledge
  split <;> rename_i h
  · obtain ⟨existing, he⟩ : ∃ existing, o.select atom.key = some existing := by
      refine Option.ne_none_iff_exists'.mp fun hn => ?_
      obtain ⟨o', ho'⟩ := Table.insert_eq_some (r := atom) hn
      cases ho'.symm.trans h
    rw [Table.select_update]
    by_cases hk : atom.key = key
    · subst hk
      rw [he, if_pos rfl, Option.map_some, if_pos (decide_eq_true (Table.select_key he))]
      rfl
    · rw [if_neg hk]
      cases hs : o.select key with
      | none => rfl
      | some existing =>
        rw [Option.map_some, if_neg]
        exact fun hd => hk ((of_decide_eq_true hd).symm.trans (Table.select_key hs))
  · rw [Table.select_insert h]
    have hn : o.select atom.key = none := Table.select_none_of_insert h
    by_cases hk : atom.key = key
    · subst hk
      rw [if_pos rfl, if_pos rfl, hn]
      rfl
    · rw [if_neg hk, if_neg hk]

theorem select_foldl_ingestAtom {atoms : List (KnowledgeAtom K V)}
    (hatoms : (atoms.map (·.key)).Nodup) (o : KnowledgeIndex K V) (key : K) :
    (atoms.foldl ingestAtom o).select key =
      ((atoms.find? fun atom => atom.key = key).map (merge (o.select key))).or (o.select key) := by
  induction atoms generalizing o with
  | nil => rfl
  | cons atom atoms ih =>
    obtain ⟨hatom, hatoms⟩ := List.nodup_cons.mp hatoms
    rw [List.foldl_cons, ih hatoms, select_ingestAtom, List.find?_cons]
    by_cases hk : atom.key = key
    · subst hk
      have hnone : atoms.find? (fun other => other.key = atom.key) = none := by
        refine List.find?_eq_none.mpr fun other ho hd => hatom ?_
        exact List.mem_map.mpr ⟨other, ho, of_decide_eq_true hd⟩
      simp [hnone]
    · simp [hk]

end Ingest

namespace Population

variable {s t : Population K V}

theorem passedOn_nodup (s : Population K V) (i : Nat) (threshold factor : ℚ) :
    ((s.passedOn i threshold factor).map (·.key)).Nodup := by
  unfold passedOn
  split
  · exact List.nodup_nil
  · rename_i o _
    rw [List.map_map]
    exact o.unique.sublist (List.filter_sublist.map _)

variable [DecidableEq K]

def give (s : Population K V) (i : Nat) (atoms : List (KnowledgeAtom K V)) : Population K V :=
  atoms.foldl (fun t atom => t.ingest i atom) s

theorem give_ingested (s : Population K V) (i : Nat) (atoms : List (KnowledgeAtom K V)) :
    (s.give i atoms).ingested = s.ingested ++ atoms.map fun atom => (i, atom) := by
  induction atoms generalizing s with
  | nil => exact (List.append_nil _).symm
  | cons atom atoms ih =>
    refine (ih (s.ingest i atom)).trans ?_
    simp [ingest]

theorem give_organisms (s : Population K V) (i j : Nat) (atoms : List (KnowledgeAtom K V)) :
    (s.give i atoms).organisms[j]? =
      s.organisms[j]?.map fun o => if i = j then atoms.foldl ingestAtom o else o := by
  induction atoms generalizing s with
  | nil =>
    cases h : s.organisms[j]? <;> simp [give, h]
  | cons atom atoms ih =>
    refine (ih (s.ingest i atom)).trans ?_
    rw [ingest, List.getElem?_modify, Option.map_eq_map, Option.map_map]
    congr 1
    funext o
    dsimp only [Function.comp]
    split <;> rfl

theorem outweighs_of_give {i : Nat} {atoms : List (KnowledgeAtom K V)}
    (hatoms : (atoms.map (·.key)).Nodup) (hgive : (s.give i atoms).Sound) (hatom : atom ∈ atoms) :
    s.Outweighs i atom := by
  intro o ho existing he hkey
  let given : KnowledgeIndex K V := ⟨atoms, hatoms⟩
  have hgiven : ∀ a ∈ atoms, given.select a.key = some a := fun a ha =>
    Table.select_iff.mpr ⟨ha, rfl⟩
  have hselect : (atoms.foldl ingestAtom o).select atom.key =
      some (existing.again atom.value atom.confidence) := by
    have hfind : atoms.find? (fun a => a.key = atom.key) = some atom := hgiven atom hatom
    rw [select_foldl_ingestAtom hatoms, hfind, ← hkey, Table.select_of_mem he]
    rfl
  have ho' : (s.give i atoms).organisms[i]? = some (atoms.foldl ingestAtom o) := by
    rw [give_organisms, ho, Option.map_some, if_pos rfl]
  obtain ⟨confidence, hmem, hle⟩ := hgive i _ ho' _ (Table.select_mem hselect)
  have hex : existing.confidence ≤ confidence := (le_max_left _ _).trans hle
  rw [again_key, hkey, give_ingested] at hmem
  rcases List.mem_append.mp hmem with hmem | hmem
  · exact .inr ⟨confidence, hmem, hex⟩
  · obtain ⟨a, ha, he⟩ := List.mem_map.mp hmem
    cases he
    have heq := Option.some.inj ((hgiven _ ha).symm.trans (hgiven atom hatom))
    exact .inl (hex.trans_eq (congrArg KnowledgeAtom.confidence heq))

theorem merge_key (o : KnowledgeIndex K V) (atom : KnowledgeAtom K V) :
    (merge (o.select atom.key) atom).key = atom.key := by
  cases hs : o.select atom.key with
  | none => rfl
  | some existing => exact (Table.select_key hs : existing.key = atom.key)

omit [DecidableEq K] in
theorem merge_value (existing : Option (KnowledgeAtom K V)) (atom : KnowledgeAtom K V) :
    (merge existing atom).value = atom.value := by
  cases existing <;> rfl

theorem Outweighs.merge_le {i : Nat} {o : KnowledgeIndex K V} (h : s.Outweighs i atom)
    (ho : s.organisms[i]? = some o) :
    ∃ confidence,
      ((i, ⟨atom.key, atom.value, confidence⟩) ∈ s.ingested ∨ confidence = atom.confidence) ∧
        (merge (o.select atom.key) atom).confidence ≤ confidence := by
  cases hs : o.select atom.key with
  | none => exact ⟨_, .inr rfl, le_rfl⟩
  | some existing =>
    rcases h o ho existing (Table.select_mem hs) (Table.select_key hs) with
      hle | ⟨confidence, hmem, hle⟩
    · exact ⟨_, .inr rfl, max_le hle le_rfl⟩
    · rcases le_total atom.confidence confidence with hc | hc
      · exact ⟨_, .inl hmem, max_le hle hc⟩
      · exact ⟨_, .inr rfl, max_le (hle.trans hc) le_rfl⟩

theorem Sound.give (h : s.Sound) {i : Nat} {atoms : List (KnowledgeAtom K V)}
    (hatoms : (atoms.map (·.key)).Nodup) (hall : ∀ atom ∈ atoms, s.Outweighs i atom) :
    (s.give i atoms).Sound := by
  have hbefore : ∀ p ∈ s.ingested, p ∈ s.ingested ++ atoms.map fun atom => (i, atom) :=
    fun p hp => List.mem_append_left _ hp
  intro j o' ho' atom' hatom'
  rw [give_organisms] at ho'
  obtain ⟨o, ho, rfl⟩ := Option.map_eq_some_iff.mp ho'
  rw [give_ingested]
  by_cases hij : i = j
  · subst hij
    rw [if_pos rfl] at hatom'
    have hselect := Table.select_of_mem hatom'
    rw [select_foldl_ingestAtom hatoms] at hselect
    cases hfind : atoms.find? (fun a => a.key = atom'.key) with
    | none =>
      rw [hfind] at hselect
      obtain ⟨confidence, hmem, hle⟩ := h i o ho atom' (Table.select_mem hselect)
      exact ⟨confidence, hbefore _ hmem, hle⟩
    | some atom =>
      have hatom : atom ∈ atoms := List.mem_of_find?_eq_some hfind
      have hkey : atom.key = atom'.key := of_decide_eq_true (List.find?_some hfind :)
      rw [hfind, Option.map_some, Option.some_or, ← hkey] at hselect
      obtain ⟨confidence, hmem, hle⟩ := (hall atom hatom).merge_le ho
      rw [← Option.some.inj hselect, merge_key, merge_value]
      refine ⟨confidence, ?_, hle⟩
      rcases hmem with hmem | rfl
      · exact hbefore _ hmem
      · exact List.mem_append_right _ (List.mem_map_of_mem hatom)
  · rw [if_neg hij] at hatom'
    obtain ⟨confidence, hmem, hle⟩ := h j o ho atom' hatom'
    exact ⟨confidence, hbefore _ hmem, hle⟩

theorem Sound.give_iff (h : s.Sound) {i : Nat} {atoms : List (KnowledgeAtom K V)}
    (hatoms : (atoms.map (·.key)).Nodup) :
    (s.give i atoms).Sound ↔ ∀ atom ∈ atoms, s.Outweighs i atom :=
  ⟨fun hgive _ hatom => outweighs_of_give hatoms hgive hatom, h.give hatoms⟩

omit [DecidableEq K] in
theorem Sound.create (h : s.Sound) : s.create.Sound := by
  intro i o ho atom hatom
  rw [Population.create, List.getElem?_append] at ho
  split at ho
  · exact h i o ho atom hatom
  · cases List.mem_singleton.mp (List.mem_of_getElem? ho)
    cases hatom

omit [DecidableEq K] in
theorem outweighs_create (s : Population K V) (atom : KnowledgeAtom K V) :
    s.create.Outweighs s.organisms.length atom := by
  intro o ho existing he
  have : o = ⟨[], List.nodup_nil⟩ := by
    simpa [Population.create] using ho.symm
  rw [this] at he
  cases he

theorem Sound.apply_iff (h : s.Sound) (c : Call K V) : (s.apply c).Sound ↔ s.Keeps c := by
  cases c with
  | create => exact iff_of_true h.create trivial
  | ingestKnowledge i key value confidence =>
    have hatoms : ([(⟨key, value, confidence⟩ : KnowledgeAtom K V)].map (·.key)).Nodup :=
      List.nodup_singleton _
    exact (h.give_iff hatoms).trans List.forall_mem_singleton
  | spawnChild i =>
    refine iff_of_true ?_ trivial
    refine (h.create.give_iff (s.passedOn_nodup i _ _)).mpr fun atom _ => ?_
    exact s.outweighs_create atom
  | inheritFrom i parent inheritKnowledge =>
    cases inheritKnowledge with
    | true => exact h.give_iff (s.passedOn_nodup parent _ _)
    | false => exact iff_of_true h trivial
  | inheritFromSimilar i best =>
    cases best with
    | none => exact iff_of_true h trivial
    | some parent => exact h.give_iff (s.passedOn_nodup parent _ _)

theorem Sound.queryKnowledge (h : s.Sound) (hq : (i, atom) ∈ s.queryKnowledge key minConfidence) :
    ∃ confidence, (i, ⟨key, atom.value, confidence⟩) ∈ s.ingested ∧ minConfidence ≤ confidence := by
  obtain ⟨⟨o, j⟩, hmem, hsome⟩ := List.mem_filterMap.mp hq
  obtain ⟨known, hknown, he⟩ := Option.map_eq_some_iff.mp hsome
  obtain ⟨hselect, hle⟩ := Option.filter_eq_some_iff.mp hknown
  cases he
  obtain ⟨confidence, hlog, hconf⟩ := h _ o (List.mem_zipIdx_iff_getElem?.mp hmem) _
    (Table.select_mem hselect)
  rw [Table.select_key hselect] at hlog
  exact ⟨confidence, hlog, (of_decide_eq_true hle).trans hconf⟩

/-- No sequence of calls leaves an organism surer of a value than it was told, exactly if nothing
that is ingested replaces what is surer than itself. -/
theorem confidence_sound_iff (hr : Run (population K V) ⟨[], []⟩ cs t) :
    (∀ before after u, cs = before ++ after → Run (population K V) ⟨[], []⟩ before u → u.Sound) ↔
      Keeping (population K V) Keeps ⟨[], []⟩ cs := by
  refine Run.keeping_iff (G := Sound) id ?_ ?_ ?_ hr ?_
  · rintro s c _ h ⟨-, rfl⟩ ht
    exact (h.apply_iff c).mp ht
  · rintro s c _ h ⟨-, rfl⟩ hk
    exact (h.apply_iff c).mpr hk
  · rintro s c t u ⟨-, rfl⟩ ⟨-, rfl⟩
    rfl
  · intro i o ho
    cases ho

theorem confidence_kept :
    ∃ t, Run (population String String) ⟨[], []⟩ [.create, .ingestKnowledge 0 "goal" "a" (9 / 10),
      .spawnChild 0] t ∧ t.Sound := by
  have hr : Run (population String String) ⟨[], []⟩
      [.create, .ingestKnowledge 0 "goal" "a" (9 / 10), .spawnChild 0] _ :=
    .cons ⟨trivial, rfl⟩ (.cons ⟨Nat.zero_lt_one, rfl⟩ (.single ⟨Nat.zero_lt_one, rfl⟩))
  have hS : ∀ {s : Population String String} {e t u}, (population String String).step s e t →
      (population String String).step s e u → t = u := by
    rintro s e t u ⟨-, rfl⟩ ⟨-, rfl⟩
    rfl
  have hk : Keeping (population String String) Keeps ⟨[], []⟩
      [.create, .ingestKnowledge 0 "goal" "a" (9 / 10), .spawnChild 0] := by
    refine .cons hS ⟨trivial, rfl⟩ trivial (.cons hS ⟨Nat.zero_lt_one, rfl⟩ ?_
      (.cons hS ⟨Nat.zero_lt_one, rfl⟩ trivial .nil))
    intro o ho existing he
    cases ho
    cases he
  exact ⟨_, hr, (confidence_sound_iff hr).mpr hk _ [] _ rfl hr⟩

def told : Population String String :=
  ((((⟨[], []⟩ : Population String String).apply .create).apply
    (.ingestKnowledge 0 "goal" "a" (9 / 10))).apply (.ingestKnowledge 0 "goal" "b" (1 / 10)))

theorem told_rows : told.organisms.map (·.rows) = [[⟨"goal", "b", 9 / 10⟩]] := by
  have hrows : told.organisms.map (·.rows) = [[⟨"goal", "b", max (9 / 10) (1 / 10)⟩]] := rfl
  have hmax : max (9 / 10 : ℚ) (1 / 10) = 9 / 10 := by norm_num
  rwa [hmax] at hrows

/-- The value told less surely has taken over the confidence of the other one. -/
theorem confidence_taken_over :
    Run (population String String) ⟨[], []⟩ [.create, .ingestKnowledge 0 "goal" "a" (9 / 10),
      .ingestKnowledge 0 "goal" "b" (1 / 10)] told ∧
      told.organisms.map (·.rows) = [[⟨"goal", "b", 9 / 10⟩]] ∧
      (0, ⟨"goal", "b", 1 / 10⟩) ∈ told.ingested ∧ ¬told.Sound := by
  refine ⟨.cons ⟨trivial, rfl⟩ (.cons ⟨Nat.zero_lt_one, rfl⟩ (.single ⟨Nat.zero_lt_one, rfl⟩)),
    told_rows, List.mem_append_right _ (List.mem_singleton_self _), fun h => ?_⟩
  obtain ⟨o, ho, hrows⟩ : ∃ o, told.organisms[0]? = some o ∧ o.rows = [⟨"goal", "b", 9 / 10⟩] :=
    ⟨_, rfl, (List.cons.inj told_rows).1⟩
  obtain ⟨confidence, hmem, hle⟩ := h 0 o ho ⟨"goal", "b", 9 / 10⟩
    (hrows ▸ List.mem_singleton_self _)
  have hmem : (0, (⟨"goal", "b", confidence⟩ : KnowledgeAtom String String)) ∈
      [(0, ⟨"goal", "a", 9 / 10⟩), (0, ⟨"goal", "b", 1 / 10⟩)] := hmem
  have hconf : confidence = 1 / 10 := by simpa using hmem
  norm_num [hconf] at hle

end Population

end PrismPipe.Engine.Knowledge
