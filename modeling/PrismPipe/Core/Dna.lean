import PrismPipe.Lib.Transition
import Mathlib.Algebra.Order.Field.Basic
import Mathlib.Algebra.Order.Ring.Rat
import Mathlib.Data.List.Nodup
import Mathlib.Logic.Function.Basic
import Mathlib.Tactic.NormNum

/-! `PipelineDNA`: genomes, their fitness, and the index of intents, over any sequence of recorded
paths. -/

namespace PrismPipe.Dna

open Transition

structure PipelineGenome where
  path : List String
  successRate : ℚ
  avgLatencyMs : ℚ
  executionCount : Nat
  fitness : ℚ

/-- `"->".join(path)` -/
def pathKey (path : List String) : String := "->".intercalate path

def calculateFitness (successRate latencyMs : ℚ) : ℚ :=
  let latencyScore := max 0 (1 - latencyMs / 10000)
  successRate * (7 / 10) + latencyScore * (3 / 10)

structure Call where
  intent : String
  path : List String
  success : Bool
  latencyMs : ℚ

namespace PipelineGenome

def create (c : Call) : PipelineGenome where
  path := c.path
  successRate := if c.success then 1 else 0
  avgLatencyMs := c.latencyMs
  executionCount := 1
  fitness := calculateFitness (if c.success then 1 else 0) c.latencyMs

def update (g : PipelineGenome) (c : Call) : PipelineGenome :=
  let n : ℚ := (g.executionCount + 1 : Nat)
  { g with
    executionCount := g.executionCount + 1
    avgLatencyMs := (g.avgLatencyMs * (n - 1) + c.latencyMs) / n
    successRate := if c.success then (g.successRate * (n - 1) + 1) / n
      else (g.successRate * (n - 1)) / n }

def key (g : PipelineGenome) : String := pathKey g.path

def calculated (g : PipelineGenome) : ℚ := calculateFitness g.successRate g.avgLatencyMs

end PipelineGenome

/-- The genomes in the order of their creation. An id, a fresh `uuid4`, is the place in it. -/
structure PipelineDNA where
  genomes : List PipelineGenome
  intentIndex : String → List Nat

namespace PipelineDNA

def empty : PipelineDNA := ⟨[], fun _ => []⟩

def recordSuccessfulPath (d : PipelineDNA) (c : Call) : PipelineDNA :=
  match d.genomes.findIdx? fun g => g.key = pathKey c.path with
  | some i => { d with genomes := d.genomes.modify i (·.update c) }
  | none =>
    { genomes := d.genomes ++ [.create c]
      intentIndex := Function.update d.intentIndex c.intent
        (d.intentIndex c.intent ++ [d.genomes.length]) }

def consider (best : Option PipelineGenome × ℚ) (g : PipelineGenome) : Option PipelineGenome × ℚ :=
  if best.2 < g.fitness then (some g, g.fitness) else best

def indexed (d : PipelineDNA) (intent : String) : List PipelineGenome :=
  (d.intentIndex intent).filterMap fun gid => d.genomes[gid]?

def getBestPath (d : PipelineDNA) (intent : String) : Option (List String) :=
  if d.intentIndex intent = [] then none
  else ((d.indexed intent).foldl consider (none, -1)).1.map (·.path)

def profile (d : PipelineDNA) : List (List String × ℚ) := d.genomes.map fun g => (g.path, g.fitness)

def entries (d : PipelineDNA) (intent : String) : List (List String × ℚ) :=
  (d.intentIndex intent).filterMap fun gid => d.profile[gid]?

def genomeOf (d : PipelineDNA) (path : List String) : Option PipelineGenome :=
  d.genomes.find? fun g => g.key = pathKey path

end PipelineDNA

structure Recording where
  dna : PipelineDNA
  recorded : List (String × List String)

def Recording.record (s : Recording) (c : Call) : Recording where
  dna := s.dna.recordSuccessfulPath c
  recorded := s.recorded ++ [(c.intent, c.path)]

def recording : System Recording Call where
  init s := s = ⟨.empty, []⟩
  step s c t := t = s.record c

namespace Recording

def Best (s : Recording) (intent : String) : Option (List String) → Prop
  | none => ∀ path, (intent, path) ∉ s.recorded
  | some path => (intent, path) ∈ s.recorded ∧ ∃ g, s.dna.genomeOf path = some g ∧
      ∀ other, (intent, other) ∈ s.recorded →
        ∃ g', s.dna.genomeOf other = some g' ∧ g'.fitness ≤ g.fitness

structure Sound (s : Recording) : Prop where
  rated : ∀ g ∈ s.dna.genomes, g.fitness = g.calculated
  best : ∀ intent, s.Best intent (s.dna.getBestPath intent)

/-- A path that has its genome already leaves what its averages come to, and is recorded under an
intent with a genome as fit. -/
def Keeps (s : Recording) (c : Call) : Prop :=
  ∀ g, s.dna.genomeOf c.path = some g →
    (g.update c).calculated = g.calculated ∧
      ∃ g' ∈ s.dna.indexed c.intent, g.fitness ≤ g'.fitness

structure Formed (s : Recording) : Prop where
  keys : (s.dna.profile.map fun x => pathKey x.1).Nodup
  nonneg : ∀ x ∈ s.dna.profile, 0 ≤ x.2
  index : ∀ intent, ∀ i ∈ s.dna.intentIndex intent,
    ∃ x, s.dna.profile[i]? = some x ∧ (intent, x.1) ∈ s.recorded
  known : ∀ intent path, (intent, path) ∈ s.recorded →
    ∃ x ∈ s.dna.profile, pathKey x.1 = pathKey path

def Covered (s : Recording) : Prop :=
  ∀ intent path x, (intent, path) ∈ s.recorded → x ∈ s.dna.profile →
    pathKey x.1 = pathKey path → ∃ y ∈ s.dna.entries intent, x.2 ≤ y.2

end Recording

theorem calculateFitness_nonneg (h : 0 ≤ successRate) (latencyMs : ℚ) :
    0 ≤ calculateFitness successRate latencyMs := by
  have hscore : 0 ≤ max 0 (1 - latencyMs / 10000) := le_max_left _ _
  exact add_nonneg (mul_nonneg h (by norm_num)) (mul_nonneg hscore (by norm_num))

theorem create_fitness_nonneg (c : Call) : 0 ≤ (PipelineGenome.create c).fitness := by
  refine calculateFitness_nonneg ?_ _
  split <;> norm_num

namespace PipelineDNA

theorem foldl_consider (gs : List PipelineGenome) (best : Option PipelineGenome × ℚ) :
    (gs.foldl consider best = best ∨ ∃ g ∈ gs, gs.foldl consider best = (some g, g.fitness)) ∧
      best.2 ≤ (gs.foldl consider best).2 ∧ ∀ g ∈ gs, g.fitness ≤ (gs.foldl consider best).2 := by
  induction gs generalizing best with
  | nil => exact ⟨.inl rfl, le_rfl, List.forall_mem_nil _⟩
  | cons g gs ih =>
    obtain ⟨hwho, hle, hall⟩ := ih (consider best g)
    rw [List.foldl_cons]
    by_cases hg : best.2 < g.fitness
    · have hc : consider best g = (some g, g.fitness) := if_pos hg
      rw [hc] at hwho hle hall ⊢
      refine ⟨.inr ?_, hg.le.trans hle, List.forall_mem_cons.mpr ⟨hle, hall⟩⟩
      rcases hwho with hwho | ⟨g', hg', hwho⟩
      · exact ⟨g, List.mem_cons_self, hwho⟩
      · exact ⟨g', List.mem_cons_of_mem _ hg', hwho⟩
    · have hc : consider best g = best := if_neg hg
      rw [hc] at hwho hle hall ⊢
      refine ⟨?_, hle, List.forall_mem_cons.mpr ⟨(not_lt.mp hg).trans hle, hall⟩⟩
      rcases hwho with hwho | ⟨g', hg', hwho⟩
      · exact .inl hwho
      · exact .inr ⟨g', List.mem_cons_of_mem _ hg', hwho⟩

variable {d : PipelineDNA}

theorem getBestPath_none (h : d.indexed intent = []) : d.getBestPath intent = none := by
  unfold getBestPath
  split
  · rfl
  · rw [h]
    rfl

theorem getBestPath_some (hnonneg : ∀ g ∈ d.genomes, 0 ≤ g.fitness) (h : d.indexed intent ≠ []) :
    ∃ g ∈ d.indexed intent, d.getBestPath intent = some g.path ∧
      ∀ g' ∈ d.indexed intent, g'.fitness ≤ g.fitness := by
  obtain ⟨hwho, -, hall⟩ := foldl_consider (d.indexed intent) (none, -1)
  have hindex : d.intentIndex intent ≠ [] := by
    intro he
    exact h (by rw [indexed, he]; rfl)
  rcases hwho with hwho | ⟨g, hg, hwho⟩
  · obtain ⟨g, hg⟩ := List.exists_mem_of_ne_nil _ h
    obtain ⟨i, -, hi⟩ := List.mem_filterMap.mp hg
    have hle : g.fitness ≤ -1 := by
      have := hall g hg
      rwa [hwho] at this
    exact absurd ((hnonneg g (List.mem_of_getElem? hi)).trans hle) (by norm_num)
  · refine ⟨g, hg, ?_, ?_⟩
    · rw [getBestPath, if_neg hindex, hwho]
      rfl
    · rw [hwho] at hall
      exact hall

theorem map_indexed (d : PipelineDNA) (intent : String) :
    (d.indexed intent).map (fun g => (g.path, g.fitness)) = d.entries intent := by
  rw [indexed, entries, List.map_filterMap]
  simp [profile]

theorem mem_entries : y ∈ d.entries intent ↔ ∃ g ∈ d.indexed intent, (g.path, g.fitness) = y := by
  rw [← map_indexed, List.mem_map]

theorem mem_profile_of_entries (h : y ∈ d.entries intent) : y ∈ d.profile := by
  obtain ⟨i, -, hi⟩ := List.mem_filterMap.mp h
  exact List.mem_of_getElem? hi

theorem genomeOf_mem (h : d.genomeOf path = some g) :
    (g.path, g.fitness) ∈ d.profile ∧ pathKey g.path = pathKey path := by
  have hkey := List.find?_some h
  exact ⟨List.mem_map_of_mem (List.mem_of_find?_eq_some h), of_decide_eq_true hkey⟩

theorem exists_genomeOf (hkeys : (d.profile.map fun x => pathKey x.1).Nodup)
    (hx : x ∈ d.profile) (h : pathKey x.1 = pathKey path) :
    ∃ g, d.genomeOf path = some g ∧ (g.path, g.fitness) = x := by
  obtain ⟨g, hg, rfl⟩ := List.mem_map.mp hx
  obtain ⟨g', hg'⟩ : ∃ g', d.genomeOf path = some g' :=
    Option.isSome_iff_exists.mp (List.find?_isSome.mpr ⟨g, hg, decide_eq_true h⟩)
  obtain ⟨hmem, hkey⟩ := genomeOf_mem hg'
  exact ⟨g', hg', List.inj_on_of_nodup_map hkeys hmem hx (hkey.trans h.symm)⟩

theorem recordSuccessfulPath_cases (d : PipelineDNA) (c : Call) :
    (∃ i g, d.genomes[i]? = some g ∧ d.genomeOf c.path = some g ∧
      d.recordSuccessfulPath c = { d with genomes := d.genomes.modify i (·.update c) }) ∨
    d.genomeOf c.path = none ∧ d.recordSuccessfulPath c =
      { genomes := d.genomes ++ [.create c]
        intentIndex := Function.update d.intentIndex c.intent
          (d.intentIndex c.intent ++ [d.genomes.length]) } := by
  have hfind : d.genomeOf c.path =
      (d.genomes.findIdx? fun g => g.key = pathKey c.path).bind (d.genomes[·]?) :=
    List.find?_eq_bind_findIdx?_getElem?
  unfold recordSuccessfulPath
  split <;> rename_i hi
  · rename_i i
    obtain ⟨hlt, -⟩ := List.findIdx?_eq_some_iff_getElem.mp hi
    refine .inl ⟨i, d.genomes[i], List.getElem?_eq_getElem hlt, ?_, rfl⟩
    rw [hfind, hi]
    exact List.getElem?_eq_getElem hlt
  · exact .inr ⟨by rw [hfind, hi]; rfl, rfl⟩

theorem profile_modify (d : PipelineDNA) (c : Call) (i : Nat) :
    ({ d with genomes := d.genomes.modify i (·.update c) } : PipelineDNA).profile = d.profile := by
  refine List.ext_getElem? fun j => ?_
  simp only [profile, List.getElem?_map, List.getElem?_modify, Option.map_eq_map, Option.map_map]
  congr 1
  funext g
  dsimp only [Function.comp]
  split <;> rfl

theorem genomeOf_eq_none (h : d.genomeOf path = none) (hx : x ∈ d.profile) :
    pathKey x.1 ≠ pathKey path := by
  obtain ⟨g, hg, rfl⟩ := List.mem_map.mp hx
  exact fun hk => List.find?_eq_none.mp h g hg (decide_eq_true hk)

end PipelineDNA

namespace Recording

variable {s t : Recording}

theorem Formed.recorded_of_entries (h : s.Formed) (hy : y ∈ s.dna.entries intent) :
    (intent, y.1) ∈ s.recorded := by
  obtain ⟨i, hi, hget⟩ := List.mem_filterMap.mp hy
  obtain ⟨x, hx, hrec⟩ := h.index intent i hi
  cases hx.symm.trans hget
  exact hrec

theorem Formed.fitness_nonneg (h : s.Formed) : ∀ g ∈ s.dna.genomes, 0 ≤ g.fitness := fun _ hg =>
  h.nonneg _ (List.mem_map_of_mem hg)

theorem Formed.covered_of_best (h : s.Formed)
    (hbest : ∀ intent, s.Best intent (s.dna.getBestPath intent)) : s.Covered := by
  intro intent path x hrec hx hkey
  have hintent := hbest intent
  by_cases hi : s.dna.indexed intent = []
  · rw [PipelineDNA.getBestPath_none hi] at hintent
    exact absurd hrec (hintent path)
  · obtain ⟨g, hg, hpath, -⟩ := PipelineDNA.getBestPath_some h.fitness_nonneg hi
    rw [hpath] at hintent
    obtain ⟨-, g', hg', hall⟩ := hintent
    have hentry : (g.path, g.fitness) ∈ s.dna.entries intent :=
      PipelineDNA.mem_entries.mpr ⟨g, hg, rfl⟩
    obtain ⟨gx, hgx, hle⟩ := hall path hrec
    obtain ⟨gx', hgx', rfl⟩ := PipelineDNA.exists_genomeOf h.keys hx hkey
    cases hgx.symm.trans hgx'
    obtain ⟨g'', hg'', heq⟩ := PipelineDNA.exists_genomeOf h.keys
      (PipelineDNA.mem_profile_of_entries hentry) rfl
    cases hg'.symm.trans hg''
    refine ⟨_, hentry, ?_⟩
    rw [← heq]
    exact hle

theorem Formed.best_of_covered (h : s.Formed) (hcov : s.Covered) (intent : String) :
    s.Best intent (s.dna.getBestPath intent) := by
  by_cases hi : s.dna.indexed intent = []
  · rw [PipelineDNA.getBestPath_none hi]
    intro path hrec
    obtain ⟨x, hx, hkey⟩ := h.known intent path hrec
    obtain ⟨y, hy, -⟩ := hcov intent path x hrec hx hkey
    rw [← PipelineDNA.map_indexed, hi] at hy
    cases hy
  · obtain ⟨g, hg, hpath, hall⟩ := PipelineDNA.getBestPath_some h.fitness_nonneg hi
    have hentry : (g.path, g.fitness) ∈ s.dna.entries intent :=
      PipelineDNA.mem_entries.mpr ⟨g, hg, rfl⟩
    obtain ⟨g', hg', heq⟩ := PipelineDNA.exists_genomeOf h.keys
      (PipelineDNA.mem_profile_of_entries hentry) rfl
    rw [hpath]
    refine ⟨h.recorded_of_entries hentry, g', hg', fun other hrec => ?_⟩
    obtain ⟨x, hx, hkey⟩ := h.known intent other hrec
    obtain ⟨y, hy, hle⟩ := hcov intent other x hrec hx hkey
    obtain ⟨gx, hgx, rfl⟩ := PipelineDNA.exists_genomeOf h.keys hx hkey
    obtain ⟨gy, hgy, rfl⟩ := PipelineDNA.mem_entries.mp hy
    have hfit : g'.fitness = g.fitness := congrArg Prod.snd heq
    exact ⟨gx, hgx, hle.trans ((hall gy hgy).trans_eq hfit.symm)⟩

theorem Formed.best_iff (h : s.Formed) :
    (∀ intent, s.Best intent (s.dna.getBestPath intent)) ↔ s.Covered :=
  ⟨h.covered_of_best, h.best_of_covered⟩

theorem record_cases (s : Recording) (c : Call) :
    (∃ g, s.dna.genomeOf c.path = some g ∧ (s.record c).dna.profile = s.dna.profile ∧
      (s.record c).dna.intentIndex = s.dna.intentIndex ∧
      ∃ i, s.dna.genomes[i]? = some g ∧
        (s.record c).dna.genomes = s.dna.genomes.modify i (·.update c)) ∨
    s.dna.genomeOf c.path = none ∧
      (s.record c).dna.genomes = s.dna.genomes ++ [.create c] ∧
      (s.record c).dna.intentIndex = Function.update s.dna.intentIndex c.intent
        (s.dna.intentIndex c.intent ++ [s.dna.genomes.length]) := by
  rcases s.dna.recordSuccessfulPath_cases c with ⟨i, g, hi, hg, he⟩ | ⟨hg, he⟩
  · refine .inl ⟨g, hg, ?_, ?_, i, hi, ?_⟩
    · rw [record, he, PipelineDNA.profile_modify]
    · rw [record, he]
    · rw [record, he]
  · refine .inr ⟨hg, ?_, ?_⟩
    · rw [record, he]
    · rw [record, he]

theorem mem_record : (intent, path) ∈ (s.record c).recorded ↔
    (intent, path) ∈ s.recorded ∨ intent = c.intent ∧ path = c.path := by
  simp [record]

section Known

variable {c : Call} {g : PipelineGenome} {i : Nat}

theorem Formed.record_known (h : s.Formed) (hg : s.dna.genomeOf c.path = some g)
    (hprofile : (s.record c).dna.profile = s.dna.profile)
    (hindex : (s.record c).dna.intentIndex = s.dna.intentIndex) : (s.record c).Formed where
  keys := by rw [hprofile]; exact h.keys
  nonneg := by rw [hprofile]; exact h.nonneg
  index intent i hi := by
    rw [hindex] at hi
    obtain ⟨x, hx, hrec⟩ := h.index intent i hi
    exact ⟨x, by rw [hprofile]; exact hx, mem_record.mpr (.inl hrec)⟩
  known intent path hrec := by
    rw [hprofile]
    rcases mem_record.mp hrec with hrec | ⟨rfl, rfl⟩
    · exact h.known intent path hrec
    · exact ⟨_, PipelineDNA.genomeOf_mem hg⟩

theorem Formed.covered_known (h : s.Formed) (hg : s.dna.genomeOf c.path = some g)
    (hprofile : (s.record c).dna.profile = s.dna.profile)
    (hindex : (s.record c).dna.intentIndex = s.dna.intentIndex) :
    (s.record c).Covered ↔ s.Covered ∧ ∃ g' ∈ s.dna.indexed c.intent, g.fitness ≤ g'.fitness := by
  have hentries : ∀ intent, (s.record c).dna.entries intent = s.dna.entries intent := by
    intro intent
    rw [PipelineDNA.entries, PipelineDNA.entries, hprofile, hindex]
  obtain ⟨hmem, hkey⟩ := PipelineDNA.genomeOf_mem hg
  constructor
  · intro hcov
    refine ⟨fun intent path x hrec hx hk => ?_, ?_⟩
    · rw [← hentries]
      exact hcov intent path x (mem_record.mpr (.inl hrec)) (by rw [hprofile]; exact hx) hk
    · obtain ⟨y, hy, hle⟩ := hcov c.intent c.path _ (mem_record.mpr (.inr ⟨rfl, rfl⟩))
        (by rw [hprofile]; exact hmem) hkey
      rw [hentries] at hy
      obtain ⟨g', hg', rfl⟩ := PipelineDNA.mem_entries.mp hy
      exact ⟨g', hg', hle⟩
  · rintro ⟨hcov, g', hg', hle⟩ intent path x hrec hx hk
    rw [hprofile] at hx
    rw [hentries]
    rcases mem_record.mp hrec with hrec | ⟨rfl, rfl⟩
    · exact hcov intent path x hrec hx hk
    · cases List.inj_on_of_nodup_map h.keys hx hmem (hk.trans hkey.symm)
      exact ⟨_, PipelineDNA.mem_entries.mpr ⟨g', hg', rfl⟩, hle⟩

theorem rated_known (hrated : ∀ g ∈ s.dna.genomes, g.fitness = g.calculated)
    (hi : s.dna.genomes[i]? = some g)
    (hgenomes : (s.record c).dna.genomes = s.dna.genomes.modify i (·.update c)) :
    (∀ g ∈ (s.record c).dna.genomes, g.fitness = g.calculated) ↔
      (g.update c).calculated = g.calculated := by
  have hg := hrated g (List.mem_of_getElem? hi)
  rw [hgenomes]
  constructor
  · intro h
    have hmem : g.update c ∈ s.dna.genomes.modify i (·.update c) := by
      refine List.mem_of_getElem? (i := i) ?_
      simp [hi]
    exact (h _ hmem).symm.trans hg
  · intro h g' hg'
    obtain ⟨j, hj⟩ := List.mem_iff_getElem?.mp hg'
    rw [List.getElem?_modify, Option.map_eq_map] at hj
    obtain ⟨g₀, hg₀, rfl⟩ := Option.map_eq_some_iff.mp hj
    split <;> rename_i hij
    · subst hij
      cases hi.symm.trans hg₀
      exact hg.trans h.symm
    · exact hrated g₀ (List.mem_of_getElem? hg₀)

end Known

section New

variable {c : Call}

theorem profile_new (hgenomes : (s.record c).dna.genomes = s.dna.genomes ++ [.create c]) :
    (s.record c).dna.profile = s.dna.profile ++ [(c.path, (PipelineGenome.create c).fitness)] := by
  rw [PipelineDNA.profile, hgenomes, List.map_append]
  rfl

theorem mem_index_new (hindex : (s.record c).dna.intentIndex = Function.update s.dna.intentIndex
      c.intent (s.dna.intentIndex c.intent ++ [s.dna.genomes.length])) :
    i ∈ (s.record c).dna.intentIndex intent ↔
      i ∈ s.dna.intentIndex intent ∨ intent = c.intent ∧ i = s.dna.genomes.length := by
  rw [hindex]
  by_cases h : intent = c.intent
  · subst h
    simp
  · simp [h]

theorem getElem?_profile_new
    (hgenomes : (s.record c).dna.genomes = s.dna.genomes ++ [.create c]) :
    (∀ {i : Nat} {x}, s.dna.profile[i]? = some x → (s.record c).dna.profile[i]? = some x) ∧
      (s.record c).dna.profile[s.dna.genomes.length]? =
        some (c.path, (PipelineGenome.create c).fitness) := by
  rw [profile_new hgenomes]
  refine ⟨fun {i x} h => ?_, ?_⟩
  · rw [List.getElem?_append_left (List.getElem?_eq_some_iff.mp h).1, h]
  · have hlen : s.dna.genomes.length = s.dna.profile.length := (List.length_map _).symm
    rw [hlen]
    simp

theorem Formed.record_new (h : s.Formed) (hg : s.dna.genomeOf c.path = none)
    (hgenomes : (s.record c).dna.genomes = s.dna.genomes ++ [.create c])
    (hindex : (s.record c).dna.intentIndex = Function.update s.dna.intentIndex c.intent
      (s.dna.intentIndex c.intent ++ [s.dna.genomes.length])) : (s.record c).Formed where
  keys := by
    rw [profile_new hgenomes, List.map_append, List.nodup_append]
    refine ⟨h.keys, List.nodup_singleton _, ?_⟩
    rintro _ hx _ hc rfl
    obtain ⟨x, hx, hk⟩ := List.mem_map.mp hx
    exact PipelineDNA.genomeOf_eq_none hg hx (hk.trans (List.mem_singleton.mp hc))
  nonneg x hx := by
    rw [profile_new hgenomes] at hx
    rcases List.mem_append.mp hx with hx | hx
    · exact h.nonneg x hx
    · cases List.mem_singleton.mp hx
      exact create_fitness_nonneg c
  index intent i hi := by
    obtain ⟨hold, hnew⟩ := getElem?_profile_new hgenomes
    rcases (mem_index_new hindex).mp hi with hi | ⟨rfl, rfl⟩
    · obtain ⟨x, hx, hrec⟩ := h.index intent i hi
      exact ⟨x, hold hx, mem_record.mpr (.inl hrec)⟩
    · exact ⟨_, hnew, mem_record.mpr (.inr ⟨rfl, rfl⟩)⟩
  known intent path hrec := by
    rw [profile_new hgenomes]
    rcases mem_record.mp hrec with hrec | ⟨rfl, rfl⟩
    · obtain ⟨x, hx, hk⟩ := h.known intent path hrec
      exact ⟨x, List.mem_append_left _ hx, hk⟩
    · exact ⟨_, List.mem_append_right _ (List.mem_singleton_self _), rfl⟩

theorem Formed.covered_new (h : s.Formed) (hcov : s.Covered) (hg : s.dna.genomeOf c.path = none)
    (hgenomes : (s.record c).dna.genomes = s.dna.genomes ++ [.create c])
    (hindex : (s.record c).dna.intentIndex = Function.update s.dna.intentIndex c.intent
      (s.dna.intentIndex c.intent ++ [s.dna.genomes.length])) : (s.record c).Covered := by
  obtain ⟨hold, hnew⟩ := getElem?_profile_new hgenomes
  intro intent path x hrec hx hk
  rw [profile_new hgenomes] at hx
  rcases List.mem_append.mp hx with hx | hx
  · rcases mem_record.mp hrec with hrec | ⟨rfl, rfl⟩
    · obtain ⟨y, hy, hle⟩ := hcov intent path x hrec hx hk
      obtain ⟨i, hi, hget⟩ := List.mem_filterMap.mp hy
      exact ⟨y, List.mem_filterMap.mpr ⟨i, (mem_index_new hindex).mpr (.inl hi), hold hget⟩, hle⟩
    · exact absurd hk (PipelineDNA.genomeOf_eq_none hg hx)
  · cases List.mem_singleton.mp hx
    rcases mem_record.mp hrec with hrec | ⟨rfl, rfl⟩
    · obtain ⟨x, hx, hk'⟩ := h.known intent path hrec
      exact absurd (hk'.trans hk.symm) (PipelineDNA.genomeOf_eq_none hg hx)
    · refine ⟨_, List.mem_filterMap.mpr ⟨_, (mem_index_new hindex).mpr (.inr ⟨rfl, rfl⟩), hnew⟩, ?_⟩
      exact le_rfl

theorem rated_new (hrated : ∀ g ∈ s.dna.genomes, g.fitness = g.calculated)
    (hgenomes : (s.record c).dna.genomes = s.dna.genomes ++ [.create c]) :
    ∀ g ∈ (s.record c).dna.genomes, g.fitness = g.calculated := by
  intro g hg
  rw [hgenomes] at hg
  rcases List.mem_append.mp hg with hg | hg
  · exact hrated g hg
  · cases List.mem_singleton.mp hg
    rfl

end New

theorem Formed.record (h : s.Formed) (c : Call) : (s.record c).Formed := by
  rcases s.record_cases c with ⟨g, hg, hprofile, hindex, -⟩ | ⟨hg, hgenomes, hindex⟩
  · exact h.record_known hg hprofile hindex
  · exact h.record_new hg hgenomes hindex

theorem sound_iff (h : s.Formed) :
    s.Sound ↔ (∀ g ∈ s.dna.genomes, g.fitness = g.calculated) ∧ s.Covered :=
  ⟨fun hs => ⟨hs.rated, h.best_iff.mp hs.best⟩, fun hs => ⟨hs.1, h.best_iff.mpr hs.2⟩⟩

theorem Sound.record_iff (hs : s.Sound) (h : s.Formed) (c : Call) :
    (s.record c).Sound ↔ s.Keeps c := by
  obtain ⟨hrated, hcov⟩ := (sound_iff h).mp hs
  rw [sound_iff (h.record c)]
  rcases s.record_cases c with ⟨g, hg, hprofile, hindex, i, hi, hgenomes⟩ | ⟨hg, hgenomes, hindex⟩
  · rw [rated_known hrated hi hgenomes, h.covered_known hg hprofile hindex]
    constructor
    · rintro ⟨hcalc, -, hfit⟩ g' hg'
      cases hg.symm.trans hg'
      exact ⟨hcalc, hfit⟩
    · intro hkeeps
      exact ⟨(hkeeps g hg).1, hcov, (hkeeps g hg).2⟩
  · refine iff_of_true ⟨rated_new hrated hgenomes, h.covered_new hcov hg hgenomes hindex⟩ ?_
    intro g hg'
    cases hg.symm.trans hg'

theorem start_sound : (⟨.empty, []⟩ : Recording).Formed ∧ (⟨.empty, []⟩ : Recording).Sound := by
  have hformed : (⟨.empty, []⟩ : Recording).Formed :=
    { keys := List.nodup_nil
      nonneg := List.forall_mem_nil _
      index := fun _ => List.forall_mem_nil _
      known := fun _ _ h => absurd h List.not_mem_nil }
  refine ⟨hformed, (sound_iff hformed).mpr ⟨List.forall_mem_nil _, ?_⟩⟩
  exact fun _ _ _ h => absurd h List.not_mem_nil

/-- Fitness and best paths are right after every call of a sequence exactly if no call for a path
that has its genome moves what its averages come to, or is made under an intent with no genome as
fit. -/
theorem best_path_iff (hr : Run recording ⟨.empty, []⟩ cs t) :
    (∀ before after u, cs = before ++ after → Run recording ⟨.empty, []⟩ before u → u.Sound) ↔
      Keeping recording Keeps ⟨.empty, []⟩ cs := by
  refine Run.keeping_iff (G := fun s => s.Formed ∧ s.Sound) (fun h => h.2) ?_ ?_ ?_ hr start_sound
  · rintro s c _ h rfl hs
    exact (h.2.record_iff h.1 c).mp hs
  · rintro s c _ h rfl hk
    exact ⟨h.1.record c, (h.2.record_iff h.1 c).mpr hk⟩
  · rintro s c t u rfl rfl
    rfl

def first : Call := ⟨"chat", ["echo"], true, 0⟩

theorem again_genomes (c : Call) (hc : c.path = ["echo"]) :
    (((⟨.empty, []⟩ : Recording).record first).record c).dna.genomes =
      [(PipelineGenome.create first).update c] := by
  have hfind :
      [PipelineGenome.create first].findIdx? (fun g => g.key = pathKey c.path) = some 0 := by
    rw [List.findIdx?_singleton, hc]
    exact if_pos (decide_eq_true rfl)
  change (PipelineDNA.recordSuccessfulPath ⟨[.create first], _⟩ c).genomes = _
  rw [PipelineDNA.recordSuccessfulPath, hfind]
  rfl

theorem best_path_repeated : ∃ t, Run recording ⟨.empty, []⟩ [first, first] t ∧ t.Sound := by
  have hr : Run recording ⟨.empty, []⟩ [first, first] _ := .cons rfl (.single rfl)
  have hkeeps : Keeping recording Keeps ⟨.empty, []⟩ [first, first] := by
    refine .cons (by rintro _ _ _ _ rfl rfl; rfl) rfl (fun g hg => by cases hg)
      (.cons (by rintro _ _ _ _ rfl rfl; rfl) rfl ?_ .nil)
    intro g hg
    have hmem : g ∈ [PipelineGenome.create first] := List.mem_of_find?_eq_some hg
    cases List.mem_singleton.mp hmem
    have hindexed : (((⟨.empty, []⟩ : Recording).record first).dna.indexed "chat") =
        [.create first] := rfl
    refine ⟨?_, _, hindexed ▸ List.mem_singleton_self _, le_rfl⟩
    norm_num [PipelineGenome.create, PipelineGenome.update, PipelineGenome.calculated, first,
      calculateFitness]
  exact ⟨_, hr, (best_path_iff hr).mpr hkeeps _ [] _ rfl hr⟩

/-- A success and a failure of one path: the fitness is still what the success came to. -/
theorem fitness_stale :
    ∃ t, Run recording ⟨.empty, []⟩ [first, ⟨"chat", ["echo"], false, 0⟩] t ∧
      t.dna.genomes.map (fun g => (g.fitness, g.calculated)) = [(1, 13 / 20)] ∧ ¬t.Sound := by
  have hgenomes := again_genomes ⟨"chat", ["echo"], false, 0⟩ rfl
  have hrates : (((⟨.empty, []⟩ : Recording).record first).record
      ⟨"chat", ["echo"], false, 0⟩).dna.genomes.map (fun g => (g.fitness, g.calculated)) =
        [(1, 13 / 20)] := by
    rw [hgenomes]
    norm_num [PipelineGenome.create, PipelineGenome.update, PipelineGenome.calculated, first,
      calculateFitness]
  refine ⟨_, .cons rfl (.single rfl), hrates, fun h => ?_⟩
  obtain ⟨g, hg, he⟩ := List.mem_map.mp (hrates ▸ List.mem_singleton_self (1, 13 / 20))
  have hrated := h.rated g hg
  rw [(Prod.mk.inj he).1, (Prod.mk.inj he).2] at hrated
  norm_num at hrated

end Recording

end PrismPipe.Dna
