import PrismPipe.Document.Backend
import PrismPipe.Document.Totality

/-! `_validate_backend_result` against what it is for. -/

namespace PrismPipe.Document

open Python

namespace PyValue

/-- A finite real number, and no `bool`. -/
def finiteReal : PyValue → Bool
  | .int _ => true
  | .float f => f.isFinite
  | .real r => r.finite
  | _ => false

/-- A finite number that is too large for a `float`. -/
def oversized : PyValue → Bool
  | .int i => (PyFloat.ofInt i).isNone
  | .real r => r.finite && !r.asFloat.toOption.any PyFloat.isFinite
  | _ => false

/-- Every number in it satisfies `p`. -/
def allNumbers (p : PyValue → Bool) : PyValue → Bool
  | .int i => p (.int i)
  | .float f => p (.float f)
  | .real r => p (.real r)
  | .mapping _ items => allFields items
  | .list items => allItems items
  | .tuple items => allItems items
  | _ => true
where
  allItems : List PyValue → Bool
    | [] => true
    | x :: xs => x.allNumbers p && allItems xs
  allFields : List (Key × PyValue) → Bool
    | [] => true
    | (_, x) :: xs => x.allNumbers p && allFields xs

mutual

theorem allNumbers_and (p q : PyValue → Bool) : ∀ v : PyValue,
    v.allNumbers (fun n => p n && q n) = (v.allNumbers p && v.allNumbers q)
  | .none | .bool _ | .int _ | .float _ | .real _ | .str _ | .other => by simp [allNumbers]
  | .list items | .tuple items => by
    simp only [allNumbers]
    exact allItems_and p q items
  | .mapping _ items => by
    simp only [allNumbers]
    exact allFields_and p q items

theorem allItems_and (p q : PyValue → Bool) : ∀ items : List PyValue,
    allNumbers.allItems (fun n => p n && q n) items =
      (allNumbers.allItems p items && allNumbers.allItems q items)
  | [] => rfl
  | x :: xs => by
    simp only [allNumbers.allItems]
    rw [allNumbers_and p q x, allItems_and p q xs]
    grind

theorem allFields_and (p q : PyValue → Bool) : ∀ items : List (Key × PyValue),
    allNumbers.allFields (fun n => p n && q n) items =
      (allNumbers.allFields p items && allNumbers.allFields q items)
  | [] => rfl
  | (_, x) :: xs => by
    simp only [allNumbers.allFields]
    rw [allNumbers_and p q x, allFields_and p q xs]
    grind

end

def fits (formats : Key → Bool) : Nat → PyValue → Bool
  | 0, _ => false
  | n + 1, .mapping _ items => items.all fun field => formats field.1 && field.2.fits formats n
  | n + 1, .list items | n + 1, .tuple items => items.all (fits formats n)
  | _ + 1, _ => true

theorem allItems_eq (p : PyValue → Bool) (items : List PyValue) :
    allNumbers.allItems p items = items.all (allNumbers p) := by
  induction items with
  | nil => rfl
  | cons x xs ih => rw [allNumbers.allItems, ih, List.all_cons]

theorem allFields_eq (p : PyValue → Bool) (items : List (Key × PyValue)) :
    allNumbers.allFields p items = items.all fun field => field.2.allNumbers p := by
  induction items with
  | nil => rfl
  | cons x xs ih => rw [allNumbers.allFields, ih, List.all_cons]

/-- What `float` and `isfinite` take. -/
def converts (v : PyValue) : Bool := v.finiteReal && !v.oversized

theorem toFloat_eq_none {v : PyValue} (h : v.toFloat = Option.none) : v.converts = false := by
  cases v with
  | int i => exact absurd h (Option.some_ne_none _)
  | float f => exact absurd h (Option.some_ne_none _)
  | real r => exact absurd h (Option.some_ne_none _)
  | none | bool | str | list | tuple | mapping | other => rfl

theorem ofInt_finite (h : PyFloat.ofInt i = some f) : f.isFinite := by
  unfold PyFloat.ofInt at h
  dsimp only at h
  split at h
  · cases h
    rfl
  · cases h

theorem requireFinite_ok : requireFinite (.ok f) message = .ok () ↔ f.isFinite := by
  change (if f.isFinite then _ else _) = _ ↔ _
  split
  next h => exact ⟨fun _ => h, fun _ => rfl⟩
  next h => exact ⟨nofun, fun h' => absurd h' h⟩

theorem requireFinite_error : requireFinite (.error e) message ≠ .ok () := nofun

theorem requireFinite_iff {v : PyValue} (h : v.toFloat = some converted) :
    requireFinite converted message = .ok () ↔ v.converts := by
  cases v with
  | int i =>
    obtain rfl := Option.some.inj h
    unfold convertInt
    cases hi : PyFloat.ofInt i with
    | none => simp [converts, finiteReal, oversized, hi, requireFinite_error]
    | some f => simp [converts, finiteReal, oversized, hi, requireFinite_ok, ofInt_finite hi]
  | float f =>
    cases h
    simp [converts, finiteReal, oversized, requireFinite_ok]
  | real r =>
    cases h
    have hs := r.sound
    cases hr : r.asFloat with
    | error e => simp [converts, finiteReal, oversized, hr, requireFinite_error, Except.toOption]
    | ok f =>
      rw [hr, Except.toOption, Option.any_some] at hs
      cases hf : f.isFinite <;>
        simp_all [converts, finiteReal, oversized, requireFinite_ok, Except.toOption]
  | none | bool | str | list | tuple | mapping | other => cases h

end PyValue

theorem bind_unit_eq_ok {x : Except ε Unit} {y : Except ε α} :
    (x >>= fun _ => y) = .ok a ↔ x = .ok () ∧ y = .ok a := by
  constructor
  · intro h
    obtain ⟨_, hx, hy⟩ := bind_eq_ok h
    exact ⟨hx, hy⟩
  · rintro ⟨hx, hy⟩
    exact bind_ok hx hy

theorem each_iff {f : α → Except ε Unit} : ∀ {l : List α},
    Interpreter.each f l = .ok () ↔ ∀ a ∈ l, f a = .ok ()
  | [] => iff_of_true rfl nofun
  | a :: l => by rw [Interpreter.each, bind_unit_eq_ok, each_iff, List.forall_mem_cons]

theorem each_zipIdx_iff {f : PyValue × Nat → Except ε Unit} {P : PyValue → Prop}
    (h : ∀ v i, f (v, i) = .ok () ↔ P v) (items : List PyValue) :
    Interpreter.each f items.zipIdx = .ok () ↔ ∀ v ∈ items, P v := by
  rw [each_iff]
  constructor
  · intro hall v hv
    obtain ⟨i, hi, rfl⟩ := List.mem_iff_getElem.mp hv
    exact (h _ _).mp (hall (items[i], i) (List.mk_mem_zipIdx_iff_getElem?.mpr (by simp)))
  · intro hall a ha
    exact (h a.1 a.2).mpr (hall a.1 (List.fst_mem_of_mem_zipIdx ha))

theorem checkFiniteNumbers_iff (formats : Key → Bool) : ∀ (n : Nat) (v : PyValue) (label : PyStr),
    checkFiniteNumbers formats n label v = .ok () ↔
      v.allNumbers PyValue.converts ∧ v.fits formats n
  | 0, _, _ => iff_of_false nofun fun h => nomatch h.2
  | _ + 1, .none, _ | _ + 1, .bool _, _ | _ + 1, .str _, _ | _ + 1, .other, _ =>
    iff_of_true rfl ⟨rfl, rfl⟩
  | _ + 1, .int _, _ | _ + 1, .float _, _ | _ + 1, .real _, _ =>
    (PyValue.requireFinite_iff rfl).trans (and_iff_left rfl).symm
  | n + 1, .list items, label | n + 1, .tuple items, label => by
    rw [checkFiniteNumbers, PyValue.allNumbers, PyValue.allItems_eq, PyValue.fits,
      List.all_eq_true, List.all_eq_true, ← forall₂_and]
    exact each_zipIdx_iff (fun v i => checkFiniteNumbers_iff formats n v _) items
  | n + 1, .mapping _ items, label => by
    rw [checkFiniteNumbers, PyValue.allNumbers, PyValue.allFields_eq, PyValue.fits,
      List.all_eq_true, List.all_eq_true, ← forall₂_and, each_iff]
    refine forall₂_congr fun field _ => ?_
    split
    next hf => simp only [checkFiniteNumbers_iff formats n field.2, hf, Bool.true_and]
    next hf => exact iff_of_false nofun fun h => hf (Bool.and_eq_true_iff.mp h.2).1

theorem checkComponents_iff (index : Nat) : ∀ (components : List PyValue) (component : Nat),
    checkComponents index component components = .ok () ↔ ∀ v ∈ components, v.converts
  | [], _ => ⟨fun _ => nofun, fun _ => rfl⟩
  | v :: rest, component => by
    rw [List.forall_mem_cons, ← checkComponents_iff index rest (component + 1), checkComponents]
    cases hv : v.toFloat with
    | none => simp [PyValue.toFloat_eq_none hv, reject, bind_unit_eq_ok]
    | some converted => exact bind_unit_eq_ok.trans (and_congr_left' (PyValue.requireFinite_iff hv))

def Host.Holds (host : Host) (metadata : PyMapping) : Prop :=
  (PyValue.mapping true metadata).fits host.formats host.backendRoom

variable {host : Host}

structure GoodChunk (host : Host) (c : VectorizedChunk) (d : Int) : Prop where
  vector : ∃ components, c.vector = .list components ∧ components ≠ [] ∧
    (components.length : Int) = d ∧ ∀ v ∈ components, v.converts
  metadata : (PyValue.mapping true c.metadata).allNumbers PyValue.converts
  nesting : host.Holds c.metadata

theorem checkChunk_iff {requested : ChunkReference} {c : VectorizedChunk} :
    checkChunk host requested c index dimensions = .ok d ↔
      c.chunkId = requested.chunkId ∧ GoodChunk host c d ∧ (dimensions = none ∨ dimensions = some d) := by
  unfold checkChunk
  split
  next h => exact ⟨nofun, fun hc => absurd hc.1 h⟩
  next h =>
    rw [not_not] at h
    split
    next value rest hv =>
      rw [bind_unit_eq_ok, bind_unit_eq_ok, checkComponents_iff, checkFiniteNumbers_iff]
      constructor
      · rintro ⟨hcomp, ⟨hmeta, hnest⟩, hd⟩
        cases dimensions with
        | none =>
          cases hd
          exact ⟨h, ⟨⟨_, hv, List.cons_ne_nil _ _, rfl, hcomp⟩, hmeta, hnest⟩, .inl rfl⟩
        | some d' =>
          dsimp only at hd
          split at hd
          · cases hd
          next hne =>
            cases hd
            exact ⟨h, ⟨⟨_, hv, List.cons_ne_nil _ _, (not_not.mp hne).symm, hcomp⟩, hmeta, hnest⟩,
              .inr rfl⟩
      · rintro ⟨-, ⟨⟨components, hc, -, hlen, hcomp⟩, hmeta, hnest⟩, hd⟩
        rw [hv] at hc
        cases hc
        refine ⟨hcomp, ⟨hmeta, hnest⟩, ?_⟩
        rcases hd with rfl | rfl
        · exact congrArg Except.ok hlen
        · exact if_neg (not_not.mpr hlen.symm)
    next hv =>
      refine ⟨nofun, ?_⟩
      rintro ⟨-, ⟨⟨components, hc, hne, -⟩, -⟩, -⟩
      cases components with
      | nil => exact absurd rfl hne
      | cons value rest => exact absurd hc (hv value rest)

theorem checkChunks_iff (d : Int) : ∀ (index : Nat) (requested : List ChunkReference)
    (chunks : List VectorizedChunk), chunks.length = requested.length →
      (checkChunks host index (some d) requested chunks = .ok found ↔
        found = some d ∧ chunks.map (·.chunkId) = requested.map (·.chunkId) ∧
          ∀ c ∈ chunks, GoodChunk host c d)
  | _, [], [], _ => ⟨fun h => by cases h; exact ⟨rfl, rfl, nofun⟩, fun h => by rw [h.1]; rfl⟩
  | index, requested :: more, c :: rest, hlen => by
    have ih d' : checkChunks host (index + 1) (some d') more rest = .ok found ↔ _ :=
      checkChunks_iff d' (index + 1) more rest (Nat.succ.inj hlen)
    unfold checkChunks
    constructor
    · intro h
      obtain ⟨d', hc, h⟩ := bind_eq_ok h
      obtain ⟨hid, hgood, hd⟩ := checkChunk_iff.mp hc
      rcases hd with hd | hd
      · cases hd
      cases hd
      obtain ⟨hf, hids, hrest⟩ := (ih d).mp h
      exact ⟨hf, by rw [List.map_cons, List.map_cons, hid, hids], List.forall_mem_cons.mpr ⟨hgood, hrest⟩⟩
    · rintro ⟨hf, hids, hgood⟩
      rw [List.map_cons, List.map_cons, List.cons.injEq] at hids
      rw [List.forall_mem_cons] at hgood
      exact bind_ok (checkChunk_iff.mpr ⟨hids.1, hgood.1, .inr rfl⟩)
        ((ih d).mpr ⟨hf, hids.2, hgood.2⟩)

theorem checkChunks_first (hlen : chunks.length = requested.length) (hne : requested ≠ []) :
    checkChunks host index declared requested chunks = .ok found ↔
      ∃ d, found = some d ∧ (declared = none ∨ declared = some d) ∧
        chunks.map (·.chunkId) = requested.map (·.chunkId) ∧ ∀ c ∈ chunks, GoodChunk host c d := by
  cases requested with
  | nil => exact absurd rfl hne
  | cons first more =>
    cases chunks with
    | nil => cases hlen
    | cons c rest =>
      have ih d : checkChunks host (index + 1) (some d) more rest = .ok found ↔ _ :=
        checkChunks_iff d (index + 1) more rest (Nat.succ.inj hlen)
      unfold checkChunks
      simp only [List.map_cons, List.cons.injEq, List.forall_mem_cons]
      constructor
      · intro h
        obtain ⟨d, hc, h⟩ := bind_eq_ok h
        obtain ⟨hid, hgood, hd⟩ := checkChunk_iff.mp hc
        obtain ⟨hf, hids, hrest⟩ := (ih d).mp h
        exact ⟨d, hf, hd, ⟨hid, hids⟩, hgood, hrest⟩
      · rintro ⟨d, hf, hd, ⟨hid, hids⟩, hgood, hrest⟩
        exact bind_ok (checkChunk_iff.mpr ⟨hid, hgood, hd⟩) ((ih d).mpr ⟨hf, hids, hrest⟩)

theorem declaredDimensions_iff {v : PyValue} : declaredDimensions v = .ok declared ↔
    (v = .none ∧ declared = none) ∨ ∃ d, 0 < d ∧ v = .int d ∧ declared = some d := by
  unfold declaredDimensions
  constructor
  · intro h
    split at h
    · cases h
      exact .inl ⟨rfl, rfl⟩
    next i =>
      split at h
      · cases h
      next hi =>
        cases h
        exact .inr ⟨i, not_le.mp hi, rfl, rfl⟩
    · cases h
  · rintro (⟨rfl, rfl⟩ | ⟨d, hd, rfl, rfl⟩)
    · rfl
    · exact if_neg (not_le.mpr hd)

def Asks (d : Int) (a : ArtifactRequest) : Prop := a.required → a.artifactType = py "embedding" →
  a.parameters.get "dimensions" = .null ∨ a.parameters.get "dimensions" = .int d

def Dimensioned (a : ArtifactRequest) : Prop := a.artifactType = py "embedding" →
  a.parameters.get "dimensions" = .null ∨ ∃ i, a.parameters.get "dimensions" = .int i

theorem pyEq_int (i d : Int) : (Json.int i).pyEq (.int d) ↔ i = d := by
  simp [Json.pyEq, Json.same, Json.number?]

theorem checkArtifacts_iff (d : Int) : ∀ (artifacts : List ArtifactRequest) (index : Nat),
    (∀ a ∈ artifacts, Dimensioned a) →
      (checkArtifacts d index artifacts = .ok () ↔ ∀ a ∈ artifacts, Asks d a)
  | [], _, _ => ⟨fun _ => nofun, fun _ => rfl⟩
  | a :: rest, index, h => by
    rw [List.forall_mem_cons] at h
    have ih := checkArtifacts_iff d rest (index + 1) h.2
    rw [List.forall_mem_cons, ← ih, checkArtifacts]
    split
    next hc =>
      refine ⟨nofun, fun ha => ?_⟩
      simp only [Bool.and_eq_true, decide_eq_true_eq, Bool.not_eq_true'] at hc
      obtain ⟨⟨⟨hr, ht⟩, hn⟩, hne⟩ := hc
      rcases ha.1 hr ht with hnull | hd
      · rw [hnull] at hn
        cases hn
      · rw [hd, Bool.eq_false_iff, ne_eq, pyEq_int] at hne
        exact absurd rfl hne
    next hc =>
      refine ⟨fun hok => ⟨fun hr ht => ?_, hok⟩, fun ha => ha.2⟩
      simp only [hr, ht, Bool.true_and, Bool.and_eq_true, decide_true, not_and,
        Bool.not_eq_true', Bool.not_eq_false] at hc
      rcases h.1 ht with hnull | ⟨i, hi⟩
      · exact .inl hnull
      · rw [hi] at hc
        exact .inr (hi.trans (congrArg Json.int ((pyEq_int i d).mp (hc rfl))))

theorem ArtifactRequest.dimensioned (h : fromPayload payload i = .ok a) : Dimensioned a := by
  obtain ⟨d, rfl, hr⟩ := fromPayload_iff.mp h
  intro ht
  have hb := refuse_eq_ok hr.dimensions
  rw [decide_eq_true ht, Bool.true_and] at hb
  unfold badDimensions at hb
  unfold Dict.get
  split at hb
  next hf => exact .inl (by rw [hf, Option.getD_none])
  next i hf => exact .inr ⟨i, by rw [hf, Option.getD_some]⟩
  · cases hb

theorem DocumentVectorizeInput.Reads.dimensioned (h : Reads payload rawDocument r) :
    ∀ a ∈ r.artifactRequests, Dimensioned a := by
  obtain ⟨raw, -, ha⟩ := h.artifactRequests
  exact enumerate_forall (fun _ _ _ _ hf => ArtifactRequest.dimensioned hf) ha

/-- What a result of dimension `d` has to be. -/
structure Conforms (request : DocumentVectorizeInput) (result : VectorizeBackendResult) (d : Int) :
    Prop where
  ids : result.chunks.map (·.chunkId) = request.chunks.map (·.chunkId)
  vectors : ∀ c ∈ result.chunks, ∃ components, c.vector = .list components ∧ components ≠ [] ∧
    (components.length : Int) = d ∧ ∀ v ∈ components, v.finiteReal
  declared : result.dimensions = .none ∨ result.dimensions = .int d
  options : ∀ n, request.options.dimensions = some n → n = d
  artifacts : ∀ a ∈ request.artifactRequests, Asks d a
  chunkMetadata : ∀ c ∈ result.chunks, (PyValue.mapping true c.metadata).allNumbers PyValue.finiteReal
  metadata : (PyValue.mapping true result.metadata).allNumbers PyValue.finiteReal

/-- No number of the result is too large for a `float`, and the checks have room for its metadata. -/
structure Fits (host : Host) (result : VectorizeBackendResult) : Prop where
  vectors : ∀ c ∈ result.chunks, ∀ components, c.vector = .list components →
    ∀ v ∈ components, ¬ v.oversized
  chunkMetadata : ∀ c ∈ result.chunks,
    (PyValue.mapping true c.metadata).allNumbers fun n => !n.oversized
  metadata : (PyValue.mapping true result.metadata).allNumbers fun n => !n.oversized
  chunkNesting : ∀ c ∈ result.chunks, host.Holds c.metadata
  nesting : host.Holds result.metadata

theorem allNumbers_converts (v : PyValue) : v.allNumbers PyValue.converts ↔
    v.allNumbers PyValue.finiteReal ∧ v.allNumbers fun n => !n.oversized := by
  rw [← Bool.and_eq_true, ← PyValue.allNumbers_and]
  rfl

theorem goodChunk_iff : GoodChunk host c d ↔
    ((∃ components, c.vector = .list components ∧ components ≠ [] ∧
      (components.length : Int) = d ∧ ∀ v ∈ components, v.finiteReal) ∧
        (PyValue.mapping true c.metadata).allNumbers PyValue.finiteReal) ∧
      (∀ components, c.vector = .list components → ∀ v ∈ components, ¬ v.oversized) ∧
        ((PyValue.mapping true c.metadata).allNumbers fun n => !n.oversized) ∧
          host.Holds c.metadata := by
  constructor
  · rintro ⟨⟨components, hv, hne, hlen, hcomp⟩, hmeta, hnest⟩
    obtain ⟨hfin, hfit⟩ := (allNumbers_converts _).mp hmeta
    have hc (v) (hmem : v ∈ components) := Bool.and_eq_true_iff.mp (hcomp v hmem)
    refine ⟨⟨⟨components, hv, hne, hlen, fun v hmem => (hc v hmem).1⟩, hfin⟩, ?_, hfit, hnest⟩
    intro components' hv' v hmem
    rw [hv] at hv'
    cases hv'
    simpa using (hc v hmem).2
  · rintro ⟨⟨⟨components, hv, hne, hlen, hcomp⟩, hfin⟩, hover, hfit, hnest⟩
    refine ⟨⟨components, hv, hne, hlen, fun v hmem => ?_⟩,
      (allNumbers_converts _).mpr ⟨hfin, hfit⟩, hnest⟩
    exact Bool.and_eq_true_iff.mpr ⟨hcomp v hmem, by simpa using hover components hv v hmem⟩

theorem goodChunks_iff {chunks : List VectorizedChunk} : (∀ c ∈ chunks, GoodChunk host c d) ↔
    ((∀ c ∈ chunks, ∃ components, c.vector = .list components ∧ components ≠ [] ∧
      (components.length : Int) = d ∧ ∀ v ∈ components, v.finiteReal) ∧
        ∀ c ∈ chunks, (PyValue.mapping true c.metadata).allNumbers PyValue.finiteReal) ∧
      (∀ c ∈ chunks, ∀ components, c.vector = .list components → ∀ v ∈ components, ¬ v.oversized) ∧
        (∀ c ∈ chunks, (PyValue.mapping true c.metadata).allNumbers fun n => !n.oversized) ∧
          ∀ c ∈ chunks, host.Holds c.metadata := by
  simp only [goodChunk_iff, forall_and]

theorem Conforms.length (h : Conforms request result d) :
    result.chunks.length = request.chunks.length := by
  have hids := congrArg List.length h.ids
  rwa [List.length_map, List.length_map] at hids

theorem Conforms.pos (h : Conforms request result d) (hne : request.chunks ≠ []) : 0 < d := by
  cases hc : result.chunks with
  | nil =>
    have hlen := h.length
    rw [hc] at hlen
    exact absurd (List.length_eq_zero_iff.mp hlen.symm) hne
  | cons c rest =>
    obtain ⟨components, -, hcomp, hcl, -⟩ := h.vectors c (hc ▸ List.mem_cons_self)
    rw [← hcl]
    exact Int.natCast_pos.mpr (List.length_pos_iff.mpr hcomp)

theorem Conforms.declares (h : Conforms request result d) (hpos : 0 < d) :
    ∃ declared, declaredDimensions result.dimensions = .ok declared ∧
      (declared = none ∨ declared = some d) := by
  rcases h.declared with hn | hn
  · exact ⟨none, declaredDimensions_iff.mpr (.inl ⟨hn, rfl⟩), .inl rfl⟩
  · exact ⟨some d, declaredDimensions_iff.mpr (.inr ⟨d, hpos, hn, rfl⟩), .inr rfl⟩

theorem declared_of_declares {v : PyValue} (h : declaredDimensions v = .ok declared)
    (hd : declared = none ∨ declared = some d) : v = .none ∨ v = .int d := by
  rcases declaredDimensions_iff.mp h with ⟨hn, -⟩ | ⟨n, -, hn, rfl⟩
  · exact .inl hn
  · rcases hd with hd | hd
    · cases hd
    · cases hd
      exact .inr hn

theorem Conforms.asked (h : Conforms request result d) :
    request.options.dimensions.any (· ≠ d) = false := by
  cases ho : request.options.dimensions with
  | none => rfl
  | some n => simp [h.options n ho]

theorem validateBackendResult_iff (hr : DocumentVectorizeInput.Reads payload rawDocument request) :
    validateBackendResult host request (some result) = .ok d ↔
      Conforms request result d ∧ Fits host result := by
  have hne := hr.chunks_ne_nil
  have hart (d : Int) := checkArtifacts_iff d request.artifactRequests 0 hr.dimensioned
  constructor
  · intro h
    rw [validateBackendResult] at h
    split at h
    · cases h
    next hlen =>
    obtain ⟨declared, hdecl, h⟩ := bind_eq_ok h
    obtain ⟨found, hfound, h⟩ := bind_eq_ok h
    obtain ⟨d', rfl, hd, hids, hgood⟩ := (checkChunks_first (not_not.mp hlen) hne).mp hfound
    dsimp only at h
    split at h
    · cases h
    split at h
    · cases h
    next hopt =>
    rw [bind_unit_eq_ok, bind_unit_eq_ok, hart, checkFiniteNumbers_iff, allNumbers_converts] at h
    obtain ⟨ha, ⟨⟨hfin, hfit⟩, hnest⟩, he⟩ := h
    cases he
    obtain ⟨⟨hvec, hcm⟩, hover, hcf, hcn⟩ := goodChunks_iff.mp hgood
    refine ⟨⟨hids, hvec, declared_of_declares hdecl hd, ?_, ha, hcm, hfin⟩, hover, hcf, hfit, hcn,
      hnest⟩
    intro n hn
    rw [hn] at hopt
    simpa using hopt
  · rintro ⟨h, hf⟩
    have hlen := h.length
    have hpos := h.pos hne
    have hgood := goodChunks_iff.mpr ⟨⟨h.vectors, h.chunkMetadata⟩, hf.vectors, hf.chunkMetadata,
      hf.chunkNesting⟩
    obtain ⟨declared, hdecl, hd⟩ := h.declares hpos
    refine (if_neg (not_not.mpr hlen)).trans (bind_ok hdecl (bind_ok
      ((checkChunks_first hlen hne).mpr ⟨d, rfl, hd, h.ids, hgood⟩) ?_))
    refine (if_neg (not_le.mpr hpos)).trans ((if_neg (Bool.eq_false_iff.mp h.asked)).trans ?_)
    exact bind_ok ((hart d).mpr h.artifacts) (bind_ok ((checkFiniteNumbers_iff _ _ _ _).mpr
      ⟨(allNumbers_converts _).mpr ⟨h.metadata, hf.metadata⟩, hf.nesting⟩) rfl)

/-- An envelope that ends with an invalid vectorizer result: terminated, without a result, and with
an error that is not to be retried. -/
structure ResultInvalid (ret : NodeReturn) : Prop where
  failed : ret.success = false
  terminated : ret.envelope.terminated
  resultless : ∀ kv ∈ ret.envelope.state, kv.1 ≠ py "document_vectorize"
  recorded : ∃ error : DocumentVectorizeError, error.code = py "VECTORIZER_RESULT_INVALID" ∧
    error.retryable = false ∧
    (py "document_vectorize_error", .ofJson (.dict error.toPayload)) ∈ ret.envelope.state

theorem failEnvelope_resultless (envelope : NodeEnvelope) (error : DocumentVectorizeError) :
    ∀ kv ∈ (failEnvelope envelope error).envelope.state, kv.1 ≠ py "document_vectorize" := by
  intro kv hkv
  rcases List.mem_append.mp hkv with hm | hm
  · simpa using (List.mem_filter.mp (List.mem_filter.mp hm).1).2
  · rw [List.mem_singleton.mp hm]
    exact mt py_inj.mp (by decide)

theorem process_invalid (h : host.fromPayload payload = .ok request)
    (hv : vectorize request = .ok result) (he : validateBackendResult host request result = .error e) :
    ∃ ret, DocumentVectorizeNode.process host provider model vectorize payload envelope = .ok ret ∧
      ResultInvalid ret := by
  have hb : DocumentVectorizeOutput.fromBackend host request result provider model = .error e := by
    rw [DocumentVectorizeOutput.fromBackend, he]
    rfl
  let error := backendFailure "VECTORIZER_RESULT_INVALID" "Vectorizer returned an invalid result"
    request provider model e false
  refine ⟨failEnvelope envelope error, ?_, rfl, rfl, failEnvelope_resultless envelope error,
    error, rfl, rfl, List.mem_append_right _ (List.mem_singleton_self _)⟩
  simp only [DocumentVectorizeNode.process, h, hv, hb, error]

/-- Validation passes a result exactly when it is as it has to be, and ends the envelope with any
other. -/
structure ExactlyValidated (host : Host) (payload : Json) (request : DocumentVectorizeInput)
    (result : VectorizeBackendResult) : Prop where
  exact_ : ∀ d, validateBackendResult host request (some result) = .ok d ↔ Conforms request result d
  invalid : ∀ provider model vectorize envelope, vectorize request = .ok (some result) →
    (∀ d, ¬ Conforms request result d) →
      ∃ ret, DocumentVectorizeNode.process host provider model vectorize payload envelope = .ok ret ∧
        ResultInvalid ret

/-- Validation is exact except on a result that is as it has to be but has a number too large for a
`float`, or metadata too deep to check. -/
theorem validation_exact_iff (h : host.fromPayload payload = .ok request) :
    ExactlyValidated host payload request result ↔
      ((∃ d, Conforms request result d) → Fits host result) := by
  obtain ⟨d, rawDocument, -, hr⟩ := DocumentVectorizeInput.fromPayload_iff.mp
    ((host.fromPayload_covers payload).erases.eq_ok h)
  constructor
  · rintro hx ⟨d, hd⟩
    exact ((validateBackendResult_iff hr).mp ((hx.exact_ d).mpr hd)).2
  · intro hf
    refine ⟨fun d => ?_, fun provider model vectorize envelope hv hn => ?_⟩
    · rw [validateBackendResult_iff hr]
      exact ⟨fun hd => hd.1, fun hd => ⟨hd, hf ⟨d, hd⟩⟩⟩
    · cases he : validateBackendResult host request (some result) with
      | ok d => exact absurd ((validateBackendResult_iff hr).mp he).1 (hn d)
      | error e => exact process_invalid h hv he

def oneVector (metadata : PyMapping) : VectorizeBackendResult where
  chunks := [⟨py "c", py "t", .list [.float (.finite false 1)], []⟩]
  dimensions := .none
  metadata := metadata

def ampleHost : Host where
  toInterpreter := Interpreter.ample
  backendRoom := 1000
  formats _ := true
  copies _ := true
  dumps _ := true

theorem exists_inline : ∃ r, ampleHost.fromPayload inlinePayload = .ok r ∧
    r.chunks.map (·.chunkId) = [py "c"] ∧ r.options.dimensions = none ∧ r.artifactRequests = [] := by
  have hp : (ampleHost.fromPayload inlinePayload).toOption.any fun r =>
      r.chunks.map (·.chunkId) = [py "c"] && r.options.dimensions = none &&
        r.artifactRequests.isEmpty := by decide +kernel
  cases hr : ampleHost.fromPayload inlinePayload with
  | error e =>
    rw [hr] at hp
    cases hp
  | ok r =>
    simp only [hr, Except.toOption, Option.any_some, Bool.and_eq_true, decide_eq_true_eq,
      List.isEmpty_iff] at hp
    exact ⟨r, rfl, hp.1.1, hp.1.2, hp.2⟩

theorem inline_text (h : ampleHost.fromPayload inlinePayload = .ok r) :
    ∀ c ∈ r.chunks, c.text = some (py "t") := by
  have hp : (ampleHost.fromPayload inlinePayload).toOption.any fun r =>
      r.chunks.all (·.text = some (py "t")) := by decide +kernel
  rw [h] at hp
  simpa [Except.toOption] using hp

theorem oneVector_conforms (hc : request.chunks.map (·.chunkId) = [py "c"])
    (ho : request.options.dimensions = none) (ha : request.artifactRequests = [])
    (hm : (PyValue.mapping true metadata).allNumbers PyValue.finiteReal) :
    Conforms request (oneVector metadata) 1 where
  ids := hc.symm
  vectors c hmem := by
    cases List.mem_singleton.mp hmem
    exact ⟨_, rfl, List.cons_ne_nil _ _, rfl, by decide⟩
  declared := .inl rfl
  options n hn := by
    rw [ho] at hn
    cases hn
  artifacts a hmem := by
    rw [ha] at hmem
    cases hmem
  chunkMetadata c hmem := by
    cases List.mem_singleton.mp hmem
    rfl
  metadata := hm

theorem validation_exact_iff_inline : ∃ r, ampleHost.fromPayload inlinePayload = .ok r ∧
    ExactlyValidated ampleHost inlinePayload r (oneVector []) := by
  obtain ⟨r, hr, -⟩ := exists_inline
  refine ⟨r, hr, (validation_exact_iff hr).mpr fun _ => ⟨?_, ?_, by decide, ?_, rfl⟩⟩
  · intro c hc components hv v hmem
    cases List.mem_singleton.mp hc
    cases hv
    cases List.mem_singleton.mp hmem
    decide
  · intro c hc
    cases List.mem_singleton.mp hc
    rfl
  · intro c hc
    cases List.mem_singleton.mp hc
    rfl

/-- A large integer in the metadata is finite, and `float` overflows on it. -/
theorem large_metadata_rejected : ¬ ∀ payload request result,
    ampleHost.fromPayload payload = .ok request →
      ExactlyValidated ampleHost payload request result := by
  intro h
  obtain ⟨r, hr, hc, ho, ha⟩ := exists_inline
  have hconf : Conforms r (oneVector [(.str (py "total"), .int (10 ^ 400))]) 1 :=
    oneVector_conforms hc ho ha (by decide +kernel)
  have hok := ((h _ r _ hr).exact_ 1).mpr hconf
  obtain ⟨_, _, -, hread⟩ := DocumentVectorizeInput.fromPayload_iff.mp
    ((ampleHost.fromPayload_covers inlinePayload).erases.eq_ok hr)
  have hfit := ((validateBackendResult_iff hread).mp hok).2.metadata
  exact absurd hfit (by decide +kernel)

end PrismPipe.Document
