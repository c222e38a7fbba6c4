import PrismPipe.Document.Accepted

/-! `documentType`, `schemaId` and `schemaVersion` may stand at the root or under `document`, and
a `null` at the root hides what stands under `document`. -/

namespace PrismPipe.Document

open Python

namespace Alias

/-- The root value if that is not `null`, and the value under `document` otherwise. -/
def value (payload document : Dict) (a : Alias) : Json :=
  if (payload.get a.key).isNull then document.get a.key else payload.get a.key

end Alias

/-- `{k: v for k, v in payload.items() if k != key}`. -/
def without (payload : Dict) (key : String) : Dict := payload.filter fun kv => kv.1 ≠ py key

theorem find_without_self (payload : Dict) (key : String) :
    (without payload key).find (py key) = none := by
  rw [Dict.find, without, Option.map_eq_none_iff, List.find?_eq_none]
  intro kv hkv
  simpa using (List.mem_filter.mp hkv).2

theorem find_without_ne (payload : Dict) {key k : String} (h : k ≠ key) :
    (without payload key).find (py k) = payload.find (py k) := by
  have hk : py k ≠ py key := mt py_inj.mp h
  have hp : (fun kv : PyStr × Json =>
      decide (decide (kv.1 ≠ py key) = true ∧ decide (kv.1 = py k) = true)) =
        fun kv => decide (kv.1 = py k) := by
    funext kv
    by_cases hkv : kv.1 = py k
    · simp [hkv, hk]
    · simp [hkv]
  rw [Dict.find, Dict.find, without, List.find?_filter, hp]

/-- How an alias resolves, and that a `null` at the root is as good as nothing there. -/
structure AliasLaw (payload : Dict) (a : Alias) : Prop where
  resolved : ∀ r document, DocumentVectorizeInput.fromPayload (.dict payload) = .ok r →
    payload.get "document" = .dict document → asJson .str (a.field r) = a.value payload document
  absent : payload.find (py a.key) = some .null → ∀ r,
    DocumentVectorizeInput.fromPayload (.dict payload) = .ok r ↔
      DocumentVectorizeInput.fromPayload (.dict (without payload a.key)) = .ok r

/-- A `null` at the root over a value under `document`. -/
def Shadowed (payload : Dict) (a : Alias) : Prop :=
  payload.find (py a.key) = some .null ∧
    ∃ document : Dict, payload.get "document" = .dict document ∧ document.get a.key ≠ .null

theorem optionalString_get (h : optionalString payload key label = .ok v) :
    payload.get key = asJson .str v := by
  unfold optionalString at h
  split at h
  next he =>
    cases h
    exact he
  next he =>
    split at h
    · cases h
    · cases h
      exact he
  · cases h

theorem requiredMapping_get (h : requiredMapping payload key = .ok d) :
    payload.get key = .dict d := by
  unfold requiredMapping at h
  split at h
  next he =>
    cases h
    exact he
  · cases h

namespace DocumentVectorizeInput

theorem Reads.congr_alias {p q : Dict} (hr : Reads p rawDocument r) (a : Alias)
    (hf : ∀ key ≠ a.key, p.find (py key) = q.find (py key))
    (hg : p.get a.key = q.get a.key)
    (ho : optionalRootOrDocumentString p rawDocument a.key =
      optionalRootOrDocumentString q rawDocument a.key) : Reads q rawDocument r := by
  have hget (key : String) : p.get key = q.get key := by
    by_cases hk : key = a.key
    · rw [hk, hg]
    · exact get_congr (hf key hk)
  refine hr.congr (fun key hk => hf key fun he => hk (he ▸ List.mem_cons_of_mem _ a.key_mem))
    ?_ ?_ (fun b => ?_) hr.relationships
  · rw [← nonEmptyList_congr (hf "chunks" fun he => absurd (he ▸ a.key_mem) (by decide))]
    exact hr.chunks
  · rw [← validateSchemaAliases_congr rawDocument fun key _ => hget key]
    exact hr.aliases
  · rw [← hr.alias b]
    by_cases hk : b.key = a.key
    · rw [hk, ho]
    · rw [optionalRootOrDocumentString_congr (hf _ hk)]

end DocumentVectorizeInput

theorem root_null {payload document : Dict} {a : Alias} (h : payload.find (py a.key) = some .null) :
    optionalRootOrDocumentString payload document a.key = .ok none := by
  have hh : payload.has a.key := by rw [Dict.has, h, Option.isSome_some]
  rw [optionalRootOrDocumentString, if_pos hh, optionalString, Dict.get, h, Option.getD_some]

theorem root_absent {payload document : Dict} {key : String} (h : payload.find (py key) = none) :
    optionalRootOrDocumentString payload document key =
      optionalString document key (dot (py "document") (py key)) := by
  have hh : ¬ payload.has key := by
    rw [Dict.has, h]
    exact Bool.false_ne_true
  rw [optionalRootOrDocumentString, if_neg hh]

theorem DocumentVectorizeInput.fromObject_document {payload document : Dict}
    (h : fromPayload (.dict payload) = .ok r) (hd : payload.get "document" = .dict document) :
    Reads payload document r := by
  obtain ⟨rawDocument, hr⟩ := fromObject_iff.mp h
  have he := requiredMapping_get hr.raw
  rw [hd] at he
  cases he
  exact hr

theorem resolved_of_not_shadowed {payload document : Dict} {a : Alias} (hs : ¬ Shadowed payload a)
    (h : DocumentVectorizeInput.fromPayload (.dict payload) = .ok r)
    (hd : payload.get "document" = .dict document) :
    asJson .str (a.field r) = a.value payload document := by
  have ha := (DocumentVectorizeInput.fromObject_document h hd).alias a
  unfold Alias.value
  cases hk : payload.find (py a.key) with
  | none =>
    rw [root_absent hk] at ha
    rw [Dict.get, hk, Option.getD_none, if_pos (by rfl), optionalString_get ha]
  | some v =>
    have hg : payload.get a.key = v := by rw [Dict.get, hk, Option.getD_some]
    have hh : payload.has a.key := by rw [Dict.has, hk, Option.isSome_some]
    rw [optionalRootOrDocumentString, if_pos hh] at ha
    have hv := optionalString_get ha
    rw [← hv, hg]
    split
    next hn =>
      cases v with
      | null => exact (not_not.mp fun hne => hs ⟨hk, document, hd, hne⟩).symm
      | bool | int | float | str | list | dict => cases hn
    · rfl

theorem absent_of_not_shadowed {payload : Dict} {a : Alias} (hs : ¬ Shadowed payload a)
    (hk : payload.find (py a.key) = some .null) (r : DocumentVectorizeInput) :
    DocumentVectorizeInput.fromPayload (.dict payload) = .ok r ↔
      DocumentVectorizeInput.fromPayload (.dict (without payload a.key)) = .ok r := by
  have hw := find_without_self payload a.key
  have hne : ∀ key ≠ a.key, (without payload a.key).find (py key) = payload.find (py key) :=
    fun key h => find_without_ne payload h
  have hdoc : (without payload a.key).get "document" = payload.get "document" :=
    get_congr (hne _ fun he => absurd (he ▸ a.key_mem) (by decide))
  have hget : (without payload a.key).get a.key = payload.get a.key := by
    rw [Dict.get, Dict.get, hw, hk, Option.getD_none, Option.getD_some]
  have hroot (document : Dict) (hd : payload.get "document" = .dict document) :
      optionalRootOrDocumentString (without payload a.key) document a.key =
        optionalRootOrDocumentString payload document a.key := by
    have hn : document.get a.key = .null := not_not.mp fun hne => hs ⟨hk, document, hd, hne⟩
    rw [root_absent hw, root_null hk, optionalString, hn]
  constructor
  · intro h
    obtain ⟨document, hr⟩ := DocumentVectorizeInput.fromObject_iff.mp h
    have hd := requiredMapping_get hr.raw
    exact DocumentVectorizeInput.fromObject_iff.mpr ⟨document,
      hr.congr_alias a (fun key h => (hne key h).symm) hget.symm (hroot document hd).symm⟩
  · intro h
    obtain ⟨document, hr⟩ := DocumentVectorizeInput.fromObject_iff.mp h
    have hd := requiredMapping_get hr.raw
    rw [hdoc] at hd
    exact DocumentVectorizeInput.fromObject_iff.mpr
      ⟨document, hr.congr_alias a hne hget (hroot document hd)⟩

/-- Of the payloads that are accepted, with the `null` at the root or without it, an alias resolves
as it should in those where no `null` at the root hides a value under `document`. -/
theorem alias_law_iff {payload : Dict} {a : Alias}
    (h : (∃ r, DocumentVectorizeInput.fromPayload (.dict payload) = .ok r) ∨
      ∃ r, DocumentVectorizeInput.fromPayload (.dict (without payload a.key)) = .ok r) :
    AliasLaw payload a ↔ ¬ Shadowed payload a := by
  constructor
  · rintro law ⟨hk, document, hd, hne⟩
    have hr : ∃ r, DocumentVectorizeInput.fromPayload (.dict payload) = .ok r := by
      rcases h with h | ⟨r, hr⟩
      · exact h
      · exact ⟨r, (law.absent hk r).mpr hr⟩
    obtain ⟨r, hr⟩ := hr
    have ha := (DocumentVectorizeInput.fromObject_document hr hd).alias a
    rw [root_null hk] at ha
    have hv := law.resolved r document hr hd
    rw [← Except.ok.inj ha, Alias.value, Dict.get, hk] at hv
    exact hne hv.symm
  · intro hs
    exact ⟨fun r document hr hd => resolved_of_not_shadowed hs hr hd,
      fun hk r => absent_of_not_shadowed hs hk r⟩

/-- The least payload with a schema under `document`, and these items at the root. -/
def schemaPayload (items : Dict) : Dict := [(py "routeId", .str (py "r")),
  (py "documentId", .str (py "d")), (py "manifestVersion", .int 1),
  (py "destination", .str (py "vectorize")), (py "qualityScore", .int 1),
  (py "document", .dict [(py "documentId", .str (py "d")), (py "documentType", .str (py "t")),
    (py "schemaId", .str (py "s")), (py "schemaVersion", .str (py "1"))]),
  (py "chunks", .list [.dict [(py "chunkId", .str (py "c")), (py "index", .int 0),
    (py "text", .str (py "t"))]])] ++ items

theorem alias_law_iff_nested :
    AliasLaw (schemaPayload []) .documentType := by
  have hok : ∃ r, DocumentVectorizeInput.fromPayload (.dict (schemaPayload [])) = .ok r := by
    have hok : (DocumentVectorizeInput.fromPayload (.dict (schemaPayload []))).isOk := by
      decide +kernel
    cases hr : DocumentVectorizeInput.fromPayload (.dict (schemaPayload [])) with
    | error e =>
      rw [hr] at hok
      cases hok
    | ok r => exact ⟨r, rfl⟩
  refine (alias_law_iff (.inl hok)).mpr fun ⟨hk, _⟩ => ?_
  have hnone : (schemaPayload []).find (py Alias.documentType.key) = none := by decide +kernel
  exact nomatch hnone.symm.trans hk

/-- A `null` at the root takes the document type away. -/
theorem null_hides_nested : ¬ ∀ payload a,
    (∃ r, DocumentVectorizeInput.fromPayload (.dict payload) = .ok r) → AliasLaw payload a := by
  intro h
  have hok : (DocumentVectorizeInput.fromPayload
      (.dict (schemaPayload [(py "documentType", .null)]))).isOk := by decide +kernel
  have hs : (DocumentVectorizeInput.fromPayload
      (.dict (schemaPayload [(py "documentType", .null)]))).toOption.all
        (·.documentType.isNone) := by decide +kernel
  cases hr : DocumentVectorizeInput.fromPayload
      (.dict (schemaPayload [(py "documentType", .null)])) with
  | error e =>
    rw [hr] at hok
    cases hok
  | ok r =>
    rw [hr] at hs
    have hv := (h _ .documentType ⟨r, hr⟩).resolved r _ hr rfl
    cases ht : r.documentType with
    | none =>
      rw [Alias.field, ht] at hv
      cases hv
    | some t => simp [Except.toOption, ht] at hs

end PrismPipe.Document
