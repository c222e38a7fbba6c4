import Mathlib.Data.List.Basic

/-! The tenant of an execution context, as `TenantContext`s are entered and left one inside
another. -/

namespace PrismPipe.Tenancy

/-- `current_tenant_var` in one execution context. -/
abbrev CurrentTenant := Option String

structure TenantContext where
  tenantId : String

def getCurrentTenant (v : CurrentTenant) : Option String := v

variable {ε : Type}

def TenantContext.enter (context : TenantContext) : CurrentTenant → CurrentTenant :=
  fun _ => some context.tenantId

/-- `__exit__`, with the exception that leaves the scope, if one does. The variable is set, and not
reset to what `__enter__` found. -/
def TenantContext.exit (_ : TenantContext) (_ : Option ε) : CurrentTenant → CurrentTenant :=
  fun _ => none

inductive Event (ε : Type)
  | enter (context : TenantContext)
  | exit (context : TenantContext) (exc : Option ε)

def Event.apply : Event ε → CurrentTenant → CurrentTenant
  | .enter c => c.enter
  | .exit c exc => c.exit exc

def after (v : CurrentTenant) (es : List (Event ε)) : CurrentTenant :=
  es.foldl (fun v e => e.apply v) v

inductive Nested : List (Event ε) → Prop
  | nil : Nested []
  | scope : Nested body → Nested rest → Nested (.enter c :: (body ++ .exit c exc :: rest))

inductive Flat : List (Event ε) → Prop
  | nil : Flat []
  | scope : Flat rest → Flat (.enter c :: .exit c exc :: rest)

def Restores (v : CurrentTenant) (es : List (Event ε)) : Prop :=
  ∀ before c body exc rest, es = before ++ .enter c :: (body ++ .exit c exc :: rest) →
    Nested body →
    getCurrentTenant (after v (before ++ .enter c :: (body ++ [.exit c exc]))) =
      getCurrentTenant (after v before)

def Covered (v : CurrentTenant) (es : List (Event ε)) : Prop :=
  ∀ before c body rest, es = before ++ .enter c :: (body ++ rest) → Nested body →
    getCurrentTenant (after v (before ++ .enter c :: body)) = some c.tenantId

variable {es fs before body rest : List (Event ε)}

@[simp] theorem after_nil (v : CurrentTenant) : after v ([] : List (Event ε)) = v := rfl

@[simp] theorem after_append (v : CurrentTenant) (es fs : List (Event ε)) :
    after v (es ++ fs) = after (after v es) fs := List.foldl_append

@[simp] theorem after_enter (v : CurrentTenant) (c : TenantContext) (es : List (Event ε)) :
    after v (.enter c :: es) = after (some c.tenantId) es := rfl

@[simp] theorem after_exit (v : CurrentTenant) (c : TenantContext) (exc : Option ε) :
    after v (.exit c exc :: es) = after none es := rfl

theorem Restores.take (h : Restores v (es ++ fs)) : Restores v es := by
  rintro before c body exc rest rfl hinner
  exact h before c body exc (rest ++ fs) (by simp) hinner

theorem Restores.drop (h : Restores v (es ++ fs)) : Restores (after v es) fs := by
  rintro before c body exc rest rfl hinner
  have := h (es ++ before) c body exc rest (by simp) hinner
  simpa using this

theorem Restores.flat (hes : Nested es) (h : Restores v es) :
    es = [] ∨ getCurrentTenant v = none ∧ Flat es := by
  induction hes generalizing v with
  | nil => exact .inl rfl
  | @scope body rest c exc hinner hrest ihinner ihrest =>
    have hv : getCurrentTenant v = none := by
      have := h [] c body exc rest rfl hinner
      simpa [getCurrentTenant] using this.symm
    have hall : Restores v ([.enter c] ++ (body ++ .exit c exc :: rest)) := h
    have hafter : Restores (some c.tenantId) (body ++ .exit c exc :: rest) := hall.drop
    have hempty : body = [] := by
      rcases ihinner hafter.take with h | ⟨h, _⟩
      · exact h
      · cases h
    subst hempty
    have hexit : Restores (some c.tenantId) ([.exit c exc] ++ rest) := hafter
    have hlast : Restores none rest := hexit.drop
    refine .inr ⟨hv, .scope ?_⟩
    rcases ihrest hlast with rfl | ⟨_, h⟩
    · exact .nil
    · exact h

theorem Flat.around (h : Flat es) (he : es = before ++ .enter c :: rest) :
    after none before = none ∧ ∃ exc fs, rest = .exit c exc :: fs := by
  induction h generalizing before with
  | nil => simp at he
  | @scope fs d exc hfs ih =>
    match before, he with
    | [], he =>
      cases he
      exact ⟨rfl, exc, fs, rfl⟩
    | [e], he => cases he
    | e :: f :: before, he =>
      cases he
      simpa using ih rfl

theorem Nested.eq_nil (h : Nested body) (he : body ++ rest = .exit c exc :: fs) :
    body = [] := by
  cases h with
  | nil => rfl
  | scope => cases he

theorem Flat.restores (h : Flat es) : Restores none es := by
  intro before c body exc rest he hinner
  obtain ⟨hbefore, exc', rest', hrest⟩ := h.around he
  simp [hinner.eq_nil hrest, hbefore]

theorem Flat.covered (h : Flat es) : Covered none es := by
  intro before c body rest he hinner
  obtain ⟨_, exc', rest', hrest⟩ := h.around he
  simp [hinner.eq_nil hrest, getCurrentTenant]

/-- Tenants nest exactly where no context is entered inside another one, or with a tenant already
current. -/
theorem tenants_nest_iff (v : CurrentTenant) (es : List (Event ε)) (hes : Nested es) :
    Restores v es ∧ Covered v es ↔ es = [] ∨ getCurrentTenant v = none ∧ Flat es := by
  constructor
  · exact fun h => h.1.flat hes
  · rintro (rfl | ⟨hv, h⟩)
    · constructor
      · intro before _ _ _ _ he
        simp at he
      · intro before _ _ _ he
        simp at he
    · cases v with
      | none => exact ⟨h.restores, h.covered⟩
      | some => cases hv

theorem tenants_nest_one_by_one :
    Restores none ([.enter ⟨"acme"⟩, .exit ⟨"acme"⟩ none, .enter ⟨"globex"⟩,
        .exit ⟨"globex"⟩ (some "timeout")] : List (Event String)) ∧
      Covered none ([.enter ⟨"acme"⟩, .exit ⟨"acme"⟩ none, .enter ⟨"globex"⟩,
        .exit ⟨"globex"⟩ (some "timeout")] : List (Event String)) :=
  (tenants_nest_iff none _ (.scope .nil (.scope .nil .nil))).mpr
    (.inr ⟨rfl, .scope (.scope .nil)⟩)

/-- The inner scope's end leaves the outer one without its tenant. -/
theorem tenants_lost :
    Nested ([.enter ⟨"acme"⟩, .enter ⟨"globex"⟩, .exit ⟨"globex"⟩ none, .exit ⟨"acme"⟩ none] :
        List (Event String)) ∧
      ¬Restores none ([.enter ⟨"acme"⟩, .enter ⟨"globex"⟩, .exit ⟨"globex"⟩ none,
        .exit ⟨"acme"⟩ none] : List (Event String)) ∧
      getCurrentTenant (after none ([.enter ⟨"acme"⟩, .enter ⟨"globex"⟩, .exit ⟨"globex"⟩ none] :
        List (Event String))) = none := by
  have hnested : Nested ([.enter ⟨"acme"⟩] ++ ([.enter ⟨"globex"⟩, .exit ⟨"globex"⟩ none] ++
      [.exit ⟨"acme"⟩ none]) : List (Event String)) := .scope (.scope .nil .nil) .nil
  refine ⟨hnested, fun h => ?_, rfl⟩
  cases h [.enter ⟨"acme"⟩] ⟨"globex"⟩ [] none [.exit ⟨"acme"⟩ none] rfl .nil

end PrismPipe.Tenancy
