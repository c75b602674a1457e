import MessageTemplate.Proofs.Scope.Frame

/-!
# Names that are bound twice

An assignment binds a name in the current scope only if no scope around it does,
and only a call binds names without looking further out. So of two scopes that
bind the same name the inner one is that of a call with a parameter of this
name, and no other name is hidden when it is looked up.
-/

namespace MessageTemplate

namespace SameScopes

variable {before after : List Scope}

theorem exists_same (h : SameScopes before after) {scope : Scope} (hscope : scope ∈ after) :
    ∃ old ∈ before, Scope.Same old scope := by
  induction h with
  | nil => contradiction
  | @cons old new _ _ hsame _ ih =>
    rcases List.mem_cons.1 hscope with rfl | hrest
    · exact ⟨old, by simp, hsame⟩
    · obtain ⟨older, hmem, hsame⟩ := ih hrest
      exact ⟨older, by simp [hmem], hsame⟩

theorem shadows (h : SameScopes before after)
    (hbefore : before.Pairwise fun inner outer =>
      ∀ name, inner.binds name = true → outer.binds name = true → name ∈ inner.kind.parameters) :
    after.Pairwise fun inner outer =>
      ∀ name, inner.binds name = true → outer.binds name = true → name ∈ inner.kind.parameters := by
  induction h with
  | nil => exact .nil
  | cons hscope hrest ih =>
    rw [List.pairwise_cons] at hbefore ⊢
    constructor
    · intro outer houter name hinner hbinds
      obtain ⟨older, hmem, hsame⟩ := exists_same hrest houter
      rw [hscope.names] at hinner
      rw [hsame.names] at hbinds
      rw [hscope.kind]
      exact hbefore.1 older hmem name hinner hbinds
    · exact ih hbefore.2

end SameScopes

namespace Chain

/-- A name that an inner scope and one around it bind is a parameter of the inner one. -/
def ShadowsParametersOnly (chain : Chain) : Prop :=
  chain.scopes.Pairwise fun inner outer =>
    ∀ name, inner.binds name = true → outer.binds name = true → name ∈ inner.kind.parameters

/-- Each scope binds the parameters that it was opened for. -/
def BindsParameters (chain : Chain) : Prop :=
  ∀ scope ∈ chain.scopes, ∀ name ∈ scope.kind.parameters, scope.binds name = true

/-! ## Opening a scope -/

section

variable {chain : Chain}

theorem ShadowsParametersOnly.enter (h : chain.ShadowsParametersOnly) (kind : ScopeKind) :
    (chain.enter kind).ShadowsParametersOnly := by
  rw [ShadowsParametersOnly, scopes, List.pairwise_cons]
  constructor
  · intro outer _ name hname
    contradiction
  · exact h

theorem ShadowsParametersOnly.bind (h : chain.ShadowsParametersOnly) {name : String}
    (hname : name ∈ chain.current.kind.parameters) (value : Value) :
    (chain.bind name value).ShadowsParametersOnly := by
  rw [ShadowsParametersOnly, scopes, List.pairwise_cons] at h ⊢
  obtain ⟨hcurrent, houter⟩ := h
  constructor
  · intro scope hscope other hother hbinds
    by_cases heq : other = name
    · subst heq
      exact hname
    · apply hcurrent scope hscope other _ hbinds
      have hbound : (chain.current.bind name value).binds other = true := hother
      simpa [Scope.binds_bind, heq] using hbound
  · exact houter

end

/-! ## Reading after an assignment -/

theorem rebind?_of_binds {name : String} (value : Value) {scopes : List Scope}
    (h : ∃ scope ∈ scopes, scope.binds name = true) :
    ∃ after, rebind? name value scopes = some after ∧
      after.findSome? (fun scope => scope.bindings.get? name) = some value := by
  induction scopes with
  | nil => simp at h
  | cons scope scopes ih =>
    rw [rebind?]
    by_cases hbinds : scope.binds name = true
    · rw [if_pos hbinds]
      exact ⟨_, rfl, by simp [Scope.bind]⟩
    · obtain ⟨after, hafter, hfind⟩ := ih (by simpa [hbinds] using h)
      have hnone : scope.bindings.get? name = none := by
        simpa [Scope.binds, Table.contains] using hbinds
      rw [if_neg hbinds, hafter]
      exact ⟨_, rfl, by rw [List.findSome?_cons, hnone, hfind]⟩

theorem lookup_of_binds {chain : Chain} {name : String} (h : chain.current.binds name = true) :
    chain.lookup name = chain.current.bindings.get? name := by
  rw [Scope.binds, Table.contains, Option.isSome_iff_exists] at h
  obtain ⟨bound, hbound⟩ := h
  rw [lookup, scopes, List.findSome?_cons, hbound]

/-- What is assigned is read back if no name is bound both here and further out. -/
theorem lookup_assign_of_free {chain : Chain} {name : String} (value : Value)
    (h : chain.current.binds name = true → ∀ scope ∈ chain.outer, scope.binds name = false) :
    (chain.assign name value).lookup name = some value := by
  by_cases houter : ∃ scope ∈ chain.outer, scope.binds name = true
  · obtain ⟨after, hafter, hfind⟩ := rebind?_of_binds value houter
    have hfree : ¬ chain.current.binds name = true := by
      intro hcurrent
      obtain ⟨scope, hscope, hbinds⟩ := houter
      exact Bool.false_ne_true ((h hcurrent scope hscope).symm.trans hbinds)
    have hnone : chain.current.bindings.get? name = none := by
      simpa [Scope.binds, Table.contains] using hfree
    rw [assign, hafter, lookup, scopes, List.findSome?_cons, hnone, hfind]
  · have hnone : rebind? name value chain.outer = none := by
      rw [rebind?_eq_none_iff]
      simpa using houter
    rw [assign, hnone, lookup, scopes, List.findSome?_cons]
    simp [bind, editCurrent, Scope.bind]

/-- What is assigned is read back, unless the current scope hides it behind a parameter. -/
theorem lookup_assign {chain : Chain} (name : String) (value : Value)
    (hshadows : chain.ShadowsParametersOnly) (hparameters : chain.BindsParameters) :
    (chain.assign name value).lookup name =
      if name ∈ chain.current.kind.parameters ∧ ∃ scope ∈ chain.outer, scope.binds name = true
      then chain.lookup name else some value := by
  rw [ShadowsParametersOnly, scopes, List.pairwise_cons] at hshadows
  rw [BindsParameters, scopes, List.forall_mem_cons] at hparameters
  by_cases hhidden : name ∈ chain.current.kind.parameters ∧
      ∃ scope ∈ chain.outer, scope.binds name = true
  · obtain ⟨hparameter, houter⟩ := hhidden
    obtain ⟨after, hafter, -⟩ := rebind?_of_binds value houter
    have hbinds := hparameters.1 name hparameter
    rw [if_pos ⟨hparameter, houter⟩, lookup_of_binds hbinds, assign, hafter]
    exact lookup_of_binds hbinds
  · rw [if_neg hhidden]
    apply lookup_assign_of_free
    intro hcurrent scope hscope
    by_contra hbinds
    rw [Bool.not_eq_false] at hbinds
    exact hhidden ⟨hshadows.1 scope hscope name hcurrent hbinds, scope, hscope, hbinds⟩

end Chain

end MessageTemplate
