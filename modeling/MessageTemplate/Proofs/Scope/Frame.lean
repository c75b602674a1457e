import Mathlib.Data.List.Forall2
import MessageTemplate.Scope.Chain

/-!
# What changes in a chain

A name that is assigned to either is bound already, and keeps its scope, or
becomes bound in the current scope. A result that is recorded changes the scope
of the nearest call alone, and outside of calls the outermost one.
-/

namespace MessageTemplate

/-- The names that are bound when a scope is opened. -/
def ScopeKind.parameters : ScopeKind → List String
  | .root | .block => []
  | .call parameters => parameters

namespace Scope

/-- The same scope but for the values of its variables and for its result. -/
structure Same (before after : Scope) : Prop where
  kind : after.kind = before.kind
  names : ∀ name, after.binds name = before.binds name
  functions : after.functions = before.functions

theorem Same.refl (scope : Scope) : Same scope scope := ⟨rfl, fun _ => rfl, rfl⟩

theorem Same.trans {a b c : Scope} (hab : Same a b) (hbc : Same b c) : Same a c :=
  ⟨hbc.kind.trans hab.kind, fun name => (hbc.names name).trans (hab.names name),
    hbc.functions.trans hab.functions⟩

theorem binds_bind (scope : Scope) (name : String) (value : Value) (other : String) :
    (scope.bind name value).binds other = (decide (other = name) || scope.binds other) :=
  Table.contains_insert _ _ _ _

/-- To bind a bound name anew changes nothing but its value. -/
theorem same_bind {scope : Scope} {name : String} (h : scope.binds name = true) (value : Value) :
    Same scope (scope.bind name value) := by
  constructor
  · rfl
  · intro other
    rw [binds_bind]
    by_cases hother : other = name
    · subst hother
      simp [h]
    · simp [hother]
  · rfl

theorem same_record (scope : Scope) (value : Value) : Same scope (scope.record value) :=
  ⟨rfl, fun _ => rfl, rfl⟩

end Scope

/-- The same scopes but for the values of variables and for results. -/
def SameScopes (before after : List Scope) : Prop := List.Forall₂ Scope.Same before after

theorem SameScopes.refl (scopes : List Scope) : SameScopes scopes scopes := by
  induction scopes with
  | nil => exact .nil
  | cons scope scopes ih => exact .cons (.refl scope) ih

theorem SameScopes.trans {a b c : List Scope} (hab : SameScopes a b) (hbc : SameScopes b c) :
    SameScopes a c := by
  induction hab generalizing c with
  | nil => exact hbc
  | cons hscope _ ih =>
    cases hbc with
    | cons hnext hrest => exact .cons (hscope.trans hnext) (ih hrest)

theorem SameScopes.kinds {before after : List Scope} (h : SameScopes before after) :
    after.map Scope.kind = before.map Scope.kind := by
  induction h with
  | nil => rfl
  | cons hscope _ ih => rw [List.map_cons, List.map_cons, hscope.kind, ih]

theorem SameScopes.functions {before after : List Scope} (h : SameScopes before after) :
    after.map Scope.functions = before.map Scope.functions := by
  induction h with
  | nil => rfl
  | cons hscope _ ih => rw [List.map_cons, List.map_cons, hscope.functions, ih]

/-- No scope binds a name that none of them bound. -/
theorem SameScopes.forall_binds {before after : List Scope} (h : SameScopes before after)
    {name : String} (hbefore : ∀ scope ∈ before, scope.binds name = false) :
    ∀ scope ∈ after, scope.binds name = false := by
  induction h with
  | nil => simp
  | cons hscope _ ih =>
    rw [List.forall_mem_cons] at hbefore ⊢
    exact ⟨(hscope.names name).trans hbefore.1, ih hbefore.2⟩

theorem SameScopes.symm {before after : List Scope} (h : SameScopes before after) :
    SameScopes after before := by
  induction h with
  | nil => exact .nil
  | cons hscope _ ih =>
    exact .cons ⟨hscope.kind.symm, fun name => (hscope.names name).symm, hscope.functions.symm⟩ ih

namespace Chain

/-- The results that the scopes keep, from the inside out. -/
def results (chain : Chain) : List Value := chain.scopes.map Scope.result

/-- The number of the scope that a result is recorded in: the first that is not a block, or the
last. -/
def ownerOf : List ScopeKind → Nat
  | [] | [_] => 0
  | kind :: next :: rest => if kind = .block then ownerOf (next :: rest) + 1 else 0

def owner (chain : Chain) : Nat := ownerOf (chain.scopes.map Scope.kind)

theorem owner_eq {before after : Chain}
    (h : after.scopes.map Scope.kind = before.scopes.map Scope.kind) :
    after.owner = before.owner :=
  congrArg ownerOf h

/-! ## Assignments -/

section

variable {name : String} {value : Value}

theorem rebind?_eq_none_iff {scopes : List Scope} :
    rebind? name value scopes = none ↔ ∀ scope ∈ scopes, scope.binds name = false := by
  induction scopes with
  | nil => simp [rebind?]
  | cons scope scopes ih =>
    rw [rebind?]
    by_cases hbinds : scope.binds name = true
    · simp [hbinds]
    · simp_all

theorem rebind?_eq_some {scopes after : List Scope} (h : rebind? name value scopes = some after) :
    SameScopes scopes after ∧ after.map Scope.result = scopes.map Scope.result := by
  induction scopes generalizing after with
  | nil => simp [rebind?] at h
  | cons scope scopes ih =>
    rw [rebind?] at h
    by_cases hbinds : scope.binds name = true
    · rw [if_pos hbinds, Option.some.injEq] at h
      subst h
      exact ⟨.cons (Scope.same_bind hbinds value) (SameScopes.refl scopes), rfl⟩
    · rw [if_neg hbinds] at h
      obtain ⟨rest, hrest, rfl⟩ := Option.map_eq_some_iff.1 h
      obtain ⟨hsame, hresults⟩ := ih hrest
      refine ⟨.cons (.refl scope) hsame, ?_⟩
      rw [List.map_cons, List.map_cons, hresults]

/-- An assignment goes to a scope around the current one, or binds a name that none of these has. -/
theorem assign_cases (chain : Chain) (name : String) (value : Value) :
    (∃ outer, chain.assign name value = ⟨chain.current, outer⟩ ∧ SameScopes chain.outer outer ∧
      outer.map Scope.result = chain.outer.map Scope.result) ∨
    (chain.assign name value = ⟨chain.current.bind name value, chain.outer⟩ ∧
      ∀ scope ∈ chain.outer, scope.binds name = false) := by
  rw [assign]
  cases h : rebind? name value chain.outer with
  | none => exact .inr ⟨rfl, rebind?_eq_none_iff.1 h⟩
  | some outer => exact .inl ⟨outer, rfl, rebind?_eq_some h⟩

end

/-! ## Results -/

theorem recordFrom_scopes (value : Value) (scope : Scope) (rest : List Scope) :
    SameScopes (scope :: rest) (recordFrom value scope rest).scopes ∧
      (recordFrom value scope rest).results =
        ((scope :: rest).map Scope.result).set
          (ownerOf ((scope :: rest).map Scope.kind)) value := by
  induction rest generalizing scope with
  | nil => exact ⟨.cons (scope.same_record value) .nil, rfl⟩
  | cons next rest ih =>
    rw [recordFrom]
    by_cases hblock : scope.kind = .block
    · obtain ⟨hsame, hresults⟩ := ih next
      rw [if_pos hblock]
      refine ⟨.cons (.refl scope) hsame, ?_⟩
      have howner : ownerOf ((scope :: next :: rest).map Scope.kind) =
          ownerOf ((next :: rest).map Scope.kind) + 1 := if_pos hblock
      rw [howner, List.map_cons, List.set_cons_succ, ← hresults]
      rfl
    · rw [if_neg hblock]
      refine ⟨.cons (scope.same_record value) (SameScopes.refl _), ?_⟩
      simp [results, scopes, ownerOf, hblock, Scope.record]

theorem scopes_record (chain : Chain) (value : Value) :
    SameScopes chain.scopes (chain.record value).scopes :=
  (recordFrom_scopes value chain.current chain.outer).1

theorem results_record (chain : Chain) (value : Value) :
    (chain.record value).results = chain.results.set chain.owner value :=
  (recordFrom_scopes value chain.current chain.outer).2

theorem owner_lt_length (chain : Chain) : chain.owner < chain.results.length := by
  rw [owner, results, List.length_map, ← List.length_map (f := Scope.kind)]
  generalize hkinds : chain.scopes.map Scope.kind = kinds
  have hne : kinds ≠ [] := by
    rintro rfl
    simp [scopes] at hkinds
  clear hkinds
  induction kinds with
  | nil => contradiction
  | cons kind kinds ih =>
    cases kinds with
    | nil => exact Nat.zero_lt_one
    | cons next kinds =>
      rw [ownerOf]
      split
      · exact Nat.succ_lt_succ (ih (by simp))
      · exact Nat.zero_lt_succ _

end Chain
end MessageTemplate
