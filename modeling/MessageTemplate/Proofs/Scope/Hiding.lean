import MessageTemplate.Proofs.Scope.Frame

/-!
# Chains that differ further out

Two chains may have the same scopes on the inside and different ones further
out. If what is further out answers every look-up alike and is changed alike by
every assignment, declaration and result, the difference stays hidden, however
many scopes are opened in front of it.
-/

namespace MessageTemplate
namespace Chain

/-- The chain with one more scope on the inside. -/
def inside (chain : Chain) (scope : Scope) : Chain := ⟨scope, chain.scopes⟩

/-- Two chains have the same `depth` scopes on the inside, and what is around these is related. -/
inductive Around (Q : Chain → Chain → Prop) : Nat → Chain → Chain → Prop
  | base {first second : Chain} (h : Q first second) : Around Q 0 first second
  | inside {depth : Nat} {first second : Chain} (scope : Scope) (h : Around Q depth first second) :
      Around Q (depth + 1) (first.inside scope) (second.inside scope)

/-- The lists hold the scopes of related chains. -/
def OnScopes (Q : Chain → Chain → Prop) (scopes others : List Scope) : Prop :=
  ∃ first second, Q first second ∧ first.scopes = scopes ∧ second.scopes = others

/-- Related chains cannot be told apart and stay related under all changes. -/
structure IsHidden (Q : Chain → Chain → Prop) : Prop where
  lookup : ∀ {first second}, Q first second → ∀ name, first.lookup name = second.lookup name
  function? : ∀ {first second}, Q first second → ∀ name,
    first.function? name = second.function? name
  rebind? : ∀ {first second}, Q first second → ∀ name value,
    Option.Rel (OnScopes Q) (rebind? name value first.scopes) (rebind? name value second.scopes)
  assign : ∀ {first second}, Q first second → ∀ name value,
    Q (first.assign name value) (second.assign name value)
  declare : ∀ {first second}, Q first second → ∀ f, Q (first.declare f) (second.declare f)
  record : ∀ {first second}, Q first second → ∀ value, Q (first.record value) (second.record value)

/-- A name that is bound in a chain is bound anew in a chain with the same scopes. -/
theorem exists_of_rebind? {chain : Chain} {name : String} {value : Value} {after : List Scope}
    (h : rebind? name value chain.scopes = some after) :
    ∃ changed : Chain, changed.scopes = after ∧ SameScopes chain.scopes changed.scopes := by
  have hsame := (rebind?_eq_some h).1
  cases after with
  | nil => cases hsame
  | cons scope rest => exact ⟨⟨scope, rest⟩, rfl, hsame⟩

theorem lookup_inside (chain : Chain) (scope : Scope) (name : String) :
    (chain.inside scope).lookup name = (scope.bindings.get? name).or (chain.lookup name) := by
  rw [lookup, inside, scopes, List.findSome?_cons]
  cases scope.bindings.get? name <;> rfl

theorem function?_inside (chain : Chain) (scope : Scope) (name : String) :
    (chain.inside scope).function? name =
      (scope.functions.get? name).or (chain.function? name) := by
  rw [function?, inside, scopes, List.findSome?_cons]
  cases scope.functions.get? name <;> rfl

theorem record_inside (chain : Chain) (scope : Scope) (value : Value) :
    (chain.inside scope).record value =
      if scope.kind = .block then (chain.record value).inside scope
      else chain.inside (scope.record value) := rfl

theorem rebind?_inside (chain : Chain) (scope : Scope) (name : String) (value : Value) :
    rebind? name value (chain.inside scope).scopes =
      if scope.binds name then some (scope.bind name value :: chain.scopes)
      else (rebind? name value chain.scopes).map (scope :: ·) := rfl

/-- An assignment goes around the inner scope if a name is bound there. -/
theorem assign_inside (chain : Chain) (scope : Scope) (name : String) (value : Value) :
    (chain.inside scope).assign name value =
      match rebind? name value chain.scopes with
      | some outer => ⟨scope, outer⟩
      | none => chain.inside (scope.bind name value) := rfl

namespace Around

variable {Q : Chain → Chain → Prop} (hQ : IsHidden Q) {depth : Nat} {first second : Chain}

theorem enter (h : Around Q depth first second) (kind : ScopeKind) :
    Around Q (depth + 1) (first.enter kind) (second.enter kind) := .inside (.fresh kind) h

theorem leave (h : Around Q (depth + 1) first second) :
    Around Q depth first.leave second.leave := by
  cases h with
  | inside scope h => exact h

theorem current (h : Around Q (depth + 1) first second) : first.current = second.current := by
  cases h with
  | inside scope h => rfl

theorem editCurrent (h : Around Q (depth + 1) first second) (edit : Scope → Scope) :
    Around Q (depth + 1) (first.editCurrent edit) (second.editCurrent edit) := by
  cases h with
  | inside scope h => exact .inside (edit scope) h

include hQ

theorem lookup (h : Around Q depth first second) (name : String) :
    first.lookup name = second.lookup name := by
  induction h with
  | base h => exact hQ.lookup h name
  | inside scope _ ih => rw [lookup_inside, lookup_inside, ih]

theorem function? (h : Around Q depth first second) (name : String) :
    first.function? name = second.function? name := by
  induction h with
  | base h => exact hQ.function? h name
  | inside scope _ ih => rw [function?_inside, function?_inside, ih]

theorem rebind? (h : Around Q depth first second) (name : String) (value : Value) :
    Option.Rel (OnScopes (Around Q depth)) (rebind? name value first.scopes)
      (rebind? name value second.scopes) := by
  induction h with
  | base h =>
    have hrebound := hQ.rebind? h name value
    generalize Chain.rebind? name value _ = scopes? at hrebound
    generalize Chain.rebind? name value _ = others? at hrebound
    cases hrebound with
    | none => exact .none
    | some hscopes =>
      obtain ⟨changed, other, hrelated, rfl, rfl⟩ := hscopes
      exact .some ⟨changed, other, .base hrelated, rfl, rfl⟩
  | @inside depth first second scope h ih =>
    rw [rebind?_inside, rebind?_inside]
    split
    · exact .some ⟨_, _, .inside (scope.bind name value) h, rfl, rfl⟩
    · generalize Chain.rebind? name value first.scopes = scopes? at ih
      generalize Chain.rebind? name value second.scopes = others? at ih
      cases ih with
      | none => exact .none
      | some hscopes =>
        obtain ⟨changed, other, hrelated, rfl, rfl⟩ := hscopes
        exact .some ⟨_, _, .inside scope hrelated, rfl, rfl⟩

theorem assign (h : Around Q depth first second) (name : String) (value : Value) :
    Around Q depth (first.assign name value) (second.assign name value) := by
  cases h with
  | base h => exact .base (hQ.assign h name value)
  | @inside depth first second scope h =>
    have hrebound := rebind? hQ h name value
    rw [assign_inside, assign_inside]
    generalize Chain.rebind? name value first.scopes = scopes? at hrebound
    generalize Chain.rebind? name value second.scopes = others? at hrebound
    cases hrebound with
    | none => exact .inside (scope.bind name value) h
    | some hscopes =>
      obtain ⟨changed, other, hrelated, rfl, rfl⟩ := hscopes
      exact .inside scope hrelated

theorem declare (h : Around Q depth first second) (f : Function) :
    Around Q depth (first.declare f) (second.declare f) := by
  cases h with
  | base h => exact .base (hQ.declare h f)
  | inside scope h => exact .inside (scope.declare f) h

theorem record (h : Around Q depth first second) (value : Value) :
    Around Q depth (first.record value) (second.record value) := by
  induction h with
  | base h => exact .base (hQ.record h value)
  | inside scope h ih =>
    rw [record_inside, record_inside]
    split
    · exact .inside scope ih
    · exact .inside (scope.record value) h

end Around
end Chain
end MessageTemplate
