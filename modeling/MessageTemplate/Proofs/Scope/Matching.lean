import Mathlib.Data.List.Forall2
import MessageTemplate.Scope.Chain

/-!
# Chains with other functions

Two chains match if they differ at most in the functions that their scopes hold,
and if these are related, name by name. Whatever is done to the one can be done
to the other.
-/

namespace MessageTemplate

/-- The same scope but for its functions, which are related. -/
structure Scope.Matches (F : Function → Function → Prop) (first second : Scope) : Prop where
  kind : first.kind = second.kind
  bindings : first.bindings = second.bindings
  result : first.result = second.result
  functions : ∀ name, Option.Rel F (first.functions.get? name) (second.functions.get? name)

def Chain.Matches (F : Function → Function → Prop) (first second : Chain) : Prop :=
  List.Forall₂ (Scope.Matches F) first.scopes second.scopes

variable {F : Function → Function → Prop}

namespace Scope.Matches

variable {first second : Scope}

theorem refl (hF : ∀ f, F f f) (scope : Scope) : Matches F scope scope where
  kind := rfl
  bindings := rfl
  result := rfl
  functions := fun name => by
    cases scope.functions.get? name with
    | none => exact .none
    | some f => exact .some (hF f)

theorem trans (hF : ∀ f g h, F f g → F g h → F f h) {third : Scope} (h : Matches F first second)
    (hthen : Matches F second third) : Matches F first third where
  kind := h.kind.trans hthen.kind
  bindings := h.bindings.trans hthen.bindings
  result := h.result.trans hthen.result
  functions := fun name => by
    have hfirst := h.functions name
    have hsecond := hthen.functions name
    generalize first.functions.get? name = f? at hfirst
    generalize second.functions.get? name = g? at hfirst hsecond
    generalize third.functions.get? name = h? at hsecond
    cases hfirst with
    | none =>
      cases hsecond with
      | none => exact .none
    | some hfg =>
      cases hsecond with
      | some hgh => exact .some (hF _ _ _ hfg hgh)

theorem fresh (kind : ScopeKind) : Matches F (.fresh kind) (.fresh kind) :=
  ⟨rfl, rfl, rfl, fun _ => .none⟩

theorem bind (h : Matches F first second) (name : String) (value : Value) :
    Matches F (first.bind name value) (second.bind name value) :=
  ⟨h.kind, congrArg (fun table => table.insert name value) h.bindings, h.result, h.functions⟩

theorem record (h : Matches F first second) (value : Value) :
    Matches F (first.record value) (second.record value) :=
  ⟨h.kind, h.bindings, rfl, h.functions⟩

theorem declare (h : Matches F first second) {f g : Function} (hfg : F f g)
    (hname : f.name = g.name) :
    Matches F (first.declare f) (second.declare g) where
  kind := h.kind
  bindings := h.bindings
  result := h.result
  functions := fun name => by
    rw [Scope.declare, Scope.declare, Table.get?_insert, Table.get?_insert, hname]
    split
    · exact .some hfg
    · exact h.functions name

theorem binds (h : Matches F first second) (name : String) :
    first.binds name = second.binds name := by
  rw [Scope.binds, Scope.binds, h.bindings]

end Scope.Matches

namespace Chain

theorem forall₂_rebind? {scopes others : List Scope}
    (h : List.Forall₂ (Scope.Matches F) scopes others) (name : String) (value : Value) :
    Option.Rel (List.Forall₂ (Scope.Matches F)) (rebind? name value scopes)
      (rebind? name value others) := by
  induction h with
  | nil => exact .none
  | cons hscope hrest ih =>
    rw [rebind?, rebind?, hscope.binds name]
    split
    · exact .some (.cons (hscope.bind name value) hrest)
    · generalize rebind? name value _ = rest? at ih
      generalize rebind? name value _ = others? at ih
      cases ih with
      | none => exact .none
      | some hrest => exact .some (.cons hscope hrest)

theorem recordFrom_matches {scope other : Scope} {scopes others : List Scope}
    (hscope : Scope.Matches F scope other) (h : List.Forall₂ (Scope.Matches F) scopes others)
    (value : Value) :
    Matches F (recordFrom value scope scopes) (recordFrom value other others) := by
  induction h generalizing scope other with
  | nil => exact .cons (hscope.record value) .nil
  | cons hnext hrest ih =>
    rw [recordFrom, recordFrom, hscope.kind]
    split
    · exact .cons hscope (ih hnext)
    · exact .cons (hscope.record value) (.cons hnext hrest)

namespace Matches

variable {first second : Chain}

theorem current (h : Matches F first second) : Scope.Matches F first.current second.current :=
  (List.forall₂_cons.1 h).1

theorem outer (h : Matches F first second) :
    List.Forall₂ (Scope.Matches F) first.outer second.outer :=
  (List.forall₂_cons.1 h).2

theorem refl (hF : ∀ f, F f f) (chain : Chain) : Matches F chain chain :=
  List.forall₂_same.2 fun scope _ => .refl hF scope

theorem trans (hF : ∀ f g h, F f g → F g h → F f h) {third : Chain} (h : Matches F first second)
    (hthen : Matches F second third) : Matches F first third := by
  unfold Matches at h hthen ⊢
  generalize first.scopes = scopes at h
  generalize second.scopes = others at h hthen
  generalize third.scopes = more at hthen
  induction h generalizing more with
  | nil =>
    cases hthen
    exact .nil
  | cons hscope _ ih =>
    cases hthen with
    | cons hnext hrest => exact .cons (hscope.trans hF hnext) (ih _ hrest)

theorem lookup (h : Matches F first second) (name : String) :
    first.lookup name = second.lookup name := by
  unfold Matches at h
  unfold Chain.lookup
  generalize first.scopes = scopes at h
  generalize second.scopes = others at h
  induction h with
  | nil => rfl
  | cons hscope _ ih => rw [List.findSome?_cons, List.findSome?_cons, hscope.bindings, ih]

theorem function? (h : Matches F first second) (name : String) :
    Option.Rel F (first.function? name) (second.function? name) := by
  unfold Matches at h
  unfold Chain.function?
  generalize first.scopes = scopes at h
  generalize second.scopes = others at h
  induction h with
  | nil => exact .none
  | @cons scope other _ _ hscope _ ih =>
    have hfound := hscope.functions name
    rw [List.findSome?_cons, List.findSome?_cons]
    generalize scope.functions.get? name = f? at hfound
    generalize other.functions.get? name = g? at hfound
    cases hfound with
    | none => exact ih
    | some hfg => exact .some hfg

theorem enter (h : Matches F first second) (kind : ScopeKind) :
    Matches F (first.enter kind) (second.enter kind) := .cons (.fresh kind) h

theorem leave (h : Matches F first second) : Matches F first.leave second.leave := by
  have houter := h.outer
  rw [Chain.leave, Chain.leave]
  generalize first.outer = outer at houter
  generalize second.outer = others at houter
  cases houter with
  | nil => exact h
  | cons hnext hrest => exact .cons hnext hrest

theorem bind (h : Matches F first second) (name : String) (value : Value) :
    Matches F (first.bind name value) (second.bind name value) :=
  .cons (h.current.bind name value) h.outer

theorem assign (h : Matches F first second) (name : String) (value : Value) :
    Matches F (first.assign name value) (second.assign name value) := by
  have hrebound := forall₂_rebind? h.outer name value
  rw [Chain.assign, Chain.assign]
  generalize rebind? name value first.outer = outer? at hrebound
  generalize rebind? name value second.outer = others? at hrebound
  cases hrebound with
  | none => exact h.bind name value
  | some houter => exact .cons h.current houter

theorem declare (h : Matches F first second) {f g : Function} (hfg : F f g)
    (hname : f.name = g.name) : Matches F (first.declare f) (second.declare g) :=
  .cons (h.current.declare hfg hname) h.outer

theorem record (h : Matches F first second) (value : Value) :
    Matches F (first.record value) (second.record value) :=
  recordFrom_matches h.current h.outer value

end Matches
end Chain
end MessageTemplate
