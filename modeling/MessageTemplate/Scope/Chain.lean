import MessageTemplate.Scope.Basic

/-!
# Chains of scopes

The open scopes form a chain from the current one outward. A name is looked up
from the current scope on. An assignment, however, starts one scope further out
and stays in the current scope only if no other binds the name. So a name bound
both here and further out is changed further out, while looking it up still
finds the value bound here.
-/

namespace MessageTemplate

/-- The open scopes: the current one, and those around it from the inside out. -/
structure Chain where
  current : Scope
  outer : List Scope

namespace Chain

/-- The chain of a run that has just begun. -/
def root : Chain := ⟨.fresh .root, []⟩

instance : Inhabited Chain := ⟨root⟩

/-- All scopes from the inside out. -/
def scopes (chain : Chain) : List Scope := chain.current :: chain.outer

/-- Open a scope inside the current one. -/
def enter (chain : Chain) (kind : ScopeKind) : Chain := ⟨.fresh kind, chain.scopes⟩

/-- Close the current scope. The outermost scope stays. -/
def leave (chain : Chain) : Chain :=
  match chain.outer with
  | [] => chain
  | next :: outer => ⟨next, outer⟩

@[simp] theorem leave_enter (chain : Chain) (kind : ScopeKind) : (chain.enter kind).leave = chain :=
  rfl

/-- The value of a variable in the nearest scope that binds it. -/
def lookup (chain : Chain) (name : String) : Option Value :=
  chain.scopes.findSome? fun scope => scope.bindings.get? name

/-- The function of the nearest scope that declares it. -/
def function? (chain : Chain) (name : String) : Option Function :=
  chain.scopes.findSome? fun scope => scope.functions.get? name

def editCurrent (chain : Chain) (edit : Scope → Scope) : Chain :=
  { chain with current := edit chain.current }

/-- Bind a name in the current scope. -/
def bind (chain : Chain) (name : String) (value : Value) : Chain :=
  chain.editCurrent fun scope => scope.bind name value

/-- Bind a name anew in the first of the scopes that binds it, if one does. -/
def rebind? (name : String) (value : Value) : List Scope → Option (List Scope)
  | [] => none
  | scope :: rest =>
    if scope.binds name then some (scope.bind name value :: rest)
    else (rebind? name value rest).map (scope :: ·)

/-- Assign to a name: in the nearest scope around the current one that binds it, else here. -/
def assign (chain : Chain) (name : String) (value : Value) : Chain :=
  match rebind? name value chain.outer with
  | some outer => { chain with outer := outer }
  | none => chain.bind name value

def declare (chain : Chain) (function : Function) : Chain :=
  chain.editCurrent fun scope => scope.declare function

/-- Record a result in the first scope that is not a block, or in the outermost one. -/
def recordFrom (value : Value) : Scope → List Scope → Chain
  | scope, [] => ⟨scope.record value, []⟩
  | scope, next :: rest =>
    if scope.kind = .block then ⟨scope, (recordFrom value next rest).scopes⟩
    else ⟨scope.record value, next :: rest⟩

/-- Record a result in the nearest call, or in the outermost scope outside of calls. -/
def record (chain : Chain) (value : Value) : Chain := recordFrom value chain.current chain.outer

/-- The outermost scope. -/
def outermost (chain : Chain) : Scope := chain.outer.getLast?.getD chain.current

/-- The same chain with another outermost scope. -/
def withOutermost (chain : Chain) (scope : Scope) : Chain :=
  match chain.outer with
  | [] => ⟨scope, []⟩
  | _ :: _ => ⟨chain.current, chain.outer.dropLast ++ [scope]⟩

end Chain
end MessageTemplate
