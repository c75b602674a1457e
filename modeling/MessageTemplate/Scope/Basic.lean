import MessageTemplate.Evaluation.Code
import MessageTemplate.Table

/-!
# Scopes

A scope holds the variables and functions that are bound in it. Blocks of
conditionals and loops, and calls, open a scope of their own. The scope of a
call, like the outermost one, also keeps the result that is recorded last.
-/

namespace MessageTemplate

/-- Why a scope was opened. A call scope remembers the parameters it was opened for. -/
inductive ScopeKind
  | root
  | block
  | call (parameters : List String)
deriving Repr, DecidableEq

structure Scope where
  kind : ScopeKind
  bindings : Table Value
  functions : Table Function
  result : Value

namespace Scope

/-- A scope without bindings. -/
def fresh (kind : ScopeKind) : Scope := ⟨kind, .empty, .empty, .null⟩

def bind (scope : Scope) (name : String) (value : Value) : Scope :=
  { scope with bindings := scope.bindings.insert name value }

def declare (scope : Scope) (function : Function) : Scope :=
  { scope with functions := scope.functions.insert function.name function }

def record (scope : Scope) (value : Value) : Scope := { scope with result := value }

def binds (scope : Scope) (name : String) : Bool := scope.bindings.contains name

end Scope
end MessageTemplate
