import MessageTemplate.Tree.Stmt
import MessageTemplate.Value.Basic

/-!
# Code

Code is a tree that is ready to run: literals have become values, and the marks
of the nodes are locations, which also tell the text that a node comes from.
-/

namespace MessageTemplate

/-- An expression that is ready to be evaluated. -/
abbrev Term := Expr Value Location

/-- A statement that is ready to run. -/
abbrev Code := Stmt Term Location

/-- What a call runs: declared code, or the recording of the current time. -/
inductive FunctionBody
  | code (body : Code)
  | clock

structure Function where
  name : String
  parameters : List String
  body : FunctionBody
  /-- Where the function is declared, unless it is always there. -/
  location : Option Location

/-- The functions that every template can call. -/
def systemFunction? (name : String) : Option Function :=
  if name = "now" then some ⟨name, [], .clock, none⟩ else none

def isSystemFunction (name : String) : Bool := (systemFunction? name).isSome

end MessageTemplate
