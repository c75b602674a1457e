import MessageTemplate.Evaluation.Stmt
import MessageTemplate.Resolution.Tree

/-!
# Compiling templates

The items of a template are made ready in order. A constant is computed at
once, in the outermost scope, and is known to the items behind it; it leaves an
empty statement. Constants that are declared before an item that is refused stay
declared.
-/

namespace MessageTemplate

/-- A run that makes code. -/
abbrev Compile := Run CompileError

namespace Compile

variable {α : Type}

def ofResolved : Resolve.Resolved α → Compile α
  | .ok value => pure value
  | .error error => throw (.failed error)

/-- A failure to compute a constant; one without a place is placed at the constant. -/
def constantError (here : Location) (error : RuntimeError) : CompileError :=
  ⟨.constant error.cause, (error.stamp here).location⟩

def constantStop (here : Location) : Stop RuntimeError → Stop CompileError
  | .failed error => .failed (constantError here error)
  | .exhausted => .exhausted

/-- The value of a constant that is declared at a place. -/
def constantValue (allowance : Nat) (here : Location) (value : Term) : Compile Value :=
  (Eval.atRoot (Eval.expression allowance value)).adaptExcept (constantStop here)

def item (allowance : Nat) (file : String) : SourceItem → Compile Code
  | .stmt s => ofResolved (Resolve.stmt file s)
  | .constant place name value => do
    let value ← constantValue allowance ⟨file, place⟩ (← ofResolved (Resolve.expr file value))
    modify fun state => state.setConstant name value
    return .empty ⟨file, place⟩

/-- The code of a template. -/
def template (allowance : Nat) (file : String) : SourceTemplate → Compile (List Code)
  | [] => pure []
  | first :: rest => do
    let code ← item allowance file first
    return code :: (← template allowance file rest)

end Compile
end MessageTemplate
