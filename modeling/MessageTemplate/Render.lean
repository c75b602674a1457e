import MessageTemplate.Grammar.Stmt
import MessageTemplate.Resolution.Program

/-!
# Rendering templates

A template is compiled once and can be rendered any number of times. Each
rendering starts from the constants that compiling left and from an empty
document, so none of them sees another.
-/

namespace MessageTemplate

abbrev ParseError := Diagnostic SyntaxFault

/-- Why a template gives no document, by the stage at which it is refused. -/
inductive Failure
  | parse (error : ParseError)
  | compile (error : CompileError)
  | runtime (error : RuntimeError)
deriving DecidableEq

namespace Failure

/-- The failure as it is shown to the author of the template. -/
def text : Failure → String
  | parse error => Stage.parse.report error
  | compile error => Stage.compile.report error
  | runtime error => Stage.runtime.report error

end Failure

def Stop.map {ε ε' : Type} (f : ε → ε') : Stop ε → Stop ε'
  | .failed error => .failed (f error)
  | .exhausted => .exhausted

/-- The tree of a template text with the given label. -/
def parse (file source : String) : Except ParseError SourceTemplate :=
  (parseTemplate source).mapError fun error => ⟨error.fault, some ⟨file, error.position⟩⟩

/-- A run that works on a template text. -/
abbrev Session := Run Failure

namespace Session

variable {α : Type}

def parse (file source : String) : Session SourceTemplate :=
  match MessageTemplate.parse file source with
  | .ok template => pure template
  | .error error => throw (.failed (.parse error))

def compile (allowance : Nat) (file source : String) : Session (List Code) := do
  let template ← parse file source
  (Compile.template allowance file template).adaptExcept (Stop.map .compile)

/-- Run code in the current scope. -/
def run (allowance : Nat) (code : List Code) : Session Unit :=
  (Eval.program allowance code).adaptExcept (Stop.map .runtime)

/-- Compile a template text and run it in the current scope. -/
def execute (allowance : Nat) (file source : String) : Session Unit := do
  run allowance (← compile allowance file source)

/-- The value of an expression in the current scope. -/
def evaluate (allowance : Nat) (file : String) (value : SourceExpr) : Session Value := do
  let term ← (Compile.ofResolved (Resolve.expr file value)).adaptExcept (Stop.map .compile)
  (Eval.expression allowance term).adaptExcept (Stop.map .runtime)

end Session

/-- A compiled template: its label, its code and all its constants. -/
structure Template where
  name : String
  code : List Code
  constants : Table Value

namespace Template

/-- Compile a template text. The given constants can be replaced by those of the template. -/
def compile (allowance : Nat) (name source : String) (constants : Table Value)
    (clock : Calendar.Instant) : Except (Stop Failure) Template :=
  match Session.compile allowance name source (.initial constants clock) with
  | .ok code state => .ok ⟨name, code, state.constants⟩
  | .error stop _ => .error stop

/-- The document that a template makes at the time `clock`. -/
def render (allowance : Nat) (template : Template) (clock : Calendar.Instant) :
    Except (Stop Failure) Document :=
  match Session.run allowance template.code (.initial template.constants clock) with
  | .ok _ state => .ok state.document
  | .error stop _ => .error stop

end Template
end MessageTemplate
