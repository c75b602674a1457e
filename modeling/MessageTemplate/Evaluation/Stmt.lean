import MessageTemplate.Evaluation.Message

/-!
# Running statements and calls

A conditional and a loop run in one new scope, which their condition shares.
Nothing jumps: `return` records a result and the statements behind it still run.
A call opens its scope under the scope of the caller.

Loops and calls may go on without end. A run is therefore given an allowance:
it bounds the rounds of each loop and how deep calls nest, and a run that needs
more is exhausted. With a larger allowance nothing changes but this.
-/

namespace MessageTemplate
namespace Eval

/-- Repeat while a test succeeds, at most the given number of rounds. -/
def repeatWhile (test : Eval Bool) (body : Eval Unit) : Nat → Eval Unit
  | 0 => throw .exhausted
  | rounds + 1 => do
    if ← test then
      body
      repeatWhile test body rounds

/-- The items that a loop goes through. -/
def enumerate : Value → Except RuntimeFault (List Value)
  | .list items => .ok items
  | .null => .error .nullIterable
  | value => .error (.notEnumerable value.kind)

mutual

def stmt (call : Caller) (rounds : Nat) : Code → Eval Unit
  | .empty _ => pure ()
  | .block _ body => stmts call rounds body
  | .assign here name value => located here do
    assign name (← term call value)
  | .expr here value => located here do
    discard (term call value)
  | .function here name _ parameters body =>
    declare ⟨name, parameters, .code body, some here⟩
  | .result here value => located here do
    record (← term call value)
  | .branch here test yes no => located here <| inScope .block do
    if ← condition call test then stmt call rounds yes else stmt? call rounds no
  | .forLoop here init check step body => located here <| inScope .block do
    stmt? call rounds init
    match check with
    | none => pure ()
    | some check =>
      repeatWhile (condition call check)
        (do
          stmt call rounds body
          stmt? call rounds step)
        rounds
  | .foreach here name iterable body => located here <| inScope .block do
    let items ← ofExcept (enumerate (← term call iterable))
    items.forM fun item => do
      assign name item
      stmt call rounds body
  | .whileLoop here test body => located here <| inScope .block do
    repeatWhile (condition call test) (stmt call rounds body) rounds
  | .doWhile here body test => located here <| inScope .block do
    stmt call rounds body
    repeatWhile (condition call test) (stmt call rounds body) rounds
  | .text here value => located here (writeContent call value)
  | .attachment here value => located here (attach call value)
  | .embed _ parts => parts.forM (embedPart call)

def stmts (call : Caller) (rounds : Nat) : List Code → Eval Unit
  | [] => pure ()
  | first :: rest => do
    stmt call rounds first
    stmts call rounds rest

/-- A statement that may be left out. -/
def stmt? (call : Caller) (rounds : Nat) : Option Code → Eval Unit
  | none => pure ()
  | some code => stmt call rounds code

end

/-- Bind parameters to arguments; surplus arguments are ignored. -/
def bindParameters : List String → List Value → Eval Unit
  | name :: names, value :: values => do
    bind name value
    bindParameters names values
  | _, _ => pure ()

/-- Run a function body. -/
def functionBody (run : Code → Eval Unit) : FunctionBody → Eval Unit
  | .code body => run body
  | .clock => do record (.instant (← get).clock)

/-- Call a function: the result is what is recorded when its body is done. -/
def invoke (run : Code → Eval Unit) (function : Function) (arguments : List Value) :
    Eval Value := do
  if arguments.length < function.parameters.length then
    raise (.notEnoughArguments function.parameters.length arguments.length)
  else
    inScope (.call function.parameters) do
      bindParameters function.parameters arguments
      functionBody run function.body
      recorded

/-- Call a function with an allowance for what happens inside. -/
def callWithin : Nat → Caller
  | 0 => fun _ _ => throw .exhausted
  | allowance + 1 => invoke (stmt (callWithin allowance) allowance)

/-- Run statements with an allowance. -/
def program (allowance : Nat) (code : List Code) : Eval Unit :=
  stmts (callWithin allowance) allowance code

/-- Evaluate an expression with an allowance. -/
def expression (allowance : Nat) (value : Term) : Eval Value := term (callWithin allowance) value

/-- An allowance that no template of practical use exceeds. -/
def ample : Nat := 1000000000000

end Eval
end MessageTemplate
