import MessageTemplate.Evaluation.State
import MessageTemplate.Value.Operator

/-!
# Evaluating expressions

Arguments are evaluated before the function is looked up, and both operands of
every operator are evaluated, also those of `&&` and `||`. An error takes the
place of the innermost node whose own step fails. How a call proceeds is left
open here: it is a parameter.
-/

namespace MessageTemplate
namespace Eval

/-- How a function is called with the values of its arguments. -/
abbrev Caller := Function → List Value → Eval Value

mutual

def term (call : Caller) : Term → Eval Value
  | .literal _ value => pure value
  | .var here name => located here (read name)
  | .list here items => located here do
    return .list (← terms call items)
  | .call here name arguments => located here do
    let values ← terms call arguments
    call (← function name) values
  | .unary here op operand => located here do
    ofExcept (op.apply (← term call operand))
  | .binary here op left right => located here do
    let leftValue ← term call left
    let rightValue ← term call right
    ofExcept (op.apply leftValue rightValue)

/-- Values from left to right. -/
def terms (call : Caller) : List Term → Eval (List Value)
  | [] => pure []
  | first :: rest => do
    let value ← term call first
    return value :: (← terms call rest)

end

/-- The text of an expression, unless its value is null. -/
def text? (call : Caller) (value : Term) : Eval (Option String) := do
  return (← term call value).text?

/-- The truth of a condition. -/
def condition (call : Caller) (value : Term) : Eval Bool := do
  ofExcept (← term call value).isTrue

end Eval
end MessageTemplate
