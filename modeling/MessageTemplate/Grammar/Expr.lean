import MessageTemplate.Grammar.Parser
import MessageTemplate.Tree.Expr

/-!
# The grammar of expressions

An expression is a chain of chains: operands joined by the operators of one
rank are themselves chains of the next smaller rank, down to operands with
their signs. Parentheses, lists and arguments hold whole expressions again. The
rules are therefore written over the rules for what is inside; a budget that
exceeds the number of tokens closes the circle, because nothing is inside before
a token has been taken.
-/

namespace MessageTemplate
namespace Parser

/-- The two kinds of expression that occur inside others. -/
structure ExprRules where
  /-- Any expression. -/
  whole : Parser SourceExpr
  /-- An operand with the unary operators in front of it. -/
  signed : Parser SourceExpr

/-- Literals, names, calls, lists and expressions in parentheses. -/
def primary (inner : ExprRules) : Parser SourceExpr := do
  let place ← here
  match ← peek with
  | .number raw =>
    skip
    return .literal place (.number raw)
  | .string raw =>
    skip
    return .literal place (.string raw)
  | .hex raw =>
    skip
    return .literal place (.hex raw)
  | .ident word =>
    match Keyword.ofWord? word with
    | some .truth =>
      skip
      return .literal place (.bool true)
    | some .falsity =>
      skip
      return .literal place (.bool false)
    | some _ => fail (.reserved word)
    | none =>
      skip
      if ← accept (.symbol .parenOpen) then
        return .call place word (← listUntil inner.whole .parenClose)
      else return .var place word
  | .symbol .bracketOpen =>
    skip
    return .list place (← listUntil inner.whole .bracketClose)
  | .symbol .parenOpen =>
    skip
    let expr ← inner.whole
    require .parenClose
    return expr
  | .unknown c => fail (.stray (.unknown c))
  | .unterminated what => fail (.stray (.unterminated what))
  | _ => failExpecting .expression

/-- A power: its base is a primary expression, its exponent may have signs and be a power again. -/
def power (inner : ExprRules) : Parser SourceExpr := do
  let base ← primary inner
  if ← accept (.symbol .caret) then
    return .join .power base (← inner.signed)
  else return base

def signed (inner : ExprRules) : Parser SourceExpr := do
  let place ← here
  match ← peek with
  | .symbol symbol =>
    match UnaryOp.ofSymbol? symbol with
    | some op =>
      skip
      return .unary place op (← inner.signed)
    | none => power inner
  | _ => power inner

/-- The binary operator of the given rank that a token stands for. -/
def operatorOf (rank : Nat) : Token → Option BinaryOp
  | .symbol symbol => (BinaryOp.ofSymbol? symbol).filter fun op => op.rank == rank
  | _ => none

/-- Join further operands to `left`, as long as operators of the given rank follow. -/
def chainWithin (operand : Parser SourceExpr) (rank : Nat) : Nat → SourceExpr → Parser SourceExpr
  | 0, left => return left
  | rounds + 1, left => do
    match operatorOf rank (← peek) with
    | some op =>
      skip
      let right ← operand
      chainWithin operand rank rounds (.join op left right)
    | none => return left

/-- Operands joined by operators of one rank, grouped from the left. -/
def chain (rounds : Nat) (operand : Parser SourceExpr) (rank : Nat) : Parser SourceExpr := do
  chainWithin operand rank rounds (← operand)

/-- Expressions whose outermost operators have at most the given rank. -/
def tier (rounds : Nat) (inner : ExprRules) : Nat → Parser SourceExpr
  | 0 => signed inner
  | rank + 1 => chain rounds (tier rounds inner rank) (rank + 1)

/-- The rules for expressions, over the rules for the expressions inside them. Chains have at most
the given number of operators. -/
def exprRules (rounds : Nat) (inner : ExprRules) : ExprRules where
  whole := tier rounds inner BinaryOp.loosest
  signed := signed inner

/-- The rules for expressions of fewer than `budget` tokens. -/
def exprRulesAt : Nat → ExprRules
  | 0 => ⟨failExpecting .expression, failExpecting .expression⟩
  | budget + 1 => exprRules budget (exprRulesAt budget)

def expr : Parser SourceExpr := bounded fun budget => (exprRulesAt budget).whole

end Parser
end MessageTemplate
