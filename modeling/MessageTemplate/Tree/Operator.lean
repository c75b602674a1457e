import MessageTemplate.Token.Basic

/-!
# Operators

Each operator is written with one symbol. The binary operators other than `^`
group from the left; one with a smaller rank binds tighter. `^` binds tighter
than all of them, and than the unary operators before its base.
-/

namespace MessageTemplate

inductive UnaryOp
  | negate | not | complement
deriving Repr, DecidableEq

namespace UnaryOp

def symbol : UnaryOp → Symbol
  | negate => .minus
  | not => .bang
  | complement => .tilde

/-- The unary operator that a symbol stands for in front of an operand. -/
def ofSymbol? : Symbol → Option UnaryOp
  | .minus => some negate
  | .bang => some not
  | .tilde => some complement
  | _ => none

theorem ofSymbol?_eq_some_iff {symbol : Symbol} {op : UnaryOp} :
    ofSymbol? symbol = some op ↔ op.symbol = symbol := by
  cases op <;> cases symbol <;> decide

end UnaryOp

inductive BinaryOp
  | add | subtract | multiply | divide | remainder | power
  | bitAnd | bitOr | and | or | less | greater
deriving Repr, DecidableEq

namespace BinaryOp

def symbol : BinaryOp → Symbol
  | add => .plus
  | subtract => .minus
  | multiply => .star
  | divide => .slash
  | remainder => .percent
  | power => .caret
  | bitAnd => .ampersand
  | bitOr => .pipe
  | and => .doubleAmpersand
  | or => .doublePipe
  | less => .less
  | greater => .greater

/-- The binary operator that a symbol stands for between two operands. -/
def ofSymbol? : Symbol → Option BinaryOp
  | .plus => some add
  | .minus => some subtract
  | .star => some multiply
  | .slash => some divide
  | .percent => some remainder
  | .caret => some power
  | .ampersand => some bitAnd
  | .pipe => some bitOr
  | .doubleAmpersand => some and
  | .doublePipe => some or
  | .less => some less
  | .greater => some greater
  | _ => none

/-- How loosely an operator binds: from `^` with rank 0 to `||` with rank 7. -/
def rank : BinaryOp → Nat
  | power => 0
  | multiply | divide | remainder => 1
  | add | subtract => 2
  | less | greater => 3
  | bitAnd => 4
  | bitOr => 5
  | and => 6
  | or => 7

/-- The largest rank. -/
def loosest : Nat := 7

theorem ofSymbol?_eq_some_iff {symbol : Symbol} {op : BinaryOp} :
    ofSymbol? symbol = some op ↔ op.symbol = symbol := by
  cases op <;> cases symbol <;> decide

end BinaryOp
end MessageTemplate
