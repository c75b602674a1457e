import MessageTemplate.Tree.Operator

/-!
# Expressions

An expression tree is generic in its literals `L` and in the marks `P` that say
where its nodes stand. A tree that has just been read holds literals as they
were written and positions; one that is ready to be evaluated holds values and
locations.
-/

namespace MessageTemplate

/-- A literal with the text of its token; only a truth value has a single spelling. -/
inductive Literal
  | string (raw : String)
  | number (raw : String)
  | bool (value : Bool)
  | hex (raw : String)
deriving Repr, DecidableEq

inductive Expr (L P : Type)
  | literal (place : P) (value : L)
  | var (place : P) (name : String)
  | list (place : P) (items : List (Expr L P))
  | call (place : P) (name : String) (arguments : List (Expr L P))
  | unary (place : P) (op : UnaryOp) (operand : Expr L P)
  | binary (place : P) (op : BinaryOp) (left right : Expr L P)

namespace Expr

variable {L P : Type}

/-- The mark of the root. -/
def place : Expr L P → P
  | literal place _ | var place _ | list place _ | call place _ _ | unary place _ _
  | binary place _ _ _ => place

/-- Join two operands; the whole stands where its left operand does. -/
def join (op : BinaryOp) (left right : Expr L P) : Expr L P :=
  .binary left.place op left right

end Expr

/-- An expression as it was read. -/
abbrev SourceExpr := Expr Literal Position

end MessageTemplate
