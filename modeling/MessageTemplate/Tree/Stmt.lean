import MessageTemplate.Tree.Expr
import MessageTemplate.Tree.Message

/-!
# Statements and templates

Statement trees are generic in their expressions `E` and in the marks `P` of
their places. A template is a list of statements and constants; constants stand
only at the top level.
-/

namespace MessageTemplate

inductive Stmt (E P : Type)
  | empty (place : P)
  | block (place : P) (body : List (Stmt E P))
  | assign (place : P) (name : String) (value : E)
  | expr (place : P) (value : E)
  | function (place : P) (name : String) (namePlace : P) (parameters : List String)
      (body : Stmt E P)
  | result (place : P) (value : E)
  | branch (place : P) (condition : E) (yes : Stmt E P) (no : Option (Stmt E P))
  | forLoop (place : P) (init : Option (Stmt E P)) (check : Option E) (step : Option (Stmt E P))
      (body : Stmt E P)
  | foreach (place : P) (name : String) (iterable : E) (body : Stmt E P)
  | whileLoop (place : P) (condition : E) (body : Stmt E P)
  | doWhile (place : P) (body : Stmt E P) (condition : E)
  | text (place : P) (value : E)
  | attachment (place : P) (value : E)
  | embed (place : P) (parts : List (EmbedPart E P))

namespace Stmt

variable {E P : Type}

/-- The mark of the root. -/
def place : Stmt E P → P
  | empty place | block place _ | assign place _ _ | expr place _ | function place _ _ _ _
  | result place _ | branch place _ _ _ | forLoop place _ _ _ _ | foreach place _ _ _
  | whileLoop place _ _ | doWhile place _ _ | text place _ | attachment place _
  | embed place _ => place

end Stmt

/-- What stands at the top level of a template. -/
inductive Item (E P : Type)
  | constant (place : P) (name : String) (value : E)
  | stmt (stmt : Stmt E P)

/-- A statement as it was read. -/
abbrev SourceStmt := Stmt SourceExpr Position

abbrev SourceItem := Item SourceExpr Position

/-- A template as it was read. -/
abbrev SourceTemplate := List SourceItem

end MessageTemplate
