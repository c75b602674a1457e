import MessageTemplate.Proofs.Token.Spelling
import MessageTemplate.Proofs.Tree.Nodes
import MessageTemplate.Grammar.Keyword

/-!
# Well-formed trees

The trees that can be written down. A tree may hold any text as a name or a
literal and any statement as a part of another one; what the grammar leaves out
of these is left out here, node by node.
-/

namespace MessageTemplate

variable {P : Type}

/-- A word that is not reserved. -/
def IsName (word : String) : Prop := isWord word = true ∧ Keyword.ofWord? word = none

/-- The token that a literal is written with. -/
def Literal.token : Literal → Token
  | string raw => .string raw
  | number raw => .number raw
  | hex raw => .hex raw
  | bool true => .ident Keyword.truth.word
  | bool false => .ident Keyword.falsity.word

namespace Expr

/-- The condition on one node. The text of a literal has to be read as that literal. -/
def Fits : Expr Literal P → Prop
  | .literal _ value => value.token.IsStable
  | .var _ name | .call _ name _ => IsName name
  | .list _ _ | .unary _ _ _ | .binary _ _ _ _ => True

def WellFormed (e : Expr Literal P) : Prop := ∀ node ∈ e.nodes, node.Fits

theorem wellFormed_iff {e : Expr Literal P} :
    e.WellFormed ↔ e.Fits ∧ ∀ child ∈ e.children, child.WellFormed := by
  rw [WellFormed, nodes_eq, List.forall_mem_cons, List.forall_mem_flatMap]
  rfl

theorem wellFormed_literal {place : P} {value : Literal} :
    (literal place value).WellFormed ↔ value.token.IsStable := by
  rw [wellFormed_iff]
  simp [Fits, children]

theorem wellFormed_call {place : P} {name : String} {arguments : List (Expr Literal P)} :
    (call place name arguments).WellFormed ↔
      IsName name ∧ ∀ argument ∈ arguments, argument.WellFormed := wellFormed_iff

theorem wellFormed_binary {place : P} {op : BinaryOp} {left right : Expr Literal P} :
    (binary place op left right).WellFormed ↔ left.WellFormed ∧ right.WellFormed := by
  rw [wellFormed_iff]
  simp [Fits, children]

end Expr

/-- An author in order has an icon only if it has an address, and a list of fields is not empty. -/
def PartBody.Fits {E : Type} : PartBody E P → Prop
  | .author _ (.flow values) => values.icon.isSome → values.url.isSome
  | .fields _ (.list specs) => specs ≠ []
  | _ => True

namespace Stmt

variable {E : Type}

/-- What a clause of a loop can be. -/
def isSimple : Stmt E P → Bool
  | .assign _ _ _ | .expr _ _ => true
  | _ => false

def isBlock : Stmt E P → Bool
  | .block _ _ => true
  | _ => false

/-- Does the text of a statement end in a conditional that an `else` could go on with? -/
def isOpen : Stmt E P → Bool
  | .branch _ _ _ none => true
  | .branch _ _ _ (some no) => no.isOpen
  | .forLoop _ _ _ _ body | .foreach _ _ _ body | .whileLoop _ _ body => body.isOpen
  | _ => false

/-- The condition on one node. -/
def Fits : Stmt E P → Prop
  | .assign _ name _ | .foreach _ name _ _ => IsName name
  | .function _ name _ parameters body =>
    IsName name ∧ (∀ parameter ∈ parameters, IsName parameter) ∧ body.isBlock = true
  | .branch _ _ yes (some _) => yes.isOpen = false
  | .forLoop _ init _ step _ =>
    (∀ clause ∈ init, clause.isSimple = true) ∧ ∀ clause ∈ step, clause.isSimple = true
  | .embed _ parts => ∀ part ∈ parts, part.body.Fits
  | _ => True

def WellFormed (s : Stmt (Expr Literal P) P) : Prop :=
  ∀ node ∈ s.nodes, node.Fits ∧ ∀ e ∈ node.exprs, e.WellFormed

theorem wellFormed_iff {s : Stmt (Expr Literal P) P} :
    s.WellFormed ↔
      (s.Fits ∧ ∀ e ∈ s.exprs, e.WellFormed) ∧ ∀ child ∈ s.children, child.WellFormed := by
  rw [WellFormed, nodes_eq, List.forall_mem_cons, List.forall_mem_flatMap]
  rfl

end Stmt

def Item.WellFormed : Item (Expr Literal P) P → Prop
  | .constant _ name value => IsName name ∧ value.WellFormed
  | .stmt s => s.WellFormed

/-- A template that can be written down. -/
def WellFormedTemplate (items : List (Item (Expr Literal P) P)) : Prop :=
  ∀ item ∈ items, item.WellFormed

end MessageTemplate
