import Mathlib.Computability.Language
import MessageTemplate.Proofs.Grammar.Phrase
import MessageTemplate.Proofs.Tree.Names

/-!
# The own texts of nodes

A tree can be marked with texts instead of places: each node with its own text,
which is a stretch of the tokens it was read from. What the text of a node is
made of is its layout: tokens, and the texts of the nodes right inside. An
expression may stand between any number of pairs of parentheses; they belong to
the text that is around it, not to its own.

Places do not occur here, and a token may have any. Where a node should stand
follows from its text: at the first token (`placeOf`), and for expressions
behind the parentheses at the left edge (`startOf`).
-/

namespace MessageTemplate

/-- A stretch of tokens. -/
abbrev Text := List Lexeme

/-! ## What texts are made of -/

/-- One token, wherever it stands. -/
def tok (token : Token) : Language Lexeme := {text | ∃ place, text = [⟨token, place⟩]}

def sym (symbol : Symbol) : Language Lexeme := tok (.symbol symbol)

/-- The text itself. -/
def just (own : Text) : Language Lexeme := {text | text = own}

/-- A text between any number of pairs of parentheses. -/
inductive Grouped (own : Text) : Text → Prop
  | bare : Grouped own own
  | paren {text : Text} (before after : Position) (h : Grouped own text) :
      Grouped own (⟨.symbol .parenOpen, before⟩ :: (text ++ [⟨.symbol .parenClose, after⟩]))

/-- An expression as it may stand in another text. -/
def Expr.groupings (e : Expr Literal Text) : Language Lexeme := {text | Grouped e.place text}

/-- Items with commas between them. -/
def commas (items : List (Language Lexeme)) : Language Lexeme :=
  (items.intersperse (sym .comma)).prod

/-- What stands between two symbols. -/
def between (start stop : Symbol) (inside : Language Lexeme) : Language Lexeme :=
  sym start * inside * sym stop

/-- The entries of an object; there may be a comma behind the last one. -/
def objectLayout (entries : List (Language Lexeme)) : Language Lexeme :=
  between .braceOpen .braceClose (commas entries * (1 + sym .comma))

def entryLayout (word : String) (value : Language Lexeme) : Language Lexeme :=
  tok (.ident word) * sym .colon * value

/-- What may be left out. -/
def optional {α : Type} (text : α → Language Lexeme) (value : Option α) : Language Lexeme :=
  value.elim 1 text

/-! ## Layouts -/

def Expr.layout : Expr Literal Text → Language Lexeme
  | .literal _ value => tok value.token
  | .var _ name => tok (.ident name)
  | .list _ items => between .bracketOpen .bracketClose (commas (items.map groupings))
  | .call _ name arguments =>
    tok (.ident name) * between .parenOpen .parenClose (commas (arguments.map groupings))
  | .unary _ op operand => sym op.symbol * operand.groupings
  | .binary _ op left right => left.groupings * sym op.symbol * right.groupings

/-- Each node in the expression is marked with a text that has its layout. -/
def Expr.LaidOut (e : Expr Literal Text) : Prop := ∀ node ∈ e.nodes, node.place ∈ node.layout

/-- Values in order. -/
def flowLayout (values : List (Expr Literal Text)) : Language Lexeme :=
  commas (values.map Expr.groupings)

def Section.layout {F K : Type} (word : K → String) (exprs : F → List (Expr Literal Text))
    (mode : WriteMode) : Section F K (Expr Literal Text) → Language Lexeme
  | .flow values => sym mode.symbol * flowLayout (exprs values)
  | .object entries =>
    sym mode.symbol * objectLayout (entries.map fun e => entryLayout (word e.1) e.2.groupings)
  | .property key value =>
    sym .dot * tok (.ident (word key)) * sym mode.symbol * value.groupings

def FieldSetting.layout : FieldSetting (Expr Literal Text) → Language Lexeme
  | .title value | .text value => value.groupings
  | .inline value => tok (Literal.bool value).token

/-- A field in order may stand in parentheses of its own. -/
def FieldSpec.layout : FieldSpec (Expr Literal Text) Text → Language Lexeme
  | .flow _ title text inline =>
    let flow := title.groupings * sym .comma * text.groupings *
      if inline then sym .comma * tok Keyword.inline.token else 1
    flow + between .parenOpen .parenClose flow
  | .object _ settings =>
    objectLayout (settings.map fun setting => entryLayout setting.word setting.layout)

def FieldsBody.layout (mode : WriteMode) : FieldsBody (Expr Literal Text) Text → Language Lexeme
  | .part field => sym mode.symbol * just field.place
  | .list fields =>
    sym mode.symbol *
      between .bracketOpen .bracketClose (commas (fields.map fun field => just field.place))
  | .property setting =>
    sym .dot * tok (.ident setting.word) * sym mode.symbol * setting.layout

def PartBody.layout : PartBody (Expr Literal Text) Text → Language Lexeme
  | .member key value => tok (.ident key.name) * sym .assign * value.groupings
  | .author mode body => tok (.ident "author") * body.layout AuthorKey.word AuthorFlow.exprs mode
  | .footer mode body => tok (.ident "footer") * body.layout FooterKey.word FooterFlow.exprs mode
  | .fields mode body => (tok (.ident "field") + tok (.ident "fields")) * body.layout mode

/-- A part begins with the name of its property. -/
def EmbedPart.layout (part : EmbedPart (Expr Literal Text) Text) : Language Lexeme :=
  part.body.layout * sym .semicolon

structure EmbedPart.LaidOut (part : EmbedPart (Expr Literal Text) Text) : Prop where
  place : part.place ∈ part.layout
  fields : ∀ spec ∈ part.body.specs, spec.place ∈ spec.layout
  exprs : ∀ e ∈ part.exprs, e.LaidOut

/-- The parts of an embed between braces, or a single one behind a dot. -/
def partsLayout (parts : List (EmbedPart (Expr Literal Text) Text)) : Language Lexeme :=
  between .braceOpen .braceClose (parts.map fun part => just part.place).prod +
    match parts with
    | [part] => sym .dot * just part.place
    | _ => 0

def closedLayout (value : Expr Literal Text) : Language Lexeme :=
  value.groupings * sym .semicolon

def conditionLayout (test : Expr Literal Text) : Language Lexeme :=
  between .parenOpen .parenClose test.groupings

namespace Stmt

/-- A clause of a loop has no semicolon. -/
def layout : Stmt (Expr Literal Text) Text → Language Lexeme
  | .empty _ => sym .semicolon
  | .block _ body => between .braceOpen .braceClose (body.map fun s => just s.place).prod
  | .assign _ name value =>
    tok (.ident name) * sym .assign * value.groupings * (1 + sym .semicolon)
  | .expr _ value => value.groupings * (1 + sym .semicolon)
  | .function _ _ namePlace parameters body =>
    tok Keyword.function.token * just namePlace *
      between .parenOpen .parenClose (commas (parameters.map fun name => tok (.ident name))) *
      just body.place
  | .result _ value => tok Keyword.result.token * closedLayout value
  | .branch _ test yes no =>
    tok Keyword.branch.token * conditionLayout test * just yes.place *
      optional (fun s => tok Keyword.otherwise.token * just s.place) no
  | .forLoop _ init check step body =>
    tok Keyword.forLoop.token * between .parenOpen .parenClose
      (optional (fun s => just s.place) init * sym .semicolon *
        (optional Expr.groupings check * sym .semicolon) * optional (fun s => just s.place) step) *
      just body.place
  | .foreach _ name iterable body =>
    tok Keyword.foreach.token * between .parenOpen .parenClose
      (tok (.ident name) * tok Keyword.among.token * iterable.groupings) * just body.place
  | .whileLoop _ test body => tok Keyword.whileLoop.token * conditionLayout test * just body.place
  | .doWhile _ body test =>
    tok Keyword.doLoop.token * just body.place * tok Keyword.whileLoop.token *
      conditionLayout test * sym .semicolon
  | .text _ value => tok Keyword.text.token * closedLayout value
  | .attachment _ value => tok Keyword.attachment.token * closedLayout value
  | .embed _ parts => tok Keyword.embed.token * partsLayout parts

/-- The parts of an embed statement. -/
def parts {E P : Type} : Stmt E P → List (EmbedPart E P)
  | .embed _ parts => parts
  | _ => []

/-- The name of a function with its mark. -/
def named {E P : Type} : Stmt E P → Option (String × P)
  | .function _ name namePlace _ _ => some (name, namePlace)
  | _ => none

/-- The marks that belong to a statement itself are texts of the right layout. -/
structure NodeLaidOut (s : Stmt (Expr Literal Text) Text) : Prop where
  place : s.place ∈ s.layout
  name : ∀ name text, s.named = some (name, text) → text ∈ tok (.ident name)
  parts : ∀ part ∈ s.parts, part.LaidOut
  exprs : ∀ e ∈ s.exprs, e.LaidOut

def LaidOut (s : Stmt (Expr Literal Text) Text) : Prop := ∀ node ∈ s.nodes, node.NodeLaidOut

end Stmt

namespace Item

/-- The text of an item. -/
def text {E : Type} : Item E Text → Text
  | .constant text _ _ => text
  | .stmt s => s.place

def LaidOut : Item (Expr Literal Text) Text → Prop
  | .constant text name value =>
    text ∈ tok Keyword.constant.token * tok (.ident name) * sym .assign * closedLayout value ∧
      value.LaidOut
  | .stmt s => s.LaidOut

end Item

/-! ## Where nodes should stand -/

/-- The text behind the parentheses at its left edge. -/
def inner (text : Text) : Text := text.dropWhile fun lexeme => lexeme.token = .symbol .parenOpen

/-- The place of the first token behind the parentheses at the left edge. -/
def startOf (text : Text) : Position := placeOf (inner text)

/-- The token of the leftmost leaf, or the unary operator in front of it. -/
def Expr.leading {P : Type} : Expr Literal P → Token
  | .literal _ value => value.token
  | .var _ name | .call _ name _ => .ident name
  | .list _ _ => .symbol .bracketOpen
  | .unary _ op _ => .symbol op.symbol
  | .binary _ _ left _ => left.leading

theorem Expr.laidOut_iff {e : Expr Literal Text} :
    e.LaidOut ↔ e.place ∈ e.layout ∧ ∀ child ∈ e.children, child.LaidOut := by
  rw [LaidOut, nodes_eq, List.forall_mem_cons, List.forall_mem_flatMap]
  rfl

theorem Expr.LaidOut.node {e node : Expr Literal Text} (h : e.LaidOut) (hnode : node ∈ e.nodes) :
    node.LaidOut := by
  induction e using Expr.induct with
  | step e ih =>
    rw [nodes_eq, List.mem_cons, List.mem_flatMap] at hnode
    rcases hnode with rfl | ⟨child, hchild, hnode⟩
    · exact h
    · exact ih child hchild ((laidOut_iff.1 h).2 child hchild) hnode

theorem Stmt.laidOut_iff {s : Stmt (Expr Literal Text) Text} :
    s.LaidOut ↔ s.NodeLaidOut ∧ ∀ child ∈ s.children, child.LaidOut := by
  rw [LaidOut, nodes_eq, List.forall_mem_cons, List.forall_mem_flatMap]
  rfl

theorem Item.LaidOut.exprs {i : Item (Expr Literal Text) Text} (h : i.LaidOut) :
    ∀ e ∈ i.allExprs, e.LaidOut := by
  cases i with
  | constant text name value => exact List.forall_mem_singleton.2 h.2
  | stmt s => exact List.forall_mem_flatMap.2 fun node hnode => (h node hnode).exprs

theorem inner_append {text : Text} (h : inner text ≠ []) (more : Text) :
    inner (text ++ more) = inner text ++ more := by
  rw [inner, List.dropWhile_append, if_neg]
  · rfl
  · simpa [inner] using h

theorem inner_cons {lexeme : Lexeme} (h : lexeme.token ≠ .symbol .parenOpen) (more : Text) :
    inner (lexeme :: more) = lexeme :: more := by
  rw [inner, List.dropWhile_cons_of_neg]
  simpa using h

/-- What stands around a text changes nothing at its start. -/
theorem Grouped.exists_inner_append {own text : Text} (h : Grouped own text) {first : Lexeme}
    {more : Text} (hown : inner own = first :: more) (rest : Text) :
    ∃ behind, inner (text ++ rest) = first :: behind := by
  induction h generalizing rest with
  | bare => exact ⟨more ++ rest, by rw [inner_append (by simp [hown]), hown, List.cons_append]⟩
  | @paren text before after h ih =>
    obtain ⟨behind, hbehind⟩ := ih (⟨.symbol .parenClose, after⟩ :: rest)
    refine ⟨behind, ?_⟩
    rw [← hbehind, List.cons_append, List.append_assoc]
    rfl

theorem startOf_eq {text : Text} {first : Lexeme} {more : Text} (h : inner text = first :: more) :
    startOf text = first.position := by
  rw [startOf, h, placeOf_cons]

theorem mem_tok_mul {token : Token} {more : Language Lexeme} {text : Text} :
    text ∈ tok token * more ↔ ∃ place rest, rest ∈ more ∧ text = ⟨token, place⟩ :: rest := by
  rw [Language.mem_mul]
  constructor
  · rintro ⟨_, ⟨place, rfl⟩, rest, hrest, rfl⟩
    exact ⟨place, rest, hrest, rfl⟩
  · rintro ⟨place, rest, hrest, rfl⟩
    exact ⟨_, ⟨place, rfl⟩, rest, hrest, rfl⟩

theorem exists_inner_eq_of_mem {token : Token} {more : Language Lexeme} {text : Text}
    (htext : text ∈ tok token * more) (htoken : token ≠ .symbol .parenOpen) :
    ∃ rest, inner text = ⟨token, startOf text⟩ :: rest := by
  obtain ⟨place, rest, -, rfl⟩ := mem_tok_mul.1 htext
  rw [startOf, inner_cons htoken]
  exact ⟨rest, rfl⟩

theorem Literal.token_ne_parenOpen (value : Literal) : value.token ≠ .symbol .parenOpen := by
  cases value with
  | bool value => cases value <;> nofun
  | _ => nofun

theorem UnaryOp.token_ne_parenOpen (op : UnaryOp) :
    Token.symbol op.symbol ≠ .symbol .parenOpen := by
  cases op <;> decide

/-- Behind the parentheses at its left edge the text of an expression begins with the token of its
leftmost leaf, or with the unary operator in front of that. -/
theorem Expr.LaidOut.exists_inner_eq {e : Expr Literal Text} (h : e.LaidOut) :
    ∃ more, inner e.place = ⟨e.leading, startOf e.place⟩ :: more := by
  induction e using Expr.induct with
  | step e ih =>
    obtain ⟨htext, hchildren⟩ := laidOut_iff.1 h
    cases e with
    | literal text value =>
      rw [layout, ← mul_one (tok _)] at htext
      exact exists_inner_eq_of_mem htext value.token_ne_parenOpen
    | var text name =>
      rw [layout, ← mul_one (tok _)] at htext
      exact exists_inner_eq_of_mem htext nofun
    | list text items =>
      rw [layout, between, mul_assoc] at htext
      exact exists_inner_eq_of_mem htext nofun
    | call text name arguments => exact exists_inner_eq_of_mem htext nofun
    | unary text op operand => exact exists_inner_eq_of_mem htext op.token_ne_parenOpen
    | binary text op left right =>
      have hleft : left ∈ (binary text op left right).children := List.mem_cons_self
      obtain ⟨more, hmore⟩ := ih left hleft (hchildren left hleft)
      rw [layout, mul_assoc] at htext
      obtain ⟨front, hfront, rest, -, rfl⟩ := Language.mem_mul.1 htext
      obtain ⟨behind, hbehind⟩ := Grouped.exists_inner_append hfront hmore rest
      exact ⟨behind, by rw [place, startOf_eq hbehind, hbehind, leading]⟩

end MessageTemplate
