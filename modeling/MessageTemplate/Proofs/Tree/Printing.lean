import MessageTemplate.Proofs.Tree.WellFormed

/-!
# Printing trees

A tree is printed as a row of tokens, and the row as a text with single spaces.
Expressions have levels: the looser the outermost operator binds, the larger is
the level. An operand is put into parentheses exactly if its level exceeds what
its operator takes at that side.
-/

namespace MessageTemplate

variable {P : Type}

/-! ## Levels of expressions, from the tightest to the loosest -/

namespace Level

/-- Literals, names, calls and lists. -/
abbrev primary : Nat := 0

abbrev power : Nat := 1

/-- With a unary operator in front. -/
abbrev signed : Nat := 2

/-- Any expression. -/
abbrev whole : Nat := 9

end Level

namespace BinaryOp

/-- The level of what an operator joins. -/
def level : BinaryOp → Nat
  | power => Level.power
  | op => op.rank + 2

/-- The largest level of a left operand: operators of one rank group from the left, except `^`. -/
def leftLevel : BinaryOp → Nat
  | power => Level.primary
  | op => op.rank + 2

/-- The largest level of a right operand. The exponent of a power may have signs. -/
def rightLevel : BinaryOp → Nat
  | power => Level.signed
  | op => op.rank + 1

theorem level_le_whole (op : BinaryOp) : op.level ≤ Level.whole := by
  cases op <;> decide

end BinaryOp

/-- The token of a reserved word. -/
def Keyword.token (keyword : Keyword) : Token := .ident keyword.word

/-! ## Expressions -/

/-- Rows with commas in between. -/
def commaRow (rows : List (List Token)) : List Token := List.intercalate [.symbol .comma] rows

namespace Expr

/-- The level of an expression without parentheses around it. -/
def level {L : Type} : Expr L P → Nat
  | .literal _ _ | .var _ _ | .list _ _ | .call _ _ _ => Level.primary
  | .unary _ _ _ => Level.signed
  | .binary _ op _ _ => op.level

/-- The row of an expression of a level where at most the level `limit` can stand. -/
def grouped (limit level : Nat) (row : List Token) : List Token :=
  if level ≤ limit then row else .symbol .parenOpen :: (row ++ [.symbol .parenClose])

mutual

/-- The tokens of an expression. -/
def spelling : Expr Literal P → List Token
  | .literal _ value => [value.token]
  | .var _ name => [.ident name]
  | .list _ items => .symbol .bracketOpen :: (commaRow (spellings items) ++ [.symbol .bracketClose])
  | .call _ name arguments =>
    .ident name :: .symbol .parenOpen :: (commaRow (spellings arguments) ++ [.symbol .parenClose])
  | .unary _ op operand =>
    .symbol op.symbol :: grouped Level.signed operand.level operand.spelling
  | .binary _ op left right =>
    grouped op.leftLevel left.level left.spelling ++
      .symbol op.symbol :: grouped op.rightLevel right.level right.spelling

def spellings : List (Expr Literal P) → List (List Token)
  | [] => []
  | first :: rest => first.spelling :: spellings rest

end

theorem spellings_eq (items : List (Expr Literal P)) : spellings items = items.map spelling := by
  induction items with
  | nil => rfl
  | cons first rest ih => rw [spellings, ih, List.map_cons]

end Expr

/-! ## Parts of an embed -/

/-- The mark of a statement that writes. -/
def WriteMode.symbol : WriteMode → Symbol
  | replace => .assign
  | append => .plusAssign

/-- An object with the rows of its entries. -/
def objectRow (rows : List (List Token)) : List Token :=
  .symbol .braceOpen :: (commaRow rows ++ [.symbol .braceClose])

/-- An entry of an object. -/
def entryRow (word : String) (value : List Token) : List Token :=
  .ident word :: .symbol .colon :: value

/-- An author or a footer, behind its name. -/
def Section.spelling {F K : Type} (word : K → String) (flow : F → List Token) (mode : WriteMode) :
    Section F K (Expr Literal P) → List Token
  | .flow values => .symbol mode.symbol :: flow values
  | .object entries =>
    .symbol mode.symbol ::
      objectRow (entries.map fun entry => entryRow (word entry.1) entry.2.spelling)
  | .property key value =>
    .symbol .dot :: .ident (word key) :: .symbol mode.symbol :: value.spelling

def AuthorFlow.spelling (flow : AuthorFlow (Expr Literal P)) : List Token :=
  commaRow (flow.exprs.map Expr.spelling)

def FooterFlow.spelling (flow : FooterFlow (Expr Literal P)) : List Token :=
  commaRow (flow.exprs.map Expr.spelling)

namespace FieldSetting

/-- The name of the property. -/
def word {E : Type} : FieldSetting E → String
  | .title _ => "title"
  | .text _ => "text"
  | .inline _ => "inline"

def spelling : FieldSetting (Expr Literal P) → List Token
  | .title value | .text value => value.spelling
  | .inline value => [(Literal.bool value).token]

end FieldSetting

/-- The mark behind a title and a text. -/
def inlineRow (inline : Bool) : List Token :=
  if inline then [.symbol .comma, Keyword.inline.token] else []

/-- A field in order stands in parentheses. -/
def FieldSpec.spelling : FieldSpec (Expr Literal P) P → List Token
  | .flow _ title text inline =>
    .symbol .parenOpen :: (title.spelling ++
      .symbol .comma :: (text.spelling ++ (inlineRow inline ++ [.symbol .parenClose])))
  | .object _ settings =>
    objectRow (settings.map fun setting => entryRow setting.word setting.spelling)

def FieldsBody.spelling (mode : WriteMode) : FieldsBody (Expr Literal P) P → List Token
  | .part field => .symbol mode.symbol :: field.spelling
  | .list fields =>
    .symbol mode.symbol :: .symbol .bracketOpen ::
      (commaRow (fields.map FieldSpec.spelling) ++ [.symbol .bracketClose])
  | .property setting =>
    .symbol .dot :: .ident setting.word :: .symbol mode.symbol :: setting.spelling

def PartBody.spelling : PartBody (Expr Literal P) P → List Token
  | .member key value => .ident key.name :: .symbol .assign :: value.spelling
  | .author mode body => .ident "author" :: body.spelling AuthorKey.word AuthorFlow.spelling mode
  | .footer mode body => .ident "footer" :: body.spelling FooterKey.word FooterFlow.spelling mode
  | .fields mode body => .ident "fields" :: body.spelling mode

def EmbedPart.spelling (part : EmbedPart (Expr Literal P) P) : List Token :=
  part.body.spelling ++ [.symbol .semicolon]

/-! ## Statements -/

namespace Stmt

/-- A clause of a loop, without a semicolon. -/
def clause : Stmt (Expr Literal P) P → List Token
  | .assign _ name value => .ident name :: .symbol .assign :: value.spelling
  | .expr _ value => value.spelling
  | _ => []

def clause? (s : Option (Stmt (Expr Literal P) P)) : List Token := s.elim [] clause

/-- A condition in parentheses. -/
def conditionRow (test : Expr Literal P) : List Token :=
  .symbol .parenOpen :: (test.spelling ++ [.symbol .parenClose])

mutual

/-- The tokens of a statement. -/
def spelling : Stmt (Expr Literal P) P → List Token
  | .empty _ => [.symbol .semicolon]
  | .block _ body => .symbol .braceOpen :: (spellingOfAll body ++ [.symbol .braceClose])
  | .assign _ name value =>
      .ident name :: .symbol .assign :: (value.spelling ++ [.symbol .semicolon])
  | .expr _ value => value.spelling ++ [.symbol .semicolon]
  | .function _ name _ parameters body =>
    Keyword.function.token :: .ident name :: .symbol .parenOpen ::
      (commaRow (parameters.map fun parameter => [.ident parameter]) ++
        .symbol .parenClose :: body.spelling)
  | .result _ value => Keyword.result.token :: (value.spelling ++ [.symbol .semicolon])
  | .branch _ test yes no =>
    Keyword.branch.token :: (conditionRow test ++ (yes.spelling ++ otherwise no))
  | .forLoop _ init check step body =>
    Keyword.forLoop.token :: .symbol .parenOpen :: (clause? init ++ .symbol .semicolon ::
      (check.elim [] Expr.spelling ++ .symbol .semicolon ::
        (clause? step ++ .symbol .parenClose :: body.spelling)))
  | .foreach _ name iterable body =>
    Keyword.foreach.token :: .symbol .parenOpen :: .ident name :: Keyword.among.token ::
      (iterable.spelling ++ .symbol .parenClose :: body.spelling)
  | .whileLoop _ test body => Keyword.whileLoop.token :: (conditionRow test ++ body.spelling)
  | .doWhile _ body test =>
    Keyword.doLoop.token :: (body.spelling ++
      Keyword.whileLoop.token :: (conditionRow test ++ [.symbol .semicolon]))
  | .text _ value => Keyword.text.token :: (value.spelling ++ [.symbol .semicolon])
  | .attachment _ value => Keyword.attachment.token :: (value.spelling ++ [.symbol .semicolon])
  | .embed _ parts =>
    Keyword.embed.token :: .symbol .braceOpen ::
      (parts.flatMap EmbedPart.spelling ++ [.symbol .braceClose])

def spellingOfAll : List (Stmt (Expr Literal P) P) → List Token
  | [] => []
  | first :: rest => first.spelling ++ spellingOfAll rest

/-- What follows the first branch of a conditional. -/
def otherwise : Option (Stmt (Expr Literal P) P) → List Token
  | none => []
  | some no => Keyword.otherwise.token :: no.spelling

end

theorem spellingOfAll_eq (body : List (Stmt (Expr Literal P) P)) :
    spellingOfAll body = body.flatMap spelling := by
  induction body with
  | nil => rfl
  | cons first rest ih => rw [spellingOfAll, ih, List.flatMap_cons]

end Stmt

def Item.spelling : Item (Expr Literal P) P → List Token
  | .constant _ name value =>
    Keyword.constant.token :: .ident name :: .symbol .assign ::
      (value.spelling ++ [.symbol .semicolon])
  | .stmt s => s.spelling

/-- The text of a template. -/
def printTemplate (items : List (Item (Expr Literal P) P)) : String :=
  spell (items.flatMap Item.spelling)

end MessageTemplate
