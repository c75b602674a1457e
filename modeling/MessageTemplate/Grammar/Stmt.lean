import MessageTemplate.Grammar.Message
import MessageTemplate.Token.Lexer
import MessageTemplate.Tree.Stmt

/-!
# The grammar of statements and templates

As for expressions, the rules are written over the rule for the statements
inside, and a budget that exceeds the number of tokens closes the circle.
-/

namespace MessageTemplate
namespace Parser

/-- An assignment or an expression, without the semicolon. -/
def simple : Parser SourceStmt := do
  let place ← here
  match ← get with
  | ⟨.ident _, _⟩ :: ⟨.symbol .assign, _⟩ :: _ =>
    let name ← name .assigned
    skip
    return .assign place name (← expr)
  | _ => return .expr place (← expr)

/-- An expression with a semicolon. -/
def exprSemicolon : Parser SourceExpr := do
  let value ← expr
  require .semicolon
  return value

def parenthesized : Parser SourceExpr := do
  require .parenOpen
  let value ← expr
  require .parenClose
  return value

/-- What `rule` reads, unless the symbol `stop` is in front. -/
def unlessAt {α : Type} (stop : Symbol) (rule : Parser α) : Parser (Option α) := do
  if (← peek) = .symbol stop then return none else return some (← rule)

def block (inner : Parser SourceStmt) : Parser SourceStmt := do
  let place ← here
  require .braceOpen
  return .block place (← untilBrace inner)

def functionDeclaration (inner : Parser SourceStmt) (place : Position) : Parser SourceStmt := do
  let namePlace ← here
  let functionName ← name .function
  require .parenOpen
  let parameters ← listUntil (name .parameter) .parenClose
  let body ← block inner
  return .function place functionName namePlace parameters body

def branch (inner : Parser SourceStmt) (place : Position) : Parser SourceStmt := do
  let condition ← parenthesized
  let yes ← inner
  if ← accept (.ident Keyword.otherwise.word) then
    return .branch place condition yes (some (← inner))
  else return .branch place condition yes none

def forLoop (inner : Parser SourceStmt) (place : Position) : Parser SourceStmt := do
  require .parenOpen
  let init ← unlessAt .semicolon simple
  require .semicolon
  let check ← unlessAt .semicolon expr
  require .semicolon
  let step ← unlessAt .parenClose simple
  require .parenClose
  return .forLoop place init check step (← inner)

def foreach (inner : Parser SourceStmt) (place : Position) : Parser SourceStmt := do
  require .parenOpen
  let variableName ← name .loopVariable
  requireWord .among
  let iterable ← expr
  require .parenClose
  return .foreach place variableName iterable (← inner)

def whileLoop (inner : Parser SourceStmt) (place : Position) : Parser SourceStmt := do
  let condition ← parenthesized
  return .whileLoop place condition (← inner)

def doWhile (inner : Parser SourceStmt) (place : Position) : Parser SourceStmt := do
  let body ← inner
  requireWord .whileLoop
  let condition ← parenthesized
  require .semicolon
  return .doWhile place body condition

def embed (place : Position) : Parser SourceStmt := do
  if ← accept (.symbol .dot) then return .embed place [← embedPart]
  else
    require .braceOpen
    return .embed place (← untilBrace embedPart)

def exprStmt : Parser SourceStmt := do
  let stmt ← simple
  require .semicolon
  return stmt

/-- The statement that starts with a reserved word. -/
def keywordStmt (inner : Parser SourceStmt) (place : Position) (keyword : Keyword) :
    Parser SourceStmt :=
  match keyword with
  | .constant => fail .nestedConstant
  | .function => do skip; functionDeclaration inner place
  | .result => do skip; return .result place (← exprSemicolon)
  | .branch => do skip; branch inner place
  | .forLoop => do skip; forLoop inner place
  | .foreach => do skip; foreach inner place
  | .whileLoop => do skip; whileLoop inner place
  | .doLoop => do skip; doWhile inner place
  | .text => do skip; return .text place (← exprSemicolon)
  | .attachment => do skip; return .attachment place (← exprSemicolon)
  | .embed => do skip; embed place
  | .otherwise | .among | .truth | .falsity | .inline => exprStmt

/-- The rule for statements, over the rule for the statements inside them. -/
def stmtRule (inner : Parser SourceStmt) : Parser SourceStmt := do
  let place ← here
  match ← peek with
  | .symbol .braceOpen => block inner
  | .symbol .semicolon =>
    skip
    return .empty place
  | .ident word =>
    match Keyword.ofWord? word with
    | some keyword => keywordStmt inner place keyword
    | none => exprStmt
  | _ => exprStmt

/-- The rule for statements that nest at most `budget` deep. -/
def stmtRuleAt : Nat → Parser SourceStmt
  | 0 => failExpecting .expression
  | budget + 1 => stmtRule (stmtRuleAt budget)

def stmt : Parser SourceStmt := bounded stmtRuleAt

def constant (place : Position) : Parser SourceItem := do
  let constantName ← name .constant
  require .assign
  return .constant place constantName (← exprSemicolon)

def item : Parser SourceItem := do
  let place ← here
  if ← accept (.ident Keyword.constant.word) then constant place
  else return .stmt (← stmt)

def template : Parser SourceTemplate := untilEnd item

end Parser

/-- The tree of a template text. -/
def parseTemplate (source : String) : Except SyntaxError SourceTemplate :=
  Parser.template.run' (lexemes source)

end MessageTemplate
