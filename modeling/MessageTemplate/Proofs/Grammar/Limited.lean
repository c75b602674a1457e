import MessageTemplate.Grammar.Stmt

/-!
# The grammar without bounds of its own

These are the rules of the grammar once more, but they call each other, and
themselves, as often as the tokens in front of them ask for. Only an allowance
from outside ends a run: every round of a loop and every call of a rule that may
come back to itself takes one off, and with nothing left the run gives up without
any outcome. A run that ends is one that has an outcome for some allowance.
Rules that neither repeat nor hold other rules are the ones of the grammar.
-/

namespace MessageTemplate

/-- A rule whose run may give up; then it has no outcome. -/
abbrev Limited := StateT (List Lexeme) (ExceptT SyntaxError Option)

namespace Limited

open MessageTemplate.Parser

/-- A rule of the grammar never gives up. -/
instance : MonadLift Parser Limited := ⟨fun rule ls => some (rule ls)⟩

section

variable {α : Type}

def giveUp : Limited α := fun _ => none

/-! ## Lists -/

def commaSeparated (item : Nat → Limited α) : Nat → Limited (List α)
  | 0 => giveUp
  | depth + 1 => do
    let first ← item depth
    if ← accept (.symbol .comma) then return first :: (← commaSeparated item depth)
    else return [first]

def listUntil (item : Nat → Limited α) (close : Symbol) (depth : Nat) : Limited (List α) := do
  if ← accept (.symbol close) then return []
  else
    let items ← commaSeparated item depth
    require close
    return items

def untilBrace (item : Nat → Limited α) : Nat → Limited (List α)
  | 0 => giveUp
  | depth + 1 => do
    match ← peek with
    | .symbol .braceClose =>
      skip
      return []
    | .endOfInput => failExpecting (.symbol .braceClose)
    | _ =>
      let first ← item depth
      return first :: (← untilBrace item depth)

def untilEnd (item : Nat → Limited α) : Nat → Limited (List α)
  | 0 => giveUp
  | depth + 1 => do
    if (← peek) = .endOfInput then return []
    else
      let first ← item depth
      return first :: (← untilEnd item depth)

def entries (entry : Position → String → Nat → Limited α) : Nat → Limited (List α)
  | 0 => giveUp
  | depth + 1 => do
    if (← peek) = .symbol .braceClose then return []
    else
      let place ← here
      let key ← propertyName
      require .colon
      let first ← entry place key depth
      if ← accept (.symbol .comma) then return first :: (← entries entry depth)
      else return [first]

def object (entry : Position → String → Nat → Limited α) (depth : Nat) : Limited (List α) := do
  require .braceOpen
  let values ← entries entry depth
  require .braceClose
  return values

end

/-! ## Expressions -/

mutual

def primary : Nat → Limited SourceExpr
  | 0 => giveUp
  | depth + 1 => do
    let place ← here
    match ← peek with
    | .number raw =>
      skip
      return .literal place (.number raw)
    | .string raw =>
      skip
      return .literal place (.string raw)
    | .hex raw =>
      skip
      return .literal place (.hex raw)
    | .ident word =>
      match Keyword.ofWord? word with
      | some .truth =>
        skip
        return .literal place (.bool true)
      | some .falsity =>
        skip
        return .literal place (.bool false)
      | some _ => fail (.reserved word)
      | none =>
        skip
        if ← accept (.symbol .parenOpen) then
          return .call place word (← exprsUntil .parenClose depth)
        else return .var place word
    | .symbol .bracketOpen =>
      skip
      return .list place (← exprsUntil .bracketClose depth)
    | .symbol .parenOpen =>
      skip
      let expr ← tier BinaryOp.loosest depth
      require .parenClose
      return expr
    | .unknown c => fail (.stray (.unknown c))
    | .unterminated what => fail (.stray (.unterminated what))
    | _ => failExpecting .expression

/-- Arguments or items up to the symbol `close`. -/
def exprsUntil (close : Symbol) : Nat → Limited (List SourceExpr)
  | 0 => giveUp
  | depth + 1 => do
    if ← accept (.symbol close) then return []
    else
      let items ← exprs depth
      require close
      return items

/-- One expression and further ones, each after a comma. -/
def exprs : Nat → Limited (List SourceExpr)
  | 0 => giveUp
  | depth + 1 => do
    let first ← tier BinaryOp.loosest depth
    if ← accept (.symbol .comma) then return first :: (← exprs depth) else return [first]

def power : Nat → Limited SourceExpr
  | 0 => giveUp
  | depth + 1 => do
    let base ← primary depth
    if ← accept (.symbol .caret) then return .join .power base (← signed depth)
    else return base

def signed : Nat → Limited SourceExpr
  | 0 => giveUp
  | depth + 1 => do
    let place ← here
    match ← peek with
    | .symbol symbol =>
      match UnaryOp.ofSymbol? symbol with
      | some op =>
        skip
        return .unary place op (← signed depth)
      | none => power depth
    | _ => power depth

def tier (rank : Nat) : Nat → Limited SourceExpr
  | 0 => giveUp
  | depth + 1 =>
    match rank with
    | 0 => signed depth
    | rank + 1 => do further rank (← tier rank depth) depth

/-- Join further operands of the given rank to `left`, as long as operators of the next rank
follow. -/
def further (rank : Nat) (left : SourceExpr) : Nat → Limited SourceExpr
  | 0 => giveUp
  | depth + 1 => do
    match operatorOf (rank + 1) (← peek) with
    | some op =>
      skip
      let right ← tier rank depth
      further rank (.join op left right) depth
    | none => return left

end

def expr : Nat → Limited SourceExpr := tier BinaryOp.loosest

/-! ## Parts of an embed -/

def sectionEntry {K : Type} (owner : PropertyOwner) (ofWord? : String → Option K)
    (place : Position) (name : String) (depth : Nat) : Limited (K × SourceExpr) := do
  let key ← propertyKey owner ofWord? place name
  return (key, ← expr depth)

def sectionBody {F K : Type} (owner : PropertyOwner) (ofWord? : String → Option K)
    (flow : Nat → Limited F) (depth : Nat) : Limited (WriteMode × Section F K SourceExpr) := do
  if ← accept (.symbol .dot) then
    let place ← here
    let key ← propertyKey owner ofWord? place (← propertyName)
    let mode ← writeMode
    return (mode, .property key (← expr depth))
  else
    let mode ← writeMode
    if (← peek) = .symbol .braceOpen then
      let entries ← object (sectionEntry owner ofWord?) depth
      return (mode, .object entries)
    else return (mode, .flow (← flow depth))

def nextInFlow (depth : Nat) : Limited (Option SourceExpr) := do
  if ← accept (.symbol .comma) then return some (← expr depth) else return none

def authorFlow (depth : Nat) : Limited (AuthorFlow SourceExpr) := do
  let name ← expr depth
  match ← nextInFlow depth with
  | none => return ⟨name, none, none⟩
  | some url => return ⟨name, some url, ← nextInFlow depth⟩

def footerFlow (depth : Nat) : Limited (FooterFlow SourceExpr) := do
  let text ← expr depth
  return ⟨text, ← nextInFlow depth⟩

def fieldSetting (place : Position) (name : String) : Nat → Limited (FieldSetting SourceExpr) :=
  match name with
  | "title" => fun depth => do return .title (← expr depth)
  | "text" => fun depth => do return .text (← expr depth)
  | "inline" => fun _ => do return .inline (← boolean)
  | _ => fun _ => failAt place (.unknownProperty .field name)

def fieldTuple (place : Position) (depth : Nat) : Limited (Option SourceField) := do
  let start ← get
  require .parenOpen
  let title ← expr depth
  if ← accept (.symbol .comma) then
    let text ← expr depth
    let inline ← inlineMark
    require .parenClose
    return some (.flow place title text inline)
  else
    set start
    return none

def fieldFlow (place : Position) (depth : Nat) : Limited SourceField := do
  let title ← expr depth
  require .comma
  let text ← expr depth
  return .flow place title text (← inlineMark)

def field (depth : Nat) : Limited SourceField := do
  let place ← here
  match ← peek with
  | .symbol .braceOpen => return .object place (← object fieldSetting depth)
  | .symbol .parenOpen =>
    match ← fieldTuple place depth with
    | some field => return field
    | none => fieldFlow place depth
  | _ => fieldFlow place depth

def fieldsBody (depth : Nat) : Limited (WriteMode × FieldsBody SourceExpr Position) := do
  if ← accept (.symbol .dot) then
    let place ← here
    let name ← propertyName
    let mode ← writeMode
    return (mode, .property (← fieldSetting place name depth))
  else
    let mode ← writeMode
    if ← accept (.symbol .bracketOpen) then
      let fields ← commaSeparated field depth
      require .bracketClose
      return (mode, .list fields)
    else return (mode, .part (← field depth))

def partBody (place : Position) (name : String) : Nat → Limited (PartBody SourceExpr Position) :=
  match EmbedMember.ofName? name with
  | some member => fun depth => do
    require .assign
    return .member member (← expr depth)
  | none =>
    match name with
    | "author" => fun depth => do
      let (mode, body) ← sectionBody .author AuthorKey.ofWord? authorFlow depth
      return .author mode body
    | "footer" => fun depth => do
      let (mode, body) ← sectionBody .footer FooterKey.ofWord? footerFlow depth
      return .footer mode body
    | "field" | "fields" => fun depth => do
      let (mode, body) ← fieldsBody depth
      return .fields mode body
    | _ => fun _ => failAt place (.unknownProperty .embed name)

def embedPart (depth : Nat) : Limited (EmbedPart SourceExpr Position) := do
  let place ← here
  let body ← partBody place (← propertyName) depth
  require .semicolon
  return ⟨place, body⟩

/-! ## Statements -/

def simple (depth : Nat) : Limited SourceStmt := do
  let place ← here
  match ← get with
  | ⟨.ident _, _⟩ :: ⟨.symbol .assign, _⟩ :: _ =>
    let name ← name .assigned
    skip
    return .assign place name (← expr depth)
  | _ => return .expr place (← expr depth)

def exprSemicolon (depth : Nat) : Limited SourceExpr := do
  let value ← expr depth
  require .semicolon
  return value

def parenthesized (depth : Nat) : Limited SourceExpr := do
  require .parenOpen
  let value ← expr depth
  require .parenClose
  return value

def unlessAt {α : Type} (stop : Symbol) (rule : Nat → Limited α) (depth : Nat) :
    Limited (Option α) := do
  if (← peek) = .symbol stop then return none else return some (← rule depth)

def embed (place : Position) (depth : Nat) : Limited SourceStmt := do
  if ← accept (.symbol .dot) then return .embed place [← embedPart depth]
  else
    require .braceOpen
    return .embed place (← untilBrace embedPart depth)

def exprStmt (depth : Nat) : Limited SourceStmt := do
  let stmt ← simple depth
  require .semicolon
  return stmt

def parameters : Nat → Limited (List String) := listUntil (fun _ => name .parameter) .parenClose

mutual

def stmt : Nat → Limited SourceStmt
  | 0 => giveUp
  | depth + 1 => do
    let place ← here
    match ← peek with
    | .symbol .braceOpen => block depth
    | .symbol .semicolon =>
      skip
      return .empty place
    | .ident word =>
      match Keyword.ofWord? word with
      | some keyword => keywordStmt place keyword depth
      | none => exprStmt depth
    | _ => exprStmt depth

def block : Nat → Limited SourceStmt
  | 0 => giveUp
  | depth + 1 => do
    let place ← here
    require .braceOpen
    return .block place (← stmts depth)

/-- Statements up to a closing brace, which is taken. -/
def stmts : Nat → Limited (List SourceStmt)
  | 0 => giveUp
  | depth + 1 => do
    match ← peek with
    | .symbol .braceClose =>
      skip
      return []
    | .endOfInput => failExpecting (.symbol .braceClose)
    | _ =>
      let first ← stmt depth
      return first :: (← stmts depth)

def functionDeclaration (place : Position) : Nat → Limited SourceStmt
  | 0 => giveUp
  | depth + 1 => do
    let namePlace ← here
    let functionName ← name .function
    require .parenOpen
    let names ← parameters depth
    let body ← block depth
    return .function place functionName namePlace names body

def branch (place : Position) : Nat → Limited SourceStmt
  | 0 => giveUp
  | depth + 1 => do
    let condition ← parenthesized depth
    let yes ← stmt depth
    if ← accept (.ident Keyword.otherwise.word) then
      return .branch place condition yes (some (← stmt depth))
    else return .branch place condition yes none

def forLoop (place : Position) : Nat → Limited SourceStmt
  | 0 => giveUp
  | depth + 1 => do
    require .parenOpen
    let init ← unlessAt .semicolon simple depth
    require .semicolon
    let check ← unlessAt .semicolon expr depth
    require .semicolon
    let step ← unlessAt .parenClose simple depth
    require .parenClose
    return .forLoop place init check step (← stmt depth)

def foreach (place : Position) : Nat → Limited SourceStmt
  | 0 => giveUp
  | depth + 1 => do
    require .parenOpen
    let variableName ← name .loopVariable
    requireWord .among
    let iterable ← expr depth
    require .parenClose
    return .foreach place variableName iterable (← stmt depth)

def whileLoop (place : Position) : Nat → Limited SourceStmt
  | 0 => giveUp
  | depth + 1 => do
    let condition ← parenthesized depth
    return .whileLoop place condition (← stmt depth)

def doWhile (place : Position) : Nat → Limited SourceStmt
  | 0 => giveUp
  | depth + 1 => do
    let body ← stmt depth
    requireWord .whileLoop
    let condition ← parenthesized depth
    require .semicolon
    return .doWhile place body condition

def keywordStmt (place : Position) (keyword : Keyword) : Nat → Limited SourceStmt
  | 0 => giveUp
  | depth + 1 =>
    match keyword with
    | .constant => fail .nestedConstant
    | .function => do skip; functionDeclaration place depth
    | .result => do skip; return .result place (← exprSemicolon depth)
    | .branch => do skip; branch place depth
    | .forLoop => do skip; forLoop place depth
    | .foreach => do skip; foreach place depth
    | .whileLoop => do skip; whileLoop place depth
    | .doLoop => do skip; doWhile place depth
    | .text => do skip; return .text place (← exprSemicolon depth)
    | .attachment => do skip; return .attachment place (← exprSemicolon depth)
    | .embed => do skip; embed place depth
    | .otherwise | .among | .truth | .falsity | .inline => exprStmt depth

end

/-! ## Templates -/

def constant (place : Position) (depth : Nat) : Limited SourceItem := do
  let constantName ← name .constant
  require .assign
  return .constant place constantName (← exprSemicolon depth)

def item (depth : Nat) : Limited SourceItem := do
  let place ← here
  if ← accept (.ident Keyword.constant.word) then constant place depth
  else return .stmt (← stmt depth)

def template : Nat → Limited SourceTemplate := untilEnd item

/-- The tree of a template text, unless the run gives up. -/
def parseTemplate (source : String) (depth : Nat) : Option (Except SyntaxError SourceTemplate) :=
  (template depth).run' (lexemes source)

end Limited
end MessageTemplate
