import MessageTemplate.Grammar.Expr
import MessageTemplate.Tree.Message

/-!
# The grammar of embed parts
-/

namespace MessageTemplate
namespace Parser

abbrev SourceField := FieldSpec SourceExpr Position

def writeMode : Parser WriteMode := do
  if ← accept (.symbol .assign) then return .replace
  else if ← accept (.symbol .plusAssign) then return .append
  else failExpecting .writeMode

/-- The property of `owner` called `name`, which stands at `place`. -/
def propertyKey {K : Type} (owner : PropertyOwner) (ofWord? : String → Option K) (place : Position)
    (name : String) : Parser K :=
  match ofWord? name with
  | some key => return key
  | none => failAt place (.unknownProperty owner name)

/-- An author or a footer in any of its forms. -/
def sectionBody {F K : Type} (owner : PropertyOwner) (ofWord? : String → Option K)
    (flow : Parser F) : Parser (WriteMode × Section F K SourceExpr) := do
  if ← accept (.symbol .dot) then
    let place ← here
    let key ← propertyKey owner ofWord? place (← propertyName)
    let mode ← writeMode
    return (mode, .property key (← expr))
  else
    let mode ← writeMode
    if (← peek) = .symbol .braceOpen then
      let entries ← object fun place name => do
        let key ← propertyKey owner ofWord? place name
        return (key, ← expr)
      return (mode, .object entries)
    else return (mode, .flow (← flow))

/-- An expression after a comma, if there is one. -/
def nextInFlow : Parser (Option SourceExpr) := do
  if ← accept (.symbol .comma) then return some (← expr) else return none

def authorFlow : Parser (AuthorFlow SourceExpr) := do
  let name ← expr
  match ← nextInFlow with
  | none => return ⟨name, none, none⟩
  | some url => return ⟨name, some url, ← nextInFlow⟩

def footerFlow : Parser (FooterFlow SourceExpr) := do
  let text ← expr
  return ⟨text, ← nextInFlow⟩

/-- The value of the field property called `name`, which stands at `place`. -/
def fieldSetting (place : Position) (name : String) : Parser (FieldSetting SourceExpr) :=
  match name with
  | "title" => do return .title (← expr)
  | "text" => do return .text (← expr)
  | "inline" => do return .inline (← boolean)
  | _ => failAt place (.unknownProperty .field name)

/-- Take `, inline` if it is in front. -/
def inlineMark : Parser Bool := do
  match ← get with
  | ⟨.symbol .comma, _⟩ :: ⟨.ident word, _⟩ :: rest =>
    if word = Keyword.inline.word then
      set rest
      return true
    else return false
  | _ => return false

/-- A field as a tuple in parentheses. If the parenthesis that is in front turns out to hold only
the title or a part of it, nothing is taken. -/
def fieldTuple (place : Position) : Parser (Option SourceField) := do
  let start ← get
  require .parenOpen
  let title ← expr
  if ← accept (.symbol .comma) then
    let text ← expr
    let inline ← inlineMark
    require .parenClose
    return some (.flow place title text inline)
  else
    set start
    return none

/-- A field as a title and a text. -/
def fieldFlow (place : Position) : Parser SourceField := do
  let title ← expr
  require .comma
  let text ← expr
  return .flow place title text (← inlineMark)

def field : Parser SourceField := do
  let place ← here
  match ← peek with
  | .symbol .braceOpen => return .object place (← object fieldSetting)
  | .symbol .parenOpen =>
    match ← fieldTuple place with
    | some field => return field
    | none => fieldFlow place
  | _ => fieldFlow place

def fieldsBody : Parser (WriteMode × FieldsBody SourceExpr Position) := do
  if ← accept (.symbol .dot) then
    let place ← here
    let name ← propertyName
    let mode ← writeMode
    return (mode, .property (← fieldSetting place name))
  else
    let mode ← writeMode
    if ← accept (.symbol .bracketOpen) then
      let fields ← commaSeparated field
      require .bracketClose
      return (mode, .list fields)
    else return (mode, .part (← field))

/-- What is written behind the part name `name`, which stands at `place`. -/
def partBody (place : Position) (name : String) : Parser (PartBody SourceExpr Position) :=
  match EmbedMember.ofName? name with
  | some member => do
    require .assign
    return .member member (← expr)
  | none =>
    match name with
    | "author" => do
      let (mode, body) ← sectionBody .author AuthorKey.ofWord? authorFlow
      return .author mode body
    | "footer" => do
      let (mode, body) ← sectionBody .footer FooterKey.ofWord? footerFlow
      return .footer mode body
    | "field" | "fields" => do
      let (mode, body) ← fieldsBody
      return .fields mode body
    | _ => failAt place (.unknownProperty .embed name)

/-- A part of an embed with its semicolon. -/
def embedPart : Parser (EmbedPart SourceExpr Position) := do
  let place ← here
  let body ← partBody place (← propertyName)
  require .semicolon
  return ⟨place, body⟩

end Parser
end MessageTemplate
