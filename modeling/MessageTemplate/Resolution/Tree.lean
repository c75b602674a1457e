import MessageTemplate.Evaluation.Code
import MessageTemplate.Resolution.Literal

/-!
# Making trees ready to run

Every literal is replaced by its value and every position by a location in the
text with the given label; nothing else changes. The first literal without a
value, and the first declaration of a function that is always there, are
refused. Nodes are visited in the order in which they are written.
-/

namespace MessageTemplate
namespace Resolve

abbrev Resolved (α : Type) := Except CompileError α

/-- Refuse what stands at `position`. -/
def refuse {α : Type} (file : String) (position : Position) (fault : CompileFault) : Resolved α :=
  .error ⟨fault, some ⟨file, position⟩⟩

def literal (file : String) (position : Position) (literal : Literal) : Resolved Value :=
  match literal.value with
  | .ok value => .ok value
  | .error fault => refuse file position fault

mutual

def expr (file : String) : SourceExpr → Resolved Term
  | .literal place value => do
    return .literal ⟨file, place⟩ (← literal file place value)
  | .var place name => return .var ⟨file, place⟩ name
  | .list place items => do
    return .list ⟨file, place⟩ (← exprs file items)
  | .call place name arguments => do
    return .call ⟨file, place⟩ name (← exprs file arguments)
  | .unary place op operand => do
    return .unary ⟨file, place⟩ op (← expr file operand)
  | .binary place op left right => do
    let left ← expr file left
    let right ← expr file right
    return .binary ⟨file, place⟩ op left right

def exprs (file : String) : List SourceExpr → Resolved (List Term)
  | [] => return []
  | first :: rest => do
    let first ← expr file first
    return first :: (← exprs file rest)

end

def expr? (file : String) : Option SourceExpr → Resolved (Option Term)
  | none => return none
  | some e => do
    return some (← expr file e)

/-! ## Parts of an embed -/

def entries {K : Type} (file : String) (entries : List (K × SourceExpr)) :
    Resolved (List (K × Term)) :=
  entries.mapM fun entry => do
    return (entry.1, ← expr file entry.2)

def sectionBody {F F' K : Type} (file : String) (flow : F → Resolved F') :
    Section F K SourceExpr → Resolved (Section F' K Term)
  | .flow values => do
    return .flow (← flow values)
  | .object written => do
    return .object (← entries file written)
  | .property key value => do
    return .property key (← expr file value)

def authorFlow (file : String) (flow : AuthorFlow SourceExpr) : Resolved (AuthorFlow Term) := do
  let name ← expr file flow.name
  let url ← expr? file flow.url
  let icon ← expr? file flow.icon
  return ⟨name, url, icon⟩

def footerFlow (file : String) (flow : FooterFlow SourceExpr) : Resolved (FooterFlow Term) := do
  let text ← expr file flow.text
  let icon ← expr? file flow.icon
  return ⟨text, icon⟩

def fieldSetting (file : String) : FieldSetting SourceExpr → Resolved (FieldSetting Term)
  | .title value => do
    return .title (← expr file value)
  | .text value => do
    return .text (← expr file value)
  | .inline value => return .inline value

def fieldSpec (file : String) :
    FieldSpec SourceExpr Position → Resolved (FieldSpec Term Location)
  | .flow place title text inline => do
    let title ← expr file title
    let text ← expr file text
    return .flow ⟨file, place⟩ title text inline
  | .object place settings => do
    return .object ⟨file, place⟩ (← settings.mapM (fieldSetting file))

def fieldsBody (file : String) :
    FieldsBody SourceExpr Position → Resolved (FieldsBody Term Location)
  | .part spec => do
    return .part (← fieldSpec file spec)
  | .list specs => do
    return .list (← specs.mapM (fieldSpec file))
  | .property setting => do
    return .property (← fieldSetting file setting)

def partBody (file : String) : PartBody SourceExpr Position → Resolved (PartBody Term Location)
  | .member member value => do
    return .member member (← expr file value)
  | .author mode body => do
    return .author mode (← sectionBody file (authorFlow file) body)
  | .footer mode body => do
    return .footer mode (← sectionBody file (footerFlow file) body)
  | .fields mode body => do
    return .fields mode (← fieldsBody file body)

def embedPart (file : String) (part : EmbedPart SourceExpr Position) :
    Resolved (EmbedPart Term Location) := do
  return ⟨⟨file, part.place⟩, ← partBody file part.body⟩

/-! ## Statements -/

/-- Refuse to declare a function that is always there. -/
def checkDeclared (file : String) (place : Position) (name : String) : Resolved Unit :=
  if isSystemFunction name then refuse file place (.reboundFunction name) else .ok ()

mutual

def stmt (file : String) : SourceStmt → Resolved Code
  | .empty place => return .empty ⟨file, place⟩
  | .block place body => do
    return .block ⟨file, place⟩ (← stmts file body)
  | .assign place name value => do
    return .assign ⟨file, place⟩ name (← expr file value)
  | .expr place value => do
    return .expr ⟨file, place⟩ (← expr file value)
  | .function place name namePlace parameters body => do
    checkDeclared file namePlace name
    return .function ⟨file, place⟩ name ⟨file, namePlace⟩ parameters (← stmt file body)
  | .result place value => do
    return .result ⟨file, place⟩ (← expr file value)
  | .branch place test yes no => do
    let test ← expr file test
    let yes ← stmt file yes
    let no ← stmt? file no
    return .branch ⟨file, place⟩ test yes no
  | .forLoop place init check step body => do
    let init ← stmt? file init
    let check ← expr? file check
    let step ← stmt? file step
    let body ← stmt file body
    return .forLoop ⟨file, place⟩ init check step body
  | .foreach place name iterable body => do
    let iterable ← expr file iterable
    let body ← stmt file body
    return .foreach ⟨file, place⟩ name iterable body
  | .whileLoop place test body => do
    let test ← expr file test
    let body ← stmt file body
    return .whileLoop ⟨file, place⟩ test body
  | .doWhile place body test => do
    let body ← stmt file body
    let test ← expr file test
    return .doWhile ⟨file, place⟩ body test
  | .text place value => do
    return .text ⟨file, place⟩ (← expr file value)
  | .attachment place value => do
    return .attachment ⟨file, place⟩ (← expr file value)
  | .embed place parts => do
    return .embed ⟨file, place⟩ (← parts.mapM (embedPart file))

def stmts (file : String) : List SourceStmt → Resolved (List Code)
  | [] => return []
  | first :: rest => do
    let first ← stmt file first
    return first :: (← stmts file rest)

def stmt? (file : String) : Option SourceStmt → Resolved (Option Code)
  | none => return none
  | some s => do
    return some (← stmt file s)

end

end Resolve
end MessageTemplate
