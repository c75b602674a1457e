import MessageTemplate.Evaluation.Term

/-!
# Writing the message

All expressions of an author, a footer, or a single property are evaluated
before the document is touched; a list of fields is written field by field. A
null value writes nothing, except where a value is required.
-/

namespace MessageTemplate
namespace Eval

/-- The text of an expression that stands for a member which cannot be null. -/
def requiredText (call : Caller) (member : RequiredMember) (value : Term) : Eval String := do
  match ← text? call value with
  | some text => return text
  | none => raise (.missing member)

/-- The text of an expression that may be left out. -/
def optionalText (call : Caller) : Option Term → Eval (Option String)
  | none => pure none
  | some value => text? call value

/-- The edits that the values of some properties ask for; null ones ask for none. -/
def edits {K R : Type} (call : Caller) (edit : K → String → R → R) :
    List (K × Term) → Eval (List (R → R))
  | [] => pure []
  | (key, value) :: rest => do
    let text ← text? call value
    let others ← edits call edit rest
    return (text.map (edit key)).toList ++ others

/-- Make edits one after another. -/
def applyEdits {R : Type} (edits : List (R → R)) (record : R) : R :=
  edits.foldl (fun record edit => edit record) record

def editEmbed (edit : Embed → Embed) : Eval Unit :=
  editDocument fun document => document.editEmbed edit

def writeContent (call : Caller) (value : Term) : Eval Unit := do
  if let some text ← text? call value then
    editDocument fun document => { document with content := some text }

def attach (call : Caller) (value : Term) : Eval Unit := do
  if let some url ← text? call value then editDocument fun document => document.attach url

/-- The edit that a value asks for as a member of an embed, if it is not null. -/
def memberEdit (member : EmbedMember) (value : Value) :
    Except RuntimeFault (Option (Embed → Embed)) :=
  match member with
  | .title => .ok (value.text?.map fun text embed => { embed with title := some text })
  | .description => .ok (value.text?.map fun text embed => { embed with description := some text })
  | .url => .ok (value.text?.map fun text embed => { embed with url := some text })
  | .image => .ok (value.text?.map fun text embed => embed.editImage fun _ => text)
  | .timestamp => do
    return (← value.asInstant).map fun instant embed => { embed with timestamp := some instant }
  | .color => do
    return (← value.asInteger).map fun color embed => { embed with color := some color }

def writeMember (call : Caller) (member : EmbedMember) (value : Term) : Eval Unit := do
  if let some edit ← ofExcept (memberEdit member (← term call value)) then editEmbed edit

def authorEdit : AuthorKey → String → Author → Author
  | .name, text, author => { author with name := text }
  | .url, text, author => { author with url := some text }
  | .icon, text, author => { author with icon := some text }

def footerEdit : FooterKey → String → Footer → Footer
  | .text, text, footer => { footer with text := text }
  | .icon, text, footer => { footer with icon := some text }

/-- An author in order is written whole in either mode. -/
def writeAuthorFlow (call : Caller) (flow : AuthorFlow Term) : Eval Unit := do
  let name ← requiredText call .authorName flow.name
  let url ← optionalText call flow.url
  let icon ← optionalText call flow.icon
  editEmbed fun embed => { embed with author := some ⟨name, url, icon⟩ }

def writeAuthorEntries (call : Caller) (mode : WriteMode) (entries : List (AuthorKey × Term)) :
    Eval Unit := do
  let edits ← edits call authorEdit entries
  editEmbed fun embed =>
    match mode with
    | .replace => { embed with author := some (applyEdits edits .blank) }
    | .append => embed.editAuthor (applyEdits edits)

def writeAuthor (call : Caller) (mode : WriteMode) :
    Section (AuthorFlow Term) AuthorKey Term → Eval Unit
  | .flow flow => writeAuthorFlow call flow
  | .object entries => writeAuthorEntries call mode entries
  | .property key value => writeAuthorEntries call mode [(key, value)]

/-- A footer in order is written whole in either mode. -/
def writeFooterFlow (call : Caller) (flow : FooterFlow Term) : Eval Unit := do
  let text ← requiredText call .footerText flow.text
  let icon ← optionalText call flow.icon
  editEmbed fun embed => { embed with footer := some ⟨text, icon⟩ }

def writeFooterEntries (call : Caller) (mode : WriteMode) (entries : List (FooterKey × Term)) :
    Eval Unit := do
  let edits ← edits call footerEdit entries
  editEmbed fun embed =>
    match mode with
    | .replace => { embed with footer := some (applyEdits edits .blank) }
    | .append => embed.editFooter (applyEdits edits)

def writeFooter (call : Caller) (mode : WriteMode) :
    Section (FooterFlow Term) FooterKey Term → Eval Unit
  | .flow flow => writeFooterFlow call flow
  | .object entries => writeFooterEntries call mode entries
  | .property key value => writeFooterEntries call mode [(key, value)]

/-- The edit that one property of a field asks for, if its value is not null. -/
def fieldEdit? (call : Caller) : FieldSetting Term → Eval (Option (Field → Field))
  | .title value => do
    return (← text? call value).map fun text field => { field with title := text }
  | .text value => do
    return (← text? call value).map fun text field => { field with text := text }
  | .inline value => pure (some fun field => { field with inline := value })

def fieldEdits (call : Caller) : List (FieldSetting Term) → Eval (List (Field → Field))
  | [] => pure []
  | setting :: rest => do
    let edit ← fieldEdit? call setting
    let others ← fieldEdits call rest
    return edit.toList ++ others

/-- The field that is described. -/
def field (call : Caller) : FieldSpec Term Location → Eval Field
  | .flow here title text inline => located here do
    let title ← requiredText call .fieldTitle title
    let text ← requiredText call .fieldText text
    return ⟨title, text, inline⟩
  | .object here settings => located here do
    return applyEdits (← fieldEdits call settings) .blank

def addField (call : Caller) (spec : FieldSpec Term Location) : Eval Unit := do
  let field ← field call spec
  editEmbed fun embed => embed.addField field

/-- Remove all fields, if a statement starts afresh. -/
def clearFields (mode : WriteMode) (embed : Embed) : Embed :=
  match mode with
  | .replace => { embed with fields := [] }
  | .append => embed

/-- Fields are removed before the first new one is evaluated. -/
def writeFields (call : Caller) (mode : WriteMode) (specs : List (FieldSpec Term Location)) :
    Eval Unit := do
  if mode = .replace then editEmbed (clearFields mode)
  specs.forM (addField call)

def writeFieldSetting (call : Caller) (mode : WriteMode) (setting : FieldSetting Term) :
    Eval Unit := do
  let edit ← fieldEdit? call setting
  editEmbed fun embed => (clearFields mode embed).editLastField (edit.getD id)

def writeFieldsBody (call : Caller) (mode : WriteMode) : FieldsBody Term Location → Eval Unit
  | .part spec => writeFields call mode [spec]
  | .list specs => writeFields call mode specs
  | .property setting => writeFieldSetting call mode setting

def partBody (call : Caller) : PartBody Term Location → Eval Unit
  | .member member value => writeMember call member value
  | .author mode body => writeAuthor call mode body
  | .footer mode body => writeFooter call mode body
  | .fields mode body => writeFieldsBody call mode body

def embedPart (call : Caller) (part : EmbedPart Term Location) : Eval Unit :=
  located part.place (partBody call part.body)

end Eval
end MessageTemplate
