import MessageTemplate.Evaluation.Message
import MessageTemplate.Proofs.Tree.Nodes

/-!
# What values describe

A part of an embed in which values stand in place of the expressions describes
an author, a footer, or fields. Here they are computed from these values alone.
-/

namespace MessageTemplate

section

variable {P : Type}

/-- The edits that values ask for as properties; null asks for none. -/
def valueEdits {K R : Type} (edit : K → String → R → R) (entries : List (K × Value)) :
    List (R → R) :=
  entries.flatMap fun entry => (entry.2.text?.map (edit entry.1)).toList

def AuthorFlow.author? (flow : AuthorFlow Value) : Option Author :=
  flow.name.text?.map fun name => ⟨name, flow.url.bind Value.text?, flow.icon.bind Value.text?⟩

def FooterFlow.footer? (flow : FooterFlow Value) : Option Footer :=
  flow.text.text?.map fun text => ⟨text, flow.icon.bind Value.text?⟩

/-- The author that is described, if no value is null that is required. -/
def Section.author? : Section (AuthorFlow Value) AuthorKey Value → Option Author
  | .flow values => values.author?
  | .object entries => some (Eval.applyEdits (valueEdits Eval.authorEdit entries) .blank)
  | .property key value => some (Eval.applyEdits (valueEdits Eval.authorEdit [(key, value)]) .blank)

def Section.footer? : Section (FooterFlow Value) FooterKey Value → Option Footer
  | .flow values => values.footer?
  | .object entries => some (Eval.applyEdits (valueEdits Eval.footerEdit entries) .blank)
  | .property key value => some (Eval.applyEdits (valueEdits Eval.footerEdit [(key, value)]) .blank)

def FieldSetting.edit? : FieldSetting Value → Option (Field → Field)
  | .title value => value.text?.map fun text field => { field with title := text }
  | .text value => value.text?.map fun text field => { field with text := text }
  | .inline value => some fun field => { field with inline := value }

def FieldSpec.field? : FieldSpec Value P → Option Field
  | .flow _ title text inline =>
    title.text?.bind fun title => text.text?.map fun text => ⟨title, text, inline⟩
  | .object _ settings =>
    some (Eval.applyEdits (settings.flatMap fun setting => setting.edit?.toList) .blank)

/-- The fields that are described. -/
def FieldsBody.fields? : FieldsBody Value P → Option (List Field)
  | .part spec => [spec].mapM FieldSpec.field?
  | .list specs => specs.mapM FieldSpec.field?
  | .property setting => some [setting.edit?.getD id .blank]

/-- A part that starts its author, its footer or its fields afresh. -/
def PartBody.Replaces {E : Type} : PartBody E P → Prop
  | .author mode _ | .footer mode _ | .fields mode _ => mode = .replace
  | .member _ _ => False

/-- What a part that starts afresh puts in the place of what is there. -/
def PartBody.replacement? : PartBody Value P → Option (Embed → Embed)
  | .author .replace body =>
    body.author?.map fun author embed => { embed with author := some author }
  | .footer .replace body =>
    body.footer?.map fun footer embed => { embed with footer := some footer }
  | .fields .replace body => body.fields?.map fun fields embed => { embed with fields := fields }
  | _ => none

/-- Two parts are written in the same form if they differ at most in their expressions. -/
def PartBody.SameForm {E F : Type} (body : PartBody E P) (other : PartBody F P) : Prop :=
  body.map (fun _ => ()) id = other.map (fun _ => ()) id

end

/-- A field that is described by the same text twice. -/
def plainField (text : String) : FieldSpec Term Location :=
  .flow ⟨"t", .start⟩ (.literal ⟨"t", .start⟩ (.string text))
    (.literal ⟨"t", .start⟩ (.string text)) false

end MessageTemplate
