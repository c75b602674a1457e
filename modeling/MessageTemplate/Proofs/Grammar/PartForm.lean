import MessageTemplate.Proofs.Grammar.Phrase
import MessageTemplate.Grammar.Message

/-!
# The forms of embed parts

A field in order may stand in parentheses, and an object may have a comma behind
its last entry. Everything else has one form only.
-/

namespace MessageTemplate

section

variable {α : Type}

/-- The entries of an object: a name, a colon and what `entry` says for that name. -/
inductive Entries (entry : String → Form α) : Form (List α)
  | none {ls} : Entries entry ls [] ls
  | last {ls mid next rest word value} (hword : Takes (.ident word) ls mid)
      (hcolon : Takes (.symbol .colon) mid next) (hentry : entry word next value rest) :
      Entries entry ls [value] rest
  | more {ls mid next after behind rest word value values} (hword : Takes (.ident word) ls mid)
      (hcolon : Takes (.symbol .colon) mid next) (hentry : entry word next value after)
      (hcomma : Takes (.symbol .comma) after behind) (hmore : Entries entry behind values rest) :
      Entries entry ls (value :: values) rest

/-- An object between braces. -/
inductive ObjectForm (entry : String → Form α) : Form (List α)
  | mk {ls mid next rest values} (hopen : Takes (.symbol .braceOpen) ls mid)
      (hentries : Entries entry mid values next) (hclose : Takes (.symbol .braceClose) next rest) :
      ObjectForm entry ls values rest

/-- What an optional comma brings with it. -/
inductive Following (item : Form α) : Form (Option α)
  | none {ls} : Following item ls none ls
  | some {ls mid rest value} (hcomma : Takes (.symbol .comma) ls mid)
      (hitem : item mid value rest) :
      Following item ls (some value) rest

end

/-- Any expression. -/
abbrev Whole : Form SourceExpr := Phrase Level.whole

inductive AuthorFlowForm : Form (AuthorFlow SourceExpr)
  | name {ls rest name} (hname : Whole ls name rest) : AuthorFlowForm ls ⟨name, none, none⟩ rest
  | url {ls mid next rest name url icon} (hname : Whole ls name mid)
      (hurl : Following Whole mid (some url) next) (hicon : Following Whole next icon rest) :
      AuthorFlowForm ls ⟨name, some url, icon⟩ rest

inductive FooterFlowForm : Form (FooterFlow SourceExpr)
  | mk {ls mid rest text icon} (htext : Whole ls text mid) (hicon : Following Whole mid icon rest) :
      FooterFlowForm ls ⟨text, icon⟩ rest

/-- An entry whose name stands for a key. -/
def KeyedForm {K : Type} (ofWord? : String → Option K) (word : String) : Form (K × SourceExpr) :=
  fun ls entry rest => ofWord? word = some entry.1 ∧ Whole ls entry.2 rest

/-- An author or a footer behind its name. -/
inductive SectionForm {F K : Type} (ofWord? : String → Option K) (flow : Form F) :
    Form (WriteMode × Section F K SourceExpr)
  | property {ls mid next after rest word key mode value} (hdot : Takes (.symbol .dot) ls mid)
      (hword : Takes (.ident word) mid next) (hkey : ofWord? word = some key)
      (hmode : Takes (.symbol (WriteMode.symbol mode)) next after)
      (hvalue : Whole after value rest) :
      SectionForm ofWord? flow ls (mode, .property key value) rest
  | object {ls mid rest mode entries} (hmode : Takes (.symbol (WriteMode.symbol mode)) ls mid)
      (hentries : ObjectForm (KeyedForm ofWord?) mid entries rest) :
      SectionForm ofWord? flow ls (mode, .object entries) rest
  | flow {ls mid rest mode values} (hmode : Takes (.symbol (WriteMode.symbol mode)) ls mid)
      (hvalues : flow mid values rest) : SectionForm ofWord? flow ls (mode, .flow values) rest

/-- The value of the field property called `word`. -/
inductive SettingForm : String → Form (FieldSetting SourceExpr)
  | title {ls rest value} (hvalue : Whole ls value rest) :
      SettingForm "title" ls (.title value) rest
  | text {ls rest value} (hvalue : Whole ls value rest) : SettingForm "text" ls (.text value) rest
  | inline {ls rest} (value : Bool) (hvalue : Takes (Literal.bool value).token ls rest) :
      SettingForm "inline" ls (.inline value) rest

inductive InlineForm : Form Bool
  | plain {ls} : InlineForm ls false ls
  | marked {ls mid rest} (hcomma : Takes (.symbol .comma) ls mid)
      (hword : Takes Keyword.inline.token mid rest) : InlineForm ls true rest

/-- A title, a text and perhaps a mark. -/
inductive FlowForm : Form (SourceExpr × SourceExpr × Bool)
  | mk {ls mid next after rest title text inline} (htitle : Whole ls title mid)
      (hcomma : Takes (.symbol .comma) mid next) (htext : Whole next text after)
      (hinline : InlineForm after inline rest) : FlowForm ls (title, text, inline) rest

inductive FieldForm : Form Parser.SourceField
  | object {ls rest settings} (hsettings : ObjectForm SettingForm ls settings rest) :
      FieldForm ls (.object (placeOf ls) settings) rest
  | tuple {ls mid next rest title text inline} (hopen : Takes (.symbol .parenOpen) ls mid)
      (hflow : FlowForm mid (title, text, inline) next)
      (hclose : Takes (.symbol .parenClose) next rest) :
      FieldForm ls (.flow (placeOf ls) title text inline) rest
  | flow {ls rest title text inline} (hflow : FlowForm ls (title, text, inline) rest) :
      FieldForm ls (.flow (placeOf ls) title text inline) rest

/-- Fields behind their name. A bracket in front always opens a list of fields. -/
inductive FieldsForm : Form (WriteMode × FieldsBody SourceExpr Position)
  | property {ls mid next after rest word mode setting} (hdot : Takes (.symbol .dot) ls mid)
      (hword : Takes (.ident word) mid next)
      (hmode : Takes (.symbol (WriteMode.symbol mode)) next after)
      (hsetting : SettingForm word after setting rest) :
      FieldsForm ls (mode, .property setting) rest
  | list {ls mid next after rest mode fields}
      (hmode : Takes (.symbol (WriteMode.symbol mode)) ls mid)
      (hopen : Takes (.symbol .bracketOpen) mid next)
      (hfields : Separated FieldForm next fields after)
      (hclose : Takes (.symbol .bracketClose) after rest) : FieldsForm ls (mode, .list fields) rest
  | part {ls mid rest mode field} (hmode : Takes (.symbol (WriteMode.symbol mode)) ls mid)
      (hhead : headOf mid ≠ .symbol .bracketOpen) (hfield : FieldForm mid field rest) :
      FieldsForm ls (mode, .part field) rest

/-- What may stand behind the part name `word`. -/
inductive PartForm : String → Form (PartBody SourceExpr Position)
  | member {ls mid rest word key value} (hkey : EmbedMember.ofName? word = some key)
      (hassign : Takes (.symbol .assign) ls mid) (hvalue : Whole mid value rest) :
      PartForm word ls (.member key value) rest
  | author {ls rest mode body}
      (hbody : SectionForm AuthorKey.ofWord? AuthorFlowForm ls (mode, body) rest) :
      PartForm "author" ls (.author mode body) rest
  | footer {ls rest mode body}
      (hbody : SectionForm FooterKey.ofWord? FooterFlowForm ls (mode, body) rest) :
      PartForm "footer" ls (.footer mode body) rest
  | fields {ls rest word mode body} (hword : word = "field" ∨ word = "fields")
      (hbody : FieldsForm ls (mode, body) rest) : PartForm word ls (.fields mode body) rest

/-- A part of an embed with its semicolon. -/
inductive EmbedPartForm : Form (EmbedPart SourceExpr Position)
  | mk {ls mid next rest word body} (hword : Takes (.ident word) ls mid)
      (hbody : PartForm word mid body next) (hsemicolon : Takes (.symbol .semicolon) next rest) :
      EmbedPartForm ls ⟨placeOf ls, body⟩ rest

end MessageTemplate
