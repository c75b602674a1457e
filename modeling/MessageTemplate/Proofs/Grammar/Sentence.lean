import MessageTemplate.Proofs.Grammar.PartForm

/-!
# The forms of statements and templates

An `else` belongs to the nearest conditional, so a branch in front of one is not
open. That apart, the forms are those of the grammar.
-/

namespace MessageTemplate

section

variable {α : Type}

/-- An item that may be left out. -/
inductive Optional (item : Form α) : Form (Option α)
  | none {ls} : Optional item ls none ls
  | some {ls rest value} (hitem : item ls value rest) : Optional item ls (some value) rest

end

/-- An assignment or an expression, without a semicolon. -/
inductive SimpleForm : Form SourceStmt
  | assign {ls mid next rest name value} (hname : Takes (.ident name) ls mid)
      (hfree : Keyword.ofWord? name = none) (hassign : Takes (.symbol .assign) mid next)
      (hvalue : Whole next value rest) : SimpleForm ls (.assign (placeOf ls) name value) rest
  | expr {ls rest value} (hvalue : Whole ls value rest) :
      SimpleForm ls (.expr (placeOf ls) value) rest

/-- A name that is not reserved. -/
def NameForm : Form String :=
  fun ls name rest => Takes (.ident name) ls rest ∧ Keyword.ofWord? name = none

/-- An expression and a semicolon. -/
inductive ClosedForm : Form SourceExpr
  | mk {ls mid rest value} (hvalue : Whole ls value mid)
      (hclose : Takes (.symbol .semicolon) mid rest) :
      ClosedForm ls value rest

/-- An expression in parentheses. -/
inductive ConditionForm : Form SourceExpr
  | mk {ls mid next rest value} (hopen : Takes (.symbol .parenOpen) ls mid)
      (hvalue : Whole mid value next) (hclose : Takes (.symbol .parenClose) next rest) :
      ConditionForm ls value rest

/-- A block of statements. -/
inductive BlockForm (item : Form SourceStmt) : Form SourceStmt
  | mk {ls mid next rest body} (hopen : Takes (.symbol .braceOpen) ls mid)
      (hbody : Repeated item mid body next) (hclose : Takes (.symbol .braceClose) next rest) :
      BlockForm item ls (.block (placeOf ls) body) rest

/-- The parts of an embed statement. -/
inductive PartsForm : Form (List (EmbedPart SourceExpr Position))
  | single {ls mid rest part} (hdot : Takes (.symbol .dot) ls mid)
      (hpart : EmbedPartForm mid part rest) :
      PartsForm ls [part] rest
  | braces {ls mid next rest parts} (hopen : Takes (.symbol .braceOpen) ls mid)
      (hparts : Repeated EmbedPartForm mid parts next)
      (hclose : Takes (.symbol .braceClose) next rest) : PartsForm ls parts rest

/-- The statements. As in phrases, the statements of a block are described by any relation that
implies being a statement. -/
inductive Sentence : Form SourceStmt
  | empty {ls rest} (hclose : Takes (.symbol .semicolon) ls rest) :
      Sentence ls (.empty (placeOf ls)) rest
  | simple {ls mid rest s} (hsimple : SimpleForm ls s mid)
      (hclose : Takes (.symbol .semicolon) mid rest) : Sentence ls s rest
  | block {ls rest s} {item : Form SourceStmt}
      (hitem : ∀ ls value rest, item ls value rest → Sentence ls value rest)
      (hblock : BlockForm item ls s rest) : Sentence ls s rest
  | function {ls mid next after behind rest name parameters body} {item : Form SourceStmt}
      (hword : Takes Keyword.function.token ls mid) (hname : NameForm mid name next)
      (hopen : Takes (.symbol .parenOpen) next after)
      (hparameters : Listed NameForm .parenClose after parameters behind)
      (hitem : ∀ ls value rest, item ls value rest → Sentence ls value rest)
      (hbody : BlockForm item behind body rest) :
      Sentence ls (.function (placeOf ls) name (placeOf mid) parameters body) rest
  | result {ls mid rest value} (hword : Takes Keyword.result.token ls mid)
      (hvalue : ClosedForm mid value rest) : Sentence ls (.result (placeOf ls) value) rest
  | branch {ls mid next rest test yes} (hword : Takes Keyword.branch.token ls mid)
      (htest : ConditionForm mid test next) (hyes : Sentence next yes rest) :
      Sentence ls (.branch (placeOf ls) test yes none) rest
  | branchElse {ls mid next after behind rest test yes no}
      (hword : Takes Keyword.branch.token ls mid) (htest : ConditionForm mid test next)
      (hyes : Sentence next yes after) (hclosed : yes.isOpen = false)
      (helse : Takes Keyword.otherwise.token after behind) (hno : Sentence behind no rest) :
      Sentence ls (.branch (placeOf ls) test yes (some no)) rest
  | forLoop {ls mid next afterInit toCheck afterCheck toStep afterStep toBody rest}
      {init check step body}
      (hword : Takes Keyword.forLoop.token ls mid) (hopen : Takes (.symbol .parenOpen) mid next)
      (hinit : Optional SimpleForm next init afterInit)
      (hinitClose : Takes (.symbol .semicolon) afterInit toCheck)
      (hcheck : Optional Whole toCheck check afterCheck)
      (hcheckClose : Takes (.symbol .semicolon) afterCheck toStep)
      (hstep : Optional SimpleForm toStep step afterStep)
      (hstepClose : Takes (.symbol .parenClose) afterStep toBody)
      (hbody : Sentence toBody body rest) :
      Sentence ls (.forLoop (placeOf ls) init check step body) rest
  | foreach {ls mid next after toItems afterItems toBody rest name iterable body}
      (hword : Takes Keyword.foreach.token ls mid) (hopen : Takes (.symbol .parenOpen) mid next)
      (hname : NameForm next name after) (hamong : Takes Keyword.among.token after toItems)
      (hiterable : Whole toItems iterable afterItems)
      (hclose : Takes (.symbol .parenClose) afterItems toBody) (hbody : Sentence toBody body rest) :
      Sentence ls (.foreach (placeOf ls) name iterable body) rest
  | whileLoop {ls mid next rest test body} (hword : Takes Keyword.whileLoop.token ls mid)
      (htest : ConditionForm mid test next) (hbody : Sentence next body rest) :
      Sentence ls (.whileLoop (placeOf ls) test body) rest
  | doWhile {ls mid next after behind rest test body} (hword : Takes Keyword.doLoop.token ls mid)
      (hbody : Sentence mid body next) (hwhile : Takes Keyword.whileLoop.token next after)
      (htest : ConditionForm after test behind) (hclose : Takes (.symbol .semicolon) behind rest) :
      Sentence ls (.doWhile (placeOf ls) body test) rest
  | text {ls mid rest value} (hword : Takes Keyword.text.token ls mid)
      (hvalue : ClosedForm mid value rest) : Sentence ls (.text (placeOf ls) value) rest
  | attachment {ls mid rest value} (hword : Takes Keyword.attachment.token ls mid)
      (hvalue : ClosedForm mid value rest) : Sentence ls (.attachment (placeOf ls) value) rest
  | embed {ls mid rest parts} (hword : Takes Keyword.embed.token ls mid)
      (hparts : PartsForm mid parts rest) : Sentence ls (.embed (placeOf ls) parts) rest

inductive ItemForm : Form SourceItem
  | constant {ls mid next after rest name value} (hword : Takes Keyword.constant.token ls mid)
      (hname : NameForm mid name next) (hassign : Takes (.symbol .assign) next after)
      (hvalue : ClosedForm after value rest) :
      ItemForm ls (.constant (placeOf ls) name value) rest
  | stmt {ls rest s} (hstmt : Sentence ls s rest) : ItemForm ls (.stmt s) rest

/-- The lists of tokens that are templates: items up to the end of the input. -/
inductive TemplateForm : List Lexeme → SourceTemplate → Prop
  | mk {ls rest items} (hitems : Repeated ItemForm ls items rest)
      (hend : headOf rest = .endOfInput) :
      TemplateForm ls items

end MessageTemplate
