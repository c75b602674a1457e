import MessageTemplate.Proofs.Grammar.Brackets
import MessageTemplate.Proofs.Grammar.RoundTrip

/-!
# The titles of fields

A field in order starts with its title, which is an expression. Behind `=` and
`+=` a bracket always opens a list of fields, though, so a title that starts
with one cannot stand there, and a title that starts with a parenthesis can.
-/

namespace MessageTemplate

variable {P : Type}

/-- A statement that writes one field in order, with a title and a text that are written by the two
rows. -/
def fieldRow (word : String) (mode : WriteMode) (first second : List Token) (inline : Bool) :
    List Token :=
  Keyword.embed.token :: .symbol .dot :: .ident word :: .symbol mode.symbol ::
    (first ++ .symbol .comma :: (second ++ (inlineRow inline ++ [.symbol .semicolon])))

/-- The statement itself. -/
def fieldItem (mode : WriteMode) (title text : Expr Literal P) (inline : Bool) :
    Item (Expr Literal P) P :=
  .stmt (.embed title.place
    [⟨title.place, .fields mode (.part (.flow title.place title text inline))⟩])

section

variable {title text : Expr Literal P} {first second : List Token} {word : String}

theorem templateWritten_fieldRow (hfirst : title.Written Level.whole first)
    (hsecond : text.Written Level.whole second) (hword : word = "field" ∨ word = "fields")
    (hhead : first.head? ≠ some (.symbol .bracketOpen)) (mode : WriteMode) (inline : Bool) :
    TemplateWritten [fieldItem mode title text inline]
      (fieldRow word mode first second inline) := by
  have hflow : FieldFlowWritten title text inline _ := ⟨hfirst, hsecond⟩
  have hstart : (first ++ .symbol .comma :: (second ++ inlineRow inline)).head? ≠
      some (.symbol .bracketOpen) := by
    cases first with
    | nil => simp
    | cons token first => simpa using hhead
  have hpart : EmbedPart.Written
      ⟨title.place, .fields mode (.part (.flow title.place title text inline))⟩ _ :=
    ⟨.fields hword (.part (.flow hflow) hstart)⟩
  have hrow := TemplateWritten.mk (.cons (.stmt (.embed title.place (.single hpart))) .nil)
  simpa [fieldRow, fieldItem] using hrow

theorem wellFormed_fieldItem (htitle : title.WellFormed) (htext : text.WellFormed)
    (mode : WriteMode) (inline : Bool) : WellFormedTemplate [fieldItem mode title text inline] := by
  simp_all [fieldItem, WellFormedTemplate, Item.WellFormed, Stmt.WellFormed, Stmt.nodes,
    Stmt.Fits, PartBody.Fits, Stmt.exprs, EmbedPart.exprs, PartBody.exprs, FieldsBody.exprs,
    FieldSpec.exprs]

end

/-! ## A bracket in front -/

theorem Takes.unique {token other : Token} {ls mid rest : List Lexeme} (h : Takes token ls mid)
    (hother : Takes other ls rest) : token = other ∧ mid = rest := by
  obtain ⟨place, rfl⟩ := h
  obtain ⟨_, hcons⟩ := hother
  cases hcons
  exact ⟨rfl, rfl⟩

variable {ls mid rest : List Lexeme}

theorem Sentence.partsForm {s : SourceStmt} (h : Sentence ls s rest)
    (hembed : Takes Keyword.embed.token ls mid) : ∃ parts, PartsForm mid parts rest := by
  have hhead := hembed.headOf_eq
  cases h with
  | embed hword hparts =>
    obtain ⟨-, rfl⟩ := hembed.unique hword
    exact ⟨_, hparts⟩
  | empty hclose =>
    rw [hclose.headOf_eq] at hhead
    contradiction
  | simple hsimple _ =>
    cases hsimple with
    | assign hname hfree _ _ =>
      rw [hname.headOf_eq] at hhead
      obtain rfl := Token.ident.inj hhead
      rw [Keyword.ofWord?_word] at hfree
      contradiction
    | expr hvalue => exact absurd hhead (hvalue.headOf_ne rfl)
  | block _ hblock =>
    obtain ⟨hopen, -, -⟩ := hblock
    rw [hopen.headOf_eq] at hhead
    contradiction
  | function hword _ _ _ _ _ | result hword _ | branch hword _ _ | branchElse hword _ _ _ _ _
  | forLoop hword _ _ _ _ _ _ _ _ | foreach hword _ _ _ _ _ _ | whileLoop hword _ _
  | doWhile hword _ _ _ _ | text hword _ | attachment hword _ =>
    rw [hword.headOf_eq] at hhead
    exact absurd hhead (by decide)

/-- Behind `=` and `+=`, what starts with a bracket is a list of fields. -/
theorem TemplateForm.exists_fields {items : SourceTemplate}
    {toDot toWord toMode toBody : List Lexeme} {word : String} {mode : WriteMode}
    (h : TemplateForm ls items) (hembed : Takes Keyword.embed.token ls toDot)
    (hdot : Takes (.symbol .dot) toDot toWord)
    (hword : Takes (.ident word) toWord toMode) (hfield : word = "field" ∨ word = "fields")
    (hmode : Takes (.symbol mode.symbol) toMode toBody)
    (hopen : Takes (.symbol .bracketOpen) toBody mid) :
    ∃ fields next rest, Separated FieldForm mid fields next ∧
      Takes (.symbol .bracketClose) next rest ∧ headOf rest = .symbol .semicolon := by
  obtain ⟨hitems, hend⟩ := h
  cases hitems with
  | done =>
    rw [hembed.headOf_eq] at hend
    contradiction
  | more hitem _ =>
    cases hitem with
    | constant hconstant _ _ _ => exact absurd (hembed.unique hconstant).1 (by decide)
    | stmt hstmt =>
      obtain ⟨parts, hparts⟩ := hstmt.partsForm hembed
      cases hparts with
      | braces hbrace _ _ => exact absurd (hdot.unique hbrace).1 (by decide)
      | single hsingle hpart =>
        obtain ⟨-, rfl⟩ := hdot.unique hsingle
        obtain ⟨hname, hbody, hsemicolon⟩ := hpart
        obtain ⟨hsame, rfl⟩ := hword.unique hname
        obtain rfl := Token.ident.inj hsame
        cases hbody with
        | member hkey _ _ => rcases hfield with rfl | rfl <;> contradiction
        | author _ => rcases hfield with hfield | hfield <;> contradiction
        | footer _ => rcases hfield with hfield | hfield <;> contradiction
        | fields _ hbody =>
          cases hbody with
          | property hother _ _ _ =>
            exact absurd (hmode.unique hother).1 (by cases mode <;> decide)
          | list hother hbracket hfields hclose =>
            obtain ⟨-, rfl⟩ := hmode.unique hother
            obtain ⟨-, rfl⟩ := hopen.unique hbracket
            exact ⟨_, _, _, hfields, hclose, hsemicolon.headOf_eq⟩
          | part hother hhead _ =>
            obtain ⟨-, rfl⟩ := hmode.unique hother
            exact absurd hopen.headOf_eq hhead

/-- A list of fields is followed by a semicolon, and a title by a comma. -/
theorem not_templateForm_of_bracket {title : Expr Literal P} {first behind : List Token}
    {word : String} {mode : WriteMode} {items : SourceTemplate} (htitle : title.WellFormed)
    (hfirst : title.Written Level.whole first)
    (hhead : first.head? = some (.symbol .bracketOpen)) (hfield : word = "field" ∨ word = "fields")
    (hrow : Row (Keyword.embed.token :: .symbol .dot :: .ident word :: .symbol mode.symbol ::
      (first ++ .symbol .comma :: behind)) ls rest) : ¬ TemplateForm ls items := by
  intro h
  obtain ⟨toDot, hembed, hrow⟩ := hrow.of_cons
  obtain ⟨toWord, hdot, hrow⟩ := hrow.of_cons
  obtain ⟨toMode, hword, hrow⟩ := hrow.of_cons
  obtain ⟨toBody, hmode, hrow⟩ := hrow.of_cons
  obtain ⟨toComma, hrowFirst, hrow⟩ := hrow.of_append
  obtain ⟨toText, hcomma, -⟩ := hrow.of_cons
  obtain ⟨value, hvalue, -⟩ := hfirst.derives htitle toBody toComma hrowFirst
  have hbracket : headOf toBody = .symbol .bracketOpen := by
    rw [hrowFirst.head?_eq (by rintro rfl; contradiction)] at hhead
    exact Option.some.inj hhead
  obtain ⟨inside, hopen, hbehind⟩ := Phrase.behind_list hvalue hbracket
  obtain ⟨fields, next, rest, hfields, hclose, hsemicolon⟩ :=
    h.exists_fields hembed hdot hword hfield hmode hopen
  have hfound : behindBracket 0 inside = rest :=
    (hfields.balanced (fun _ _ _ => FieldForm.balanced) 0).trans hclose.behindBracket_close
  rw [hfound] at hbehind
  rcases hbehind with rfl | ⟨op, hop⟩
  · rw [hcomma.headOf_eq] at hsemicolon
    contradiction
  · rw [hop] at hsemicolon
    cases op <;> contradiction

/-- A statement that writes one field in order is read as it is meant, with any title whose text
does not start with a bracket. If the text starts with one, the statement is refused. -/
theorem field_title_read_or_refused {title text : Expr Literal P} (htitle : title.WellFormed)
    (htext : text.WellFormed) {first second : List Token}
    (hfirst : title.Written Level.whole first) (hsecond : text.Written Level.whole second)
    {word : String} (hword : word = "field" ∨ word = "fields") (mode : WriteMode) (inline : Bool)
    {source : String}
    (hsource : tokens source = fieldRow word mode first second inline ++ [.endOfInput]) :
    (first.head? ≠ some (.symbol .bracketOpen) →
      (parseTemplate source).map (List.map Item.erase) =
        .ok [(fieldItem mode title text inline).erase]) ∧
      (first.head? = some (.symbol .bracketOpen) → ∃ e, parseTemplate source = .error e) := by
  constructor
  · intro hhead
    obtain ⟨out, hparse, herase⟩ :=
      (templateWritten_fieldRow hfirst hsecond hword hhead mode inline).exists_parse
        (wellFormed_fieldItem htitle htext mode inline) hsource
    rw [hparse]
    exact congrArg Except.ok herase
  · intro hhead
    obtain ⟨front, back, hlexemes, hfront, -⟩ := List.map_eq_append_iff.1 hsource
    have hrow : Row (fieldRow word mode first second inline) (lexemes source) back := by
      rw [hlexemes, ← hfront]
      exact .of_lexemes front back
    cases hparse : parseTemplate source with
    | error e => exact ⟨e, rfl⟩
    | ok items =>
      exact absurd (parseTemplate_eq_ok_iff.1 hparse)
        (not_templateForm_of_bracket htitle hfirst hhead hword hrow)

/-- A list as a title. -/
def listTitle : Expr Literal Unit := .list () [.literal () (.number "1")]

def listRow : List Token := [.symbol .bracketOpen, .number "1", .symbol .bracketClose]

def quotedText : Expr Literal Unit := .literal () (.string "\"v\"")

theorem wellFormed_listTitle : listTitle.WellFormed := by
  have hone : (Token.number "1").IsStable :=
    (scans_iff.2 (rfl : scanToken '1' [] = some ⟨.number "1", ['1'], []⟩)).isStable rfl
  simp_all [listTitle, Expr.WellFormed, Expr.nodes, Expr.nodesOfAll, Expr.Fits, Literal.token]

theorem wellFormed_quotedText : quotedText.WellFormed := by
  have hscan : scanToken '"' ['v', '"'] = some ⟨.string "\"v\"", ['"', 'v', '"'], []⟩ := rfl
  have hquoted : (Token.string "\"v\"").IsStable := (scans_iff.2 hscan).isStable rfl
  simp_all [quotedText, Expr.WellFormed, Expr.nodes, Expr.Fits, Literal.token]

theorem written_listRow : listTitle.Written Level.whole listRow :=
  .list () (fun _ _ h => h) (.cons (.literal () (.number "1")) .nil)

theorem written_quotedText : quotedText.Written Level.whole [.string "\"v\""] :=
  .literal () (.string "\"v\"")

theorem tokens_listTitle : tokens "embed.field = [1], \"v\";" =
    fieldRow "field" .replace listRow [.string "\"v\""] false ++ [.endOfInput] := by
  decide +kernel

/-- In parentheses the list is read as the title, and without them it is refused. -/
theorem field_title_read_or_refused_listTitle :
    listTitle.WellFormed ∧ quotedText.WellFormed ∧ listTitle.Written Level.whole listRow ∧
      quotedText.Written Level.whole [.string "\"v\""] ∧
      (parseTemplate "embed.field = ([1]), \"v\";").map (List.map Item.erase) =
        .ok [(fieldItem .replace listTitle quotedText false).erase] ∧
      ∃ e, parseTemplate "embed.field = [1], \"v\";" = .error e := by
  have hgrouped : tokens "embed.field = ([1]), \"v\";" =
      fieldRow "field" .replace (.symbol .parenOpen :: (listRow ++ [.symbol .parenClose]))
        [.string "\"v\""] false ++ [.endOfInput] := by
    decide +kernel
  have hread := field_title_read_or_refused wellFormed_listTitle wellFormed_quotedText
    (.paren written_listRow) written_quotedText (.inl rfl) .replace false hgrouped
  have hrefused := field_title_read_or_refused wellFormed_listTitle wellFormed_quotedText
    written_listRow written_quotedText (.inl rfl) .replace false tokens_listTitle
  exact ⟨wellFormed_listTitle, wellFormed_quotedText, written_listRow, written_quotedText,
    hread.1 (by decide), hrefused.2 rfl⟩

/-- Not every expression can be written as a title. -/
theorem list_title_refused :
    ¬ ∀ (title text : Expr Literal Unit) (first second : List Token) (mode : WriteMode)
      (inline : Bool) (source : String), title.WellFormed → text.WellFormed →
      title.Written Level.whole first → text.Written Level.whole second →
      tokens source = fieldRow "field" mode first second inline ++ [.endOfInput] →
      (parseTemplate source).map (List.map Item.erase) =
        .ok [(fieldItem mode title text inline).erase] := by
  intro h
  have hread := h listTitle quotedText listRow _ .replace false "embed.field = [1], \"v\";"
    wellFormed_listTitle wellFormed_quotedText written_listRow written_quotedText tokens_listTitle
  have hrefused : (parseTemplate "embed.field = [1], \"v\";").toOption.isNone = true := by
    decide +kernel
  cases hparse : parseTemplate "embed.field = [1], \"v\";" with
  | error e =>
    rw [hparse] at hread
    contradiction
  | ok items =>
    rw [hparse] at hrefused
    contradiction

end MessageTemplate
